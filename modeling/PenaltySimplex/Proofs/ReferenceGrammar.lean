import PenaltySimplex.Proofs.LineParsing

/-!
# PenaltySimplex.Proofs.ReferenceGrammar

The grammar of reference files: a line with the objective value and a line with the values.
`parseReference_eq_ok_iff` says that the parser accepts exactly those files.
-/

namespace PenaltySimplex

namespace Format

/-- A number on a line of its own, a line of numbers, and nothing else. -/
inductive IsReference : Lines → Reference Float → Prop where
  | mk {t : Token} {line : List Token} {j k : Nat} {v : Float} {vs : List Float}
      (objective : t.Means v) (values : Values line vs) (nonempty : vs ≠ []) :
      IsReference [([t], j), (line, k)] ⟨v, vs⟩

theorem Values.ne_nil {line : List Token} {vs : List Float} (h : Values line vs) (hne : vs ≠ []) :
    line ≠ [] := by
  cases h with
  | nil => exact absurd rfl hne
  | cons _ _ => exact List.cons_ne_nil _ _

namespace Parse

def objectiveLine : Parse Float := do
  let v ← number .objectiveValue
  endLine
  return v

theorem yieldsLine_objectiveLine :
    YieldsLine objectiveLine fun line _ v => ∃ t, line = [t] ∧ t.Means v := by
  intro ts _
  refine Yields.congr ((yields_number .objectiveValue ts).bind fun v _ _ =>
    (yields_endLine _).bind fun _ _ _ => yields_pure v) fun v rest => ?_
  constructor
  · rintro ⟨v, mid, ⟨t, ht, hus⟩, _, _, hend, rfl, rfl⟩
    exact ⟨[t], mid, hus, hend, t, rfl, ht⟩
  · rintro ⟨_, mid, hus, hend, t, rfl, ht⟩
    exact ⟨v, mid, ⟨t, ht, hus⟩, (), rest, hend, rfl, rfl⟩

def valuesLine : Parse (List Float) := do
  let vs ← numbers
  if vs.isEmpty then refuse .solutionVector
  endLine
  return vs

theorem yieldsLine_valuesLine :
    YieldsLine valuesLine fun line _ vs => Values line vs ∧ vs ≠ [] := by
  intro ts _
  refine Yields.congr ((yields_numbers ts).bind fun vs _ _ =>
    yields_unless (c := vs.isEmpty = true) nofun
      ((yields_endLine _).bind fun _ _ _ => yields_pure vs)) fun vs rest => ?_
  simp only [List.isEmpty_iff]
  constructor
  · rintro ⟨vs, mid, ⟨line, hvalues, hus, _⟩, hne, _, _, hend, rfl, rfl⟩
    exact ⟨line, mid, hus, hend, hvalues, hne⟩
  · rintro ⟨line, mid, hus, hend, hvalues, hne⟩
    rw [hus]
    exact ⟨vs, mid, numbers_of_lineEnd hvalues hend, hne, (), rest, hend, rfl, rfl⟩

theorem reference_eq :
    reference = (skipBlankLines >>= fun _ => objectiveLine) >>= fun v =>
      (skipBlankLines >>= fun _ => valuesLine) >>= fun vs =>
        endOfFile >>= fun _ => pure { objective := v, values := vs } := by
  simp only [reference, objectiveLine, valuesLine, bind_assoc, pure_bind]
  congr 1; funext _; congr 1; funext v; congr 1; funext _; congr 1; funext _; congr 1; funext vs
  split
  · simp only [bind_assoc, pure_bind]
  · simp only [bind_assoc, pure_bind]

theorem reads_reference :
    Reads reference fun lines r others => IsReference lines r ∧ others = [] := by
  rw [reference_eq]
  refine ((yieldsLine_objectiveLine.reads ?_).bind fun v =>
    (yieldsLine_valuesLine.reads ?_).bind fun vs =>
    reads_endOfFile.bind fun _ => reads_pure _).congr fun lines r others => ?_
  · rintro _ _ v ⟨t, rfl, ht⟩
    exact ⟨List.cons_ne_nil _ _, List.forall_mem_singleton.2 ht.endsLine⟩
  · rintro line _ vs ⟨hvalues, hne⟩
    exact ⟨hvalues.ne_nil hne, hvalues.endsLine⟩
  · constructor
    · rintro ⟨v, _, ⟨_, j, rfl, t, rfl, ht⟩, vs, _, ⟨line, k, rfl, hvalues, hne⟩, _, _, ⟨rfl, rfl⟩,
        rfl, rfl⟩
      exact ⟨.mk ht hvalues hne, rfl⟩
    · rintro ⟨⟨ht, hvalues, hne⟩, rfl⟩
      exact ⟨_, _, ⟨_, _, rfl, _, rfl, ht⟩, _, _, ⟨_, _, rfl, hvalues, hne⟩, (), [], ⟨rfl, rfl⟩,
        rfl, rfl⟩

end Parse

/-- A text is accepted exactly if it is a line with the objective value and a line of values, and
then the contents are what the two stand for. -/
theorem parseReference_eq_ok_iff (source : String) (r : Reference Float) :
    parseReference source = .ok r ↔ IsReference (contentLines (tokenize source)) r := by
  rw [parseReference, ofResult_eq_ok_iff]
  constructor
  · rintro ⟨left, hok⟩
    obtain ⟨_, ⟨hreading, _⟩, _⟩ := Parse.reads_reference.sound (holds_tokenize source) hok
    exact hreading
  · intro hreading
    obtain ⟨left, hok, _⟩ := Parse.reads_reference.complete (holds_tokenize source) ⟨hreading, rfl⟩
    exact ⟨left, hok⟩

end Format

end PenaltySimplex
