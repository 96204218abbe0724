import Mathlib.Logic.Function.Iterate
import PenaltySimplex.Simplex.Run

/-!
# PenaltySimplex.Proofs.Run

The pivot loop as the iteration of one step, whatever the arithmetic.

* `next eps d`: the dictionary after the exchange that the rule chooses, if it chooses one.
* `Outcome.EndsAfter`: an outcome is the iterate after so many exchanges, each of them chosen by
  the rule, and its reason to stop is what the rule says of the final dictionary.
* `endsAfter_run`: every run is of this kind. The cap is all that sets two runs from one
  dictionary apart.
* `final_run`: the final dictionary is the iterate after as many steps as the cap allows.
* `final_induction`: what a chosen exchange keeps holds at the end.
-/

namespace PenaltySimplex

variable {α : Type} [Scalar α]

namespace Dictionary

def Moves (eps : α) (d : Dictionary α) : Prop :=
  ∃ row column, d.choose eps = .exchange row column

/-- One step of the loop; a dictionary that does not move stays as it is. -/
def next (eps : α) (d : Dictionary α) : Dictionary α :=
  match d.choose eps with
  | .exchange row column => d.exchange row column
  | _ => d

theorem next_of_choose {eps : α} {d : Dictionary α} {row column : Nat}
    (h : d.choose eps = .exchange row column) : d.next eps = d.exchange row column := by
  rw [next, h]

theorem next_of_not_moves {eps : α} {d : Dictionary α} (h : ¬ d.Moves eps) : d.next eps = d := by
  unfold next
  split
  · exact absurd ⟨_, _, ‹_›⟩ h
  · rfl

end Dictionary

theorem Outcome.stop_of_optimal {α : Type} {o : Outcome α} (h : o.status = .optimal) :
    o.stop = .optimal := by
  unfold status at h
  cases hstop : o.stop with
  | optimal => rfl
  | unbounded column => rw [hstop] at h; cases h
  | iterationLimit => rw [hstop] at h; cases h

theorem Outcome.stop_of_unbounded {α : Type} {o : Outcome α} (h : o.status = .unbounded) :
    ∃ column, o.stop = .unbounded column := by
  unfold status at h
  cases hstop : o.stop with
  | optimal => rw [hstop] at h; cases h
  | unbounded column => exact ⟨column, rfl⟩
  | iterationLimit => rw [hstop] at h; cases h

/-- A reason to stop agrees with the choice of the rule. -/
def Stop.Explains (eps : α) (d : Dictionary α) : Stop → Prop
  | .optimal => d.choose eps = .optimal
  | .unbounded column => d.choose eps = .unbounded column
  | .iterationLimit => d.Moves eps

/-- The outcome is what `k` exchanges from `d` lead to, and more are not made. -/
structure Outcome.EndsAfter (eps : α) (d : Dictionary α) (cap k : Nat) (o : Outcome α) :
    Prop where
  le_cap : k ≤ cap
  final_eq : o.final = (Dictionary.next eps)^[k] d
  moves : ∀ i < k, ((Dictionary.next eps)^[i] d).Moves eps
  explains : o.stop.Explains eps o.final
  limit : o.stop = .iterationLimit → k = cap

theorem Outcome.EndsAfter.stay {eps : α} {d : Dictionary α} {cap : Nat} {o : Outcome α}
    (hfinal : o.final = d) (hexplains : o.stop.Explains eps d)
    (hlimit : o.stop = .iterationLimit → cap = 0) : o.EndsAfter eps d cap 0 where
  le_cap := Nat.zero_le cap
  final_eq := hfinal
  moves i hi := absurd hi (Nat.not_lt_zero i)
  explains := hfinal ▸ hexplains
  limit h := (hlimit h).symm

/-- A run that can make every exchange that its cap allows makes all of them. -/
theorem Outcome.EndsAfter.eq_cap {eps : α} {d : Dictionary α} {cap k : Nat} {o : Outcome α}
    (h : o.EndsAfter eps d cap k)
    (hmoves : ∀ i < cap, ((Dictionary.next eps)^[i] d).Moves eps) : k = cap := by
  by_contra hne
  obtain ⟨row, column, hchoose⟩ := hmoves k (Nat.lt_of_le_of_ne h.le_cap hne)
  rw [← h.final_eq] at hchoose
  have hexplains := h.explains
  cases hstop : o.stop with
  | optimal =>
    rw [hstop] at hexplains
    exact nomatch hchoose.symm.trans hexplains
  | unbounded c =>
    rw [hstop] at hexplains
    exact nomatch hchoose.symm.trans hexplains
  | iterationLimit => exact hne (h.limit hstop)

namespace Dictionary

section Unfold

variable {eps : α} {d : Dictionary α}

theorem run_optimal (h : d.choose eps = .optimal) (cap : Nat) (history : List Exchange) :
    d.run eps cap history = ⟨.optimal, d, history⟩ := by
  cases cap <;> rw [run, h]

theorem run_unbounded {column : Nat} (h : d.choose eps = .unbounded column) (cap : Nat)
    (history : List Exchange) : d.run eps cap history = ⟨.unbounded column, d, history⟩ := by
  cases cap <;> rw [run, h]

theorem run_zero {row column : Nat} (h : d.choose eps = .exchange row column)
    (history : List Exchange) : d.run eps 0 history = ⟨.iterationLimit, d, history⟩ := by
  rw [run, h]

theorem run_succ {row column : Nat} (h : d.choose eps = .exchange row column) (cap : Nat)
    (history : List Exchange) :
    d.run eps (cap + 1) history =
      (d.next eps).run eps cap (⟨column, d.basis.getD (row - 1) 0, row⟩ :: history) := by
  rw [run, h, next_of_choose h]

end Unfold

theorem endsAfter_of_not_moves {eps : α} {d : Dictionary α} (h : ¬ d.Moves eps) (cap : Nat)
    (history : List Exchange) :
    (d.run eps cap history).EndsAfter eps d cap 0 ∧
      (d.run eps cap history).iterations = history.length := by
  cases hchoose : d.choose eps with
  | optimal =>
    rw [run_optimal hchoose]
    exact ⟨.stay rfl hchoose (fun h => nomatch h), rfl⟩
  | unbounded column =>
    rw [run_unbounded hchoose]
    exact ⟨.stay rfl hchoose (fun h => nomatch h), rfl⟩
  | exchange row column => exact absurd ⟨row, column, hchoose⟩ h

theorem endsAfter_run (eps : α) (cap : Nat) (d : Dictionary α) (history : List Exchange) :
    ∃ k, (d.run eps cap history).EndsAfter eps d cap k ∧
      (d.run eps cap history).iterations = history.length + k := by
  induction cap generalizing d history with
  | zero =>
    by_cases hmoves : d.Moves eps
    · obtain ⟨row, column, hchoose⟩ := hmoves
      rw [run_zero hchoose]
      exact ⟨0, .stay rfl ⟨row, column, hchoose⟩ (fun _ => rfl), rfl⟩
    · exact ⟨0, endsAfter_of_not_moves hmoves 0 history⟩
  | succ cap ih =>
    by_cases hmoves : d.Moves eps
    · obtain ⟨row, column, hchoose⟩ := hmoves
      rw [run_succ hchoose]
      obtain ⟨k, h, hk⟩ := ih (d.next eps) (⟨column, d.basis.getD (row - 1) 0, row⟩ :: history)
      refine ⟨k + 1, ⟨Nat.succ_le_succ h.le_cap, h.final_eq, ?_, h.explains, ?_⟩, ?_⟩
      · intro i hi
        cases i with
        | zero => exact ⟨row, column, hchoose⟩
        | succ i => exact h.moves i (Nat.lt_of_succ_lt_succ hi)
      · intro hs
        rw [h.limit hs]
      · rw [hk, List.length_cons]
        omega
    · exact ⟨0, endsAfter_of_not_moves hmoves (cap + 1) history⟩

/-- A dictionary that does not move stays as it is, so the final one is the iterate of the cap. -/
theorem final_run (eps : α) (cap : Nat) (d : Dictionary α) (history : List Exchange) :
    (d.run eps cap history).final = (next eps)^[cap] d := by
  induction cap generalizing d history with
  | zero =>
    obtain ⟨k, h, _⟩ := endsAfter_run eps 0 d history
    rw [h.final_eq, Nat.le_zero.1 h.le_cap]
  | succ cap ih =>
    by_cases hmoves : d.Moves eps
    · obtain ⟨row, column, hchoose⟩ := hmoves
      rw [run_succ hchoose, Function.iterate_succ_apply]
      exact ih _ _
    · have hfinal := (endsAfter_of_not_moves hmoves (cap + 1) history).1.final_eq
      exact hfinal.trans (Function.iterate_fixed (next_of_not_moves hmoves) _).symm

theorem history_run_of_stay {eps : α} {cap : Nat} {d : Dictionary α}
    (h : d.Moves eps → cap = 0) (history : List Exchange) :
    (d.run eps cap history).history = history := by
  cases hchoose : d.choose eps with
  | optimal => rw [run_optimal hchoose]
  | unbounded column => rw [run_unbounded hchoose]
  | exchange row column =>
    obtain rfl := h ⟨row, column, hchoose⟩
    rw [run_zero hchoose]

/-- A run adds to the history that it is given. -/
theorem suffix_history_run (eps : α) (cap : Nat) (d : Dictionary α) (history : List Exchange) :
    history <:+ (d.run eps cap history).history := by
  induction cap generalizing d history with
  | zero => exact ⟨[], (history_run_of_stay (fun _ => rfl) history).symm⟩
  | succ cap ih =>
    by_cases hmoves : d.Moves eps
    · obtain ⟨row, column, hchoose⟩ := hmoves
      rw [run_succ hchoose]
      exact (List.suffix_cons _ _).trans (ih _ _)
    · exact ⟨[], (history_run_of_stay (fun h => absurd h hmoves) history).symm⟩

/-- The exchanges of a history, in order, are the ones that the rule chose. -/
theorem choose_of_history_run {eps : α} {cap k : Nat} {d : Dictionary α}
    {history : List Exchange} {e : Exchange}
    (h : (d.run eps cap history).history.reverse[history.length + k]? = some e) :
    ((next eps)^[k] d).choose eps = .exchange e.row e.entering := by
  have hstay (history : List Exchange) (k : Nat) :
      ¬ history.reverse[history.length + k]? = some e := by simp
  induction cap generalizing d history k with
  | zero =>
    rw [history_run_of_stay fun _ => rfl] at h
    exact absurd h (hstay history k)
  | succ cap ih =>
    by_cases hmoves : d.Moves eps
    · obtain ⟨row, column, hchoose⟩ := hmoves
      rw [run_succ hchoose] at h
      generalize hfirst : (⟨column, d.basis.getD (row - 1) 0, row⟩ : Exchange) = first at h
      cases k with
      | zero =>
        -- what follows is put before the exchange made from `d`
        obtain ⟨later, hlater⟩ := suffix_history_run eps cap (d.next eps) (first :: history)
        rw [← hlater] at h
        simp at h
        rw [← h, ← hfirst]
        exact hchoose
      | succ k =>
        have hlater : ((d.next eps).run eps cap (first :: history)).history.reverse[
            (first :: history).length + k]? = some e := by
          rwa [List.length_cons, Nat.add_assoc, Nat.add_comm 1 k]
        have hchosen := ih hlater
        exact hchosen
    · rw [history_run_of_stay fun h => absurd h hmoves] at h
      exact absurd h (hstay history k)

theorem iterate_induction {eps : α} {P : Dictionary α → Prop} {d : Dictionary α} (h₀ : P d)
    (hstep : ∀ e row column, P e → e.choose eps = .exchange row column →
      P (e.exchange row column)) (k : Nat) : P ((next eps)^[k] d) := by
  induction k with
  | zero => exact h₀
  | succ k ih =>
    rw [Function.iterate_succ_apply']
    cases hchoose : ((next eps)^[k] d).choose eps with
    | optimal => rw [next, hchoose]; exact ih
    | unbounded column => rw [next, hchoose]; exact ih
    | exchange row column =>
      rw [next_of_choose hchoose]
      exact hstep _ row column ih hchoose

end Dictionary

theorem Tableau.solve_eq_ok_iff {eps : α} {cap : Nat} {t : Tableau α} {o : Outcome α} :
    t.solve eps cap = .ok o ↔
      (0 < t.numRows ∧ 0 < t.numColumns ∧ t.numConstraints ≤ t.numVariables) ∧
        o = t.solveFrom eps cap := by
  unfold solve
  split
  · simp
    omega
  · split
    · simp
      omega
    · have hshape : 0 < t.numRows ∧ 0 < t.numColumns ∧ t.numConstraints ≤ t.numVariables := by
        omega
      simp [hshape, eq_comm]

theorem Tableau.endsAfter_solveFrom (eps : α) (cap : Nat) (t : Tableau α) :
    (t.solveFrom eps cap).EndsAfter eps (Dictionary.start t) cap
      (t.solveFrom eps cap).iterations := by
  obtain ⟨k, h, hk⟩ := Dictionary.endsAfter_run eps cap (Dictionary.start t) []
  rw [List.length_nil, Nat.zero_add] at hk
  rw [show (t.solveFrom eps cap).iterations = k from hk]
  exact h

theorem Tableau.final_solveFrom (eps : α) (cap : Nat) (t : Tableau α) :
    (t.solveFrom eps cap).final = (Dictionary.next eps)^[cap] (Dictionary.start t) :=
  Dictionary.final_run eps cap _ []

theorem Tableau.final_solveFrom_succ (eps : α) (cap : Nat) (t : Tableau α) :
    (t.solveFrom eps (cap + 1)).final = (t.solveFrom eps cap).final.next eps := by
  rw [final_solveFrom, final_solveFrom, Function.iterate_succ_apply']

/-- The exchange at place `k` of a run is the one chosen where a cap of `k` stops the run. -/
theorem Tableau.choose_of_history {eps : α} {cap k : Nat} {t : Tableau α} {e : Exchange}
    (h : (t.solveFrom eps cap).history.reverse[k]? = some e) :
    (t.solveFrom eps k).iterations = k ∧
      (t.solveFrom eps k).final.choose eps = .exchange e.row e.entering := by
  have hlt : k < (t.solveFrom eps cap).iterations := by
    have hk := (List.getElem?_eq_some_iff.1 h).1
    rwa [List.length_reverse] at hk
  have hends := endsAfter_solveFrom eps k t
  have hk := hends.eq_cap fun i hi => (endsAfter_solveFrom eps cap t).moves i (Nat.lt_trans hi hlt)
  refine ⟨hk, ?_⟩
  rw [hends.final_eq, hk]
  have hrun : ((Dictionary.start t).run eps cap []).history.reverse[
      ([] : List Exchange).length + k]? = some e := by
    rwa [List.length_nil, Nat.zero_add]
  exact Dictionary.choose_of_history_run hrun

/-- What a chosen exchange keeps holds of the final dictionary. -/
theorem Tableau.final_induction {eps : α} {cap : Nat} {t : Tableau α}
    {P : Dictionary α → Prop} (h₀ : P (Dictionary.start t))
    (hstep : ∀ e row column, P e → e.choose eps = .exchange row column →
      P (e.exchange row column)) : P (t.solveFrom eps cap).final := by
  rw [(endsAfter_solveFrom eps cap t).final_eq]
  exact Dictionary.iterate_induction h₀ hstep _

end PenaltySimplex
