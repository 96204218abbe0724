import PenaltySimplex.Proofs.NumberLiteral

/-!
# PenaltySimplex.Proofs.ResultRecords

The result types are read back from their texts (`Library.results_readBack`), also from texts of
objects that were edited. That is so for every JSON library that keeps what such a library
documents; how it spells numbers and reads texts is left open.

* `Library.IsLawful`: numbers, flags, names, lists and optional values are read as what was written,
  a record is an object, and its fields are found by their names.
* `Edited`: members added under other names, put into another order, or left out where an optional
  field is null.
* `Edited.present`: no edit loses a field. It is there once with its value, unless it is optional
  and null, by induction on the edits.
* `Library.IsLawful.readsBack_of_fields`: so a record that is read off its fields is read back.
* `isLawful_library`: the library of the runs keeps the laws.
-/

namespace PenaltySimplex.Json

variable {α : Type}

/-! ## What a library documents -/

def written (fields : List (String × Json)) : List (Option String × Json) :=
  fields.map fun (name, value) => (some name, value)

namespace Library

/-- The values that results are written as. -/
inductive Writes (lib : Library) : Json → Prop where
  | null : lib.Writes .null
  | float {x : Float} (hx : x.isFinite = true) : lib.Writes (lib.float.encode x)
  | count {n : Nat} (hn : n < 2 ^ 64) : lib.Writes (lib.count.encode n)
  | flag (b : Bool) : lib.Writes (lib.flag.encode b)
  | text (s : String) : lib.Writes (.text (some s))
  | array {items : List Json} (h : ∀ v ∈ items, lib.Writes v) : lib.Writes (.array items)
  | object {fields : List (String × Json)} (h : ∀ f ∈ fields, lib.Writes f.2) :
      lib.Writes (.object (written fields))

/-- What a JSON library documents of the forms that results are made of. -/
structure IsLawful (lib : Library) : Prop where
  read_write : ∀ v, lib.Writes v → lib.read? (lib.write v) = some v
  /-- A number text is read as the double that it was written from. -/
  decode_float : ∀ x, x.isFinite = true → lib.float.decode? (lib.float.encode x) = some x
  decode_float_null : lib.float.decode? .null = none
  decode_count : ∀ n < 2 ^ 64, lib.count.decode? (lib.count.encode n) = some n
  decode_flag : ∀ b, lib.flag.decode? (lib.flag.encode b) = some b
  encode_list : ∀ {β : Type} (form : Form β) (xs : List β),
    (lib.list form).encode xs = .array (xs.map form.encode)
  decode_list : ∀ {β : Type} (form : Form β) (items : List Json),
    (lib.list form).decode? (.array items) = items.mapM form.decode?
  encode_option : ∀ {β : Type} (form : Form β) (b : Option β),
    (lib.option form).encode b = ofOption form.encode b
  decode_option_null : ∀ {β : Type} (form : Form β), (lib.option form).decode? .null = some none
  decode_option : ∀ {β : Type} (form : Form β) (v : Json), v ≠ .null →
    (lib.option form).decode? v = (form.decode? v).map some
  missing_option : ∀ {β : Type} (form : Form β), (lib.option form).missing? = some none
  encode_names : ∀ {β : Type} (name : β → String) (all : List β) (b : β),
    (lib.names name all).encode b = .text (some (name b))
  decode_names : ∀ {β : Type} (name : β → String) (all : List β) (s : String),
    (lib.names name all).decode? (.text (some s)) = all.find? fun b => name b = s
  ofFields_eq : ∀ fields, lib.ofFields fields = .object (written fields)
  /-- Fields are found by their names, which may not be repeated; other members are passed over. -/
  fields_object : ∀ names ms, (∀ m ∈ ms, m.1.isSome = true) →
    (∀ name ∈ names, (membersNamed name ms).length ≤ 1) →
    lib.fields? names (.object ms) = some (names.map fun name => (membersNamed name ms).head?)

end Library

/-! ## Edits of an object -/

def members : Json → List (Option String × Json)
  | .object members => members
  | _ => []

/-- The members of an object after edits that a record does not notice: they may change their
order, members of names that are not the record's own may be added, and an optional field that is
null may be left out. -/
inductive Edited (names optionals : List String) (start : List (Option String × Json)) :
    List (Option String × Json) → Prop where
  | start : Edited names optionals start start
  | permute {ms ms' : List (Option String × Json)} (h : Edited names optionals start ms)
      (hperm : ms.Perm ms') : Edited names optionals start ms'
  | add {ms : List (Option String × Json)} (h : Edited names optionals start ms) {name : String}
      (hname : name ∉ names) (value : Json) :
      Edited names optionals start ((some name, value) :: ms)
  | leaveOut {ms : List (Option String × Json)} {name : String}
      (h : Edited names optionals start ((some name, .null) :: ms)) (hname : name ∈ optionals) :
      Edited names optionals start ms

/-- A field is there once with its value, unless it is optional and null. -/
def Present (optionals : List String) (ms : List (Option String × Json)) (name : String)
    (value : Json) : Prop :=
  membersNamed name ms = [value] ∨
    membersNamed name ms = [] ∧ value = .null ∧ name ∈ optionals

theorem membersNamed_cons_self (name : String) (value : Json) (ms : List (Option String × Json)) :
    membersNamed name ((some name, value) :: ms) = value :: membersNamed name ms := by
  simp [membersNamed]

theorem membersNamed_cons_of_ne {name other : String} (h : other ≠ name) (value : Json)
    (ms : List (Option String × Json)) :
    membersNamed name ((some other, value) :: ms) = membersNamed name ms := by
  simp [membersNamed, h]

theorem membersNamed_eq_nil {fields : List (String × Json)} {name : String}
    (h : name ∉ fields.map Prod.fst) : membersNamed name (written fields) = [] := by
  rw [membersNamed, written, List.filterMap_map, List.filterMap_eq_nil_iff]
  intro field hfield
  have hne : field.1 ≠ name := by
    rintro rfl
    exact h (List.mem_map_of_mem hfield)
  simp [hne]

theorem membersNamed_perm {ms ms' : List (Option String × Json)} (h : ms.Perm ms') (name : String) :
    (membersNamed name ms).Perm (membersNamed name ms') :=
  h.filterMap _

theorem membersNamed_written {fields : List (String × Json)} (hnodup : (fields.map Prod.fst).Nodup)
    {name : String} {value : Json} (h : (name, value) ∈ fields) :
    membersNamed name (written fields) = [value] := by
  induction fields with
  | nil => cases h
  | cons field fields ih =>
    obtain ⟨other, v⟩ := field
    obtain ⟨hfresh, hnodup⟩ := List.nodup_cons.1 hnodup
    have hcons : written ((other, v) :: fields) = (some other, v) :: written fields := rfl
    rw [hcons]
    obtain heq | hmem := List.mem_cons.1 h
    · cases heq
      rw [membersNamed_cons_self, membersNamed_eq_nil hfresh]
    · have hne : other ≠ name := by
        rintro rfl
        exact hfresh (List.mem_map.2 ⟨_, hmem, rfl⟩)
      rw [membersNamed_cons_of_ne hne, ih hnodup hmem]

variable {names optionals : List String} {start ms : List (Option String × Json)}

theorem Edited.isSome_keys (h : Edited names optionals start ms)
    (hstart : ∀ m ∈ start, m.1.isSome = true) : ∀ m ∈ ms, m.1.isSome = true := by
  induction h with
  | start => exact hstart
  | permute h hperm ih => exact fun m hm => ih m (hperm.mem_iff.2 hm)
  | add h hname value ih => exact List.forall_mem_cons.2 ⟨rfl, ih⟩
  | leaveOut h hname ih => exact fun m hm => ih m (List.mem_cons_of_mem _ hm)

/-- No edit loses a field. -/
theorem Edited.present {name : String} {value : Json} (h : Edited names optionals start ms)
    (hname : name ∈ names) (hstart : membersNamed name start = [value]) :
    Present optionals ms name value := by
  induction h with
  | start => exact .inl hstart
  | permute h hperm ih =>
    have hnamed := membersNamed_perm hperm name
    obtain hone | ⟨hnone, hnull⟩ := ih
    · rw [hone, List.singleton_perm] at hnamed
      exact .inl hnamed.symm
    · rw [hnone, List.nil_perm] at hnamed
      exact .inr ⟨hnamed, hnull⟩
  | add h hother value ih =>
    have hne := ne_of_mem_of_not_mem hname hother
    rwa [Present, membersNamed_cons_of_ne hne.symm]
  | leaveOut h hoptional ih =>
    rename_i other
    by_cases hother : other = name
    · subst hother
      rw [Present, membersNamed_cons_self] at ih
      obtain hone | ⟨hnone, _⟩ := ih
      · obtain ⟨hvalue, hrest⟩ := List.cons.inj hone
        exact .inr ⟨hrest, hvalue.symm, hoptional⟩
      · cases hnone
    · rwa [Present, membersNamed_cons_of_ne hother] at ih

theorem Present.length_le {name : String} {value : Json} (h : Present optionals ms name value) :
    (membersNamed name ms).length ≤ 1 := by
  obtain hone | ⟨hnone, _⟩ := h
  · exact hone ▸ Nat.le_refl 1
  · exact hnone ▸ Nat.zero_le 1

/-! ## Reading a record -/

/-- What is found of a field: its value, or nothing if it is optional and null. -/
def IsFound (optionals : List String) (field : String × Json) (value : Option Json) : Prop :=
  value = some field.2 ∨ value = none ∧ field.2 = .null ∧ field.1 ∈ optionals

theorem Present.isFound {field : String × Json} (h : Present optionals ms field.1 field.2) :
    IsFound optionals field (membersNamed field.1 ms).head? := by
  obtain hone | ⟨hnone, hnull⟩ := h
  · exact .inl (by rw [hone, List.head?_cons])
  · exact .inr ⟨by rw [hnone, List.head?_nil], hnull⟩

theorem mapM_map_eq_some {encode : α → Json} {decode : Json → Option α} {as : List α}
    (h : ∀ a ∈ as, decode (encode a) = some a) : (as.map encode).mapM decode = some as := by
  induction as with
  | nil => rfl
  | cons a as ih =>
    obtain ⟨ha, has⟩ := List.forall_mem_cons.1 h
    simp [ha, ih has]

/-- A field that must be there is read as its value. -/
theorem IsFound.field?_eq {form : Form α} {name : String} {a : α} {value : Option Json}
    (h : IsFound optionals (name, form.encode a) value) (hname : name ∉ optionals)
    (ha : form.decode? (form.encode a) = some a) : form.field? value = some a := by
  obtain rfl | ⟨_, _, hoptional⟩ := h
  · exact ha
  · exact absurd hoptional hname

namespace Library

/-- A value is read back from its own text, and from every text of an edit of its object. -/
def ReadsBack (lib : Library) (form : Form α) (names optionals : List String) (a : α) : Prop :=
  (lib.read? (lib.write (form.encode a))).bind form.decode? = some a ∧
    ∀ text ms, lib.read? text = some (.object ms) →
      Edited names optionals (form.encode a).members ms →
        (lib.read? text).bind form.decode? = some a

namespace IsLawful

variable {lib : Library} (hlib : lib.IsLawful)

include hlib

theorem readBack {form : Form α} {a : α} (hwrites : lib.Writes (form.encode a))
    (ha : form.decode? (form.encode a) = some a) :
    (lib.read? (lib.write (form.encode a))).bind form.decode? = some a := by
  rw [hlib.read_write _ hwrites, Option.bind_some, ha]

/-- A record is read back if it is read off its fields, each found or left out. -/
theorem readsBack_of_fields {form : Form α} {a : α} {fields : List (String × Json)}
    (hencode : form.encode a = lib.ofFields fields) (hnodup : (fields.map Prod.fst).Nodup)
    (hfields : ∀ f ∈ fields, lib.Writes f.2)
    (hdecode : ∀ (v : Json) (value : String → Option Json),
      lib.fields? (fields.map Prod.fst) v = some ((fields.map Prod.fst).map value) →
      (fields.Forall fun f => IsFound optionals f (value f.1)) → form.decode? v = some a) :
    lib.ReadsBack form (fields.map Prod.fst) optionals a := by
  rw [hlib.ofFields_eq] at hencode
  have hmembers : (form.encode a).members = written fields := by
    rw [hencode]
    rfl
  have hkeys : ∀ m ∈ written fields, m.1.isSome = true := by
    intro m hm
    obtain ⟨f, _, rfl⟩ := List.mem_map.1 hm
    rfl
  have hedited (ms : List (Option String × Json))
      (h : Edited (fields.map Prod.fst) optionals (written fields) ms) :
      form.decode? (.object ms) = some a := by
    have hpresent : ∀ f ∈ fields, Present optionals ms f.1 f.2 := fun f hf =>
      h.present (List.mem_map_of_mem hf) (membersNamed_written hnodup hf)
    refine hdecode (.object ms) (fun name => (membersNamed name ms).head?) ?_ ?_
    · refine hlib.fields_object _ _ (h.isSome_keys hkeys) ?_
      intro name hname
      obtain ⟨f, hf, rfl⟩ := List.mem_map.1 hname
      exact (hpresent f hf).length_le
    · rw [List.forall_iff_forall_mem]
      exact fun f hf => (hpresent f hf).isFound
  constructor
  · refine hlib.readBack (hencode ▸ .object hfields) ?_
    rw [hencode]
    exact hedited _ .start
  · intro text ms htext h
    rw [htext, Option.bind_some]
    exact hedited ms (hmembers ▸ h)

/-! ## Forms of parts -/

theorem decode_floats {xs : List Float} (h : ∀ x ∈ xs, x.isFinite = true) :
    (lib.list lib.float).decode? ((lib.list lib.float).encode xs) = some xs := by
  rw [hlib.encode_list, hlib.decode_list]
  exact mapM_map_eq_some fun x hx => hlib.decode_float x (h x hx)

theorem writes_floats {xs : List Float} (h : ∀ x ∈ xs, x.isFinite = true) :
    lib.Writes ((lib.list lib.float).encode xs) := by
  rw [hlib.encode_list]
  refine .array ?_
  intro v hv
  obtain ⟨x, hx, rfl⟩ := List.mem_map.1 hv
  exact .float (h x hx)

theorem writes_option {form : Form α} {a : Option α} (h : ∀ b ∈ a, lib.Writes (form.encode b)) :
    lib.Writes ((lib.option form).encode a) := by
  rw [hlib.encode_option]
  cases a with
  | none => exact .null
  | some b => exact h b rfl

theorem decode_option_encode {form : Form α} {a : Option α}
    (h : ∀ b ∈ a, form.encode b ≠ .null ∧ form.decode? (form.encode b) = some b) :
    (lib.option form).decode? ((lib.option form).encode a) = some a := by
  rw [hlib.encode_option]
  cases a with
  | none => exact hlib.decode_option_null form
  | some b =>
    obtain ⟨hnull, hb⟩ := h b rfl
    rw [ofOption, hlib.decode_option form _ hnull, hb, Option.map_some]

/-- An optional field that is left out is read as null. -/
theorem field?_option {form : Form α} {name : String} {a : Option α} {value : Option Json}
    (hvalue : IsFound optionals (name, (lib.option form).encode a) value)
    (h : ∀ b ∈ a, form.encode b ≠ .null ∧ form.decode? (form.encode b) = some b) :
    (lib.option form).field? value = some a := by
  have ha := hlib.decode_option_encode h
  obtain rfl | ⟨rfl, hnull, _⟩ := hvalue
  · exact ha
  · have hnone : (lib.option form).encode a = .null := hnull
    rw [hnone, hlib.decode_option_null] at ha
    obtain rfl := Option.some.inj ha
    exact hlib.missing_option form

theorem encode_float_ne_null {x : Float} (hx : x.isFinite = true) :
    lib.float.encode x ≠ .null := by
  intro hnull
  have hread := hlib.decode_float x hx
  rw [hnull, hlib.decode_float_null] at hread
  cases hread

theorem encode_floats_ne_null (xs : List Float) : (lib.list lib.float).encode xs ≠ .null := by
  rw [hlib.encode_list]
  simp

theorem decode_names_encode {name : α → String} {all : List α} {a : α}
    (h : all.find? (fun b => name b = name a) = some a) :
    (lib.names name all).decode? ((lib.names name all).encode a) = some a := by
  rw [hlib.encode_names, hlib.decode_names, h]

theorem writes_names (name : α → String) (all : List α) (a : α) :
    lib.Writes ((lib.names name all).encode a) := by
  rw [hlib.encode_names]
  exact .text _

theorem decode_status (s : Status) : lib.status.decode? (lib.status.encode s) = some s :=
  hlib.decode_names_encode (by cases s <;> decide)

theorem decode_comparison (c : Comparison) :
    lib.comparison.decode? (lib.comparison.encode c) = some c :=
  hlib.decode_names_encode (by cases c <;> decide)

/-! ## The result types -/

theorem readsBack_solution {s : Solution Float}
    (hvalues : ∀ xs ∈ s.values, ∀ x ∈ xs, x.isFinite = true)
    (hobjective : ∀ x ∈ s.objectiveValue, x.isFinite = true) (hiterations : s.iterations < 2 ^ 64) :
    lib.ReadsBack lib.solution ["status", "values", "objective_value", "iterations"]
      ["values", "objective_value"] s := by
  refine hlib.readsBack_of_fields (show lib.solution.encode s = lib.ofFields _ from rfl)
    (by simp) ?_ ?_
  · simp only [List.forall_mem_cons, List.not_mem_nil, false_imp_iff, implies_true, and_true]
    exact ⟨hlib.writes_names _ _ _, hlib.writes_option fun xs hxs => hlib.writes_floats
      (hvalues xs hxs), hlib.writes_option fun x hx => .float (hobjective x hx), .count hiterations⟩
  · intro v value hread hfound
    simp only [List.Forall] at hfound
    obtain ⟨hstatus', hvalues', hobjective', hiterations'⟩ := hfound
    have hstatus := hstatus'.field?_eq (by decide) (hlib.decode_status s.status)
    have hlist := hlib.field?_option hvalues' fun xs hxs =>
      ⟨hlib.encode_floats_ne_null xs, hlib.decode_floats (hvalues xs hxs)⟩
    have hfloat := hlib.field?_option hobjective' fun x hx =>
      ⟨hlib.encode_float_ne_null (hobjective x hx), hlib.decode_float x (hobjective x hx)⟩
    have hcount := hiterations'.field?_eq (by decide) (hlib.decode_count _ hiterations)
    simp only [List.map_cons, List.map_nil] at hread
    simp [solution, hread, hstatus, hlist, hfloat, hcount]

theorem readsBack_reference {r : Reference Float} (hobjective : r.objective.isFinite = true)
    (hvalues : ∀ x ∈ r.values, x.isFinite = true) :
    lib.ReadsBack lib.reference ["objective", "values"] [] r := by
  refine hlib.readsBack_of_fields (show lib.reference.encode r = lib.ofFields _ from rfl)
    (by simp) ?_ ?_
  · simp only [List.forall_mem_cons, List.not_mem_nil, false_imp_iff, implies_true, and_true]
    exact ⟨.float hobjective, hlib.writes_floats hvalues⟩
  · intro v value hread hfound
    simp only [List.Forall] at hfound
    have hfloat := hfound.1.field?_eq (by decide) (hlib.decode_float _ hobjective)
    have hlist := hfound.2.field?_eq (by decide) (hlib.decode_floats hvalues)
    simp only [List.map_cons, List.map_nil] at hread
    simp [reference, hread, hfloat, hlist]

theorem readsBack_verification {v : Verification Float}
    (hobjective : v.objectiveDifference.isFinite = true)
    (hsolution : v.solutionDifference.isFinite = true) :
    lib.ReadsBack lib.verification
      ["objective_difference", "solution_difference", "objective_match", "solution_match"] []
      v := by
  refine hlib.readsBack_of_fields (show lib.verification.encode v = lib.ofFields _ from rfl)
    (by simp) ?_ ?_
  · simp only [List.forall_mem_cons, List.not_mem_nil, false_imp_iff, implies_true, and_true]
    exact ⟨.float hobjective, .float hsolution, .flag _, .flag _⟩
  · intro u value hread hfound
    simp only [List.Forall] at hfound
    obtain ⟨hobjective', hsolution', hmatch, hmatch'⟩ := hfound
    have hfirst := hobjective'.field?_eq (by decide) (hlib.decode_float _ hobjective)
    have hsecond := hsolution'.field?_eq (by decide) (hlib.decode_float _ hsolution)
    have hthird := hmatch.field?_eq (by decide) (hlib.decode_flag v.objectiveMatch)
    have hfourth := hmatch'.field?_eq (by decide) (hlib.decode_flag v.solutionMatch)
    simp only [List.map_cons, List.map_nil] at hread
    simp [verification, hread, hfirst, hsecond, hthird, hfourth]

theorem readsBack_span {s : Format.Span} (hstart : s.start < 2 ^ 64) (hstop : s.stop < 2 ^ 64) :
    lib.ReadsBack lib.span ["start", "end"] [] s := by
  refine hlib.readsBack_of_fields (show lib.span.encode s = lib.ofFields _ from rfl) (by simp) ?_ ?_
  · simp only [List.forall_mem_cons, List.not_mem_nil, false_imp_iff, implies_true, and_true]
    exact ⟨.count hstart, .count hstop⟩
  · intro v value hread hfound
    simp only [List.Forall] at hfound
    have hfirst := hfound.1.field?_eq (by decide) (hlib.decode_count _ hstart)
    have hsecond := hfound.2.field?_eq (by decide) (hlib.decode_count _ hstop)
    simp only [List.map_cons, List.map_nil] at hread
    simp [span, hread, hfirst, hsecond]

end IsLawful

/-- With every lawful library each result is read back from its text. The object of a record may be
edited before: its members in any order, with others added, and without the optional ones that are
null. -/
theorem results_readBack {lib : Library} (hlib : lib.IsLawful) :
    (∀ s : Solution Float, (∀ xs ∈ s.values, ∀ x ∈ xs, x.isFinite = true) →
      (∀ x ∈ s.objectiveValue, x.isFinite = true) → s.iterations < 2 ^ 64 →
      lib.ReadsBack lib.solution ["status", "values", "objective_value", "iterations"]
        ["values", "objective_value"] s) ∧
    (∀ r : Reference Float, r.objective.isFinite = true → (∀ x ∈ r.values, x.isFinite = true) →
      lib.ReadsBack lib.reference ["objective", "values"] [] r) ∧
    (∀ v : Verification Float, v.objectiveDifference.isFinite = true →
      v.solutionDifference.isFinite = true →
      lib.ReadsBack lib.verification
        ["objective_difference", "solution_difference", "objective_match", "solution_match"] [] v) ∧
    (∀ s : Format.Span, s.start < 2 ^ 64 → s.stop < 2 ^ 64 →
      lib.ReadsBack lib.span ["start", "end"] [] s) ∧
    (∀ s : Status, (lib.read? (lib.write (lib.status.encode s))).bind lib.status.decode? =
      some s) ∧
    (∀ c : Comparison,
      (lib.read? (lib.write (lib.comparison.encode c))).bind lib.comparison.decode? = some c) :=
  ⟨fun _ => hlib.readsBack_solution, fun _ => hlib.readsBack_reference,
    fun _ => hlib.readsBack_verification, fun _ => hlib.readsBack_span,
    fun s => hlib.readBack (hlib.writes_names _ _ s) (hlib.decode_status s),
    fun c => hlib.readBack (hlib.writes_names _ _ c) (hlib.decode_comparison c)⟩

end Library

/-! ## The library of the program -/

theorem wellFormedItems_iff {items : List Json} :
    WellFormedItems items ↔ ∀ item ∈ items, WellFormed item := by
  induction items with
  | nil => simp [WellFormedItems]
  | cons item items ih => simp [WellFormedItems, ih]

theorem wellFormedMembers_iff {members : List (Option String × Json)} :
    WellFormedMembers members ↔ ∀ m ∈ members, m.1.isSome = true ∧ WellFormed m.2 := by
  induction members with
  | nil => simp [WellFormedMembers]
  | cons m members ih => simp [WellFormedMembers, ih, and_assoc]

theorem wellFormed_of_writes {v : Json} (h : library.Writes v) : WellFormed v := by
  induction h with
  | null => simp [WellFormed]
  | float _ => exact wellFormed_ofFloat _
  | count _ => exact wellFormed_ofNat _
  | flag b =>
    show WellFormed (.bool b)
    simp [WellFormed]
  | text s => simp [WellFormed]
  | array _ ih =>
    rw [WellFormed, wellFormedItems_iff]
    exact ih
  | object _ ih =>
    rw [WellFormed, wellFormedMembers_iff]
    intro m hm
    obtain ⟨f, hf, rfl⟩ := List.mem_map.1 hm
    exact ⟨rfl, ih f hf⟩

theorem fieldOf_eq_head? {name : String} {ms : List (Option String × Json)}
    (h : (membersNamed name ms).length ≤ 1) : fieldOf name ms = some (membersNamed name ms).head? := by
  unfold fieldOf
  split
  · rename_i hnone
    rw [hnone, List.head?_nil]
  · rename_i value hone
    rw [hone, List.head?_cons]
  · rename_i hnil hone
    match hms : membersNamed name ms with
    | [] => exact absurd hms hnil
    | [value] => exact absurd hms (hone value)
    | _ :: _ :: _ =>
      rw [hms] at h
      simp at h

theorem lookup_names {name : α → String} {all : List α} {s : String} :
    (all.map fun a => (name a, a)).lookup s = all.find? fun a => name a = s := by
  induction all with
  | nil => rfl
  | cons a all ih =>
    rw [List.map_cons, List.lookup_cons, List.find?_cons, ih]
    by_cases h : name a = s
    · simp [h]
    · simp [h, beq_false_of_ne (Ne.symm h)]

theorem isLawful_library : library.IsLawful where
  read_write v hv := read_compact (wellFormed_of_writes hv)
  decode_float _ hx := toFloat?_ofFloat hx
  decode_float_null := rfl
  decode_count _ hn := toCount?_ofNat hn
  decode_flag _ := rfl
  encode_list _ _ := rfl
  decode_list _ _ := rfl
  encode_option _ _ := rfl
  decode_option_null _ := rfl
  decode_option form v hv := by
    cases v with
    | null => exact absurd rfl hv
    | _ => rfl
  missing_option _ := rfl
  encode_names _ _ _ := rfl
  decode_names _ _ _ := lookup_names
  ofFields_eq _ := rfl
  fields_object names ms hkeys hnames := by
    show (if ms.all fun m => m.1.isSome then names.mapM fun name => fieldOf name ms else none) = _
    rw [if_pos (List.all_eq_true.2 hkeys)]
    induction names with
    | nil => rfl
    | cons name names ih =>
      obtain ⟨hname, hnames⟩ := List.forall_mem_cons.1 hnames
      simp [fieldOf_eq_head? hname, ih hnames]

/-- The members of an unbounded solution turned around, without its values and with one more. -/
def unboundedMembers : List (Option String × Json) :=
  [(some "iterations", ofNat 3), (some "objective_value", ofFloat (-1.5)),
    (some "status", ofString "unbounded"), (some "id", .array [])]

/-- A solution that is read from an object in another order, with a member of another name and
without its values, which are null. -/
theorem results_readBack_unbounded :
    library.IsLawful ∧ (-1.5 : Float).isFinite = true ∧ 3 < 2 ^ 64 ∧
      compact (ofSolution ⟨.unbounded, none, some (-1.5), 3⟩) =
        "\x7b\"status\":\"unbounded\",\"values\":null,\"objective_value\":-1.5,\"iterations\":3\x7d" ∧
      (read
        "\x7b\"iterations\":3,\"objective_value\":-1.5,\"status\":\"unbounded\",\"id\":[]\x7d").bind
          toSolution? = some ⟨.unbounded, none, some (-1.5), 3⟩ := by
  have hfinite : (-1.5 : Float).isFinite = true := by decide +kernel
  have hwrite : compact (ofSolution ⟨.unbounded, none, some (-1.5), 3⟩) =
      "\x7b\"status\":\"unbounded\",\"values\":null,\"objective_value\":-1.5,\"iterations\":3\x7d" := by
    decide +kernel
  have htext : compact (.object unboundedMembers) =
      "\x7b\"iterations\":3,\"objective_value\":-1.5,\"status\":\"unbounded\",\"id\":[]\x7d" := by
    decide +kernel
  have hwellFormed : WellFormed (.object unboundedMembers) := by
    simp [unboundedMembers, WellFormed, WellFormedMembers, WellFormedItems, wellFormed_ofNat,
      wellFormed_ofFloat, ofString]
  have hread := read_compact hwellFormed
  rw [htext] at hread
  refine ⟨isLawful_library, hfinite, by decide, hwrite, ?_⟩
  refine ((Library.results_readBack isLawful_library).1 ⟨.unbounded, none, some (-1.5), 3⟩
    (fun _ h => nomatch h) ?_ (by decide)).2 _ _ hread ?_
  · intro x hx
    cases hx
    exact hfinite
  · -- the values come to the front, are left out, and the rest is turned around
    have hswap : Edited ["status", "values", "objective_value", "iterations"]
        ["values", "objective_value"] _ _ :=
      Edited.start.permute
        (.swap (some "values", .null) (some "status", ofString "unbounded")
          [(some "objective_value", ofFloat (-1.5)), (some "iterations", ofNat 3)])
    exact ((hswap.leaveOut (by simp)).add (by decide) (.array [])).permute
      (List.reverse_perm _).symm

end PenaltySimplex.Json
