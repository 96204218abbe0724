import PenaltySimplex.Command.Directory

/-!
# PenaltySimplex.Proofs.FileTree

Trees of files are a lawful file system, whatever the room on the disk (`isLawful_fileSystem`).

A write puts a file at the place that its path leads to, whole or as far as there is room
(`write_cases`), and every other place holds what it held. That place was a file or a free name,
and no directory, so the walk to it meets the same directories afterwards (`walk_insert`).
-/

namespace PenaltySimplex.Command

namespace Directory

variable {d : Directory} {place path : List String} {bytes : ByteArray}

/-- A walk leads to a place where a file can be put. -/
def LeadsTo (d : Directory) (here names : List String) (place : List String) : Prop :=
  (∃ bytes, d.walk here names = .ok (.file place bytes)) ∨ d.walk here names = .ok (.free place)

theorem lookup_filter_ne (files : List (List String × ByteArray)) (place path : List String) :
    (files.filter fun (name, _) => name != place).lookup path =
      if path = place then none else files.lookup path := by
  induction files with
  | nil => simp
  | cons file files ih =>
    obtain ⟨name, contents⟩ := file
    by_cases hname : name = place
    · rw [List.filter_cons_of_neg (by simp [hname]), ih]
      by_cases hpath : path = place
      · rw [if_pos hpath, if_pos hpath]
      · rw [if_neg hpath, if_neg hpath, List.lookup_cons, beq_false_of_ne]
        rw [hname]
        exact hpath
    · rw [List.filter_cons_of_pos (by simp [hname]), List.lookup_cons, List.lookup_cons, ih]
      by_cases hpath : path = place
      · rw [if_pos hpath, if_pos hpath, beq_false_of_ne]
        rw [hpath]
        exact Ne.symm hname
      · rw [if_neg hpath, if_neg hpath]

theorem contents?_insert (d : Directory) (place path : List String) (bytes : ByteArray) :
    (d.insert place bytes).contents? path = if path = place then some bytes else d.contents? path := by
  rw [contents?, insert, List.lookup_append, lookup_filter_ne]
  by_cases h : path = place
  · subst h
    simp
  · rw [if_neg h, if_neg h, List.lookup_cons, beq_false_of_ne h]
    exact Option.or_none

theorem isDirectory_insert (h : d.isDirectory path = true) :
    (d.insert place bytes).isDirectory path = true := by
  rw [isDirectory, Bool.or_eq_true] at h ⊢
  refine h.imp_right fun hany => ?_
  obtain ⟨⟨name, contents⟩, hmem, hinside⟩ := List.any_eq_true.1 hany
  refine List.any_eq_true.2 ?_
  by_cases hname : name = place
  · subst hname
    exact ⟨(name, bytes), List.mem_append_right _ List.mem_cons_self, hinside⟩
  · refine ⟨(name, contents), List.mem_append_left _ (List.mem_filter.2 ⟨hmem, ?_⟩), hinside⟩
    simpa using hname

/-- One name of a walk that leads to a place. -/
theorem leadsTo_cons {here rest : List String} {name : String} :
    d.LeadsTo here (name :: rest) place ↔
      if name = "" ∨ name = "." then d.LeadsTo here rest place
      else if name = ".." then d.LeadsTo (parent here) rest place
      else name.utf8ByteSize ≤ maxNameLength ∧ here ++ [name] ≠ nullPath ∧
        match d.contents? (here ++ [name]) with
        | some _ => rest = [] ∧ place = here ++ [name]
        | none =>
          if d.isDirectory (here ++ [name]) then d.LeadsTo (here ++ [name]) rest place
          else rest = [] ∧ place = here ++ [name] := by
  unfold LeadsTo
  rw [walk]
  split
  · rfl
  · split
    · rfl
    · by_cases hlong : maxNameLength < name.utf8ByteSize
      · rw [if_pos hlong]
        simp [Nat.not_le.2 hlong]
      · rw [if_neg hlong]
        simp only [Nat.not_lt.1 hlong, true_and]
        by_cases hnull : here ++ [name] = nullPath
        · cases rest <;> simp [hnull]
        simp only [hnull, if_false, ne_eq, not_false_iff, true_and]
        cases d.contents? (here ++ [name]) with
        | some contents => cases rest <;> simp [eq_comm]
        | none =>
          simp only
          split
          · rfl
          · cases rest <;> simp [eq_comm]

/-- A place that a walk leads to is no directory. -/
theorem LeadsTo.not_isDirectory {here names : List String} (h : d.LeadsTo here names place)
    (hfree : d.contents? place = none) : d.isDirectory place = false := by
  induction names generalizing here with
  | nil => simp [LeadsTo, walk] at h
  | cons name rest ih =>
    rw [leadsTo_cons] at h
    split at h
    · exact ih h
    · split at h
      · exact ih h
      · obtain ⟨_, _, h⟩ := h
        split at h
        · rename_i hsome
          rw [← h.2, hfree] at hsome
          cases hsome
        · split at h
          · exact ih h
          · rename_i hdirectory
            rw [h.2]
            exact Bool.eq_false_iff.2 hdirectory

/-- After a file is put there the walk leads to the file. -/
theorem walk_insert {here names : List String} (h : d.LeadsTo here names place) :
    (d.insert place bytes).walk here names = .ok (.file place bytes) := by
  induction names generalizing here with
  | nil => simp [LeadsTo, walk] at h
  | cons name rest ih =>
    have hplace := h.not_isDirectory
    rw [leadsTo_cons] at h
    rw [walk]
    split at h
    · rw [if_pos ‹_›]
      exact ih h
    · rw [if_neg ‹_›]
      split at h
      · rw [if_pos ‹_›]
        exact ih h
      · obtain ⟨hlength, hnull, h⟩ := h
        rw [if_neg ‹_›, if_neg (Nat.not_lt.2 hlength)]
        simp only [if_neg hnull, contents?_insert]
        split at h
        · rw [if_pos h.2.symm, h.1]
          simp [h.2]
        · rename_i hnone
          split at h
          · rename_i hdirectory
            -- the walk goes on through a directory, which is not the place itself
            have hne : here ++ [name] ≠ place := by
              rintro rfl
              rw [hplace hnone] at hdirectory
              cases hdirectory
            rw [if_neg hne, hnone]
            simp only
            rw [if_pos (isDirectory_insert hdirectory)]
            exact ih h
          · rw [if_pos h.2.symm, h.1]
            simp [h.2]

theorem fromUTF8?_toUTF8 (text : String) : String.fromUTF8? text.toUTF8 = some text := by
  unfold String.fromUTF8?
  rw [String.toUTF8_eq_toByteArray, dif_pos text.isValidUTF8]
  rfl

variable {room : Option Nat} {name text : String}

theorem leadsTo_of_target? (h : d.target? name = some place) :
    endsWithSlash name = false ∧ ¬maxPathLength < name.utf8ByteSize ∧
      d.LeadsTo (if name.startsWith "/" then ["/"] else []) (names name) place := by
  unfold target? at h
  split at h
  · cases h
  · rename_i hslash
    refine ⟨Bool.eq_false_iff.2 hslash, ?_⟩
    unfold walkFrom at h
    by_cases hlong : maxPathLength < name.utf8ByteSize
    · rw [if_pos hlong] at h
      cases h
    · rw [if_neg hlong] at h
      refine ⟨hlong, ?_⟩
      split at h
      · cases h
        exact Or.inl ⟨_, ‹_›⟩
      · cases h
        exact Or.inr ‹_›
      · cases h

theorem write_of_target? (h : d.target? name = some place) :
    d.write room name text = d.put room place text.toUTF8 := by
  obtain ⟨hslash, hlong, hleads⟩ := leadsTo_of_target? h
  rw [write, if_neg (by simp [hslash]), walkFrom, if_neg hlong]
  obtain ⟨contents, hwalk⟩ | hwalk := hleads <;> rw [hwalk]

/-- A path that leads to no place for a file leaves the tree as it is. -/
theorem write_of_target?_eq_none (h : d.target? name = none) :
    (d.write room name text).2 = d := by
  unfold target? at h
  unfold write
  by_cases hslash : endsWithSlash name = true
  · rw [if_pos hslash]
    split <;> rfl
  · rw [if_neg hslash] at h ⊢
    cases hwalk : d.walkFrom name (names name) with
    | error e => rfl
    | ok reached =>
      rw [hwalk] at h
      cases reached with
      | directory => rfl
      | null => rfl
      | file place contents => cases h
      | free place => cases h

/-- A file is put there whole, or as far as there is room. -/
theorem put_cases (room : Option Nat) (d : Directory) (place : List String) (bytes : ByteArray) :
    d.put room place bytes = (.ok (), d.insert place bytes) ∨
      ∃ n, d.put room place bytes = (.error .noSpace, d.insert place (bytes.extract 0 n)) := by
  unfold put
  split
  · exact .inl rfl
  · split
    · exact .inl rfl
    · exact .inr ⟨_, rfl⟩

theorem contents?_write_of_ne {other : List String} (h : d.target? name ≠ some other) :
    (d.write room name text).2.contents? other = d.contents? other := by
  cases htarget : d.target? name with
  | none => rw [write_of_target?_eq_none htarget]
  | some place =>
    have hne : other ≠ place := by
      rintro rfl
      exact h htarget
    rw [write_of_target? htarget]
    obtain hput | ⟨n, hput⟩ := put_cases room d place text.toUTF8 <;>
      rw [hput, contents?_insert, if_neg hne]

theorem write_eq_insert (h : d.target? name = some place)
    (hok : (d.write room name text).1 = .ok ()) :
    (d.write room name text).2 = d.insert place text.toUTF8 := by
  rw [write_of_target? h] at hok ⊢
  obtain hput | ⟨n, hput⟩ := put_cases room d place text.toUTF8
  · rw [hput]
  · rw [hput] at hok
    cases hok

/-- What was written is read back. -/
theorem read_insert (h : d.target? name = some place) :
    (d.insert place text.toUTF8).read name = .ok text := by
  obtain ⟨_, hlong, hleads⟩ := leadsTo_of_target? h
  rw [read, walkFrom, if_neg hlong, walk_insert hleads]
  simp only
  rw [fromUTF8?_toUTF8]

theorem isLawful_fileSystem (room : Option Nat) : (fileSystem room).IsLawful where
  contents?_of_ne _ _ _ _ h := contents?_write_of_ne h
  contents?_target d path text place h hok := by
    show (d.write room path text).2.contents? place = _
    rw [write_eq_insert h hok, contents?_insert, if_pos rfl]
  read_write d path text place h hok := by
    show (d.write room path text).2.read path = _
    rw [write_eq_insert h hok, read_insert h]

end Directory

end PenaltySimplex.Command
