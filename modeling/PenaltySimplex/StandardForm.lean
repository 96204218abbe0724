import PenaltySimplex.Event
import PenaltySimplex.Problem

/-!
# PenaltySimplex.StandardForm

Linear programs in equality form: minimize `c · x` subject to `A x = b` and `x ≥ 0`. A row of `A`
and its entry of `b` are kept together as one `Equation`.

`Problem.standardForm` brings a general problem to this form. A maximized objective is negated.
Each `≤` row gets a slack column with `1` in its own row and each `≥` row a surplus column with
`-1`; these columns follow the problem's variables in row order, with objective zero.
-/

namespace PenaltySimplex

structure Equation (α : Type) where
  coefficients : List α
  rhs : α
deriving Repr, DecidableEq

/-- Every equation has one coefficient per entry of the objective. -/
structure StandardForm (α : Type) where
  objective : List α
  equations : List (Equation α)
  width : ∀ e ∈ equations, e.coefficients.length = objective.length
deriving DecidableEq

namespace StandardForm

variable {α : Type}

def numRows (p : StandardForm α) : Nat := p.equations.length

def numColumns (p : StandardForm α) : Nat := p.objective.length

def rows (p : StandardForm α) : List (List α) := p.equations.map Equation.coefficients

def rhs (p : StandardForm α) : List α := p.equations.map Equation.rhs

@[simp] theorem length_rows (p : StandardForm α) : p.rows.length = p.numRows := by
  simp [rows, numRows]

@[simp] theorem length_rhs (p : StandardForm α) : p.rhs.length = p.numRows := by
  simp [rhs, numRows]

theorem length_of_mem_rows {p : StandardForm α} {row : List α} (h : row ∈ p.rows) :
    row.length = p.numColumns := by
  obtain ⟨e, he, rfl⟩ := List.mem_map.1 h
  exact p.width e he

/-- The listed rows, in the listed order; a number that is no row is passed over. -/
def selectRows (p : StandardForm α) (indices : List Nat) : StandardForm α where
  objective := p.objective
  equations := indices.filterMap fun i => p.equations[i]?
  width := by
    intro e he
    obtain ⟨i, _, hi⟩ := List.mem_filterMap.1 he
    exact p.width e (List.mem_of_getElem? hi)

/-- As `selectRows`, if every number is a row. -/
def selectRows? (p : StandardForm α) (indices : List Nat) : Option (StandardForm α) :=
  if indices.all (· < p.numRows) then some (p.selectRows indices) else none

/-- Replaces one coefficient, if there is one at this place. -/
def setEntry? (p : StandardForm α) (row column : Nat) (value : α) : Option (StandardForm α) :=
  if row < p.numRows ∧ column < p.numColumns then
    some
      { objective := p.objective
        equations := p.equations.modify row fun e =>
          { e with coefficients := e.coefficients.set column value }
        width := by
          intro e he
          obtain ⟨i, hi, rfl⟩ := List.getElem_of_mem he
          have hi' : i < p.equations.length := by simpa using hi
          rw [List.getElem_modify]
          split <;> simp [p.width _ (List.getElem_mem hi')] }
  else none

def setRhs? (p : StandardForm α) (row : Nat) (value : α) : Option (StandardForm α) :=
  if row < p.numRows then
    some
      { objective := p.objective
        equations := p.equations.modify row fun e => { e with rhs := value }
        width := by
          intro e he
          obtain ⟨i, hi, rfl⟩ := List.getElem_of_mem he
          have hi' : i < p.equations.length := by simpa using hi
          rw [List.getElem_modify]
          split <;> simp [p.width _ (List.getElem_mem hi')] }
  else none

variable [Scalar α]

/-- From an objective, a matrix given by its size and entries, and a right-hand side. -/
def ofMatrix (objective : List α) (numRows numColumns : Nat) (entry : Nat → Nat → α)
    (rhs : List α) : Except ModelError (StandardForm α) :=
  if numColumns ≠ objective.length then
    .error (.dimensionMismatch .matrixColumns objective.length numColumns)
  else if numRows ≠ rhs.length then
    .error (.dimensionMismatch .rightHandSide numRows rhs.length)
  else
    let row (i : Nat) : List α := (List.range objective.length).map (entry i)
    if objective.all Scalar.isFinite && rhs.all Scalar.isFinite &&
        (List.range numRows).all (fun i => (row i).all Scalar.isFinite) then
      .ok
        { objective
          equations := rhs.zipIdx.map fun (b, i) => ⟨row i, b⟩
          width := by
            intro e he
            obtain ⟨x, _, rfl⟩ := List.mem_map.1 he
            simp [row] }
    else .error (.nonFinite .standardForm)

def ofRows (objective : List α) (rows : List (List α)) (rhs : List α) :
    Except ModelError (StandardForm α) :=
  match rows.find? (fun row => row.length != objective.length) with
  | some row => .error (.dimensionMismatch .constraintRow objective.length row.length)
  | none =>
    ofMatrix objective rows.length objective.length (fun i j => (rows.getD i []).getD j 0) rhs

end StandardForm

/-- The coefficient of a constraint's own extra column; an equation needs none. -/
def Comparison.slackSign? {α : Type} [One α] [Neg α] : Comparison → Option α
  | .le => some 1
  | .ge => some (-1)
  | .eq => none

namespace Problem

variable {α : Type} [Scalar α]

/-- The rows that get an extra column, each with its coefficient there. -/
def slacks (p : Problem α) : List (Nat × α) :=
  p.constraints.zipIdx.filterMap fun (c, i) => c.comparison.slackSign?.map fun s => (i, s)

/-- The extra columns of row `i`: its own coefficient, and zeros. -/
def slackEntries (p : Problem α) (i : Nat) : List α :=
  p.slacks.map fun (row, s) => if row = i then s else 0

def standardObjective (p : Problem α) : List α :=
  let own := match p.sense with
    | .minimize => p.objective
    | .maximize => p.objective.map fun c => -c
  own ++ List.replicate p.slacks.length 0

def standardEquations (p : Problem α) : List (Equation α) :=
  p.constraints.zipIdx.map fun (c, i) => ⟨c.coefficients ++ p.slackEntries i, c.rhs⟩

theorem length_standardObjective (p : Problem α) :
    p.standardObjective.length = p.objective.length + p.slacks.length := by
  unfold standardObjective
  split <;> simp

theorem standardEquations_width {p : Problem α} (h : p.validate = .ok ()) :
    ∀ e ∈ p.standardEquations, e.coefficients.length = p.standardObjective.length := by
  intro e he
  obtain ⟨⟨c, i⟩, hc, rfl⟩ := List.mem_map.1 he
  obtain ⟨⟨ho, _⟩, hcs⟩ := validate_eq_ok_iff.1 h
  have hmem : c ∈ p.constraints := (List.mem_zipIdx' hc).2 ▸ List.getElem_mem _
  simp [length_standardObjective, slackEntries, ho, (hcs c hmem).1]

/-- The equality form of a problem that `validate` accepts. -/
def toStandardForm (p : Problem α) : Except ModelError (StandardForm α) :=
  match h : p.validate with
  | .error e => .error e
  | .ok () => .ok ⟨p.standardObjective, p.standardEquations, standardEquations_width h⟩

def standardForm (p : Problem α) : Logged (Event α) (Except ModelError (StandardForm α)) := do
  Logged.noteIf p.toStandardForm.isOk
    (.standardForm p.numConstraints p.numVariables p.slacks.length)
  return p.toStandardForm

@[simp] theorem value_standardForm (p : Problem α) : p.standardForm.value = p.toStandardForm :=
  rfl

end Problem

end PenaltySimplex
