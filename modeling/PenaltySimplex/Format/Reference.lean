import PenaltySimplex.Decimal.Text

/-!
# PenaltySimplex.Format.Reference

The written form of a reference file: the objective value on the first line, the values on the
second, all with ten decimal places.
-/

namespace PenaltySimplex.Format

def referencePlaces : Nat := 10

def writeReference (objective : Float) (values : List Float) : String :=
  let write := Decimal.fixed referencePlaces
  write objective ++ "\n" ++ " ".intercalate (values.map write) ++ "\n"

end PenaltySimplex.Format
