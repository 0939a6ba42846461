/-!
# Constants

Values that constant expressions have.
-/

namespace Resolution

/-- Value of a constant expression. -/
inductive Constant where
  | bool (value : Bool)
  | int (value : Int64)
  | double (value : Float)
  | text (value : String)
  deriving DecidableEq, Repr

namespace Constant

/-- The number of an integer constant. -/
def int? : Constant → Option Int64
  | .int value => some value
  | _ => none

/-- Equality of values, with reals compared as numbers; sorts never mix. -/
def agrees : Constant → Constant → Bool
  | .double first, .double second => first == second
  | first, second => decide (first = second)

end Constant

end Resolution
