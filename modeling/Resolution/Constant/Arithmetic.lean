import Resolution.Constant.Basic
import Resolution.Handle
import Resolution.Tree.Operator

/-!
# Arithmetic on constants

Operators and conversions between constant values.  Integer results that leave 64 bits have no
value, nor have division by zero and shifts by anything but 0 to 63.  An operator that does not
apply to its operands has no value either.
-/

namespace Resolution

/-- An exact integer as a 64-bit word, if it fits. -/
def int64? (exact : Int) : Option Int64 :=
  if Int64.minValue.toInt ≤ exact ∧ exact ≤ Int64.maxValue.toInt then some (Int64.ofInt exact)
  else none

/-- Shift distance of a number, from 0 to 63. -/
def shift? (distance : Int64) : Option Int64 :=
  if 0 ≤ distance ∧ distance < 64 then some distance else none

/-- Order of two reals; without one if either is no number. -/
def compareDoubles? (left right : Float) : Option Ordering :=
  if left < right then some .lt
  else if left == right then some .eq
  else if right < left then some .gt
  else none

/-- Answer of a comparison operator. -/
def BinaryOp.holds? (ordering : Ordering) : BinaryOp → Option Bool
  | .equal => some (ordering == .eq)
  | .notEqual => some (ordering != .eq)
  | .less => some (ordering == .lt)
  | .lessEqual => some (ordering != .gt)
  | .greater => some (ordering == .gt)
  | .greaterEqual => some (ordering != .lt)
  | _ => none

namespace Constant

/-- Value of an operator on integers. -/
def intBinary? (op : BinaryOp) (left right : Int64) : Option Constant :=
  match op with
  | .add => (int64? (left.toInt + right.toInt)).map int
  | .subtract => (int64? (left.toInt - right.toInt)).map int
  | .multiply => (int64? (left.toInt * right.toInt)).map int
  | .divide => if right = 0 then none else (int64? (left.toInt.tdiv right.toInt)).map int
  | .remainder =>
    if right = 0 then none
    else (int64? (left.toInt.tdiv right.toInt)).map fun _ =>
      int (Int64.ofInt (left.toInt.tmod right.toInt))
  | .shiftLeft => (shift? right).map fun distance => int (left <<< distance)
  | .shiftRight => (shift? right).map fun distance => int (left >>> distance)
  | .bitAnd => some (int (left &&& right))
  | .bitOr => some (int (left ||| right))
  | .bitXor => some (int (left ^^^ right))
  | _ => (op.holds? (compare left.toInt right.toInt)).map bool

/-- Value of an operator on reals. -/
def doubleBinary? (op : BinaryOp) (left right : Float) : Option Constant :=
  match op with
  | .add => some (double (left + right))
  | .subtract => some (double (left - right))
  | .multiply => some (double (left * right))
  | .divide => some (double (left / right))
  | _ => do
    let ordering ← compareDoubles? left right
    return bool (← op.holds? ordering)

/-- Value of an operator on truth values. -/
def boolBinary? (op : BinaryOp) (left right : Bool) : Option Constant :=
  match op with
  | .logicalAnd => some (bool (left && right))
  | .logicalOr => some (bool (left || right))
  | .equal => some (bool (left == right))
  | .notEqual => some (bool (left != right))
  | _ => none

/-- Value of an operator on texts. -/
def textBinary? (op : BinaryOp) (left right : String) : Option Constant :=
  match op with
  | .add => some (text (left ++ right))
  | .equal => some (bool (left == right))
  | .notEqual => some (bool (left != right))
  | _ => none

/-- Value of a binary operator; operands of different sorts have none. -/
def binary? (op : BinaryOp) : Constant → Constant → Option Constant
  | .int left, .int right => intBinary? op left right
  | .double left, .double right => doubleBinary? op left right
  | .bool left, .bool right => boolBinary? op left right
  | .text left, .text right => textBinary? op left right
  | _, _ => none

def unary? : UnaryOp → Constant → Option Constant
  | .negate, .int value => (int64? (-value.toInt)).map int
  | .negate, .double value => some (double (-value))
  | .positive, .int value => some (int value)
  | .positive, .double value => some (double value)
  | .complement, .int value => some (int (~~~value))
  | .not, .bool value => some (bool (!value))
  | _, _ => none

/-- Value of a conversion; an integer keeps its number in every type that is not a real or a truth
value. -/
def convert? : Constant → TypeId → Option Constant
  | .int value, .double | .int value, .float => some (double value.toFloat)
  | .double value, .int => some (int value.toInt64)
  | .double value, .double | .double value, .float => some (double value)
  | .int value, .bool => some (bool (value != 0))
  | .bool value, .int => some (int (if value then 1 else 0))
  | .bool value, .double | .bool value, .float => some (double (if value then 1.0 else 0.0))
  | .bool value, .bool => some (bool value)
  | .text value, .string => some (text value)
  | .int value, _ => some (int value)
  | _, _ => none

end Constant

end Resolution
