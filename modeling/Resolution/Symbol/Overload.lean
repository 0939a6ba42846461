import Resolution.Tree.Operator

/-!
# Overloadable operators

Operators that an instance function can implement, the tokens that name them, and the expressions
they stand behind.
-/

namespace Resolution

/-- Operator that an instance function can implement. -/
inductive Overload where
  | add
  | subtract
  | multiply
  | divide
  | remainder
  | power
  | shiftLeft
  | shiftRight
  | bitAnd
  | bitOr
  | bitXor
  /-- Three-way comparison behind the four order comparisons. -/
  | compare
  /-- Containment, looked up on the right operand. -/
  | isIn
  | index
  | assignIndex
  | negate
  | positive
  | complement
  deriving DecidableEq, Repr

namespace Overload

/-- Every overloadable operator, in order. -/
def all : List Overload :=
  [.add, .subtract, .multiply, .divide, .remainder, .power, .shiftLeft, .shiftRight, .bitAnd,
    .bitOr,
    .bitXor, .compare, .isIn, .index, .assignIndex, .negate, .positive, .complement]

/-- Token that names an operator. -/
def token : Overload → String
  | .add => "+"
  | .subtract => "-"
  | .multiply => "*"
  | .divide => "/"
  | .remainder => "%"
  | .power => "**"
  | .shiftLeft => "<<"
  | .shiftRight => ">>"
  | .bitAnd => "&"
  | .bitOr => "|"
  | .bitXor => "^"
  | .compare => "<=>"
  | .isIn => "in"
  | .index => "[]"
  | .assignIndex => "[]="
  | .negate => "unary-"
  | .positive => "unary+"
  | .complement => "~"

/-- One-word name of an operator. -/
def label : Overload → String
  | .add => "Add"
  | .subtract => "Subtract"
  | .multiply => "Multiply"
  | .divide => "Divide"
  | .remainder => "Remainder"
  | .power => "Power"
  | .shiftLeft => "ShiftLeft"
  | .shiftRight => "ShiftRight"
  | .bitAnd => "BitAnd"
  | .bitOr => "BitOr"
  | .bitXor => "BitXor"
  | .compare => "Compare"
  | .isIn => "In"
  | .index => "Index"
  | .assignIndex => "AssignIndex"
  | .negate => "Negate"
  | .positive => "Positive"
  | .complement => "Complement"

def ofToken? (written : String) : Option Overload := all.find? fun overload =>
    overload.token == written

/-- Position of an operator among all of them. -/
def position (overload : Overload) : Nat := all.idxOf overload

/-- Number of operands beside the receiver. -/
def argumentCount : Overload → Nat
  | .negate | .positive | .complement => 0
  | .assignIndex => 2
  | _ => 1

def ofBinary? : BinaryOp → Option Overload
  | .add => some .add
  | .subtract => some .subtract
  | .multiply => some .multiply
  | .divide => some .divide
  | .remainder => some .remainder
  | .power => some .power
  | .shiftLeft => some .shiftLeft
  | .shiftRight => some .shiftRight
  | .bitAnd => some .bitAnd
  | .bitOr => some .bitOr
  | .bitXor => some .bitXor
  | .less | .lessEqual | .greater | .greaterEqual => some .compare
  | .isIn => some .isIn
  | _ => none

def ofUnary? : UnaryOp → Option Overload
  | .negate => some .negate
  | .positive => some .positive
  | .complement => some .complement
  | _ => none

end Overload

end Resolution
