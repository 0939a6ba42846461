/-!
# Operators

Unary and binary operators of expressions, with their symbols.
-/

namespace Resolution

/-- Operators with one operand. -/
inductive UnaryOp where
  | negate
  | positive
  | not
  | complement
  | preIncrement
  | preDecrement
  | postIncrement
  | postDecrement
  deriving DecidableEq, Repr

namespace UnaryOp

def all : List UnaryOp :=
  [.negate, .positive, .not, .complement, .preIncrement, .preDecrement, .postIncrement,
    .postDecrement]

/-- Symbol of an operator; both positions of a step share one. -/
def symbol : UnaryOp → String
  | .negate => "-"
  | .positive => "+"
  | .not => "!"
  | .complement => "~"
  | .preIncrement | .postIncrement => "++"
  | .preDecrement | .postDecrement => "--"

/-- Spelling that also tells on which side a step stands. -/
def spelling : UnaryOp → String
  | .preIncrement => "++x"
  | .preDecrement => "--x"
  | .postIncrement => "x++"
  | .postDecrement => "x--"
  | op => op.symbol

def ofSpelling? (written : String) : Option UnaryOp := all.find? fun op => op.spelling == written

/-- Whether the operator changes its operand. -/
def isStep (op : UnaryOp) : Bool :=
  [preIncrement, preDecrement, postIncrement, postDecrement].contains op

end UnaryOp

/-- Operators with two operands. -/
inductive BinaryOp where
  | add
  | subtract
  | multiply
  | divide
  | remainder
  | power
  | shiftLeft
  | shiftRight
  | bitAnd
  | bitOr
  | bitXor
  | logicalAnd
  | logicalOr
  | equal
  | notEqual
  | less
  | lessEqual
  | greater
  | greaterEqual
  | isIn
  | assign
  | assignAdd
  | assignSubtract
  | assignMultiply
  | assignDivide
  | assignRemainder
  | assignShiftLeft
  | assignShiftRight
  | assignBitAnd
  | assignBitOr
  | assignBitXor
  deriving DecidableEq, Repr

namespace BinaryOp

def all : List BinaryOp :=
  [.add, .subtract, .multiply, .divide, .remainder, .power, .shiftLeft, .shiftRight, .bitAnd,
    .bitOr,
    .bitXor, .logicalAnd, .logicalOr, .equal, .notEqual, .less, .lessEqual, .greater, .greaterEqual,
    .isIn, .assign, .assignAdd, .assignSubtract, .assignMultiply, .assignDivide, .assignRemainder,
    .assignShiftLeft, .assignShiftRight, .assignBitAnd, .assignBitOr, .assignBitXor]

def symbol : BinaryOp → String
  | .add => "+"
  | .subtract => "-"
  | .multiply => "*"
  | .divide => "/"
  | .remainder => "%"
  | .power => "**"
  | .shiftLeft => "<<"
  | .shiftRight => ">>"
  | .bitAnd => "&"
  | .bitOr => "|"
  | .bitXor => "^"
  | .logicalAnd => "&&"
  | .logicalOr => "||"
  | .equal => "=="
  | .notEqual => "!="
  | .less => "<"
  | .lessEqual => "<="
  | .greater => ">"
  | .greaterEqual => ">="
  | .isIn => "in"
  | .assign => "="
  | .assignAdd => "+="
  | .assignSubtract => "-="
  | .assignMultiply => "*="
  | .assignDivide => "/="
  | .assignRemainder => "%="
  | .assignShiftLeft => "<<="
  | .assignShiftRight => ">>="
  | .assignBitAnd => "&="
  | .assignBitOr => "|="
  | .assignBitXor => "^="

def ofSymbol? (written : String) : Option BinaryOp := all.find? fun op => op.symbol == written

/-- The operator that a compound assignment applies before it stores. -/
def compoundBase? : BinaryOp → Option BinaryOp
  | .assignAdd => some .add
  | .assignSubtract => some .subtract
  | .assignMultiply => some .multiply
  | .assignDivide => some .divide
  | .assignRemainder => some .remainder
  | .assignShiftLeft => some .shiftLeft
  | .assignShiftRight => some .shiftRight
  | .assignBitAnd => some .bitAnd
  | .assignBitOr => some .bitOr
  | .assignBitXor => some .bitXor
  | _ => none

/-- Plain and compound assignments. -/
def isAssign (op : BinaryOp) : Bool := op == .assign || op.compoundBase?.isSome

/-- The four order comparisons. -/
def isRelational (op : BinaryOp) : Bool := [less, lessEqual, greater, greaterEqual].contains op

/-- The two equality comparisons. -/
def isEquality (op : BinaryOp) : Bool := [equal, notEqual].contains op

end BinaryOp

end Resolution
