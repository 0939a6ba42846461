import Resolution.Expression.Literal
import Resolution.Expression.Overloading

/-!
# Operators

Built-in rules come first; an operator that none of them covers falls back to a function that
implements it.  Truth values combine with `&&`, `||` and `!`; anything with a common type compares;
texts absorb whatever has a `toString`; numbers, and enums as integers, calculate; and a set of
flags combines with its own kind.
-/

namespace Resolution
namespace Resolve

/-- An enum calculates as an integer. -/
def numberType (type : TypeId) : Resolve TypeId := do
  return if ← askTypes fun types => types.isEnum type then .int else type

/-- Type that two numbers have in common, with enums as integers. -/
def promote (left right : NodeId) : Resolve (Option TypeId) := do
  let leftType ← numberType (← typeOf left)
  let rightType ← numberType (← typeOf right)
  askTypes fun types => types.common? leftType rightType

/-- Whether two types are both numbers or enums. -/
def areNumbers (left right : TypeId) : Resolve Bool := do
  if ← askTypes fun types => types.isNumberLike left then
    askTypes fun types => types.isNumberLike right
  else
    return false

/-- Whether two types are both integers or enums. -/
def areIntegers (left right : TypeId) : Resolve Bool := do
  if ← askTypes fun types => types.isIntegerLike left then
    askTypes fun types => types.isIntegerLike right
  else
    return false

/-- Whether two types are one and the same set of flags. -/
def areSameFlags (left right : TypeId) : Resolve Bool := do
  if left = right then askTypes fun types => types.isFlags left else return false

variable [Resolver]

def convertBoth (left right : NodeId) (type : TypeId) : Resolve Unit := do
  let _ ← convertTo left type
  let _ ← convertTo right type

/-- Rule for an operator on integers. -/
def integerBinary (left right : NodeId) : Resolve (Option TypeId) := do
  if ← areIntegers (← typeOf left) (← typeOf right) then
    convertBoth left right .int
    return some .int
  else
    return none

/-- Rule for an operator on numbers and enums. -/
def numericBinary (op : BinaryOp) (left right : NodeId) : Resolve (Option TypeId) := do
  match op with
  | .add | .subtract | .multiply | .divide =>
    match ← promote left right with
    | none => return none
    | some common =>
      convertBoth left right common
      return some common
  | .remainder | .shiftLeft | .shiftRight => integerBinary left right
  | .bitAnd | .bitOr | .bitXor =>
    let leftType ← typeOf left
    if ← areSameFlags leftType (← typeOf right) then
      return some leftType
    integerBinary left right
  | _ => return none

/-- Turn a resolved operand into a call of its `toString`. -/
def convertToText (operand : NodeId) : Resolve Unit := do
  let type ← typeOf operand
  if type = .error then
    return
  if type = .null then
    let _ ← convertTo operand .string
    return
  ensureMembers type
  match ← askTypes fun types => types.findMember? type "toString" with
  | none =>
    let owner ← textOf type
    report ((Diagnostic.error .operatorMismatch s!"`{owner}` cannot be appended to a string").label
      (← spanOf operand) "has no `toString()`")
  | some member =>
    let function ← memberTarget member
    let functionType ← memberType member
    let _ ← onTree (Tree.wrap operand fun inner => .dot (some inner) "toString")
    setSymbol operand (some function)
    let _ ← setType operand functionType
    let _ ← onTree (Tree.wrap operand fun callee => .call callee [])
    let _ ← setType operand .string

/-- Turn a power into a call of the built-in function. -/
def powerCall (id left right : NodeId) : Resolve TypeId := do
  convertBoth left right .double
  match (← read).math with
  | none => return .double
  | some math =>
    match ← askTypes fun types => types.findMember? math "pow" with
    | none => return .double
    | some member =>
      let function ← memberTarget member
      let functionType ← memberType member
      let span ← spanOf id
      let target ← alloc (.type math) span
      let _ ← setType target math
      let callee ← alloc (.dot (some target) "pow") span
      setSymbol callee (some function)
      let _ ← setType callee functionType
      onTree (Tree.replace id (.call callee [left, right]))
      return .double

/-- Report an operator and answer the error type. -/
def mismatchedOperator (id : NodeId) (operator : String) (operands : List TypeId) :
    Resolve TypeId := do
  reportOperatorMismatch id operator operands
  return .error

/-- Rules for calculating, else a function that implements the operator. -/
def calculate (id : NodeId) (op : BinaryOp) (left right : NodeId) (leftType rightType : TypeId) :
    Resolve TypeId := do
  let builtin? ←
    if ← areNumbers leftType rightType then numericBinary op left right else pure none
  match builtin? with
  | some type => return type
  | none =>
    let call? ←
      match Overload.ofBinary? op with
      | some overload => operatorCall id overload left [right]
      | none => pure none
    match call? with
    | some type => return type
    | none => mismatchedOperator id op.symbol [leftType, rightType]

/-- Rule for an order comparison, else a function that implements it. -/
def compare (id : NodeId) (op : BinaryOp) (left right : NodeId) (leftType rightType : TypeId) :
    Resolve TypeId := do
  let common? ←
    if ← areNumbers leftType rightType then promote left right
    else askTypes fun types => types.common? leftType rightType
  match common? with
  | some common =>
    convertBoth left right common
    return .bool
  | none => calculate id op left right leftType rightType

def testEquality (id : NodeId) (op : BinaryOp) (left right : NodeId) (leftType rightType : TypeId) :
    Resolve TypeId := do
  match ← askTypes fun types => types.common? leftType rightType with
  | some common =>
    convertBoth left right common
    return .bool
  | none => mismatchedOperator id op.symbol [leftType, rightType]

/-- Rule for a concatenation with a text on either side. -/
def concatenate (left right : NodeId) (leftType rightType : TypeId) : Resolve TypeId := do
  if leftType ≠ .string then
    convertToText left
  if rightType ≠ .string then
    convertToText right
  return .string

/-- Type a binary operator over resolved operands. -/
def applyBinary (id : NodeId) (op : BinaryOp) (left right : NodeId) : Resolve TypeId := do
  let leftType ← typeOf left
  let rightType ← typeOf right
  match op with
  | .isIn =>
    match ← operatorCall id .isIn right [left] with
    | some type => return type
    | none => mismatchedOperator id op.symbol [leftType, rightType]
  | .equal | .notEqual => testEquality id op left right leftType rightType
  | .less | .lessEqual | .greater | .greaterEqual => compare id op left right leftType rightType
  | .add =>
    if leftType = .string ∨ rightType = .string then
      concatenate left right leftType rightType
    else
      calculate id op left right leftType rightType
  | .power =>
    if ← areNumbers leftType rightType then powerCall id left right
    else calculate id op left right leftType rightType
  | _ => calculate id op left right leftType rightType

/-- Resolve a binary operator that assigns nothing. -/
def binary (id : NodeId) (op : BinaryOp) (left right : NodeId) : Resolve TypeId := do
  if op = .logicalAnd ∨ op = .logicalOr then
    condition left
    condition right
    return .bool
  let (leftType, rightType) ← branchTypes left right none
  if leftType = .error ∨ rightType = .error then
    return .error
  applyBinary id op left right

end Resolve
end Resolution
