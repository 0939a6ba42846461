import Resolution.Expression.Operator

/-!
# Assignments and steps

Only variables that are no constants can be written, and a pure function only writes what it owns.
A compound assignment calculates with the old value and stores a result that converts back.  An
indexed element is written through the function that implements `[]=`.
-/

namespace Resolution
namespace Resolve

/-- Report a pure function that writes a variable it does not own. -/
def checkOwnership (target : NodeId) (variableId : SymbolId) : Resolve Unit := do
  match (← read).function with
  | none => return
  | some function =>
    let owned := (← ask fun store => store.symbols.enclosingChain variableId).contains function
    let writer ← symbolOf function
    if writer.has .isPure && !owned then
      let name ← nameOf variableId
      report ((Diagnostic.error .impure
        s!"pure function `{writer.name}` assigns `{name}`, which it does not own").label
        (← spanOf target) "side effect")

def namedVariable? (id : NodeId) : Resolve (Option SymbolId) := do
  let node ← Resolve.node id
  match node.kind, node.symbol with
  | .name _, some symbol | .dot _ _, some symbol =>
    return if (← symbolOf symbol).kind.isVariable then some symbol else none
  | _, _ => return none

/-- Whether a resolved node names a variable that may be written; if not, that is reported. -/
def checkAssignable (target : NodeId) : Resolve Bool := do
  match ← namedVariable? target with
  | none =>
    if (← typeOf target) ≠ .error then
      report ((Diagnostic.error .notAssignable "cannot assign to this expression").label
        (← spanOf target) "not a variable")
    return false
  | some variableId =>
    let symbol ← symbolOf variableId
    if symbol.has .isConst || symbol.kind == .enumValue then
      report (((Diagnostic.error .notAssignable s!"cannot assign to constant `{symbol.name}`").label
        (← spanOf target) "constant").related symbol.span "declared here")
      return false
    checkOwnership target variableId
    return true

variable [Resolver]

/-- Type of the calculation in a compound assignment; only the value is converted. -/
def compoundNumeric (op : BinaryOp) (left right : NodeId) : Resolve (Option TypeId) := do
  let leftType ← typeOf left
  let rightType ← typeOf right
  match op with
  | .add | .subtract | .multiply | .divide =>
    match ← promote left right with
    | none => return none
    | some common =>
      let _ ← convertTo right common
      return some common
  | _ =>
    if op = .bitAnd ∨ op = .bitOr ∨ op = .bitXor then
      if ← areSameFlags leftType rightType then
        return some leftType
    if ← areIntegers leftType rightType then
      let _ ← convertTo right .int
      return some .int
    return none

/-- Type a compound assignment of a value to a variable. -/
def compoundAssignment (id : NodeId) (op base : BinaryOp) (left right : NodeId)
    (target found : TypeId) : Resolve TypeId := do
  if base = .add ∧ target = .string then
    if found ≠ .string then
      convertToText right
    return .string
  let result? ← if ← areNumbers target found then compoundNumeric base left right else pure none
  match result? with
  | none => mismatchedOperator id op.symbol [target, found]
  | some result =>
    if result = target then
      return target
    if ← askTypes fun types => types.convertsImplicitly result target then
      return target
    reportMismatch (← spanOf id) target result
    return .error

def assignVariable (id : NodeId) (op : BinaryOp) (left right : NodeId) : Resolve TypeId := do
  let target ← valueType left none
  if target = .error then
    let _ ← valueType right none
    return .error
  let found ← valueType right (some target)
  if !(← checkAssignable left) || found == .error then
    return .error
  match op.compoundBase? with
  | none =>
    let _ ← convertTo right target
    return target
  | some base => compoundAssignment id op base left right target found

def assignElement (id : NodeId) (op : BinaryOp) (left target place right : NodeId) :
    Resolve TypeId := do
  if op ≠ .assign then
    let _ ← valueType left none
    let _ ← valueType right none
    report ((Diagnostic.error .notAssignable
      s!"`{op.symbol}` cannot be applied to an indexed element").label (← spanOf id)
      "write `a[i] = a[i] op v` instead")
    return .error
  let targetType ← valueType target none
  let placeContext ← operatorContext targetType .assignIndex 0
  let valueContext ← operatorContext targetType .assignIndex 1
  let placeType ← valueType place placeContext
  let found ← valueType right valueContext
  if targetType = .error ∨ placeType = .error ∨ found = .error then
    return .error
  match ← operatorCall id .assignIndex target [place, right] with
  | some type => return type
  | none =>
    let owner ← textOf targetType
    report ((Diagnostic.error .notAssignable s!"elements of `{owner}` cannot be assigned").label
      (← spanOf left) "no `[]=` operator")
    return .error

def assignment (id : NodeId) (op : BinaryOp) (left right : NodeId) : Resolve TypeId := do
  match ← kindOf left with
  | .index target place => assignElement id op left target place right
  | _ => assignVariable id op left right

/-- Built-in rules for an operator with one operand. -/
def builtinUnary (op : UnaryOp) (operand : NodeId) (type : TypeId) : Resolve (Option TypeId) := do
  match op with
  | .negate | .positive =>
    if Types.isNumeric type then
      return some type
    if ← askTypes fun types => types.isEnum type then
      let _ ← convertTo operand .int
      return some .int
    return none
  | .complement =>
    if ← askTypes fun types => types.isFlags type then
      return some type
    if ← askTypes fun types => types.isIntegerLike type then
      let _ ← convertTo operand .int
      return some .int
    return none
  | _ => return none

/-- Resolve an increment or decrement of an operand with a known type. -/
def step (id : NodeId) (op : UnaryOp) (operand : NodeId) (type : TypeId) : Resolve TypeId := do
  if !Types.isNumeric type then
    return ← mismatchedOperator id op.symbol [type]
  let _ ← checkAssignable operand
  return type

def unary (id : NodeId) (op : UnaryOp) (operand : NodeId) (context : Option TypeId) :
    Resolve TypeId := do
  if op = .not then
    condition operand
    return .bool
  let type ← valueType operand (if op = .complement then context else none)
  if type = .error then
    return .error
  if op.isStep then
    return ← step id op operand type
  match ← builtinUnary op operand type with
  | some result => return result
  | none =>
    let call? ←
      match Overload.ofUnary? op with
      | some overload => operatorCall id overload operand []
      | none => pure none
    match call? with
    | some result => return result
    | none => mismatchedOperator id op.symbol [type]

end Resolve
end Resolution
