import Resolution.Declaration.Generated

/-!
# Enums

Every enum value has a number: a written constant, or the one that follows from its position.  In an
enum the numbers count up from the value before, in a set of flags each value has a bit of its own.
-/

namespace Resolution

/-- Number of the flag at a position; only 63 flags fit. -/
def flagNumber? (position : Nat) : Option Int64 :=
  if position < 63 then some (.ofNat (1 <<< position)) else none

/-- Number that follows the value before; the first number is zero. -/
def numberAfter (previous : Option Constant) : Int64 :=
  match previous.bind Constant.int? with
  | some number => number + 1
  | none => 0

namespace Resolve

/-- Symbol of an enum value among the statements of a block. -/
def enumValue? (id : NodeId) : Resolve (Option SymbolId) := do
  let node ← Resolve.node id
  match node.kind, node.symbol with
  | .variableDecl _ _ _, some symbol =>
    return if (← symbolOf symbol).kind = .enumValue then some symbol else none
  | _, _ => return none

def fragmentValues (fragment : NodeId) : Resolve (List SymbolId) := do
  match ← kindOf fragment with
  | .enumDecl _ _ body | .extensionDecl _ body =>
    return (← (← blockStatements body).mapM enumValue?).filterMap id
  | _ => return []

def enumValues (owner : SymbolId) : Resolve (List SymbolId) := do
  return (← (← fragmentsOf owner).mapM fragmentValues).flatten

variable [Resolver]

/-- Number of an enum value that has none written. -/
def impliedNumber (owner value : SymbolId) : Resolve Int64 := do
  let values ← enumValues owner
  let position := (values.idxOf? value).getD 0
  if (← symbolOf owner).kind = .flags then
    match flagNumber? position with
    | some number => return number
    | none =>
      let symbol ← symbolOf value
      report ((Diagnostic.error .notConstant
        s!"flags value `{symbol.name}` does not fit in 63 bits").label
        symbol.span "too many flags")
      return 0
  match (values.take position).getLast? with
  | none => return 0
  | some previous =>
    Resolver.settle previous
    return numberAfter (← symbolOf previous).constant

def writtenNumber (value : SymbolId) (operand : NodeId) : Resolve Int64 := do
  valueOfType .int operand
  fold operand
  match ← constantOf? operand with
  | some (.int number) => return number
  | _ =>
    if (← typeOf operand) ≠ .error then
      reportNotConstant operand s!"value of `{← nameOf value}`"
    return 0

def settleEnumValue (id : SymbolId) : Resolve Unit := do
  checkModifiers id
  match (← symbolOf id).enclosing with
  | none => return
  | some owner =>
    setSymbolType id (← symbolOf owner).typeOrError
    match (← symbolOf id).node with
    | none => return
    | some declaration =>
      match ← kindOf declaration with
      | .variableDecl _ _ operand =>
        let number ←
          match operand with
          | some operand => writtenNumber id operand
          | none => impliedNumber owner id
        setConstant id (.int number)
      | other => throw (.misplaced .enumValueDeclaration other.describe)

end Resolve
end Resolution
