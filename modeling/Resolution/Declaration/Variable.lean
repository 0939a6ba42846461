import Resolution.Declaration.Modifiers
import Resolution.Expression.Literal
import Resolution.Purity
import Resolution.Statement

/-!
# Variables, aliases and defines

The type of a variable is declared or taken from its value.  Global and constant variables have pure
values, and constants have a value that folds to a literal.
-/

namespace Resolution
namespace Resolve

def setSymbolType (symbol : SymbolId) (type : TypeId) : Resolve Unit :=
  updateSymbol symbol fun entry => { entry with type := some type }

def setConstant (symbol : SymbolId) (constant : Constant) : Resolve Unit :=
  updateSymbol symbol fun entry => { entry with constant := some constant }

def reportMissingValue (symbol : Symbol) : Resolve Unit :=
  report ((Diagnostic.error .constWithoutValue s!"const `{symbol.name}` has no value").label
    symbol.span
    "needs an initializer")

/-- Report a variable whose type cannot be inferred. -/
def reportUntyped (symbol : Symbol) (message label : String) : Resolve Unit :=
  report ((Diagnostic.error .uninferable message).label symbol.span label)

def isPure (id : NodeId) : Resolve Bool := ask fun store => store.tree.isPure store.symbols id

variable [Resolver]

/-- Type that a variable takes from its value. -/
def inferredType (symbol : Symbol) (operand : NodeId) : Resolve TypeId := do
  let found ← valueType operand none
  if found = .null then
    reportUntyped symbol s!"cannot infer the type of `{symbol.name}` from `null`"
      "needs an explicit type"
    return .error
  if found = .void then
    report ((Diagnostic.error .voidValue
      s!"`{symbol.name}` is initialized with a value of type `void`").label (← spanOf operand)
      "has no value")
    return .error
  return found

/-- Type of a variable from its declared type and its value. -/
def variableType (symbol : Symbol) (declared : Option TypeId) (operand : Option NodeId) :
    Resolve TypeId := do
  match declared, operand with
  | some declared, some operand =>
    valueOfType declared operand
    return declared
  | some declared, none =>
    if symbol.has .isConst then
      reportMissingValue symbol
    return declared
  | none, some operand => inferredType symbol operand
  | none, none =>
    if symbol.has .isConst then
      reportMissingValue symbol
    else
      reportUntyped symbol s!"`{symbol.name}` needs a type or an initial value"
        "type cannot be inferred"
    return .error

/-- Check that the value of a global or constant variable is pure, and fold it; the value of a
constant is kept. -/
def fixValue (id : SymbolId) (symbol : Symbol) (operand : NodeId) : Resolve Unit := do
  if !(← isPure operand) then
    report (((Diagnostic.error .impure s!"initializer of `{symbol.name}` must be pure").label
      (← spanOf operand) "calls an impure function or assigns").note
      "global and const initializers run without side effects")
  fold operand
  if symbol.has .isConst then
    if (← typeOf operand) ≠ .error then
      match ← constantOf? operand with
      | some constant => setConstant id constant
      | none => reportNotConstant operand s!"value of const `{symbol.name}`"

def settleVariable (id : SymbolId) : Resolve Unit := do
  checkModifiers id
  let symbol ← symbolOf id
  match symbol.node with
  | none => return
  | some declaration =>
    match ← kindOf declaration with
    | .variableDecl _ declared operand =>
      let declared ← declared.mapM typeNamed
      setSymbolType id (← variableType symbol declared operand)
      match operand with
      | none => return
      | some operand =>
        if symbol.has .isConst || symbol.kind == .globalVariable then
          fixValue id symbol operand
    | other => throw (.misplaced .variableDeclaration other.describe)

def settleAlias (id : SymbolId) : Resolve Unit := do
  checkModifiers id
  match (← symbolOf id).node with
  | none => return
  | some declaration =>
    match ← kindOf declaration with
    | .aliasDecl _ target => setSymbolType id (← typeNamed target)
    | other => throw (.misplaced .aliasDeclaration other.describe)

def settleDefine (id : SymbolId) : Resolve Unit := do
  checkModifiers id
  match (← symbolOf id).node with
  | none => return
  | some declaration =>
    match ← kindOf declaration with
    | .defineDecl _ operand =>
      let type ← valueType operand none
      setSymbolType id type
      fold operand
      if type = .error then
        return
      match ← constantOf? operand with
      | some constant => setConstant id constant
      | none => reportNotConstant operand s!"value of define `{← nameOf id}`"
    | other => throw (.misplaced .defineDeclaration other.describe)

end Resolve
end Resolution
