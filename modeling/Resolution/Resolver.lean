import Resolution.Session

/-!
# The resolver

Expressions, statements and symbols refer to each other without end, so every rule is written
against a resolver that handles what it refers to.  A rule never calls itself; the tower of
resolvers in `Resolution.Program` ties the rules together level by level.
-/

namespace Resolution

/-- How the parts that a rule refers to are handled. -/
class Resolver where
  /-- Steps left for building instances. -/
  fuel : Nat
  /-- Resolve an expression against the type its surroundings expect, and answer its type. -/
  expression : NodeId → Option TypeId → Resolve TypeId
  statement : NodeId → Resolve Unit
  /-- Settle a symbol, or report the cycle that it closes. -/
  settle : SymbolId → Resolve Unit

namespace Resolve

variable [Resolver]

/-- Settle a symbol that nothing was started on; an active one is used as it stands. -/
def settleIfUntouched (symbol : SymbolId) : Resolve Unit := do
  if (← symbolOf symbol).progress = .untouched then
    Resolver.settle symbol

def ensureMembers (type : TypeId) : Resolve Unit := do
  match ← askTypes fun types => types.symbol type with
  | some symbol => settleIfUntouched symbol
  | none => return

/-- Type of a member, after settling its symbol. -/
def memberType (member : MemberId) : Resolve TypeId := do
  let symbol ← memberSymbol member
  Resolver.settle symbol
  match (← symbolOf symbol).forwardedTo with
  | some target => Resolver.settle target
  | none => pure ()
  let symbols := (← get).symbols
  onTypes (Types.memberType symbols Resolver.fuel member)

/-- Whether a resolved node names a type rather than a value. -/
def isTypeReference (id : NodeId) : Resolve Bool := do
  let node ← Resolve.node id
  match node.kind with
  | .type _ => return true
  | .name "void" => return node.symbol.isNone
  | .name _ | .dot _ _ | .parameterize _ _ =>
    match node.symbol with
    | some symbol => return (← symbolOf symbol).kind.isType
    | none => return false
  | _ => return false

/-- Resolve an expression that must have a value, and answer its type. -/
def valueType (id : NodeId) (context : Option TypeId) : Resolve TypeId := do
  let type ← Resolver.expression id context
  if type = .error then
    return type
  if !(← isTypeReference id) then
    return type
  report ((Diagnostic.error .typeAsValue s!"`{← textOf type}` is a type, not a value").label
    (← spanOf id) "expected a value")
  setType id .error

/-- Resolve an expression that must name a type, and answer that type. -/
def typeNamed (id : NodeId) : Resolve TypeId := do
  let type ← Resolver.expression id none
  if type = .error then
    return type
  if ← isTypeReference id then
    if (← askTypes fun types => types.kind type) ≠ .space then
      return type
  report ((Diagnostic.error .notType "expected a type").label (← spanOf id) "not a type")
  setType id .error

/-- Convert a resolved node to a type; the answer tells whether that is possible. -/
def convertTo (id : NodeId) (target : TypeId) : Resolve Bool := do
  let source ← typeOf id
  if source = target ∨ source = .error ∨ target = .error then
    return true
  if source = .void then
    report ((Diagnostic.error .voidValue
      s!"expected `{← textOf target}`, found a `void` value").label
      (← spanOf id) "has no value")
    return false
  if !(← askTypes fun types => types.convertsImplicitly source target) then
    reportMismatch (← spanOf id) target source
    return false
  let _ ← onTree (Tree.wrap id .implicitCast)
  let _ ← setType id target
  return true

def condition (id : NodeId) : Resolve Unit := do
  let _ ← valueType id (some .bool)
  let _ ← convertTo id .bool

/-- Resolve values against expected types, as far as there are some. -/
def valueTypes : List NodeId → List TypeId → Resolve Unit
  | [], _ => pure ()
  | argument :: arguments, expected => do
    let _ ← valueType argument expected.head?
    valueTypes arguments expected.tail

end Resolve

end Resolution
