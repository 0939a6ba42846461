import Resolution.Declaration.Scan
import Resolution.Resolver

/-!
# Type arguments and casts

A generic type applied to type arguments is an instance of it; a generic function applied to type
arguments has its type parameters replaced.
-/

namespace Resolution
namespace Resolve

variable [Resolver]

/-- Number of type arguments that a resolved target takes, and its name in messages. -/
def genericArity (target : NodeId) (generic : TypeId) : Resolve (Nat × String) := do
  if ← isTypeReference target then
    let definition ← askTypes fun types => types.entry generic
    let name ← textOf generic
    return (if definition.isInstance then 0 else definition.parameters.length, name)
  else
    match (← node target).symbol with
    | some symbol =>
      let entry ← symbolOf symbol
      return (entry.parameters.length, entry.name)
    | none => return (0, "")

/-- Apply a resolved target to as many type arguments as it takes. -/
def applyGeneric (target : NodeId) (generic : TypeId) (arguments : List TypeId) :
    Resolve TypeId := do
  if ← isTypeReference target then
    onTypes (Types.parameterize Resolver.fuel generic arguments)
  else
    let parameters ←
      match (← node target).symbol with
      | some symbol => parameterTypes symbol
      | none => pure []
    onTypes (Types.substitute Resolver.fuel generic parameters arguments)

def typeApplication (id target : NodeId) (arguments : List NodeId) : Resolve TypeId := do
  let generic ← Resolver.expression target none
  let found ← arguments.mapM typeNamed
  setSymbol id (← node target).symbol
  if generic = .error ∨ found.contains .error then
    return .error
  let (expected, name) ← genericArity target generic
  if expected ≠ found.length then
    report ((Diagnostic.error .typeArgumentCount
      s!"`{name}` takes {expected} type argument(s), found {found.length}").label (← spanOf id)
      "wrong number of type arguments")
    return .error
  applyGeneric target generic found

def cast (id type operand : NodeId) : Resolve TypeId := do
  let target ← typeNamed type
  let found ← valueType operand (some target)
  if target = .error ∨ found = .error then
    return target
  if !(← askTypes fun types => types.convertsExplicitly found target) then
    let source ← textOf found
    let written ← textOf target
    report ((Diagnostic.error .invalidCast s!"cannot cast `{source}` to `{written}`").label
      (← spanOf id)
      "invalid cast")
  return target

end Resolve
end Resolution
