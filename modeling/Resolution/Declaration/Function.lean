import Resolution.Declaration.Modifiers
import Resolution.Declaration.Variable

/-!
# Signatures and overriding

The type of a function is built from its arguments and its result.  A function that overrides a
member of a base has the same type and purity as that member, which must be virtual.  Abstract
functions have no body, and only they and imported ones go without.
-/

namespace Resolution
namespace Resolve

/-- Report the presence or absence of a body that does not fit the modifiers. -/
def checkBody (symbol : Symbol) (hasBody : Bool) : Resolve Unit := do
  if symbol.has .isAbstract then
    if hasBody then
      report ((Diagnostic.error .bodyMismatch
        s!"abstract function `{symbol.name}` cannot have a body").label
        symbol.span "abstract, but has a body")
  else if !symbol.has .isImport && !hasBody then
    report (((Diagnostic.error .bodyMismatch s!"function `{symbol.name}` has no body").label
      symbol.span
      "body required").note "mark the function `abstract` or `import`, or give it a body")

variable [Resolver]

/-- Check a function against the virtual function that it overrides. -/
def checkOverridden (id : SymbolId) (type : TypeId) (base : Symbol) (baseType : TypeId) :
    Resolve Unit := do
  let symbol ← symbolOf id
  if !symbol.has .isOverride then
    report (((Diagnostic.error .missingOverride
      s!"`{symbol.name}` overrides a base member but is not marked `override`").label symbol.span
      "add `override`").related base.span "overridden member declared here")
  if baseType ≠ type ∧ baseType ≠ .error ∧ type ≠ .error then
    let found ← textOf type
    let overridden ← textOf baseType
    report (((Diagnostic.error .overrideType
      s!"`{symbol.name}` has type `{found}` but overrides a member of type `{overridden}`").label
        symbol.span
      "type differs from the overridden member").related base.span
        "overridden member declared here")
  if base.has .isPure != symbol.has .isPure then
    report (((Diagnostic.error .overridePurity
      s!"`{symbol.name}` and the member it overrides differ in purity").label symbol.span
      "purity differs").related base.span "overridden member declared here")
  updateSymbol id fun entry => { entry with flags := entry.flags.add .isVirtual }

/-- Check a function against the member of a base with its name, where there is one. -/
def checkOverride (id : SymbolId) (type : TypeId) : Resolve Unit := do
  let symbol ← symbolOf id
  match symbol.overridden with
  | none =>
    if symbol.has .isOverride then
      report ((Diagnostic.error .overridesNothing
        s!"`{symbol.name}` is marked `override` but overrides nothing").label symbol.span
        "no base member with this name")
  | some member =>
    let baseType ← memberType member
    let base ← symbolOf (← memberTarget member)
    if !base.kind.isFunction then
      return
    if !base.has .isVirtual then
      report (((Diagnostic.error .overridesNonVirtual
        s!"cannot override non-virtual `{symbol.name}`").label
        symbol.span "overrides a non-virtual member").related base.span "base member declared here")
      return
    checkOverridden id type base baseType

/-- Settle an argument, and answer its type. -/
def argumentType (argument : SymbolId) : Resolve TypeId := do
  Resolver.settle argument
  return (← symbolOf argument).typeOrError

/-- Result of a function: a constructor gives its object, and a function without a written result
gives nothing. -/
def resultType (id : SymbolId) (symbol : Symbol) (result : Option NodeId) : Resolve TypeId := do
  if symbol.kind = .constructor then
    match ← enclosingObject? id with
    | some object => return (← symbolOf object).typeOrError
    | none => return .error
  match result with
  | some result => inScope (symbol.ownScope.getD globalScope) (typeNamed result)
  | none => return .void

def settleFunction (id : SymbolId) : Resolve Unit := do
  checkModifiers id
  match ← enclosingObject? id with
  | some object => settleIfUntouched object
  | none => pure ()
  let symbol ← symbolOf id
  match symbol.node with
  | none => return
  | some declaration =>
    match ← kindOf declaration with
    | .functionDecl _ _ _ result _ body =>
      let arguments ← symbol.arguments.mapM argumentType
      let result ← resultType id symbol result
      let type ← onTypes (Types.functionType result arguments)
      setSymbolType id type
      if symbol.kind = .instanceFunction then
        checkOverride id type
      checkBody (← symbolOf id) body.isSome
    | other => throw (.misplaced .functionSymbol other.describe)

end Resolve
end Resolution
