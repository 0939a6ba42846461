import Resolution.Declaration.Enumeration
import Resolution.Declaration.Generated

/-!
# Classes, interfaces and enums

A class extends at most one class, written first, and any number of interfaces; an interface extends
interfaces.  Members of the bases become members of the object: a name from one base depends on the
member there, a name from several bases is merged when it is needed, and a function of the object
itself overrides.
-/

namespace Resolution

/-- Members of bases by name, in the order in which the names are met. -/
abbrev Inheritance := List (String × List MemberId)

/-- Take over a member under its name; the same member is taken over once. -/
def Inheritance.add (name : String) (member : MemberId) : Inheritance → Inheritance
  | [] => [(name, [member])]
  | (other, members) :: rest =>
    if other = name then
      (other, if members.contains member then members else members ++ [member]) :: rest
    else (other, members) :: add name member rest

/-- Whether an object may extend a type that stands at a position of its base list. -/
def TypeKind.isLegalBase (kind : TypeKind) (isClass : Bool) (position : Nat) : Bool :=
  match kind with
  | .classType => isClass && position == 0
  | .interface => true
  | _ => false

namespace Resolve

def reportInvalidBase (symbol : SymbolId) (isClass : Bool) (id : NodeId) (type : TypeId) :
    Resolve Unit := do
  let base ← textOf type
  let name ← nameOf symbol
  let rule :=
    if isClass then "a class may extend one class, written first, and any number of interfaces"
    else "an interface may only extend interfaces"
  report (((Diagnostic.error .invalidBase s!"`{base}` cannot be a base of `{name}`").label
    (← spanOf id)
    "invalid base type").note rule)

def reportFinalBase (id : NodeId) (type : TypeId) (base : Symbol) : Resolve Unit := do
  let name ← textOf type
  report (((Diagnostic.error .finalBase s!"cannot extend final class `{name}`").label (← spanOf id)
    "final class").related base.span "declared final here")

/-- Let a function of an object override a member of a base, unless it overrides another one
already. -/
def recordOverride (own : SymbolId) (member : MemberId) : Resolve Unit := do
  let symbol ← symbolOf own
  if symbol.kind.isFunction && symbol.overridden.isNone then
    updateSymbol own fun entry => { entry with overridden := some member }

/-- Take over the members of a base, except those that the object declares itself. -/
def inheritFrom (own : List (String × MemberId)) :
    List (String × MemberId) → Inheritance → Resolve Inheritance
  | [], inherited => pure inherited
  | (name, member) :: rest, inherited => do
    if name = "new" then
      inheritFrom own rest inherited
    else
      match own.find? fun entry => entry.1 == name with
      | some (_, ownMember) =>
        recordOverride (← memberSymbol ownMember) member
        inheritFrom own rest inherited
      | none => inheritFrom own rest (inherited.add name member)

def inheritedEntry (symbol : SymbolId) (name : String) (candidates : List MemberId) :
    Resolve Member := do
  match candidates with
  | [single] => return .dependent (← memberSymbol single) single none
  | _ =>
    let owner ← symbolOf symbol
    let unmerged ← onSymbols (Symbols.create name .unmerged owner.span)
    updateSymbol unmerged fun entry =>
      { entry with enclosing := some symbol, scope := owner.ownScope, candidates }
    return .own unmerged

/-- Add the members of the bases to the member table of a type. -/
def inheritMembers (symbol : SymbolId) (type : TypeId) (bases : List TypeId) : Resolve Unit := do
  let own ← askTypes fun types => types.membersOf type
  let inherited ← bases.foldlM (fun inherited base => do
    inheritFrom own (← askTypes fun types => types.membersOf base) inherited) ([] : Inheritance)
  inherited.forM fun entry => do
    let member ← onTypes (Types.createMember (← inheritedEntry symbol entry.1 entry.2))
    onTypes (Types.setMember type entry.1 member)

def isDecorated (symbol : SymbolId) : Resolve Bool := do
  (← fragmentsOf symbol).anyM fun fragment =>
    return (← kindOf fragment).header?.any fun header => !header.decorations.isEmpty

variable [Resolver]

/-- Resolve a base of an object; there is no answer where it cannot be extended. -/
def baseType? (symbol : SymbolId) (isClass : Bool) (scope : ScopeId) (position : Nat)
    (id : NodeId) :
    Resolve (Option TypeId) := do
  let type ← inScope scope (typeNamed id)
  if type = .error then
    return none
  let entry ← askTypes fun types => types.entry type
  if !entry.kind.isLegalBase isClass position then
    reportInvalidBase symbol isClass id type
    return none
  match entry.symbol with
  | none => return none
  | some base =>
    let declared ← symbolOf base
    if entry.kind = .classType ∧ declared.has .isFinal then
      reportFinalBase id type declared
      return none
    Resolver.settle base
    if (← get).cyclic.contains symbol || (← symbolOf base).typeOrError == .error then
      return none
    return some type

/-- Resolve the bases of an object from a position of its base list on. -/
def baseTypes (symbol : SymbolId) (isClass : Bool) (scope : ScopeId) :
    Nat → List NodeId → Resolve (List TypeId)
  | _, [] => pure []
  | position, id :: rest => do
    let type? ← baseType? symbol isClass scope position id
    return type?.toList ++ (← baseTypes symbol isClass scope (position + 1) rest)

/-- Bases of an object; they see its type parameters but not its members. -/
def objectBases (symbol : SymbolId) (isClass : Bool) : Resolve (List TypeId) := do
  let entry ← symbolOf symbol
  match entry.node with
  | none => return []
  | some primary =>
    match ← kindOf primary with
    | .objectDecl _ _ _ bases _ =>
      let around? ←
        match entry.ownScope with
        | some scope => ask fun store => store.scopes.parentOf scope
        | none => pure none
      baseTypes symbol isClass (around?.getD globalScope) 0 bases
    | _ => return []

/-- Settle the decorated functions of a type, so that the operators they implement are registered.
-/
def registerOperators (type : TypeId) : Resolve Unit := do
  (← askTypes fun types => types.membersOf type).forM fun entry => do
    let member ← askTypes fun types => types.member entry.2
    if !member.isInherited then
      if (← symbolOf member.symbol).kind = .instanceFunction then
        if ← isDecorated member.symbol then
          settleIfUntouched member.symbol

/-- Report the abstract members that a class leaves without an implementation. -/
def checkImplemented (owner : SymbolId) (type : TypeId) : Resolve Unit := do
  (← askTypes fun types => types.membersOf type).forM fun entry => do
    let candidate ← memberSymbol entry.2
    if (← symbolOf candidate).kind = .unmerged then
      Resolver.settle candidate
    let target ← symbolOf (← memberTarget entry.2)
    if target.has .isAbstract then
      let symbol ← symbolOf owner
      report ((((Diagnostic.error .unimplemented
        s!"`{symbol.name}` does not implement abstract member `{entry.1}`").label symbol.span
        "missing implementation").related target.span "declared abstract here").note
        "implement the member or mark the class `abstract`")

/-- Settle a class or interface. -/
def settleObject (id : SymbolId) : Resolve Unit := do
  checkModifiers id
  let symbol ← symbolOf id
  let type := symbol.typeOrError
  let isClass := symbol.kind == .classType
  let bases ← objectBases id isClass
  onTypes (Types.setRelated type bases)
  inheritMembers id type bases
  let isOwnClass := isClass && !(symbol.has .isImport)
  if isOwnClass then
    if (← askTypes fun types => types.findMember? type "new").isNone then
      generateConstructor id
  onTypes (Types.complete Resolver.fuel type)
  registerOperators type
  if isOwnClass && !(symbol.has .isAbstract) then
    checkImplemented id type

def settleEnum (id : SymbolId) : Resolve Unit := do
  checkModifiers id
  let symbol ← symbolOf id
  let type := symbol.typeOrError
  let values ← enumValues id
  values.forM Resolver.settle
  if !symbol.has .isImport then
    if (← askTypes fun types => types.findMember? type "toString").isNone then
      generateEnumText id values
  onTypes (Types.complete Resolver.fuel type)
  registerOperators type

end Resolve
end Resolution
