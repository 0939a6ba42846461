import Resolution.Resolver

/-!
# Names and members

A bare name is looked up in the scopes around it, a member in the member table of a type.  Using a
member settles its symbol, records it on the node, and checks that the member is visible and fits
the way it was reached.
-/

namespace Resolution

/-- How a member is reached. -/
inductive Access where
  /-- By its bare name, with the current instance implied. -/
  | bare
  | type
  | value
  deriving DecidableEq, Repr

/-- Complaint about the way a member is reached, where it does not fit. -/
def Access.complaint? (access : Access) (kind : SymbolKind) (name : String)
    (isStaticContext isStaticMember : Bool) : Option String :=
  match access with
  | .bare =>
    if kind.isInstanceMember && isStaticContext then
      some s!"instance member `{name}` used without an instance"
    else none
  | .type =>
    if kind.isInstanceMember then some s!"instance member `{name}` accessed through its type"
    else none
  | .value =>
    if isStaticMember || kind == .enumValue then
      some s!"static member `{name}` accessed through an instance"
    else none

namespace Resolve

/-- Whether a symbol belongs to an object or enum without needing an instance of it. -/
def isStaticMember (symbol : Symbol) : Resolve Bool := do
  match symbol.enclosing with
  | none => return false
  | some owner =>
    let around := (← symbolOf owner).kind
    return (around.isObject || around.isEnum) &&
      (symbol.kind == .globalFunction || symbol.kind == .globalVariable)

/-- Report a member that is reached in the wrong way. -/
def checkInstance (id : NodeId) (target : SymbolId) (access : Access) : Resolve Unit := do
  let symbol ← symbolOf target
  let isStaticContext := (← read).isStatic
  match access.complaint? symbol.kind symbol.name isStaticContext (← isStaticMember symbol) with
  | some complaint =>
    report ((Diagnostic.error .wrongInstance complaint).label (← spanOf id)
      "wrong context for this member")
  | none => return

/-- Whether a private or protected symbol of `owner` can be used here: inside of the owner always,
and where it is protected also inside of objects that extend the owner. -/
def isWithinReach (symbol : Symbol) (owner : SymbolId) : Resolve Bool := do
  let scope := (← read).scope
  let around ← (← ask fun store => store.scopes.chain scope).mapM fun scope =>
    ask fun store => store.scopes.fetch scope
  if around.any fun scope => scope.symbol == some owner then
    return true
  if !symbol.has .isProtected then
    return false
  let ownerType := (← symbolOf owner).typeOrError
  let objects := (around.filter fun scope => scope.kind == .object).filterMap Scope.type
  objects.anyM fun object => askTypes fun types => types.hasBase object ownerType

/-- Report the use of a private or protected symbol out of its reach. -/
def checkVisibility (id : NodeId) (target : SymbolId) : Resolve Unit := do
  let symbol ← symbolOf target
  if !(symbol.has .isPrivate || symbol.has .isProtected) then
    return
  match symbol.enclosing with
  | none => return
  | some owner =>
    if ← isWithinReach symbol owner then
      return
    let visibility := if symbol.has .isPrivate then "private" else "protected"
    let ownerName ← nameOf owner
    report (((Diagnostic.error .inaccessible
      s!"`{symbol.name}` is {visibility} to `{ownerName}`").label
      (← spanOf id) "not accessible here").related symbol.span "declared here")

variable [Resolver]

/-- Record the use of a member on a node, and answer its type. -/
def useMember (id : NodeId) (member : MemberId) (access : Access) : Resolve TypeId := do
  let symbol ← memberSymbol member
  let declared ← symbolOf symbol
  let isNamedType := declared.kind.isType && declared.type.isSome
  if !isNamedType then
    Resolver.settle symbol
  let settled ← symbolOf symbol
  if settled.kind = .ambiguous then
    report (((Diagnostic.error .ambiguous s!"`{settled.name}` is ambiguous").label (← spanOf id)
      "inherited from more than one base").note "qualify the name with the base that declares it")
    return .error
  let target ← memberTarget member
  setSymbol id (some target)
  checkVisibility id target
  checkInstance id target access
  if isNamedType then
    return (← symbolOf symbol).typeOrError
  memberType member

def bareName (id : NodeId) (name : String) : Resolve TypeId := do
  if name = "void" then
    return .void
  let scope := (← read).scope
  match ← ask fun store => store.scopes.find? store.types scope name with
  | some (_, member) => useMember id member .bare
  | none =>
    report (.undeclared (← spanOf id) name)
    return .error

def currentInstance (id : NodeId) : Resolve TypeId := do
  let context ← read
  match context.object, context.isStatic with
  | some object, false =>
    setSymbol id (some object)
    return (← symbolOf object).typeOrError
  | _, _ =>
    report ((Diagnostic.error .wrongInstance "`this` is not available here").label (← spanOf id)
      "no instance in a static context")
    return .error

def memberAccess (id target : NodeId) (name : String) : Resolve TypeId := do
  let container ← Resolver.expression target none
  if container = .error then
    return .error
  let access : Access := if ← isTypeReference target then .type else .value
  ensureMembers container
  match ← askTypes fun types => types.findMember? container name with
  | some member => useMember id member access
  | none =>
    let owner ← textOf container
    report ((Diagnostic.error .undeclared s!"`{owner}` has no member named `{name}`").label
      (← spanOf id) "unknown member")
    return .error

/-- Resolve a member of the expected type, which becomes the written target. -/
def expectedMember (id : NodeId) (name : String) (context : Option TypeId) : Resolve TypeId := do
  match context with
  | none =>
    report (((Diagnostic.error .uninferable s!"cannot tell which type `.{name}` belongs to").label
      (← spanOf id) "no type expected here").note "write the type explicitly, e.g. `Type.name`")
    return .error
  | some type =>
    if type = .error then
      return .error
    let target ← alloc (.type type) (← spanOf id)
    onTree (Tree.replace id (.dot (some target) name))
    memberAccess id target name

/-- Resolve a member access with or without a target. -/
def dot (id : NodeId) (target : Option NodeId) (name : String) (context : Option TypeId) :
    Resolve TypeId :=
  match target with
  | some target => memberAccess id target name
  | none => expectedMember id name context

end Resolve
end Resolution
