import Resolution.Session

/-!
# The declaration scan

Before anything is resolved, every declaration gets a symbol, so that declarations may refer to each
other in any order.  A list of blocks is scanned in two passes: first every declaration gets a
placeholder in its scope, where namespaces and extensions join the fragments of a declaration with
the same name; then every placeholder gets its sort, type and scopes, and the blocks of all its
fragments are scanned in turn.
-/

namespace Resolution
namespace Resolve

/-- Report a name that is taken. -/
def reportRedeclared (span : Span) (existing : SymbolId) : Resolve Unit := do
  let first ← symbolOf existing
  report (((Diagnostic.error .redeclared s!"`{first.name}` is already declared in this scope").label
    span "redeclared here").related first.span "first declared here")

/-! ## Placeholders -/

/-- Create the symbol of a declaration. -/
def placeholder (id : NodeId) (scope : ScopeId) (enclosing : Option SymbolId) :
    Resolve SymbolId := do
  match (← kindOf id).header? with
  | none => throw (.misplaced .declaration (← kindOf id).describe)
  | some header =>
    let symbol ← onSymbols (Symbols.create header.name .placeholder header.span)
    updateSymbol symbol fun entry => { entry with node := some id, scope := some scope, enclosing }
    setSymbol id (some symbol)
    return symbol

/-- Whether a declaration may become a further fragment of a symbol: extensions join every
declaration, namespaces join namespaces, and objects and enums join extensions that came before
them. -/
def joinsFragments (existing : SymbolId) (id : NodeId) : Resolve Bool := do
  let symbol ← symbolOf existing
  match symbol.kind, symbol.node with
  | .placeholder, some first =>
    match ← kindOf id with
    | .extensionDecl _ _ => return true
    | .spaceDecl _ _ =>
      (← ask fun store => store.tree.fragments first).allM fun fragment => do
        match ← kindOf fragment with
        | .spaceDecl _ _ | .extensionDecl _ _ => return true
        | _ => return false
    | .objectDecl _ _ _ _ _ | .enumDecl _ _ _ =>
      (← ask fun store => store.tree.fragments first).allM fun fragment => do
        match ← kindOf fragment with
        | .extensionDecl _ _ => return true
        | _ => return false
    | _ => return false
  | _, _ => return false

/-- Append a declaration to the fragments of a symbol. -/
def appendFragment (symbol : SymbolId) (id : NodeId) : Resolve Unit := do
  match (← fragmentsOf symbol).getLast? with
  | some last => onTree (Table.update last fun node => { node with sibling := some id })
  | none => return
  setSymbol id (some symbol)

/-- Give a declaration a symbol and its scope a member for it, or let it join the fragments of a
symbol.  The answer is the new symbol, if there is one; a redeclared name gets a symbol that no
scope shows. -/
def declare (id : NodeId) (scope : ScopeId) (enclosing : Option SymbolId) :
    Resolve (Option SymbolId) := do
  match (← kindOf id).header? with
  | none => return none
  | some header =>
    match ← ask fun store => store.scopes.findLocal? store.types scope header.name with
    | some existing =>
      let existing ← memberSymbol existing
      if ← joinsFragments existing id then
        appendFragment existing id
        return none
      reportRedeclared header.span existing
      return some (← placeholder id scope enclosing)
    | none =>
      let symbol ← placeholder id scope enclosing
      let member ← onTypes (Types.createMember (.own symbol))
      match ← onNames (Environment.insert scope header.name member) with
      | .ok () => return some symbol
      | .error existing => throw (.reappeared existing)

/-- Give every listed declaration a placeholder, and answer the new symbols. -/
def declareAll (scope : ScopeId) (enclosing : Option SymbolId) :
    List NodeId → Resolve (List SymbolId)
  | [] => pure []
  | id :: rest => do
    let declared ← declare id scope enclosing
    return declared.toList ++ (← declareAll scope enclosing rest)

/-! ## Scopes and types -/

/-- Open the scope of a named type, which keeps its names in the member table of the type. -/
def openTypeScope (symbol : SymbolId) (kind : ScopeKind) (type : TypeId) (parent : Option ScopeId) :
    Resolve ScopeId := do
  let scope ← onScopes (Scopes.create kind parent (some symbol))
  onScopes (Scopes.bindType scope type)
  updateSymbol symbol fun entry => { entry with ownScope := some scope }
  return scope

/-- Give every listed type parameter a symbol and a type. -/
def declareParameters (owner : SymbolId) (scope : ScopeId) : List NodeId → Resolve (List SymbolId)
  | [] => pure []
  | id :: rest => do
    match ← declare id scope (some owner) with
    | none => declareParameters owner scope rest
    | some parameter =>
      updateSymbol parameter fun entry => { entry with kind := .typeParameter }
      let type ← onTypes (Types.createNamed .parameter parameter)
      onTypes (Types.update type fun entry => { entry with complete := true })
      updateSymbol parameter fun entry => { entry with type := some type }
      return parameter :: (← declareParameters owner scope rest)

/-- Declare the type parameters of a symbol, and answer the scope that the rest of its declaration
sees. -/
def openParameterScope (symbol : SymbolId) (parameters : List NodeId) : Resolve ScopeId := do
  let around := (← symbolOf symbol).scope.getD globalScope
  if parameters.isEmpty then
    return around
  let scope ← onScopes (Scopes.create .parameters (some around) (some symbol))
  let declared ← declareParameters symbol scope parameters
  updateSymbol symbol fun entry => { entry with parameters := declared }
  return scope

def parameterTypes (symbol : SymbolId) : Resolve (List TypeId) := do
  (← symbolOf symbol).parameters.mapM fun parameter => return (← symbolOf parameter).typeOrError

/-! ## Functions and variables -/

/-- Flags that the modifiers of a declaration set. -/
def writtenFlags (id : NodeId) : Resolve Flags := do
  match (← kindOf id).header? with
  | some header => return .ofModifiers header.modifiers
  | none => return .none

def enclosingKind? (symbol : SymbolId) : Resolve (Option SymbolKind) := do
  match (← symbolOf symbol).enclosing with
  | some enclosing => return some (← symbolOf enclosing).kind
  | none => return none

/-- Sort of a function: functions of objects and enums need an instance unless they are static, and
those named `new` create one. -/
def functionKind (enclosing : Option SymbolKind) (name : String) (flags : Flags) : SymbolKind :=
  if enclosing.any fun kind => kind.isObject || kind.isEnum then
    if name = "new" then .constructor
    else if flags.has .isStatic then .globalFunction
    else .instanceFunction
  else .globalFunction

/-- Flags of a function: without a body in an interface it is abstract, and what is abstract or
overrides is virtual. -/
def functionFlags (enclosing : Option SymbolKind) (kind : SymbolKind) (hasBody : Bool)
    (flags : Flags) :
    Flags :=
  let flags :=
    if kind = .instanceFunction ∧ enclosing = some .interface ∧ !hasBody then flags.add .isAbstract
    else flags
  if flags.has .isAbstract || flags.has .isOverride then flags.add .isVirtual else flags

def declareArguments (function : SymbolId) (scope : ScopeId) : List NodeId → Resolve (List SymbolId)
  | [] => pure []
  | id :: rest => do
    match ← declare id scope (some function) with
    | none => declareArguments function scope rest
    | some argument =>
      let flags ← writtenFlags id
      updateSymbol argument fun entry => { entry with kind := .argument, flags }
      return argument :: (← declareArguments function scope rest)

/-- Give a function its sort, flags, type parameters, scope and arguments. -/
def declareFunction (symbol : SymbolId) (id : NodeId) : Resolve Unit := do
  match ← kindOf id with
  | .functionDecl _ parameters arguments _ _ body =>
    let enclosing ← enclosingKind? symbol
    let entry ← symbolOf symbol
    let kind := functionKind enclosing entry.name entry.flags
    let flags := functionFlags enclosing kind body.isSome entry.flags
    updateSymbol symbol fun entry => { entry with kind, flags }
    let around ← openParameterScope symbol parameters
    let scope ← onScopes (Scopes.create .function (some around) (some symbol))
    updateSymbol symbol fun entry => { entry with ownScope := some scope }
    let declared ← declareArguments symbol scope arguments
    updateSymbol symbol fun entry => { entry with arguments := declared }
  | other => throw (.misplaced .functionDeclaration other.describe)

/-- Sort of a variable: values of an enum, fields of an object unless they are static, else globals.
-/
def variableKind (enclosing : Option SymbolKind) (flags : Flags) : SymbolKind :=
  match enclosing with
  | some .enum | some .flags => .enumValue
  | some .classType | some .interface =>
    if flags.has .isStatic then .globalVariable else .instanceVariable
  | _ => .globalVariable

/-! ## Fragments -/

/-- Block of a fragment that contributes members. -/
def fragmentBlock (id : NodeId) : Resolve NodeId := do
  match ← kindOf id with
  | .spaceDecl _ body | .extensionDecl _ body | .enumDecl _ _ body | .objectDecl _ _ _ _ body =>
    return body
  | other => throw (.misplaced .memberBlock other.describe)

def linkFragments : List NodeId → Resolve Unit
  | [] => pure ()
  | [last] => onTree (Table.update last fun node => { node with sibling := none })
  | first :: second :: rest => do
    onTree (Table.update first fun node => { node with sibling := some second })
    linkFragments (second :: rest)

def isExtension (id : NodeId) : Resolve Bool := do
  match ← kindOf id with
  | .extensionDecl _ _ => return true
  | _ => return false

/-- The fragments of a symbol with its first proper declaration in front, where there is one. -/
def orderFragments (symbol : SymbolId) : Resolve (Option (List NodeId)) := do
  let fragments ← fragmentsOf symbol
  match ← fragments.findM? fun fragment => return !(← isExtension fragment) with
  | none => return none
  | some primary =>
    if fragments.head? = some primary then
      return some fragments
    let ordered := primary :: fragments.erase primary
    linkFragments ordered
    updateSymbol symbol fun entry => { entry with node := some primary }
    return some ordered

/-- Flags that the fragments of a symbol set, and those it has from its surroundings. -/
def fragmentFlags (symbol : SymbolId) (fragments : List NodeId) : Resolve Flags := do
  let written ← fragments.mapM writtenFlags
  let flags := written.foldl Flags.union .none
  match (← symbolOf symbol).enclosing with
  | some enclosing =>
    if ← hasFlag enclosing .isImport then return flags.add .isImport else return flags
  | none => return flags

def reportStrayExtension (symbol : SymbolId) : Resolve Unit := do
  let entry ← symbolOf symbol
  report ((Diagnostic.error .strayExtension
    s!"extension of `{entry.name}`, which is never declared").label
    entry.span "no matching declaration")
  updateSymbol symbol fun entry => { entry with type := some .error }

/-! ## Types -/

/-- How the members of a declaration are scanned. -/
abbrev MemberScan := List NodeId → ScopeId → SymbolId → Resolve Unit

def declareSpace (scan : MemberScan) (symbol : SymbolId) (fragments : List NodeId) :
    Resolve Unit := do
  updateSymbol symbol fun entry => { entry with kind := .space }
  let type ← onTypes (Types.createNamed .space symbol)
  updateSymbol symbol fun entry => { entry with type := some type }
  let scope ← openTypeScope symbol .space type (← symbolOf symbol).scope
  scan fragments scope symbol
  onTypes (Types.update type fun entry => { entry with complete := true })

def declareEnum (scan : MemberScan) (symbol : SymbolId) (isFlags : Bool) (fragments : List NodeId) :
    Resolve Unit := do
  updateSymbol symbol fun entry => { entry with kind := if isFlags then .flags else .enum }
  let type ← onTypes (Types.createNamed (if isFlags then .flags else .enum) symbol)
  updateSymbol symbol fun entry => { entry with type := some type }
  let scope ← openTypeScope symbol .object type (← symbolOf symbol).scope
  scan fragments scope symbol

/-- Type of a class or interface: built-in classes have theirs already. -/
def objectType (symbol : SymbolId) (sort : ObjectSort) : Resolve TypeId := do
  let entry ← symbolOf symbol
  match if entry.span.isPrelude then Types.builtin? entry.name else none with
  | some type =>
    onTypes (Types.bindBuiltin type symbol)
    return type
  | none =>
    match sort with
    | .classType => onTypes (Types.createNamed .classType symbol)
    | .interface => onTypes (Types.createNamed .interface symbol)

/-- Declare a class or interface. -/
def declareObject (scan : MemberScan) (symbol : SymbolId) (sort : ObjectSort)
    (parameters : List NodeId)
    (fragments : List NodeId) : Resolve Unit := do
  updateSymbol symbol fun entry =>
    { entry with
      kind := match sort with
        | .classType => .classType
        | .interface => .interface }
  let type ← objectType symbol sort
  updateSymbol symbol fun entry => { entry with type := some type }
  let around ← openParameterScope symbol parameters
  onTypes (Types.setParameters type (← parameterTypes symbol))
  let scope ← openTypeScope symbol .object type (some around)
  scan fragments scope symbol

/-- Declare a symbol by the sort of its first fragment, and scan its members. -/
def assignSort (scan : MemberScan) (symbol : SymbolId) (flags : Flags) (primary : NodeId)
    (fragments : List NodeId) :
    Resolve Unit := do
  match ← kindOf primary with
  | .spaceDecl _ _ => declareSpace scan symbol fragments
  | .enumDecl _ isFlags _ => declareEnum scan symbol isFlags fragments
  | .objectDecl _ sort parameters _ _ => declareObject scan symbol sort parameters fragments
  | .functionDecl _ _ _ _ _ _ => declareFunction symbol primary
  | .variableDecl _ _ _ =>
    let kind := variableKind (← enclosingKind? symbol) flags
    updateSymbol symbol fun entry => { entry with kind }
  | .aliasDecl _ _ => updateSymbol symbol fun entry => { entry with kind := .alias }
  | .defineDecl _ _ => updateSymbol symbol fun entry => { entry with kind := .define }
  | other => throw (.misplaced .blockMember other.describe)

/-- Give a placeholder its sort, type and scopes, and scan its members. -/
def assignKind (scan : MemberScan) (symbol : SymbolId) : Resolve Unit := do
  match ← orderFragments symbol with
  | none => reportStrayExtension symbol
  | some fragments =>
    let flags ← fragmentFlags symbol fragments
    updateSymbol symbol fun entry => { entry with flags }
    match fragments with
    | [] => return
    | primary :: _ => assignSort scan symbol flags primary fragments

/-- Declare everything in a list of blocks, within a number of nested blocks. -/
def declareBlocks : Nat → List NodeId → ScopeId → Option SymbolId → Resolve Unit
  | 0, _, _, _ => throw .outOfFuel
  | fuel + 1, blocks, scope, enclosing => do
    let statements ← blocks.mapM blockStatements
    let created ← declareAll scope enclosing statements.flatten
    created.forM (assignKind fun fragments scope symbol => do
      declareBlocks fuel (← fragments.mapM fragmentBlock) scope (some symbol))

/-- Declare everything in a list of blocks; a tree has no more nested blocks than nodes. -/
def scan (blocks : List NodeId) : Resolve Unit := do
  declareBlocks ((← get).tree.size + 1) blocks globalScope none

/-! ## Later declarations -/

/-- Declare a function that the resolution itself appended to the members of a declaration. -/
def declareGenerated (id : NodeId) (scope : ScopeId) (enclosing : SymbolId) :
    Resolve (Option SymbolId) := do
  match ← declare id scope (some enclosing) with
  | none => return none
  | some symbol =>
    assignKind (fun _ _ _ => pure ()) symbol
    return some symbol

/-- Give a variable or function inside a body a symbol that no scope shows yet. -/
def declareLocal (id : NodeId) : Resolve SymbolId := do
  let context ← read
  let symbol ← placeholder id context.scope context.function
  let flags ← writtenFlags id
  updateSymbol symbol fun entry => { entry with flags }
  match ← kindOf id with
  | .functionDecl _ _ _ _ _ _ =>
    declareFunction symbol id
    updateSymbol symbol fun entry => { entry with kind := .localFunction }
  | .variableDecl _ _ _ => updateSymbol symbol fun entry => { entry with kind := .localVariable }
  | other => throw (.misplaced .localDeclaration other.describe)
  return symbol

/-- Make a local visible in the current scope. -/
def insertLocal (symbol : SymbolId) : Resolve Unit := do
  let entry ← symbolOf symbol
  let member ← onTypes (Types.createMember (.own symbol))
  match ← onNames (Environment.insert (← read).scope entry.name member) with
  | .ok () => return
  | .error existing => reportRedeclared entry.span (← memberSymbol existing)

end Resolve
end Resolution
