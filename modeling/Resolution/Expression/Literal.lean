import Resolution.Resolver

/-!
# Expressions that take their type from the context

List and map literals take their element types from the expected type; without one, their elements
are resolved on their own and converted to the type they have in common.  The branches of a
conditional expression are treated in the same way.
-/

namespace Resolution

/-- Whether a node can only be typed with help from its context, within a number of levels. -/
def Tree.needsContextWithin (tree : Tree) : Nat → NodeId → Except Fault Bool
  | 0, _ => .error .outOfFuel
  | fuel + 1, id => do
    match (← tree.fetch id).kind with
    | .list _ | .map _ | .hook _ _ _ | .dot none _ => return true
    | .unary .complement value => needsContextWithin tree fuel value
    | _ => return false

namespace Resolve

/-- Whether a node can only be typed with help from its context. -/
def needsContext (id : NodeId) : Resolve Bool :=
  ask fun store => store.tree.needsContextWithin (store.tree.size + 1) id

/-- Type arguments of the expected type, where it is an instance of a definition. -/
def expectedArguments (context : Option TypeId) (definition : TypeId) :
    Resolve (Option (List TypeId)) := do
  match context with
  | none => return none
  | some type =>
    let entry ← askTypes fun types => types.entry type
    return if entry.generic = some definition then entry.arguments else none

/-- Report a literal whose element type is unknown. -/
def reportUninferable (id : NodeId) (what : String) : Resolve Unit := do
  report (((Diagnostic.error .uninferable
    s!"cannot infer the element type of this {what} literal").label
    (← spanOf id) "element type unknown").note
    "give the literal an expected type, e.g. through a declared variable")

variable [Resolver]

/-- Resolve a value against a type and convert it. -/
def valueOfType (type : TypeId) (id : NodeId) : Resolve Unit := do
  let _ ← valueType id (some type)
  let _ ← convertTo id type

/-- Resolve further elements, and answer the type that they have in common with the ones before. -/
def joinElements (what : String) : TypeId → List NodeId → Resolve (Option TypeId)
  | common, [] => return some common
  | common, element :: rest => do
    let type ← valueType element none
    match ← askTypes fun types => types.common? common type with
    | some next => joinElements what next rest
    | none =>
      let first ← textOf common
      let second ← textOf type
      report ((Diagnostic.error .mismatch
        s!"{what} elements have no common type: `{first}` and `{second}`").label (← spanOf element)
        "incompatible element")
      return none

/-- Resolve the elements of a literal without context and convert them to the type they have in
common.  There is no answer for a literal without elements. -/
def commonElementType (literal : NodeId) (what : String) : List NodeId → Resolve (Option TypeId)
  | [] => do
    reportUninferable literal what
    return none
  | first :: rest => do
    let type ← valueType first none
    match ← joinElements what type rest with
    | none => return some .error
    | some common =>
      if common = .null ∨ common = .void then
        reportUninferable literal what
        return some .error
      (first :: rest).forM fun element => do
        let _ ← convertTo element common
      return some common

def listLiteral (id : NodeId) (elements : List NodeId) (context : Option TypeId) :
    Resolve TypeId := do
  let element? ←
    match ← expectedArguments context .list with
    | some [element] => do
      elements.forM (valueOfType element)
      pure (some element)
    | _ => commonElementType id "list" elements
  match element? with
  | none => return .error
  | some element =>
    if element = .error then
      return .error
    onTypes (Types.parameterize Resolver.fuel .list [element])

/-- Key and value of a map entry. -/
def pairOf (entry : NodeId) : Resolve (NodeId × NodeId) := do
  match ← kindOf entry with
  | .pair key value => return (key, value)
  | other => throw (.misplaced .mapEntry other.describe)

/-- Resolve map entries against the expected types. -/
def expectedEntries (key value : TypeId) : List (NodeId × NodeId × NodeId) → Resolve Unit
  | [] => pure ()
  | (entry, left, right) :: rest => do
    valueOfType key left
    valueOfType value right
    let _ ← setType entry value
    expectedEntries key value rest

/-- Resolve map entries without context; keys are tried first. -/
def inferredEntries (id : NodeId) (entries : List (NodeId × NodeId × NodeId)) :
    Resolve (Option (TypeId × TypeId)) := do
  let key? ← commonElementType id "map" (entries.map fun entry => entry.2.1)
  let value? ←
    if key?.isSome then commonElementType id "map" (entries.map fun entry => entry.2.2)
    else pure none
  entries.forM fun entry => do
    let _ ← setType entry.1 (value?.getD .error)
  match key?, value? with
  | some key, some value => return some (key, value)
  | _, _ => return none

def mapLiteral (id : NodeId) (entries : List NodeId) (context : Option TypeId) :
    Resolve TypeId := do
  let entries ← entries.mapM fun entry => return (entry, ← pairOf entry)
  let types? ←
    match ← expectedArguments context .map with
    | some [key, value] => do
      expectedEntries key value entries
      pure (some (key, value))
    | _ => inferredEntries id entries
  match types? with
  | none => return .error
  | some (key, value) =>
    if key = .error ∨ value = .error then
      return .error
    onTypes (Types.parameterize Resolver.fuel .map [key, value])

/-- Resolve two expressions side by side, the one that needs context after the other. -/
def branchTypes (yes no : NodeId) (context : Option TypeId) : Resolve (TypeId × TypeId) := do
  let noFirst ←
    if context.isNone then
      if ← needsContext yes then pure !(← needsContext no) else pure false
    else pure false
  if noFirst then
    let noType ← valueType no none
    let yesType ← valueType yes (some noType)
    return (yesType, noType)
  else
    let yesType ← valueType yes context
    let noType ← valueType no (context <|> some yesType)
    return (yesType, noType)

def conditional (test yes no : NodeId) (context : Option TypeId) : Resolve TypeId := do
  condition test
  let (yesType, noType) ← branchTypes yes no context
  if yesType = .error ∨ noType = .error then
    return .error
  match ← askTypes fun types => types.common? yesType noType with
  | some common =>
    let _ ← convertTo yes common
    let _ ← convertTo no common
    return common
  | none =>
    let first ← textOf yesType
    let second ← textOf noType
    report (((Diagnostic.error .mismatch
      s!"branches of `?:` have no common type: `{first}` and `{second}`").label (← spanOf no)
      "incompatible branch").related (← spanOf yes) "other branch")
    return .error

end Resolve
end Resolution
