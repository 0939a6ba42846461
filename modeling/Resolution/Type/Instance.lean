import Resolution.Symbol.Basic
import Resolution.Type.Basic

/-!
# Function types and instances

Equal signatures share one function type, and equal type arguments share one instance of a generic
definition.  An instance of a complete definition is filled at once; the instances of an incomplete
one wait until it is complete.  Filling an instance substitutes type arguments for type parameters,
which may ask for further instances, so these operations are given a number of steps.
-/

namespace Resolution
namespace Types

/-- Function type with the given result and arguments. -/
def functionType (result : TypeId) (arguments : List TypeId) : Action Types TypeId := do
  let signature := result :: arguments
  match (← get).interned? (.function signature) with
  | some type => return type
  | none =>
    let type ← push { kind := .function, related := signature, complete := true }
    remember (.function signature) type
    return type

/-- How a type changes when type arguments replace type parameters. -/
abbrev Substitution := TypeId → List TypeId → List TypeId → Action Types TypeId

/-- Take over the members of a definition, in order of creation. -/
def copyMembers (type : TypeId) : List (String × MemberId) → Action Types Unit
  | [] => pure ()
  | (name, source) :: rest => do
    let symbol := (← Action.ofExcept ((← get).member source)).symbol
    let copy ← createMember (.dependent symbol source (some type))
    setMember type name copy
    copyMembers type rest

/-- Fill an instance from its definition: bases by substitution, members as dependents. -/
def instantiate (substitution : Substitution) (type : TypeId) : Action Types Unit := do
  let types ← get
  match (← Action.ofExcept (types.entry type)).generic with
  | none => return
  | some generic =>
    let (parameters, arguments) ← Action.ofExcept (types.substitutionOf type)
    let bases := (← Action.ofExcept (types.entry generic)).related
    let related ← bases.mapM fun base => substitution base parameters arguments
    setRelated type related
    copyMembers type (← Action.ofExcept ((← get).membersOf generic))
    update type fun entry => { entry with complete := true }

/-- Instance of a definition with type arguments; without arguments it is the definition itself. -/
def parameterizeVia (substitution : Substitution) (generic : TypeId) (arguments : List TypeId) :
    Action Types TypeId := do
  if arguments.isEmpty then
    return generic
  let definition ← Action.ofExcept ((← get).entry generic)
  match definition.symbol with
  | none => throw (.anonymousGeneric generic)
  | some symbol =>
    match (← get).interned? (.applied symbol arguments) with
    | some type => return type
    | none =>
      let type ← push
        { kind := definition.kind, symbol := some symbol, arguments := some arguments,
          generic := some generic }
      remember (.applied symbol arguments) type
      if definition.complete then
        instantiate substitution type
      else
        update generic fun entry => { entry with waiting := entry.waiting ++ [type] }
      return type

/-- The type that a parameter is replaced by; a missing argument is the error type. -/
def replacement? (type : TypeId) (parameters arguments : List TypeId) : Option TypeId :=
  (parameters.idxOf? type).map fun position => arguments.getD position .error

/-- Replace type parameters in a type, all at once, within a number of steps. -/
def substitute : Nat → Substitution
  | 0 => fun _ _ _ => throw .outOfFuel
  | fuel + 1 => fun type parameters arguments => do
    if parameters.isEmpty then
      return type
    match replacement? type parameters arguments with
    | some argument => return argument
    | none =>
      let entry ← Action.ofExcept ((← get).entry type)
      match entry.kind, entry.arguments with
      | .function, _ =>
        let replaced ← entry.related.mapM fun part => substitute fuel part parameters arguments
        if replaced = entry.related then
          return type
        match replaced with
        | result :: rest => functionType result rest
        | [] => throw .missing
      | _, some existing =>
        let replaced ← existing.mapM fun part => substitute fuel part parameters arguments
        if replaced = existing then
          return type
        match entry.generic with
        | some generic => parameterizeVia (substitute fuel) generic replaced
        | none => return type
      | _, none => return type

def substituteAll (fuel : Nat) (types parameters arguments : List TypeId) :
    Action Types (List TypeId) :=
  types.mapM fun type => substitute fuel type parameters arguments

/-- Instance of a definition with type arguments, within a number of steps. -/
def parameterize (fuel : Nat) (generic : TypeId) (arguments : List TypeId) : Action Types TypeId :=
  parameterizeVia (substitute fuel) generic arguments

/-- Declare a definition complete and fill the instances that wait for it. -/
def complete (fuel : Nat) (type : TypeId) : Action Types Unit := do
  let waiting := (← Action.ofExcept ((← get).entry type)).waiting
  update type fun entry => { entry with complete := true, waiting := [] }
  waiting.forM (instantiate (substitute fuel))

/-- Type of a member: the type of its symbol with the type arguments of every instance it was taken
through.  It is final once the symbol is settled. -/
def memberType (symbols : Symbols) : Nat → MemberId → Action Types TypeId
  | 0, _ => throw .outOfFuel
  | fuel + 1, id => do
    let member ← Action.ofExcept ((← get).member id)
    match member.type with
    | some type => return type
    | none =>
      let base ←
        match member.dependency with
        | some dependency => memberType symbols fuel dependency
        | none => pure (← Action.ofExcept (symbols.fetch member.symbol)).typeOrError
      let type ←
        match member.instanceType with
        | some context =>
          let (parameters, arguments) ← Action.ofExcept ((← get).substitutionOf context)
          substitute fuel base parameters arguments
        | none => pure base
      let symbol ← Action.ofExcept (symbols.fetch member.symbol)
      if symbol.progress = .settled ∧ base ≠ .error then
        updateMember id fun member => { member with type := some type }
      return type

end Types
end Resolution
