import Resolution.Fault
import Resolution.NameTable

/-!
# Types and members

Types stand in one table with the built-in ones at fixed positions.  Named types belong to a symbol,
function types are anonymous, and an instance of a generic type records the type arguments it was
built with.  A member is a symbol as seen through the member table of a type; a member taken over
from a base or a generic definition depends on the member it was taken from.
-/

namespace Resolution

/-- Sort of a type. -/
inductive TypeKind where
  | error
  | null
  | void
  /-- Anonymous signature. -/
  | function
  | space
  | classType
  | interface
  | enum
  | flags
  | parameter
  deriving DecidableEq, Repr

namespace TypeKind

def all : List TypeKind :=
  [.error, .null, .void, .function, .space, .classType, .interface, .enum, .flags, .parameter]

/-- One-word name of a sort. -/
def label : TypeKind → String
  | .error => "Error"
  | .null => "Null"
  | .void => "Void"
  | .function => "Function"
  | .space => "Namespace"
  | .classType => "Class"
  | .interface => "Interface"
  | .enum => "Enum"
  | .flags => "EnumFlags"
  | .parameter => "Parameter"

/-- Sort of a one-word name. -/
def ofLabel? (written : String) : Option TypeKind := all.find? fun kind => kind.label == written

def isObject : TypeKind → Bool
  | .classType | .interface => true
  | _ => false

def isEnum : TypeKind → Bool
  | .enum | .flags => true
  | _ => false

end TypeKind

/-- What is known about a type. -/
structure TypeEntry where
  kind : TypeKind
  symbol : Option SymbolId := none
  /-- Bases of an object, or result and arguments of a function. -/
  related : List TypeId := []
  arguments : Option (List TypeId) := none
  generic : Option TypeId := none
  parameters : List TypeId := []
  members : NameTable := .empty
  /-- Instances to be filled when the definition is complete. -/
  waiting : List TypeId := []
  /-- Whether bases and members are final. -/
  complete : Bool := false
  deriving Repr

/-- Whether the type is an instance of a generic definition. -/
def TypeEntry.isInstance (entry : TypeEntry) : Bool := entry.arguments.isSome

/-- A symbol as seen through a member table. -/
structure Member where
  symbol : SymbolId
  /-- Type of the member, once it is final. -/
  type : Option TypeId := none
  /-- Member it was taken from. -/
  dependency : Option MemberId := none
  /-- Instance whose type arguments apply to it. -/
  instanceType : Option TypeId := none
  deriving DecidableEq, Repr

namespace Member

/-- A member that its own type or scope declares. -/
def own (symbol : SymbolId) : Member := { symbol }

/-- A member taken from another one, inside an instance where one is given. -/
def dependent (symbol : SymbolId) (dependency : MemberId) (instanceType : Option TypeId) : Member :=
  { symbol, dependency := some dependency, instanceType }

/-- Whether the member was taken from another one. -/
def isInherited (member : Member) : Bool := member.dependency.isSome

end Member

/-- What makes two anonymous types or instances the same type. -/
inductive TypeKey where
  | applied (symbol : SymbolId) (arguments : List TypeId)
  | function (signature : List TypeId)
  deriving DecidableEq, Repr

/-- All types and members of a program. -/
structure Types where
  entries : Table TypeId TypeEntry
  members : Table MemberId Member
  /-- Function types and instances by what makes them the same. -/
  interned : List (TypeKey × TypeId)

namespace Types

def new : Types :=
  { entries :=
      ⟨#[{ kind := .error, complete := true }, { kind := .null, complete := true },
        { kind := .void, complete := true }, { kind := .classType }, { kind := .classType },
        { kind := .classType }, { kind := .classType }, { kind := .classType },
          { kind := .classType },
        { kind := .classType }]⟩
    members := .empty
    interned := [] }

/-- Position of the built-in type with a name. -/
def builtin? : String → Option TypeId
  | "bool" => some .bool
  | "int" => some .int
  | "float" => some .float
  | "double" => some .double
  | "string" => some .string
  | "List" => some .list
  | "Map" => some .map
  | _ => none

def size (types : Types) : Nat := types.entries.size

/-- What is known about a type. -/
def entry (types : Types) (type : TypeId) : Except Fault TypeEntry := types.entries.fetch type

def kind (types : Types) (type : TypeId) : Except Fault TypeKind := return (← types.entry type).kind

def symbol (types : Types) (type : TypeId) : Except Fault (Option SymbolId) :=
  return (← types.entry type).symbol

def member (types : Types) (id : MemberId) : Except Fault Member := types.members.fetch id

def findMember? (types : Types) (type : TypeId) (name : String) : Except Fault (Option MemberId) :=
  return (← types.entry type).members.find? name

def membersOf (types : Types) (type : TypeId) : Except Fault (List (String × MemberId)) :=
  return (← types.entry type).members.sorted

/-- Result of a function type; other types have none. -/
def result? (types : Types) (type : TypeId) : Except Fault (Option TypeId) := do
  let entry ← types.entry type
  match entry.kind, entry.related with
  | .function, result :: _ => return some result
  | .function, [] => throw .missing
  | _, _ => return none

/-- Arguments of a function type; other types have none. -/
def argumentsOf (types : Types) (type : TypeId) : Except Fault (List TypeId) := do
  let entry ← types.entry type
  match entry.kind, entry.related with
  | .function, _ :: arguments => return arguments
  | .function, [] => throw .missing
  | _, _ => return []

/-- Type parameters and type arguments that apply inside an instance. -/
def substitutionOf (types : Types) (type : TypeId) : Except Fault (List TypeId × List TypeId) := do
  let entry ← types.entry type
  match entry.generic, entry.arguments with
  | some generic, some arguments => return ((← types.entry generic).parameters, arguments)
  | _, _ => return ([], [])

/-- Whether a type parameter occurs in a type, within a number of steps. -/
def mentionsWithin (types : Types) : Nat → TypeId → Except Fault Bool
  | 0, _ => .error .outOfFuel
  | fuel + 1, type => do
    let entry ← types.entry type
    match entry.kind with
    | .parameter => return true
    | .function => entry.related.anyM (mentionsWithin types fuel)
    | _ => (entry.arguments.getD []).anyM (mentionsWithin types fuel)

def mentionsParameter (types : Types) (type : TypeId) : Except Fault Bool :=
  types.mentionsWithin (types.size + 1) type

/-! ## Changes -/

def update (type : TypeId) (change : TypeEntry → TypeEntry) : Action Types Unit :=
  Action.zoom Types.entries (fun types entries => { types with entries }) (Table.update type change)

/-- Store a further type. -/
def push (entry : TypeEntry) : Action Types TypeId :=
  Action.zoom Types.entries (fun types entries => { types with entries }) (Table.create entry)

/-- Create the type that a declaration introduces. -/
def createNamed (kind : TypeKind) (symbol : SymbolId) : Action Types TypeId :=
  push { kind, symbol := some symbol }

/-- Let a symbol declare a built-in type. -/
def bindBuiltin (type : TypeId) (symbol : SymbolId) : Action Types Unit :=
  update type fun entry => { entry with symbol := some symbol }

/-- Set the bases of an object, or result and arguments of a function. -/
def setRelated (type : TypeId) (related : List TypeId) : Action Types Unit :=
  update type fun entry => { entry with related }

def setParameters (type : TypeId) (parameters : List TypeId) : Action Types Unit :=
  update type fun entry => { entry with parameters }

/-- Store a further member. -/
def createMember (member : Member) : Action Types MemberId :=
  Action.zoom Types.members (fun types members => { types with members }) (Table.create member)

def updateMember (id : MemberId) (change : Member → Member) : Action Types Unit :=
  Action.zoom Types.members (fun types members => { types with members }) (Table.update id change)

/-- Give a name of a type a member, whatever it had before. -/
def setMember (type : TypeId) (name : String) (member : MemberId) : Action Types Unit :=
  update type fun entry => { entry with members := entry.members.set name member }

/-- Give a free name of a type a member; a taken name answers the member it has. -/
def insertMember (type : TypeId) (name : String) (member : MemberId) :
    Action Types (Except MemberId Unit) := do
  let entry ← Action.ofExcept ((← get).entry type)
  match entry.members.insert name member with
  | .error existing => return .error existing
  | .ok members =>
    update type fun entry => { entry with members }
    return .ok ()

def remember (key : TypeKey) (type : TypeId) : Action Types Unit :=
  modify fun types => { types with interned := (key, type) :: types.interned }

def interned? (types : Types) (key : TypeKey) : Option TypeId := types.interned.lookup key

end Types

end Resolution
