import Resolution.Chain
import Resolution.Type.Basic

/-!
# Scopes

A scope is a table of names with a link to the scope around it.  A scope bound to a type keeps new
names in the member table of that type, which is how members become visible inside a declaration.
-/

namespace Resolution

/-- Sort of a scope. -/
inductive ScopeKind where
  | global
  | space
  | object
  | parameters
  | function
  /-- A block inside a function body. -/
  | block
  deriving DecidableEq, Repr

namespace ScopeKind

def all : List ScopeKind := [.global, .space, .object, .parameters, .function, .block]

/-- One-word name of a sort. -/
def label : ScopeKind → String
  | .global => "Global"
  | .space => "Namespace"
  | .object => "Object"
  | .parameters => "Parameters"
  | .function => "Function"
  | .block => "Local"

/-- Sort of a one-word name. -/
def ofLabel? (written : String) : Option ScopeKind := all.find? fun kind => kind.label == written

end ScopeKind

/-- A table of names inside another one. -/
structure Scope where
  kind : ScopeKind
  parent : Option ScopeId := none
  symbol : Option SymbolId := none
  /-- Type that keeps its names. -/
  type : Option TypeId := none
  locals : NameTable := .empty
  deriving Repr

/-- All scopes of a program. -/
abbrev Scopes := Table ScopeId Scope

namespace Scopes

def create (kind : ScopeKind) (parent : Option ScopeId) (symbol : Option SymbolId) :
    Action Scopes ScopeId :=
  Table.create { kind, parent, symbol }

/-- Let a type keep the names of a scope from now on. -/
def bindType (scope : ScopeId) (type : TypeId) : Action Scopes Unit :=
  Table.update scope fun entry => { entry with type := some type }

variable (scopes : Scopes)

/-- Link to the scope around a scope. -/
def parentOf (scope : ScopeId) : Except Fault (Option ScopeId) :=
  return (← scopes.fetch scope).parent

def findLocal? (types : Types) (scope : ScopeId) (name : String) : Except Fault (Option MemberId) :=
  do
  let entry ← scopes.fetch scope
  match entry.locals.find? name with
  | some member => return some member
  | none =>
    match entry.type with
    | some type => types.findMember? type name
    | none => return none

/-- Member of a name in a scope or the nearest scope around it that has one. -/
def find? (types : Types) (scope : ScopeId) (name : String) :
    Except Fault (Option (ScopeId × MemberId)) :=
  Chain.find? scopes.parentOf
    (fun here => return (← scopes.findLocal? types here name).map fun member => (here, member))
    (scopes.size + 1) scope

/-- A scope and the scopes around it. -/
def chain (scope : ScopeId) : Except Fault (List ScopeId) :=
  Chain.toList scopes.parentOf (scopes.size + 1) scope

def nearest? (scope : ScopeId) (kinds : List ScopeKind) : Except Fault (Option ScopeId) :=
  Chain.find? scopes.parentOf
    (fun here => return if kinds.contains (← scopes.fetch here).kind then some here else none)
    (scopes.size + 1) scope

end Scopes

/-- Scopes together with the types that keep their names. -/
structure Environment where
  scopes : Scopes
  types : Types

namespace Environment

/-- Give a free name of a scope a member; a taken name answers the member it has. -/
def insert (scope : ScopeId) (name : String) (member : MemberId) :
    Action Environment (Except MemberId Unit) := do
  let entry ← Action.ofExcept ((← get).scopes.fetch scope)
  match entry.type with
  | some type =>
    Action.zoom Environment.types (fun environment types => { environment with types })
      (Types.insertMember type name member)
  | none =>
    match entry.locals.insert name member with
    | .error existing => return .error existing
    | .ok locals =>
      Action.zoom Environment.scopes (fun environment scopes => { environment with scopes })
        (Table.update scope fun entry => { entry with locals })
      return .ok ()

end Environment

end Resolution
