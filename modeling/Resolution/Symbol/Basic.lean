import Resolution.Chain
import Resolution.Constant.Basic
import Resolution.Symbol.Flag
import Resolution.Symbol.Kind
import Resolution.Symbol.Overload

/-!
# Symbols

A symbol is the identity of a declaration.  It starts with a name and a sort; its type and whatever
depends on it are settled when they are first needed.  A symbol is untouched, then active, then
settled, and never goes back.
-/

namespace Resolution

/-- How far a symbol is settled. -/
inductive Progress where
  | untouched
  | active
  | settled
  deriving DecidableEq, Repr

/-- One-word name of a progress. -/
def Progress.label : Progress → String
  | .untouched => "Uninitialized"
  | .active => "InProgress"
  | .settled => "Done"

/-- Identity of a declaration and what is known about it. -/
structure Symbol where
  name : String
  kind : SymbolKind
  span : Span
  flags : Flags := .none
  progress : Progress := .untouched
  type : Option TypeId := none
  /-- First fragment of the declaration. -/
  node : Option NodeId := none
  enclosing : Option SymbolId := none
  scope : Option ScopeId := none
  /-- Scope that the declaration opens. -/
  ownScope : Option ScopeId := none
  parameters : List SymbolId := []
  arguments : List SymbolId := []
  /-- Member of a base that this one overrides. -/
  overridden : Option MemberId := none
  /-- Inherited members to be merged. -/
  candidates : List MemberId := []
  /-- Symbol that this one stands for. -/
  forwardedTo : Option SymbolId := none
  /-- Operators and the functions that implement them, in order of registration. -/
  overloads : List (Overload × SymbolId) := []
  constant : Option Constant := none
  emitAs : Option String := none
  includes : List String := []

namespace Symbol

def has (symbol : Symbol) (flag : Flag) : Bool := symbol.flags.has flag

/-- Type of the symbol; the error type where it has none. -/
def typeOrError (symbol : Symbol) : TypeId := symbol.type.getD .error

def isSettled (symbol : Symbol) : Bool := symbol.progress == .settled

/-- Functions that implement an operator. -/
def overloadsOf (symbol : Symbol) (overload : Overload) : List SymbolId :=
  (symbol.overloads.filter fun entry => entry.1 == overload).map Prod.snd

/-- Let a function implement an operator. -/
def register (symbol : Symbol) (overload : Overload) (function : SymbolId) : Symbol :=
  { symbol with overloads := symbol.overloads ++ [(overload, function)] }

end Symbol

/-- All symbols of a program. -/
abbrev Symbols := Table SymbolId Symbol

namespace Symbols

def create (name : String) (kind : SymbolKind) (span : Span) : Action Symbols SymbolId :=
  Table.create { name, kind, span }

def start (id : SymbolId) : Action Symbols Unit := do
  let symbol ← Action.ofExcept ((← get).fetch id)
  if symbol.progress = .untouched then
    Table.update id fun symbol => { symbol with progress := .active }
  else
    throw (.startedTwice id)

def finish (id : SymbolId) : Action Symbols Unit := do
  let symbol ← Action.ofExcept ((← get).fetch id)
  if symbol.progress = .active then
    Table.update id fun symbol => { symbol with progress := .settled }
  else
    throw (.finishedUnstarted id)

/-- Link to the symbol that a symbol stands for; a link to itself is none. -/
def forwardingOf (symbols : Symbols) (id : SymbolId) : Except Fault (Option SymbolId) := do
  let symbol ← symbols.fetch id
  return symbol.forwardedTo.filter fun target => target ≠ id

/-- Link to the symbol that contains a symbol. -/
def enclosingOf (symbols : Symbols) (id : SymbolId) : Except Fault (Option SymbolId) :=
  return (← symbols.fetch id).enclosing

/-- The symbol that does the work for a symbol. -/
def target (symbols : Symbols) (id : SymbolId) : Except Fault SymbolId :=
  Chain.last symbols.forwardingOf (symbols.size + 1) id

/-- Symbols that contain a symbol, innermost first. -/
def enclosingChain (symbols : Symbols) (id : SymbolId) : Except Fault (List SymbolId) :=
  Chain.after symbols.enclosingOf (symbols.size + 1) id

end Symbols

end Resolution
