import Resolution.Program

/-!
# Summaries of types

Every type that is not built in, with the texts of its bases, parameters and members.  Asking for
the type of a member may bring further instances into being; the summary covers the types that are
there when it starts.
-/

namespace Resolution

/-- A member in a summary. -/
structure MemberSummary where
  name : String
  symbol : SymbolId
  type : String
  /-- Whether it was taken from another member. -/
  isInherited : Bool
  deriving DecidableEq, Repr

/-- A type in a summary. -/
structure TypeSummary where
  type : String
  kind : TypeKind
  /-- Texts of the bases, or of result and arguments. -/
  related : List String
  parameters : List String
  generic : Option String
  /-- Whether bases and members are final. -/
  complete : Bool
  members : List MemberSummary
  deriving DecidableEq, Repr

namespace Types

/-- Number of the built-in types. -/
def builtinCount : Nat := 10

variable (symbols : Symbols) (fuel : Nat)

def readText (type : TypeId) : Action Types String := do
  Action.ofExcept ((← get).text symbols type)

def summarizeMember (entry : String × MemberId) : Action Types MemberSummary := do
  let member ← Action.ofExcept ((← get).member entry.2)
  let type ← memberType symbols fuel entry.2
  return { name := entry.1, symbol := member.symbol, type := ← readText symbols type,
           isInherited := member.isInherited }

def summarize (type : TypeId) : Action Types TypeSummary := do
  let entry ← Action.ofExcept ((← get).entry type)
  let text ← readText symbols type
  let related ← entry.related.mapM (readText symbols)
  let parameters ← entry.parameters.mapM (readText symbols)
  let generic ← entry.generic.mapM (readText symbols)
  let members ← entry.members.sorted.mapM (summarizeMember symbols fuel)
  return { type := text, kind := entry.kind, related, parameters, generic,
           complete := entry.complete,
           members }

def summary : Action Types (List TypeSummary) := do
  let added := (← get).entries.handles.drop builtinCount
  added.mapM (summarize symbols fuel)

end Types

end Resolution
