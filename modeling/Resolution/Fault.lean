import Resolution.Table

/-!
# Faults

A fault ends a computation: a handle names nothing, a node of the wrong sort stands in a slot, a
state machine is driven backwards, or a walk has no end.  Faults are causes; `Fault.message?` gives
the wording of those that have one.  `Action` is a computation that may fault, and a fault keeps
every change made before it.
-/

namespace Resolution

/-- Slot of the tree that a node of another sort was found in. -/
inductive Slot where
  | statementList
  | program
  | file
  | block
  | declaration
  | blockMember
  | memberBlock
  | functionDeclaration
  | localDeclaration
  | variableDeclaration
  | enumValueDeclaration
  | aliasDeclaration
  | defineDeclaration
  | functionSymbol
  | functionBody
  | memberInitializer
  | statement
  | switchCase
  | mapEntry
  | expression
  /-- Operator that is answered by a call of `<=>`. -/
  | comparison
  | decoration
  deriving DecidableEq, Repr

/-- Complaint about a node described by `found` in a slot. -/
def Slot.complaint (found : String) : Slot → String
  | .statementList => s!"push_statement on {found}"
  | .program => s!"resolver expects a program, found {found}"
  | .file => s!"program child is a {found}, not a file"
  | .block => s!"expected a block, found {found}"
  | .declaration => s!"placeholder for a {found}"
  | .blockMember => s!"a {found} cannot be declared in a block"
  | .memberBlock => s!"a {found} has no member block"
  | .functionDeclaration => s!"declare_function on a {found}"
  | .localDeclaration => s!"a {found} cannot be declared inside a function body"
  | .variableDeclaration => s!"variable symbol declared by a {found}"
  | .enumValueDeclaration => s!"enum value declared by a {found}"
  | .aliasDeclaration => s!"alias declared by a {found}"
  | .defineDeclaration => s!"define declared by a {found}"
  | .functionSymbol => s!"function symbol declared by a {found}"
  | .functionBody => s!"function body of a {found}"
  | .memberInitializer => s!"member initializer list holds a {found}"
  | .statement => s!"a {found} is not a statement"
  | .switchCase => s!"switch holds a {found}"
  | .mapEntry => s!"map entry is a {found}"
  | .expression => s!"a {found} is not an expression"
  | .comparison => s!"comparison overload on a {found}"
  | .decoration => s!"annotation list holds a {found}"

/-- Cause that ends a computation. -/
inductive Fault where
  /-- A handle or position names nothing. -/
  | missing
  | overflow
  | malformedName
  | fullShard (shard : Nat)
  /-- A node described by `found` stands in a slot for another sort. -/
  | misplaced (slot : Slot) (found : String)
  | mergedFiles
  | unmatchedExit
  /-- Proof of an error is asked for something else. -/
  | emittedNonError
  | anonymousGeneric (type : TypeId)
  | startedTwice (symbol : SymbolId)
  | finishedUnstarted (symbol : SymbolId)
  /-- A name is taken although it was free a moment ago. -/
  | reappeared (member : MemberId)
  | strayReturn
  | outOfFuel
  deriving DecidableEq, Repr

/-- Wording of a fault; a fault of plain arithmetic or indexing has none. -/
def Fault.message? : Fault → Option String
  | .missing | .overflow | .malformedName | .outOfFuel => none
  | .fullShard shard => some s!"interner shard {shard} exceeded its capacity"
  | .misplaced slot found => some (slot.complaint found)
  | .mergedFiles => some "merging spans from different files"
  | .unmatchedExit => some "DepthGuard::exit without enter"
  | .emittedNonError => some "emit_error called with a non-error"
  | .anonymousGeneric type => some s!"parameterize on anonymous {type.text}"
  | .startedTwice symbol => some s!"{symbol.text} initialized twice"
  | .finishedUnstarted symbol => some s!"{symbol.text} finished without starting"
  | .reappeared member => some s!"{member.text} appeared in a scope checked a moment ago"
  | .strayReturn => some "return outside of a function body"

/-- Computation over a state `σ` that may fault; the state is kept in both outcomes. -/
abbrev Action (σ : Type) := EStateM Fault σ

namespace Action

variable {σ τ α : Type}

/-- Value of an option, or a fault where there is none. -/
def need : Option α → Action σ α
  | some value => pure value
  | none => throw .missing

/-- Value of a read-only computation. -/
def ofExcept : Except Fault α → Action σ α
  | .ok value => pure value
  | .error fault => throw fault

/-- Run a computation on a part of the state. -/
@[inline] def zoom (part : τ → σ) (restore : τ → σ → τ) (action : Action σ α) : Action τ α :=
  fun whole =>
    match action (part whole) with
    | .ok value changed => .ok value (restore whole changed)
    | .error fault changed => .error fault (restore whole changed)

end Action

namespace Table

variable {κ α : Type} [Handle κ]

/-- Entry of a handle, or a fault where it names nothing. -/
def fetch (table : Table κ α) (handle : κ) : Except Fault α :=
  match table.get? handle with
  | some entry => .ok entry
  | none => .error .missing

/-- Store a further entry and answer its handle. -/
def create (entry : α) : Action (Table κ α) κ :=
  fun table => .ok table.next (table.push entry)

/-- Change the entry of a handle, or fault where it names nothing. -/
def update (handle : κ) (change : α → α) : Action (Table κ α) Unit :=
  fun table =>
    if Handle.index handle < table.size then .ok () (table.modify handle change)
    else .error .missing table

theorem fetch_eq_ok_iff (table : Table κ α) (handle : κ) (entry : α) :
    table.fetch handle = .ok entry ↔ table.get? handle = some entry := by
  unfold fetch
  split <;> simp_all

end Table

end Resolution
