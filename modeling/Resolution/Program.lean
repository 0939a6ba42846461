import Resolution.Declaration.Settle
import Resolution.Prelude
import Resolution.Statement

/-!
# Resolving a program

The built-in declarations are put in front of the files of a program; then everything is declared,
every symbol is settled, and every function body is resolved.  `Resolver.within` ties the rules
together: each level hands what a rule refers to down to the next one, and the lowest level gives
up.
-/

namespace Resolution

/-- The rules, tied together for a number of levels. -/
@[reducible] def Resolver.within : Nat → Resolver
  | 0 =>
    { fuel := 0
      expression := fun _ _ => throw .outOfFuel
      statement := fun _ => throw .outOfFuel
      settle := fun _ => throw .outOfFuel }
  | fuel + 1 =>
    { fuel
      expression := fun id context => @Resolve.expressionRule (within fuel) id context
      statement := fun id => @Resolve.statementRule (within fuel) id
      settle := fun id => @Resolve.settleRule (within fuel) id }

/-- How a program is resolved. -/
structure Options where
  requireEntryPoint : Bool := false
  warnUnused : Bool := true
  /-- Largest admitted nesting; zero admits all. -/
  maxDepth : Nat := 1024
  folds : Bool := true
  queue : QueueConfig := {}

namespace Resolve

/-- Names that have a meaning of their own. -/
def reservedNames : List String :=
  ["new", "toString", "void", "math", "pow", "EmitAs", "NeedsInclude", "EntryPoint", "ExternC",
    "Operator"]

/-- Put the built-in declarations in front of the files of a program, and answer their file. -/
def addPrelude (program : NodeId) : Resolve NodeId := do
  onSource (reservedNames.forM Source.intern)
  let prelude ← onSource Prelude.extend
  match ← kindOf program with
  | .program files =>
    onTree (Table.update program fun node => { node with kind := .program (prelude :: files) })
    onTree (Table.update prelude fun node => { node with parent := some program })
    return prelude
  | other => throw (.misplaced .program other.describe)

def fileBlocks (program : NodeId) : Resolve (List NodeId) := do
  match ← kindOf program with
  | .program files =>
    files.mapM fun file => do
      match ← kindOf file with
      | .file body => return body
      | other => throw (.misplaced .file other.describe)
  | other => throw (.misplaced .program other.describe)

/-- Type of the namespace that raises numbers to powers. -/
def mathType? : Resolve (Option TypeId) := do
  match ← ask fun store => store.scopes.findLocal? store.types globalScope "math" with
  | none => return none
  | some member =>
    let type? := (← symbolOf (← memberSymbol member)).type
    return type?.filter fun type => type ≠ .error

/-- Run a step for every symbol from a position on; symbols that a step creates are reached too. -/
def forEachSymbol (step : SymbolId → Resolve Unit) : Nat → Nat → Resolve Unit
  | 0, _ => throw .outOfFuel
  | fuel + 1, position => do
    if position < (← get).symbols.size then
      step ⟨position⟩
      forEachSymbol step fuel (position + 1)

def checkEntryPoint (required : Bool) (program : NodeId) : Resolve Unit := do
  if required && (← get).entryPoint.isNone then
    report (((Diagnostic.error .noEntryPoint "program has no entry point").label (← spanOf program)
      "no `@EntryPoint` function found").note
      "mark a global function taking no arguments with `@EntryPoint`")

variable [Resolver]

/-- Resolve the body of a function that is declared outside of other functions. -/
def outerBody (symbol : SymbolId) : Resolve Unit := do
  match (← symbolOf symbol).kind with
  | .globalFunction | .instanceFunction | .constructor => functionBody symbol
  | _ => return

def settleAll : Resolve Unit := do
  forEachSymbol Resolver.settle Resolver.fuel 0
  forEachSymbol outerBody Resolver.fuel 0

/-- Resolve a program, and answer the file of the built-in declarations. -/
def program (requireEntryPoint : Bool) (root : NodeId) : Resolve NodeId := do
  let prelude ← addPrelude root
  scan (← fileBlocks root)
  let math ← mathType?
  withMath math settleAll
  checkEntryPoint requireEntryPoint root
  return prelude

end Resolve

/-- What a resolution leaves behind. -/
structure Outcome extends Store where
  prelude : NodeId
  diagnostics : Queue

/-- The store that a resolution starts from. -/
def Store.initial (source : Source) : Store :=
  { toSource := source, scopes := ⟨#[{ kind := .global }]⟩ }

/-- The session that a resolution starts with. -/
def Options.session (options : Options) (source : Source) : Session :=
  { store := .initial source
    site := { maxDepth := options.maxDepth, folds := options.folds }
    warnsUnused := options.warnUnused
    queue := .new options.queue }

/-- Resolve a program within a number of levels. -/
def resolve (fuel : Nat) (options : Options) (source : Source) (root : NodeId) :
    Except Fault Outcome :=
  let step := @Resolve.program (Resolver.within fuel) options.requireEntryPoint root
  match step.run (options.session source) with
  | .error fault _ => .error fault
  | .ok prelude session => .ok { toStore := session.store, prelude, diagnostics := session.queue }

/-- The effect of resolving a program. -/
def effectOf (fuel : Nat) (options : Options) (source : Source) (root : NodeId) : Ending NodeId :=
  @Resolve.program (Resolver.within fuel) options.requireEntryPoint root
    { maxDepth := options.maxDepth, folds := options.folds } (.initial source)

section Effects

variable {fuel : Nat} {options : Options} {source : Source} {root : NodeId}

theorem resolve_eq_ok_iff {outcome : Outcome} : resolve fuel options source root = .ok outcome ↔
    ∃ reports, effectOf fuel options source root = .ok (outcome.prelude, reports) outcome.toStore ∧
      outcome.diagnostics =
        (Queue.new options.queue).pushAll (Session.wanted options.warnUnused reports) := by
  have follows : (options.session source).Follows (effectOf fuel options source root) _ :=
    (@Resolve.program (Resolver.within fuel) options.requireEntryPoint root).follows _
  unfold resolve
  dsimp only
  generalize effectOf fuel options source root = effect, Resolve.run _ _ = ran at follows ⊢
  cases follows with
  | error fault later => simp
  | ok reached =>
    rename_i prelude reports final later
    constructor
    · rintro ⟨⟩
      exact ⟨reports, by rw [reached.store], reached.queue⟩
    · rintro ⟨_, ⟨⟩, filled⟩
      simp only [reached.store, reached.queue]
      exact congrArg (fun diagnostics => Except.ok { outcome with diagnostics }) filled.symm

theorem resolve_eq_error_iff {fault : Fault} : resolve fuel options source root = .error fault ↔
    ∃ final, effectOf fuel options source root = .error fault final := by
  have follows : (options.session source).Follows (effectOf fuel options source root) _ :=
    (@Resolve.program (Resolver.within fuel) options.requireEntryPoint root).follows _
  unfold resolve
  dsimp only
  generalize effectOf fuel options source root = effect, Resolve.run _ _ = ran at follows ⊢
  cases follows with
  | error fault later => simp
  | ok reached => simp

end Effects

end Resolution
