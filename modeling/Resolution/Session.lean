import Resolution.Constant.Fold
import Resolution.Diagnostic.Queue
import Resolution.Nesting
import Resolution.Scope.Basic
import Resolution.Type.Conversion
import Resolution.Type.Instance
import Resolution.Type.Text

/-!
# Resolution steps

A session holds all that a resolution works on: the store, the queue of reports, and where the
resolution currently is, that is its context, its depth and the stack of symbols being settled.
Steps read and change the session in place.

What a step does to the store depends on the place and on the store only, and no step leaves the
place it was started in.  Every step carries this as `view`, its effect without the session around
it, and the proof that it keeps to it.
-/

namespace Resolution

/-- Everything a resolution changes. -/
structure Store extends Source where
  symbols : Symbols := .empty
  types : Types := .new
  scopes : Scopes := .empty
  cyclic : List SymbolId := []
  entryPoint : Option SymbolId := none

/-- The scope around everything. -/
def globalScope : ScopeId := ⟨0⟩

/-- Where code is resolved. -/
structure Context where
  scope : ScopeId := globalScope
  function : Option SymbolId := none
  /-- Innermost class, interface or enum around the code. -/
  object : Option SymbolId := none
  /-- Whether there is no current instance. -/
  isStatic : Bool := true
  loops : Nat := 0
  switches : Nat := 0

/-- Where a resolution currently is. -/
structure Surroundings extends Context where
  depth : Nat := 0
  /-- Symbols being settled, the innermost first. -/
  active : List SymbolId := []
  /-- Largest admitted nesting; zero admits all. -/
  maxDepth : Nat
  folds : Bool
  /-- Type of the namespace that raises to powers. -/
  math : Option TypeId := none

/-- How a computation over the store ends: with a value and what was reported, in order, or with a
fault. -/
abbrev Ending (α : Type) : Type := EStateM.Result Fault Store (α × List Diagnostic)

/-- Computation over the store that answers a value together with what it reports. -/
abbrev Reporting (α : Type) : Type := Store → Ending α

namespace Reporting

variable {α β : Type}

/-- A computation that reports nothing. -/
def silent (action : Action Store α) : Reporting α := fun store =>
  match action store with
  | .ok value final => .ok (value, []) final
  | .error fault final => .error fault final

/-- Continue with the answer of a computation; the reports of both are kept. -/
def andThen (step : Reporting α) (next : α → Reporting β) : Reporting β := fun store =>
  match step store with
  | .ok (value, reported) middle =>
    match next value middle with
    | .ok (answer, more) final => .ok (answer, reported ++ more) final
    | .error fault final => .error fault final
  | .error fault final => .error fault final

end Reporting

/-- All that a resolution works on. -/
structure Session where
  store : Store
  site : Surroundings
  /-- Whether a level was ever refused. -/
  exceeded : Bool := false
  warnsUnused : Bool
  queue : Queue

namespace Session

variable {α β : Type}

/-- Reports that are asked for. -/
def wanted (warnsUnused : Bool) (reports : List Diagnostic) : List Diagnostic :=
  reports.filter fun diagnostic => warnsUnused || diagnostic.code != .unusedValue

/-- The store is another one, and reports were pushed; the place and the options are the same. -/
structure Reaches (session : Session) (store : Store) (reports : List Diagnostic)
    (later : Session) : Prop where
  store : later.store = store
  site : later.site = session.site
  warnsUnused : later.warnsUnused = session.warnsUnused
  queue : later.queue = session.queue.pushAll (wanted session.warnsUnused reports)

/-- A run on a session has an effect on its store. -/
inductive Follows (session : Session) :
    Ending α → EStateM.Result Fault Session α → Prop
  | ok {value : α} {reports : List Diagnostic} {final : Store} {later : Session}
    (reaches : session.Reaches final reports later) :
    Follows session (.ok (value, reports) final) (.ok value later)
  | error (fault : Fault) (later : Session) :
    Follows session (.error fault later.store) (.error fault later)

theorem Reaches.trans {session middle later : Session} {store final : Store}
    {reports more : List Diagnostic} (first : session.Reaches store reports middle)
    (second : middle.Reaches final more later) : session.Reaches final (reports ++ more) later where
  store := second.store
  site := second.site.trans first.site
  warnsUnused := second.warnsUnused.trans first.warnsUnused
  queue := by
    rw [second.queue, first.queue, first.warnsUnused, wanted, wanted, wanted, List.filter_append]
    exact List.foldl_append.symm

/-- An effect is stated relative to the place, the options and the queue. -/
theorem Follows.of_alike {session other : Session}
    {effect : Ending α} {ran : EStateM.Result Fault Session α}
    (follows : other.Follows effect ran) (site : other.site = session.site)
    (warnsUnused : other.warnsUnused = session.warnsUnused) (queue : other.queue = session.queue) :
    session.Follows effect ran := by
  cases follows with
  | error fault later => exact .error fault later
  | ok reached =>
    refine .ok ⟨reached.store, reached.site.trans site, reached.warnsUnused.trans warnsUnused, ?_⟩
    rw [← queue, ← warnsUnused]
    exact reached.queue

theorem Follows.bind {session : Session} {step : Reporting α} {next : α → Reporting β}
    {run : Action Session α} {rest : α → Action Session β}
    (first : session.Follows (step session.store) (run session))
    (second : ∀ value (later : Session), later.site = session.site →
      later.Follows (next value later.store) (rest value later)) :
    session.Follows (step.andThen next session.store) ((run >>= rest) session) := by
  simp only [Reporting.andThen, Bind.bind, EStateM.bind]
  generalize step session.store = effect, run session = ran at first ⊢
  cases first with
  | error fault later => exact .error fault later
  | ok reached =>
    rename_i value reports middle later
    have follows := second value later reached.site
    rw [reached.store] at follows
    simp only
    generalize next value middle = effect, rest value later = ran at follows ⊢
    cases follows with
    | error fault last => exact .error fault last
    | ok reachedNext => exact .ok (reached.trans reachedNext)

/-- A step that is run at another place has its effect there, if it is left for the first place. -/
theorem Follows.leave (session : Session) {inner : Session} {run : Action Session α}
    {leave : Action Session Unit}
    {effect : Ending α} (follows : inner.Follows effect (run inner))
    (warnsUnused : inner.warnsUnused = session.warnsUnused) (queue : inner.queue = session.queue)
    (leaves : ∀ later : Session, later.site = inner.site →
      leave later = .ok () { later with site := session.site }) :
    session.Follows effect ((do let answer ← run; leave; return answer) inner) := by
  simp only [Bind.bind, EStateM.bind]
  generalize run inner = ran at follows ⊢
  cases follows with
  | error fault later => exact .error fault later
  | ok reached =>
    simp only [leaves _ reached.site]
    refine .ok ⟨reached.store, rfl, reached.warnsUnused.trans warnsUnused, ?_⟩
    rw [← queue, ← warnsUnused]
    exact reached.queue

/-- Go to another place for a step, and come back from where it ends. -/
def moved (go : Surroundings → Surroundings) (back : Surroundings → Surroundings → Surroundings)
    (run : Action Session α) : Action Session α := do
  let saved := (← get).site
  modify fun session => { session with site := go session.site }
  let answer ← run
  modify fun session => { session with site := back saved session.site }
  return answer

theorem Follows.moved {session : Session} {go : Surroundings → Surroundings}
    {back : Surroundings → Surroundings → Surroundings} {run : Action Session α}
    {effect : Ending α}
    (follows : Follows { session with site := go session.site } effect
      (run { session with site := go session.site }))
    (returns : back session.site (go session.site) = session.site) :
    session.Follows effect (Session.moved go back run session) := by
  refine follows.leave session rfl rfl fun later same => ?_
  change EStateM.Result.ok () { later with site := back session.site later.site } = _
  rw [same, returns]

/-- Change the level counter. -/
def onNesting (action : Action Nesting α) : Action Session α :=
  Action.zoom (fun session => ⟨session.site.depth, session.site.maxDepth, session.exceeded⟩)
    (fun session nesting =>
      { session with
        site := { session.site with depth := nesting.depth }, exceeded := nesting.exceeded })
    action

theorem onNesting_enter (session : Session) : onNesting Nesting.enter session =
    .ok (Nesting.admits session.site.maxDepth (session.site.depth + 1))
      { session with
        site := { session.site with depth := session.site.depth + 1 }
        exceeded := session.exceeded || !Nesting.admits session.site.maxDepth
          (session.site.depth + 1) } := by
  simp only [onNesting, Action.zoom, Nesting.enter_eq]

theorem onNesting_exit {session later : Session}
    (same : later.site = { session.site with depth := session.site.depth + 1 }) :
    onNesting Nesting.exit later = .ok () { later with site := session.site } := by
  simp only [onNesting, Action.zoom, same, Nesting.exit_succ]

end Session

/-- Steps of a resolution. -/
@[ext] structure Resolve (α : Type) where
  /-- Carry the step out. -/
  run : Action Session α
  /-- What the step does to the store at a place, and what it reports. -/
  view : Surroundings → Reporting α
  follows : ∀ session : Session, session.Follows (view session.site session.store) (run session)

namespace Resolve

variable {α β : Type}

instance : CoeFun (Resolve α) fun _ => Surroundings → Reporting α := ⟨view⟩

/-- A step that works on the store alone. -/
def act (action : Action Store α) : Resolve α where
  run := Action.zoom Session.store (fun session store => { session with store }) action
  view _ := Reporting.silent action
  follows session := by
    unfold Reporting.silent Action.zoom
    cases action session.store with
    | ok value final => exact .ok ⟨rfl, rfl, rfl, rfl⟩
    | error fault final => exact .error fault { session with store := final }

instance : Monad Resolve where
  pure value := act (pure value)
  bind step next :=
    { run := step.run >>= fun value => (next value).run
      view := fun site => (step.view site).andThen fun value => (next value).view site
      follows := fun session => (step.follows session).bind fun value later same =>
        same ▸ (next value).follows later }

instance : MonadStateOf Store Resolve where
  get := act get
  set store := act (set store)
  modifyGet change := act (modifyGet change)

instance : MonadReaderOf Surroundings Resolve where
  read :=
    { run := return (← get).site
      view := fun site => Reporting.silent (pure site)
      follows := fun _ => .ok ⟨rfl, rfl, rfl, rfl⟩ }

instance : MonadExceptOf Fault Resolve where
  throw fault := act (throw fault)
  -- No rule catches a fault; a handler goes on from where the failed step was started.
  tryCatch step handler :=
    { run := fun session =>
        match step.run session with
        | .ok answer later => .ok answer later
        | .error fault later => (handler fault).run { session with store := later.store }
      view := fun site store =>
        match step.view site store with
        | .ok answer final => .ok answer final
        | .error fault final => (handler fault).view site final
      follows := fun session => by
        have follows := step.follows session
        generalize step.view session.site session.store = effect, step.run session =
          ran at follows ⊢
        cases follows with
        | ok reaches => exact .ok reaches
        | error fault later =>
          exact ((handler fault).follows { session with store := later.store }).of_alike rfl rfl rfl
            }

/-! ## Places -/

/-- Work in another context, and restore the current one. -/
def withContext (change : Context → Context) (step : Resolve α) : Resolve α where
  run := Session.moved (fun site => { site with toContext := change site.toContext })
    (fun saved site => { site with toContext := saved.toContext }) step.run
  view site := step.view { site with toContext := change site.toContext }
  follows _ := .moved (step.follows _) rfl

def inContext (context : Context) (step : Resolve α) :
    Resolve α := withContext (fun _ => context) step

def inScope (scope : ScopeId) (step : Resolve α) : Resolve α :=
  withContext (fun context => { context with scope }) step

/-- Push a symbol that is being settled, and pop it when that is done. -/
def whileActive (id : SymbolId) (step : Resolve α) : Resolve α where
  run := Session.moved (fun site => { site with active := id :: site.active })
    (fun _ site => { site with active := site.active.tail }) step.run
  view site := step.view { site with active := id :: site.active }
  follows _ := .moved (step.follows _) rfl

/-- Work with the namespace that raises to powers at hand. -/
def withMath (math : Option TypeId) (step : Resolve α) : Resolve α where
  run := Session.moved (fun site => { site with math })
    (fun saved site => { site with math := saved.math }) step.run
  view site := step.view { site with math }
  follows _ := .moved (step.follows _) rfl

/-- Run a step one level deeper, where the level is admitted. -/
def deeper (refused step : Resolve α) : Resolve α where
  run := do
    if ← Session.onNesting Nesting.enter then
      let answer ← step.run
      Session.onNesting Nesting.exit
      return answer
    else
      Session.onNesting Nesting.exit
      refused.run
  view site :=
    if Nesting.admits site.maxDepth (site.depth + 1) then step.view
      { site with depth := site.depth + 1 }
    else refused.view site
  follows session := by
    simp only [Bind.bind, EStateM.bind, Session.onNesting_enter]
    cases admitted : Nesting.admits session.site.maxDepth (session.site.depth + 1) with
    | true =>
      exact .leave session (step.follows _) rfl rfl fun later same => Session.onNesting_exit same
    | false =>
      exact (refused.follows { session with exceeded := session.exceeded || true }).of_alike rfl rfl
        rfl

/-! ## Reports -/

/-- Push a report, where it is asked for. -/
def emit (diagnostic : Diagnostic) (asked : Bool → Bool)
    (fits : ∀ warns, asked warns = (warns || diagnostic.code != .unusedValue)) : Resolve Unit where
  run := modify fun session =>
    if asked session.warnsUnused then { session with queue := (session.queue.push diagnostic).2 }
      else session
  view _ store := .ok ((), [diagnostic]) store
  follows session := by
    change session.Follows (.ok ((), [diagnostic]) session.store) (.ok () (ite ..))
    rw [fits]
    split
    · rename_i wanted
      exact .ok ⟨rfl, rfl, rfl, by simp [Session.wanted, wanted, Queue.pushAll]⟩
    · rename_i unwanted
      exact .ok ⟨rfl, rfl, rfl, by simp [Session.wanted, unwanted, Queue.pushAll]⟩

abbrev report (diagnostic : Diagnostic) (other : (diagnostic.code != .unusedValue) =
    true := by rfl) : Resolve Unit :=
  emit diagnostic (fun _ => true) (by simp [other])

/-- Report an unused value, where such reports are asked for. -/
abbrev reportUnused (diagnostic : Diagnostic) (unused : (diagnostic.code != .unusedValue) =
    false := by rfl) :
    Resolve Unit :=
  emit diagnostic id (by simp [unused])

/-! ## Parts of the store -/

def onTree (action : Action Tree α) : Resolve α :=
  act (Action.zoom (fun store => store.tree) (fun store tree => { store with tree }) action)

/-- Change the tree and the names. -/
def onSource (action : Action Source α) : Resolve α :=
  act (Action.zoom Store.toSource (fun store source => { store with toSource := source }) action)

def onSymbols (action : Action Symbols α) : Resolve α :=
  act (Action.zoom Store.symbols (fun store symbols => { store with symbols }) action)

def onTypes (action : Action Types α) : Resolve α :=
  act (Action.zoom Store.types (fun store types => { store with types }) action)

def onScopes (action : Action Scopes α) : Resolve α :=
  act (Action.zoom Store.scopes (fun store scopes => { store with scopes }) action)

/-- Change the names of scopes. -/
def onNames (action : Action Environment α) : Resolve α :=
  act (Action.zoom (fun store => ⟨store.scopes, store.types⟩)
    (fun store environment =>
      { store with scopes := environment.scopes, types := environment.types })
    action)

def ask (read : Store → Except Fault α) : Resolve α :=
  act fun store =>
    match read store with
    | .ok value => .ok value store
    | .error fault => .error fault store

def askTypes (read : Types → Except Fault α) : Resolve α := ask fun store => read store.types

/-! ## Nodes -/

def node (id : NodeId) : Resolve Node := ask fun store => store.tree.fetch id

def kindOf (id : NodeId) : Resolve NodeKind := return (← node id).kind

def spanOf (id : NodeId) : Resolve Span := return (← node id).span

/-- Type of a resolved node; the error type where it has none. -/
def typeOf (id : NodeId) : Resolve TypeId := return (← node id).type.getD .error

def setType (id : NodeId) (type : TypeId) : Resolve TypeId := do
  onTree (Table.update id fun node => { node with type := some type })
  return type

def setSymbol (id : NodeId) (symbol : Option SymbolId) : Resolve Unit :=
  onTree (Table.update id fun node => { node with symbol })

def alloc (kind : NodeKind) (span : Span) : Resolve NodeId := onTree (Tree.alloc kind span)

def blockStatements (block : NodeId) : Resolve (List NodeId) := do
  match ← kindOf block with
  | .block statements => return statements
  | other => throw (.misplaced .block other.describe)

/-- Value of a literal node. -/
def constantOf? (id : NodeId) : Resolve (Option Constant) := ask fun store =>
    store.tree.constantOf? id

/-- Fold the constant parts below a node. -/
def fold (id : NodeId) : Resolve Unit := do
  if (← read).folds then
    let symbols := (← get).symbols
    onSource (Source.fold symbols id)

/-! ## Symbols -/

def symbolOf (id : SymbolId) : Resolve Symbol := ask fun store => store.symbols.fetch id

def updateSymbol (id : SymbolId) (change : Symbol → Symbol) : Resolve Unit :=
  onSymbols (Table.update id change)

def nameOf (id : SymbolId) : Resolve String := return (← symbolOf id).name

def hasFlag (id : SymbolId) (flag : Flag) : Resolve Bool := return (← symbolOf id).has flag

def memberSymbol (member : MemberId) : Resolve SymbolId :=
  return (← askTypes fun types => types.member member).symbol

def memberTarget (member : MemberId) : Resolve SymbolId := do
  let symbol ← memberSymbol member
  ask fun store => store.symbols.target symbol

/-- Nearest class, interface or enum around a symbol. -/
def enclosingObject? (id : SymbolId) : Resolve (Option SymbolId) := do
  let around ← ask fun store => store.symbols.enclosingChain id
  around.findM? fun symbol => do
    let kind := (← symbolOf symbol).kind
    return kind.isObject || kind.isEnum

/-- Fragments of a symbol's declaration, the first one first. -/
def fragmentsOf (id : SymbolId) : Resolve (List NodeId) := do
  match (← symbolOf id).node with
  | some first => ask fun store => store.tree.fragments first
  | none => return []

/-- Context of code that belongs to a symbol's declaration. -/
def declarationContext (id : SymbolId) : Resolve Context := do
  let symbol ← symbolOf id
  let scope := symbol.scope.getD globalScope
  match symbol.kind with
  | .localVariable | .localFunction => return { (← read).toContext with scope }
  | kind =>
    let hasInstance := [SymbolKind.instanceVariable, .instanceFunction, .merged,
      .constructor].contains kind
    return { scope, object := ← enclosingObject? id, isStatic := !hasInstance }

/-! ## Texts -/

def textOf (type : TypeId) : Resolve String := ask fun store => store.types.text store.symbols type

/-- Report a failed conversion, unless either type stands for an earlier failure. -/
def reportMismatch (span : Span) (expected found : TypeId) : Resolve Unit := do
  if expected = .error ∨ found = .error then
    return
  report (.mismatch span (← textOf expected) (← textOf found))

end Resolve

end Resolution
