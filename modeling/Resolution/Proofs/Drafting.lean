import Resolution.Proofs.Looking
import Resolution.Proofs.Phases

/-!
# Steps that keep the progress of symbols

Most steps leave the progress of every symbol alone and write to symbols of their own only, whether
they return or fault, and where they return they keep what holds in their phase.  Such a step is
modest; a step that also makes symbols that may be written to drafts them.
-/

namespace Resolution

variable {α : Type}

/-- The store that a run leaves behind. -/
def Ending.final : Ending α → Store
  | .ok _ final => final
  | .error _ final => final

/-- Put reports in front of those of a run. -/
def Ending.reporting (reports : List Diagnostic) : Ending α → Ending α
  | .ok (answer, more) final => .ok (answer, reports ++ more) final
  | .error fault final => .error fault final

@[simp] theorem Ending.reporting_nil (ending : Ending α) : ending.reporting [] = ending := by
  cases ending <;> rfl

/-- The run kept the progress of every symbol and wrote to unsettled symbols only, and if it
`settles` what was soundly declared, it kept that; those of `new` may be written to, there is no
report of a cycle, and a fault is none of the bookkeeping. -/
def Ending.Modest (settles : Prop) (phase : Phase) (new : α → List SymbolId) (store : Store) :
    Ending α → Prop
  | .ok (answer, reports) final =>
    store.Keeps phase final ∧ (settles → store.Sustains phase final) ∧
      (∀ id ∈ new answer, final.Open phase id) ∧ ∀ diagnostic ∈ reports, diagnostic.Ordinary
  | .error fault final => store.Keeps phase final ∧ fault.isBookkeeping = false

namespace Resolve

variable {α β σ : Type} {settles : Prop} {phase : Phase} {own : List SymbolId} {site : Surroundings}
  {store : Store}
  {step : Resolve α} {next : α → Resolve β} {new : α → List SymbolId}
  {value : α} {fault : Fault} {further : β → List SymbolId} {name : String} {id : SymbolId}
  {change : Symbol → Symbol}

theorem bind_of_ok {reports : List Diagnostic} {middle : Store}
    (run : step site store = .ok (value, reports) middle) :
    (step >>= next) site store = Ending.reporting reports (next value site middle) := by
  change Reporting.andThen (step site) (fun value => next value site) store = _
  simp only [Reporting.andThen, run]
  cases next value site middle with
  | ok answer final => rfl
  | error fault final => rfl

theorem bind_of_error {final : Store}
    (run : step site store = .error fault final) :
    (step >>= next) site store = .error fault final := by
  change Reporting.andThen (step site) (fun value => next value site) store = _
  simp only [Reporting.andThen, run]

/-- A modest run goes on from where its first part returns. -/
theorem modest_andThen (first : Ending.Modest settles phase new store (step site store))
    (rest : ∀ value reports middle, step site store = .ok (value, reports) middle →
      store.Keeps phase middle →
      (settles → store.Sustains phase middle) → (∀ id ∈ new value, middle.Open phase id) →
      Ending.Modest settles phase further middle (next value site middle)) :
    Ending.Modest settles phase further store ((step >>= next) site store) := by
  cases run : step site store with
  | error fault final =>
    rw [run] at first
    rw [bind_of_error run]
    exact first
  | ok answer middle =>
    obtain ⟨value, reports⟩ := answer
    rw [run] at first
    obtain ⟨keeps, sustains, created, ordinary⟩ := first
    have last := rest value reports middle run keeps sustains created
    rw [bind_of_ok run]
    cases finish : next value site middle with
    | error fault final =>
      rw [finish] at last
      exact ⟨keeps.trans last.1, last.2⟩
    | ok answer final =>
      rw [finish] at last
      obtain ⟨keepsOn, sustainsOn, createdLast, ordinaryLast⟩ := last
      refine ⟨keeps.trans keepsOn, fun holds => (sustains holds).trans (sustainsOn holds),
        createdLast,
        fun diagnostic listed => ?_⟩
      rcases List.mem_append.mp listed with listed | listed
      · exact ordinary diagnostic listed
      · exact ordinaryLast diagnostic listed

/-- The step is modest provided that the symbols of `own` may be written to; so may those of `new`
afterwards. -/
structure Drafts (phase : Phase) (own : List SymbolId) (new : α → List SymbolId)
    (step : Resolve α) : Prop where
  ends : ∀ {settles : Prop} site store, store.Ready settles phase site →
    (∀ id ∈ own, store.Open phase id) →
    Ending.Modest settles phase new store (step site store)

/-- A step that leaves the progress of every symbol alone and writes to the symbols of `own` and to
new ones only. -/
class Modest (phase : Phase) (own : List SymbolId) (step : Resolve α) : Prop where
  drafts : Drafts phase own (fun _ => []) step

/-- How a modest step without symbols of its own ends. -/
theorem modest_run (step : Resolve α) [modest : Modest phase [] step]
    (ready : store.Ready settles phase site) :
    Ending.Modest settles phase (fun _ => []) store (step site store) :=
  modest.drafts.ends site store ready nofun

theorem drafts_bind
    (first : Drafts phase own new step) (rest : ∀ value, Drafts phase (new value ++ own) further
      (next value)) :
    Drafts phase own further (step >>= next) := by
  refine ⟨fun site store ready isOpen => modest_andThen (first.ends site store ready isOpen) ?_⟩
  intro value reports middle _ keeps sustains created
  refine (rest value).ends site middle (ready.next keeps sustains) fun id listed => ?_
  rcases List.mem_append.mp listed with listed | listed
  · exact created id listed
  · exact keeps.isOpen (isOpen id listed)

/-- What may be written to may be answered. -/
theorem drafts_pure (listed : new value ⊆ own) : Drafts phase own new (pure value : Resolve α) :=
  ⟨fun _ store _ isOpen => ⟨.refl phase store, fun _ => .refl phase store, fun id inside =>
    isOpen id (listed inside), List.forall_mem_nil _⟩⟩

theorem drafts_throw [refuted : Refuted fault.isBookkeeping] :
    Drafts phase own new (throw fault : Resolve α) :=
  ⟨fun _ store _ _ => ⟨.refl phase store, refuted.eq_false⟩⟩

instance (priority := low) modest_of_looks {step : Resolve α} [looks : Looks step] :
    Modest phase own step := by
  refine ⟨⟨fun site store _ _ => ?_⟩⟩
  cases run : step site store with
  | error fault final =>
    obtain ⟨rfl, isMild⟩ := looks.mild _ _ _ _ run
    exact ⟨.refl phase _, isMild⟩
  | ok answer final =>
    obtain rfl := looks.unchanged _ _ _ _ _ run False.elim
    exact ⟨.refl phase _, fun _ => .refl phase _, nofun, looks.ordinary _ _ _ _ _ run⟩

theorem modest_bind (first : Modest phase own step)
    (rest : ∀ value, Modest phase own (next value)) : Modest phase own (step >>= next) :=
  ⟨drafts_bind first.drafts fun value => (rest value).drafts⟩

theorem Modest.after [first : Modest phase own step]
    (rest : ∀ value, Modest phase own (next value)) : Modest phase own (step >>= next) :=
  modest_bind first rest

instance [first : Modest phase own step] [rest : ∀ value, Modest phase own (next value)] :
    Modest phase own (step >>= next) :=
  modest_bind first rest

instance {condition : Prop} [Decidable condition] {yes no : Resolve α}
    [first : Modest phase own yes]
    [second : Modest phase own no] : Modest phase own (if condition then yes else no) := by
  split
  · exact first
  · exact second

instance {step : α → Resolve β} {items : List α} [each : ∀ item, Modest phase own (step item)] :
    Modest phase own (items.mapM step) := by
  induction items with
  | nil => exact @modest_of_looks _ _ _ _ (looks_pure _)
  | cons item rest ih =>
    rw [List.mapM_cons]
    infer_instance

/-! ## Changes of the store -/

theorem modest_zoom {part : Store → σ} {restore : Store → σ → Store} {action : Action σ α}
    (mild : action.Mild)
    (symbols : ∀ changed, (restore store changed).symbols = store.symbols)
    (cyclic : ∀ changed, (restore store changed).cyclic = store.cyclic)
    (sustains : settles → ∀ value changed, action (part store) = .ok value changed →
      store.Sustains phase (restore store changed)) :
    Ending.Modest settles phase (fun _ => []) store
    (act (Action.zoom part restore action) site store) := by
  cases inner : action (part store) with
  | ok value changed =>
    simp only [act, Reporting.silent, Action.zoom, inner]
    exact ⟨.of_eq (symbols _) (cyclic _), fun holds => sustains holds value changed inner,
      List.forall_mem_nil _, List.forall_mem_nil _⟩
  | error fault changed =>
    simp only [act, Reporting.silent, Action.zoom, inner]
    exact ⟨.of_eq (symbols _) (cyclic _), mild.mild _ _ _ inner⟩

instance {action : Action Tree α} [mild : action.Mild] : Modest phase own (onTree action) :=
  ⟨⟨fun _ _ _ _ => modest_zoom mild (fun _ => rfl) (fun _ => rfl) fun _ _ _ _ => .of_eq rfl rfl⟩⟩

instance {action : Action Source α} [mild : action.Mild] : Modest phase own (onSource action) :=
  ⟨⟨fun _ _ _ _ => modest_zoom mild (fun _ => rfl) (fun _ => rfl) fun _ _ _ _ => .of_eq rfl rfl⟩⟩

instance {action : Action Scopes α} [mild : action.Mild] : Modest phase own (onScopes action) :=
  ⟨⟨fun _ _ _ _ => modest_zoom mild (fun _ => rfl) (fun _ => rfl) fun _ _ _ _ => .of_eq rfl rfl⟩⟩

instance {action : Action Types α} [mild : action.Mild] [sustains : action.Sustains phase] :
    Modest phase own (onTypes action) := by
  refine ⟨⟨fun _ store _ _ => modest_zoom mild (fun _ => rfl)
    (fun _ => rfl) fun _ value changed run => ?_⟩⟩
  refine .of_steps rfl fun sound => ?_
  exact sustains.steps store.types _ sound.rooted sound.raw value changed run

/-- A name joins a scope, which keeps it itself or in the member table of a type. -/
theorem modest_insert {scope : ScopeId} {member : MemberId} (known : settles →
    member.index < store.types.members.size) :
    Ending.Modest settles phase (fun _ => []) store
    (onNames (Environment.insert scope name member) site store) := by
  refine modest_zoom inferInstance (fun _ => rfl) (fun _ => rfl) fun holds value changed run => ?_
  refine .of_steps rfl fun sound => ?_
  have steps : (Environment.insert scope name member).Ensures ⟨store.scopes, store.types⟩
    fun _ after =>
      store.types.Steps phase store.symbols.size after.types := by
    unfold Environment.insert
    refine .get ?_
    refine .ask fun entry _ => ?_
    split
    · exact Action.ensures_zoom.mpr (Types.steps_insertMember sound.rooted sound.raw (known holds))
    · split
      · exact .pure (.refl sound.rooted sound.raw)
      · exact Action.ensures_bind.mpr (.updateIn fun _ => .pure (.refl sound.rooted sound.raw))
  exact steps value changed run

instance {entryPoint : Option SymbolId} :
    Modest phase own (modify fun store => { store with entryPoint } : Resolve PUnit) :=
  ⟨⟨fun _ _ _ _ => ⟨.of_eq rfl rfl, fun _ => .of_eq rfl rfl, nofun, nofun⟩⟩⟩

theorem symbolOf_eq_ok {final : Store} {symbol : Symbol}
    {reports : List Diagnostic} (run : symbolOf id site store = .ok (symbol, reports) final) :
    final = store ∧ store.symbols.get? id = some symbol := by
  have reads : Returns (symbolOf id) site store fun symbol after =>
      after = store ∧ store.symbols.get? id = some symbol := ensures_symbolOf.mpr fun _ known =>
        ⟨rfl, known⟩
  exact reads symbol reports final run False.elim

/-- A new symbol is untouched. -/
theorem drafts_create {kind : SymbolKind} {span : Span} (noObject : kind.isObject = false) :
    Drafts phase own (fun id => [id]) (onSymbols (Symbols.create name kind span)) := by
  refine ⟨fun site store _ _ => ⟨Store.keeps_push rfl, fun _ => Store.sustains_push rfl rfl rfl,
    fun id listed => ?_, nofun⟩⟩
  rw [List.mem_singleton.mp listed]
  exact ⟨_, Table.get?_push_next _ _, nofun, fun _ _ => noObject⟩

/-- A symbol that may be written to may be changed in every respect but its progress, name and
place, and any other symbol in what it does not publish; no object arises once everything is
declared, and before that types are plain. -/
theorem modest_change {change : Symbol → Symbol} (inPlace : Symbol.InPlace change)
    (sort : phase = .settling → ∀ symbol, symbol.kind.isObject = false →
      (change symbol).kind.isObject = false)
    (published : store.Open phase id ∨ ∀ symbol, (change symbol).published = symbol.published)
    (typed : phase = .scanning → store.Sound phase → ∀ symbol, store.symbols.get? id = some symbol →
      store.types.Plain (change symbol).typeOrError)
    (descends : settles → store.Sound phase → ∀ symbol, store.symbols.get? id = some symbol →
      (change symbol).Descends store.types.members id) :
    Ending.Modest settles phase (fun _ => []) store (updateSymbol id change site store) := by
  have keeps : store.Keeps phase { store with symbols := store.symbols.modify id change } :=
    Store.keeps_modify inPlace sort published
  by_cases bound : Handle.index id < store.symbols.size
  · simp only [updateSymbol, onSymbols, act, Reporting.silent, Action.zoom, Table.update,
      if_pos bound]
    exact ⟨keeps, fun holds => Store.sustains_modify keeps published typed (descends holds),
      List.forall_mem_nil _, List.forall_mem_nil _⟩
  · simp only [updateSymbol, onSymbols, act, Reporting.silent, Action.zoom, Table.update,
      if_neg bound]
    exact ⟨.of_eq rfl rfl, rfl⟩

theorem modest_update {change : Symbol → Symbol} (inPlace : Symbol.InPlace change)
    (sort : phase = .settling → ∀ symbol, symbol.kind.isObject = false →
      (change symbol).kind.isObject = false)
    (typed : phase = .scanning → ∀ symbol, (change symbol).type = symbol.type)
    (links : ∀ symbol, (change symbol).links = symbol.links)
    (published : id ∈ own ∨ ∀ symbol, (change symbol).published = symbol.published) :
    Modest phase own (updateSymbol id change) := by
  refine ⟨⟨fun site store _ isOpen => ?_⟩⟩
  refine modest_change inPlace sort (published.imp_left fun listed => isOpen id listed) ?_
    fun _ sound symbol known => (sound.descends id symbol known).relink (links symbol)
  intro scanning sound symbol known
  rw [Symbol.typeOrError, typed scanning symbol]
  exact sound.plain id symbol known (.inl scanning)

end Resolve
end Resolution
