import Resolution.Proofs.Bookkeeping
import Resolution.Proofs.Returning

/-!
# Runs without errors

Most statements about a resolution concern the runs that report no error.  `Resolve.Runs` is the
weakest condition on the starting store under which every such run, or every run at all, ends as
described.
-/

namespace Resolution

def ErrorFree (reports : List Diagnostic) :
    Prop := ∀ diagnostic ∈ reports, diagnostic.isError = false

theorem errorFree_nil : ErrorFree [] := by
  intro diagnostic listed
  cases listed

theorem errorFree_append (first second : List Diagnostic) :
    ErrorFree (first ++ second) ↔ ErrorFree first ∧ ErrorFree second := by
  constructor
  · intro clean
    exact ⟨fun diagnostic listed => clean diagnostic (List.mem_append_left _ listed),
      fun diagnostic listed => clean diagnostic (List.mem_append_right _ listed)⟩
  · rintro ⟨cleanFirst, cleanSecond⟩ diagnostic listed
    rcases List.mem_append.mp listed with inFirst | inSecond
    · exact cleanFirst diagnostic inFirst
    · exact cleanSecond diagnostic inSecond

theorem errorFree_singleton (diagnostic : Diagnostic) :
    ErrorFree [diagnostic] ↔ diagnostic.isError = false := by
  simp [ErrorFree]

namespace Reporting

variable {α β γ : Type}

theorem andThen_eq_ok_iff (step : Reporting α) (next : α → Reporting β) (store final : Store)
    (answer : β)
    (reports : List Diagnostic) : step.andThen next store = .ok (answer, reports) final ↔
      ∃ value reported middle more, step store = .ok (value, reported) middle ∧
        next value middle = .ok (answer, more) final ∧ reports = reported ++ more := by
  unfold andThen
  constructor
  · intro run
    split at run
    · rename_i value reported middle first
      split at run
      · rename_i result more last second
        cases run
        exact ⟨value, reported, middle, more, first, second, rfl⟩
      · cases run
    · cases run
  · rintro ⟨value, reported, middle, more, first, second, rfl⟩
    simp only [first, second]

theorem andThen_pure (step : Reporting α) :
    andThen step (fun value => silent (pure value)) = step := by
  funext store
  unfold andThen silent
  cases step store with
  | ok answer final => simp [pure, EStateM.pure]
  | error fault final => rfl

theorem pure_andThen (value : α) (next : α → Reporting β) :
    andThen (silent (pure value)) next = next value := by
  funext store
  simp only [andThen, silent, pure, EStateM.pure, List.nil_append]
  cases next value store with
  | ok answer final => rfl
  | error fault final => rfl

theorem andThen_assoc (step : Reporting α) (next : α → Reporting β) (last : β → Reporting γ) :
    andThen (andThen step next) last = andThen step fun value => andThen (next value) last := by
  funext store
  unfold andThen
  cases step store with
  | error fault final => rfl
  | ok answer middle =>
    obtain ⟨value, reported⟩ := answer
    simp only
    cases next value middle with
    | error fault final => rfl
    | ok answer between =>
      obtain ⟨result, more⟩ := answer
      simp only
      cases last result between with
      | error fault final => rfl
      | ok answer final => simp [List.append_assoc]

end Reporting

namespace Resolve

instance : LawfulMonad Resolve :=
  LawfulMonad.mk' _
    (fun step => Resolve.ext (bind_pure step.run) (funext fun site =>
      Reporting.andThen_pure (step site)))
    (fun value next =>
      Resolve.ext (pure_bind value fun value => (next value).run)
        (funext fun site => Reporting.pure_andThen value fun value => next value site))
    (fun step next last =>
      Resolve.ext (bind_assoc step.run (fun value => (next value).run) fun value =>
        (last value).run)
        (funext fun site => Reporting.andThen_assoc (step site) (fun value => next value site)
          fun value => last value site))

variable {α β : Type} {quiet : Prop} {site : Surroundings} {store : Store} {post : α → Store → Prop}
  {step : Resolve α} {next : α → Resolve β}
  {final : Store} {fault : Fault} {value : α} {convert : α → β} {condition : Prop}
  {yes no : Resolve α} {items : List α}

/-- Every run of the step that returns has an answer and a final store with `post`; with `quiet`,
only the runs that report no error are looked at. -/
def Runs (quiet : Prop) (step : Resolve α) (site : Surroundings) (store : Store) (post : α → Store →
    Prop) : Prop :=
  ∀ answer reports final, step site store = .ok (answer, reports) final →
    (quiet → ErrorFree reports) →
    post answer final

/-- Every run of the step that returns has an answer and a final store with `post`. -/
abbrev Returns (step : Resolve α) (site : Surroundings) (store : Store) (post : α → Store → Prop) :
    Prop :=
  Runs False step site store post

theorem Runs.weaken {weaker : α → Store → Prop} (ensured : Runs quiet step site store post)
    (weakens : ∀ answer final, post answer final → weaker answer final) :
    Runs quiet step site store weaker :=
  fun answer reports final run clean =>
    weakens answer final (ensured answer reports final run clean)

/-- What all runs do, the runs without errors do. -/
theorem Runs.of_returns (returns : Returns step site store post) :
    Runs quiet step site store post :=
  fun answer reports final run _ => returns answer reports final run False.elim

theorem Runs.and {other : α → Store → Prop}
    (first : Runs quiet step site store post) (second : Runs quiet step site store other) :
    Runs quiet step site store fun answer final => post answer final ∧ other answer final :=
  fun answer reports final run clean =>
    ⟨first answer reports final run clean, second answer reports final run clean⟩

theorem bind_eq_ok_iff {answer : β} {reports : List Diagnostic} :
    (step >>= next) site store = .ok (answer, reports) final ↔
      ∃ value reported middle more, step site store = .ok (value, reported) middle ∧
        next value site middle = .ok (answer, more) final ∧ reports = reported ++ more :=
  Reporting.andThen_eq_ok_iff (step site) (fun value => next value site) store final answer reports

theorem bind_eq_error_iff : (step >>= next) site store = .error fault final ↔
    step site store = .error fault final ∨
        ∃ value reported middle, step site store = .ok (value, reported) middle ∧
          next value site middle = .error fault final := by
  change Reporting.andThen (step site) (fun value => next value site) store = _ ↔ _
  unfold Reporting.andThen
  cases step site store with
  | error other last => simp
  | ok answer middle =>
    obtain ⟨value, reported⟩ := answer
    simp only [reduceCtorEq, false_or]
    constructor
    · intro run
      refine ⟨value, reported, middle, rfl, ?_⟩
      split at run
      · cases run
      · rename_i failed
        rw [failed, run]
    · rintro ⟨_, _, _, same, failed⟩
      cases same
      rw [failed]

theorem ensures_bind {post : β → Store → Prop} : Runs quiet (step >>= next) site store post ↔
      Runs quiet step site store fun value middle => Runs quiet (next value) site middle post := by
  constructor
  · intro ensured value reported middle first cleanFirst answer more final second cleanSecond
    exact ensured answer (reported ++ more) final
      (bind_eq_ok_iff.mpr ⟨value, reported, middle, more, first, second, rfl⟩)
      fun holds => (errorFree_append ..).mpr ⟨cleanFirst holds, cleanSecond holds⟩
  · intro ensured answer reports final run clean
    obtain ⟨value, reported, middle, more, first, second, rfl⟩ := bind_eq_ok_iff.mp run
    exact ensured value reported middle first (fun holds =>
      ((errorFree_append ..).mp (clean holds)).1) answer more
      final second fun holds => ((errorFree_append ..).mp (clean holds)).2

theorem Runs.bind {middle : α → Store → Prop} {post : β → Store → Prop}
    (first : Runs quiet step site store middle)
    (rest : ∀ value between, middle value between → Runs quiet (next value) site between post) :
    Runs quiet (step >>= next) site store post :=
  ensures_bind.mpr (first.weaken rest)

theorem ensures_pure : Runs quiet (pure value) site store post ↔ post value store := by
  constructor
  · intro ensured
    exact ensured value [] store rfl fun _ => errorFree_nil
  · intro holds answer reports final run clean
    cases run
    exact holds

theorem Runs.pure (holds : post value store) : Runs quiet (Pure.pure value) site store post :=
  ensures_pure.mpr holds

theorem ensures_throw : Runs quiet (throw fault) site store post := by
  intro answer reports final run
  cases run

theorem ensures_read {post : Surroundings → Store → Prop} : Runs quiet read site store post ↔
    post site store := by
  constructor
  · intro ensured
    exact ensured site [] store rfl fun _ => errorFree_nil
  · intro holds answer reports final run clean
    cases run
    exact holds

theorem ensures_get {post : Store → Store → Prop} : Runs quiet get site store post ↔
    post store store := by
  constructor
  · intro ensured
    exact ensured store [] store rfl fun _ => errorFree_nil
  · intro holds answer reports final run clean
    cases run
    exact holds

theorem ensures_modify {change : Store → Store} {post : PUnit → Store → Prop} :
    Runs quiet (modify change) site store post ↔ post ⟨⟩ (change store) := by
  constructor
  · intro ensured
    exact ensured ⟨⟩ [] (change store) rfl fun _ => errorFree_nil
  · intro holds answer reports final run clean
    cases run
    exact holds


theorem ensures_whileActive {id : SymbolId} {context : Context} :
    Runs quiet (whileActive id (inContext context step)) site store post ↔
      Runs quiet step { site with toContext := context, active := id :: site.active } store post :=
  Iff.rfl

theorem ensures_withMath {math : Option TypeId} :
    Runs quiet (withMath math step) site store post ↔
    Runs quiet step { site with math } store post :=
  Iff.rfl

theorem ensures_inScope {scope : ScopeId} : Runs quiet (inScope scope step) site store post ↔
      Runs quiet step { site with scope } store post :=
  Iff.rfl

/-! ## Parts of the store -/

theorem ensures_silent {action : Action Store α} :
    Runs quiet (act action) site store post ↔ action.Ensures store post := by
  constructor
  · intro ensured answer final run
    refine ensured answer [] final ?_ fun _ => errorFree_nil
    simp only [act, Reporting.silent, run]
  · intro ensured answer reports final run clean
    change Reporting.silent action store = _ at run
    unfold Reporting.silent at run
    split at run
    · rename_i value last inner
      cases run
      exact ensured _ _ inner
    · cases run

theorem ensures_onTree {action : Action Tree α} : Runs quiet (onTree action) site store post ↔
      action.Ensures store.tree fun answer tree => post answer { store with tree } :=
  ensures_silent.trans Action.ensures_zoom

theorem ensures_onSource {action : Action Source α} : Runs quiet (onSource action) site store post ↔
      action.Ensures store.toSource fun answer source =>
      post answer { store with toSource := source } :=
  ensures_silent.trans Action.ensures_zoom

theorem ensures_onSymbols {action : Action Symbols α} :
    Runs quiet (onSymbols action) site store post ↔
      action.Ensures store.symbols fun answer symbols => post answer { store with symbols } :=
  ensures_silent.trans Action.ensures_zoom

theorem ensures_onTypes {action : Action Types α} : Runs quiet (onTypes action) site store post ↔
      action.Ensures store.types fun answer types => post answer { store with types } :=
  ensures_silent.trans Action.ensures_zoom

theorem ensures_onScopes {action : Action Scopes α} : Runs quiet (onScopes action) site store post ↔
      action.Ensures store.scopes fun answer scopes => post answer { store with scopes } :=
  ensures_silent.trans Action.ensures_zoom

theorem ensures_onNames {action : Action Environment α} :
    Runs quiet (onNames action) site store post ↔
      action.Ensures ⟨store.scopes, store.types⟩ fun answer environment =>
        post answer { store with scopes := environment.scopes, types := environment.types } :=
  ensures_silent.trans Action.ensures_zoom

theorem ensures_ask {read : Store → Except Fault α} :
    Runs quiet (ask read) site store post ↔ ∀ value, read store = .ok value → post value store := by
  refine ensures_silent.trans ?_
  constructor
  · intro ensured value answered
    refine ensured value store ?_
    simp only [answered]
  · intro holds answer final run
    dsimp only at run
    split at run
    · rename_i value answered
      cases run
      exact holds _ answered
    · cases run

theorem ensures_askTypes {read : Types → Except Fault α} :
    Runs quiet (askTypes read) site store post ↔ ∀ value, read store.types = .ok value →
    post value store :=
  ensures_ask

theorem runs_report {diagnostic : Diagnostic} {asked : Bool → Bool} {fits}
    {post : Unit → Store → Prop} :
    Runs quiet (emit diagnostic asked fits) site store post ↔
      ((quiet → diagnostic.isError = false) → post () store) := by
  constructor
  · intro ensured harmless
    exact ensured () [diagnostic] store rfl fun holds =>
      (errorFree_singleton ..).mpr (harmless holds)
  · intro holds answer reports final run clean
    cases run
    exact holds fun isQuiet => (errorFree_singleton ..).mp (clean isQuiet)

theorem Runs.updateSymbol {id : SymbolId} {change : Symbol → Symbol} {next : Unit → Resolve β}
    {post : β → Store → Prop}
    (continues : Handle.index id < store.symbols.size →
      Runs quiet (next ()) site { store with symbols := store.symbols.modify id change } post) :
    Runs quiet (Resolve.updateSymbol id change >>= next) site store post :=
  ensures_bind.mpr (ensures_onSymbols.mpr (Table.ensures_update.mpr continues))

/-! ## Nodes and symbols -/

theorem ensures_node {id : NodeId} {post : Node → Store → Prop} :
    Runs quiet (node id) site store post ↔ ∀ node, store.tree.get? id = some node →
    post node store := by
  unfold node
  simp only [ensures_ask, Table.fetch_eq_ok_iff]

theorem ensures_kindOf {id : NodeId} {post : NodeKind → Store → Prop} :
    Runs quiet (kindOf id) site store post ↔
      ∀ node, store.tree.get? id = some node → post node.kind store := by
  unfold kindOf
  simp only [ensures_bind, ensures_node, ensures_pure]

theorem ensures_symbolOf {id : SymbolId} {post : Symbol → Store → Prop} :
    Runs quiet (symbolOf id) site store post ↔
      ∀ symbol, store.symbols.get? id = some symbol → post symbol store := by
  unfold symbolOf
  simp only [ensures_ask, Table.fetch_eq_ok_iff]

theorem ensures_memberSymbol {member : MemberId} {post : SymbolId → Store → Prop} :
    Runs quiet (memberSymbol member) site store post ↔
      ∀ entry, store.types.members.get? member = some entry → post entry.symbol store := by
  unfold memberSymbol Types.member
  simp only [ensures_bind, ensures_askTypes, ensures_pure, Table.fetch_eq_ok_iff]

theorem returns_mapM_reading {step : α → Resolve β} {items : List α} {holds : β → Prop}
    (each : ∀ item ∈ items, Returns (step item) site store fun answer after => after = store ∧
      holds answer) :
    Returns (items.mapM step) site store fun answers after => after = store ∧ ∀ answer ∈ answers,
    holds answer := by
  induction items with
  | nil => exact .pure ⟨rfl, nofun⟩
  | cons item rest ih =>
    rw [List.mapM_cons]
    refine (each item List.mem_cons_self).bind ?_
    rintro answer _ ⟨rfl, first⟩
    refine (ih fun other listed => each other (List.mem_cons_of_mem _ listed)).bind ?_
    rintro answers _ ⟨rfl, others⟩
    exact .pure ⟨rfl, List.forall_mem_cons.mpr ⟨first, others⟩⟩

/-! ## Steps that only look -/

/-- Every run of the step leaves the store as it is; it reports no cycle and has no fault of the
bookkeeping. -/
class Looks (step : Resolve α) : Prop where
  unchanged : ∀ site store, Returns step site store fun _ final => final = store
  ordinary : ∀ site store answer reports final, step site store = .ok (answer, reports) final →
    ∀ diagnostic ∈ reports, diagnostic.Ordinary
  mild : ∀ site store fault final, step site store = .error fault final →
    final = store ∧ fault.isBookkeeping = false

theorem Looks.ensures (looks : Looks step) (holds : ∀ answer, post answer store) :
    Runs quiet step site store post := by
  refine (Runs.of_returns (looks.unchanged site store)).weaken ?_
  rintro answer _ rfl
  exact holds answer

theorem Looks.bind {post : β → Store → Prop} (looks : Looks step)
    (rest : ∀ value, Runs quiet (next value) site store post) :
    Runs quiet (step >>= next) site store post :=
  ensures_bind.mpr (looks.ensures rest)

theorem looks_of_run {answer : Surroundings → Store → α}
    (run : ∀ site store, step site store = .ok (answer site store, []) store) : Looks step where
  unchanged site store value reports final returned _ := by
    rw [run] at returned
    cases returned
    rfl
  ordinary site store value reports final returned := by
    rw [run] at returned
    cases returned
    exact nofun
  mild site store fault final failed := by
    rw [run] at failed
    cases failed

@[simp] instance looks_pure (value : α) : Looks (pure value) := looks_of_run fun _ _ => rfl

@[simp] instance looks_ask (read : Store → Except Fault α) [mild : ∀ store, Mild (read store)] :
    Looks (ask read) where
  unchanged _ _ := ensures_ask.mpr fun _ _ => rfl
  ordinary site store answer reports final run := by
    change Reporting.silent (fun store => _) store = _ at run
    unfold Reporting.silent at run
    split at run
    · cases run
      exact nofun
    · cases run
  mild site store fault final run := by
    simp only [ask, act, Reporting.silent] at run
    cases answered : read store with
    | ok value =>
      simp only [answered] at run
      cases run
    | error fault =>
      simp only [answered] at run
      cases run
      exact ⟨rfl, (mild store).mild _ answered⟩

@[simp] instance looks_askTypes (read : Types → Except Fault α) [∀ types, Mild (read types)] :
    Looks (askTypes read) :=
  looks_ask _

@[simp] instance looks_read : Looks (read : Resolve Surroundings) := looks_of_run fun _ _ => rfl

@[simp] instance : Looks (get : Resolve Store) := looks_of_run fun _ _ => rfl

@[simp] instance looks_throw (fault : Fault) [refuted : Refuted fault.isBookkeeping] :
    Looks (throw fault : Resolve α) where
  unchanged _ _ := ensures_throw
  ordinary _ _ _ _ _ run := by cases run
  mild _ _ _ _ run := by
    cases run
    exact ⟨rfl, refuted.eq_false⟩

@[simp] instance looks_report (diagnostic : Diagnostic) {asked} {fits}
    [ordinary : diagnostic.Ordinary] :
    Looks (emit diagnostic asked fits) where
  unchanged _ _ := runs_report.mpr fun _ => rfl
  ordinary _ _ _ _ _ run := by
    cases run
    rintro _ (_ | _)
    · exact ordinary
    · contradiction
  mild _ _ _ _ run := by cases run

@[simp] theorem looks_bind (first : Looks step) (rest : ∀ value, Looks (next value)) :
    Looks (step >>= next) where
  unchanged site store := first.bind fun value => (rest value).unchanged site store
  ordinary site store answer reports final run := by
    obtain ⟨value, reported, middle, more, one, two, rfl⟩ := bind_eq_ok_iff.mp run
    rintro diagnostic listed
    rcases List.mem_append.mp listed with listed | listed
    · exact first.ordinary _ _ _ _ _ one diagnostic listed
    · exact (rest value).ordinary _ _ _ _ _ two diagnostic listed
  mild site store fault final run := by
    rcases bind_eq_error_iff.mp run with one | ⟨value, reported, middle, one, two⟩
    · exact first.mild _ _ _ _ one
    · obtain rfl := first.unchanged _ _ _ _ _ one False.elim
      exact (rest value).mild _ _ _ _ two

@[simp] theorem looks_map (first : Looks step) : Looks (convert <$> step) := by
  rw [map_eq_pure_bind]
  exact looks_bind first fun _ => looks_pure _

@[simp] theorem looks_ite [Decidable condition] (first : Looks yes)
    (second : Looks no) : Looks (if condition then yes else no) := by
  split
  · exact first
  · exact second

@[simp] theorem looks_mapM {step : α → Resolve β} (each : ∀ item, Looks (step item))
    (items : List α) :
    Looks (items.mapM step) := by
  induction items with
  | nil => exact looks_pure []
  | cons item rest ih =>
    rw [List.mapM_cons]
    exact looks_bind (each item) fun _ => looks_bind ih fun _ => looks_pure _

@[simp] theorem looks_anyM {step : α → Resolve Bool} (each : ∀ item, Looks (step item))
    (items : List α) :
    Looks (items.anyM step) := by
  induction items with
  | nil => exact looks_pure false
  | cons item rest ih =>
    refine looks_bind (each item) ?_
    intro found
    cases found
    · exact ih
    · exact looks_pure true

@[simp] theorem looks_allM {step : α → Resolve Bool} (each : ∀ item, Looks (step item))
    (items : List α) :
    Looks (items.allM step) := by
  induction items with
  | nil => exact looks_pure true
  | cons item rest ih =>
    refine looks_bind (each item) ?_
    intro holds
    cases holds
    · exact looks_pure false
    · exact ih

@[simp] theorem looks_findM? {step : α → Resolve Bool} (each : ∀ item, Looks (step item))
    (items : List α) :
    Looks (items.findM? step) := by
  induction items with
  | nil => exact looks_pure none
  | cons item rest ih =>
    refine looks_bind (each item) ?_
    intro found
    cases found
    · exact ih
    · exact looks_pure (some item)

instance [first : Looks step] [rest : ∀ value, Looks (next value)] : Looks (step >>= next) :=
  looks_bind first rest

theorem Looks.after [first : Looks step] (rest : ∀ value, Looks (next value)) :
    Looks (step >>= next) :=
  looks_bind first rest

instance [first : Looks step] : Looks (convert <$> step) := looks_map first

instance [Decidable condition] [first : Looks yes] [second : Looks no] :
    Looks (if condition then yes else no) :=
  looks_ite first second

instance {step : α → Resolve β} [each : ∀ item, Looks (step item)] : Looks (items.mapM step) :=
  looks_mapM each items

instance {step : α → Resolve Bool} [each : ∀ item, Looks (step item)] : Looks (items.findM? step) :=
  looks_findM? each items

@[simp] instance looks_node (id : NodeId) : Looks (node id) := looks_ask _

@[simp] instance looks_kindOf (id : NodeId) :
    Looks (kindOf id) := looks_bind (looks_node id) fun _ => looks_pure _

@[simp] instance looks_spanOf (id : NodeId) :
    Looks (spanOf id) := looks_bind (looks_node id) fun _ => looks_pure _

@[simp] instance (id : NodeId) : Looks (typeOf id) := looks_bind (looks_node id) fun _ =>
    looks_pure _

@[simp] instance looks_symbolOf (id : SymbolId) : Looks (symbolOf id) := looks_ask _

@[simp] instance looks_nameOf (id : SymbolId) : Looks (nameOf id) :=
  looks_bind (looks_symbolOf id) fun _ => looks_pure _

@[simp] instance (id : SymbolId) (flag : Flag) : Looks (hasFlag id flag) :=
  looks_bind (looks_symbolOf id) fun _ => looks_pure _

@[simp] instance looks_memberSymbol (member : MemberId) : Looks (memberSymbol member) :=
  looks_bind (looks_askTypes _) fun _ => looks_pure _

@[simp] instance (member : MemberId) : Looks (memberTarget member) :=
  looks_bind (looks_memberSymbol member) fun _ => looks_ask _

@[simp] instance looks_textOf (type : TypeId) : Looks (textOf type) := looks_ask _

@[simp] instance (id : NodeId) : Looks (constantOf? id) := looks_ask _

@[simp] instance (span : Span) (expected found : TypeId) :
    Looks (reportMismatch span expected found) := by
  unfold reportMismatch
  split <;> simp

@[simp] instance (id : SymbolId) : Looks (enclosingObject? id) := by
  unfold enclosingObject?
  refine looks_bind (looks_ask _) ?_
  intro around
  exact looks_findM? (fun symbol => looks_bind (looks_symbolOf symbol) fun _ => looks_pure _) around

@[simp] instance looks_fragmentsOf (id : SymbolId) : Looks (fragmentsOf id) := by
  unfold fragmentsOf
  refine looks_bind (looks_symbolOf id) ?_
  intro symbol
  split <;> simp

@[simp] instance looks_blockStatements (block : NodeId) : Looks (blockStatements block) := by
  unfold blockStatements
  refine looks_bind (looks_kindOf block) ?_
  intro kind
  split <;> simp

@[simp] instance looks_declarationContext (id : SymbolId) : Looks (declarationContext id) := by
  unfold declarationContext
  refine looks_bind (looks_symbolOf id) ?_
  intro symbol
  dsimp only
  split <;> simp

end Resolve
end Resolution
