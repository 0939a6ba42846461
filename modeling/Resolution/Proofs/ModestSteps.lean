import Resolution.Proofs.Drafting
import Resolution.Proofs.Manner
import Resolution.Proofs.SafeDeclarations
import Resolution.Proofs.Surgery

/-!
# Modest steps

Whatever does not ask the resolver is modest: conversions and rewrites of the tree, the scan,
generated functions, inheritance and decorations.  The scan gives sorts and types to symbols that it
made itself; the rules for merged names, variables and functions write to the symbol that they
settle.
-/

namespace Resolution
namespace Resolve

-- Long steps are instances of many parts.
set_option synthInstance.maxSize 2000

variable {α β : Type} {settles : Prop} {phase : Phase} {own : List SymbolId} {symbol : SymbolId}
  {step : Resolve α} {next : α → Resolve β}

theorem Modest.bind {further : β → List SymbolId} (first : Modest phase own step)
    (rest : ∀ value, Drafts phase own further (next value)) :
    Drafts phase own further (step >>= next) :=
  drafts_bind first.drafts rest

theorem Drafts.bind {new : α → List SymbolId} (first : Drafts phase own new step)
    (rest : ∀ value, Modest phase (new value ++ own) (next value)) :
    Modest phase own (step >>= next) :=
  ⟨drafts_bind first fun value => (rest value).drafts⟩

theorem modest_forM {step : α → Resolve PUnit} {items : List α}
    (each : ∀ item ∈ items, Modest phase own (step item)) :
    Modest phase own (items.forM step) := by
  induction items with
  | nil => exact inferInstanceAs (Modest phase own (pure PUnit.unit))
  | cons item rest ih =>
    exact modest_bind (each item List.mem_cons_self) fun _ => ih fun other listed =>
      each other (List.mem_cons_of_mem _ listed)

/-! ## Symbols -/

section Details

variable {id : SymbolId} {change : Symbol → Symbol}

theorem modest_detail (inPlace : Symbol.InPlace change)
    (published : ∀ symbol, (change symbol).published = symbol.published)
    (enclosing : ∀ symbol, (change symbol).enclosing = symbol.enclosing) :
    Modest phase own (updateSymbol id change) := by
  refine modest_update inPlace (fun _ symbol noObject => ?_) (fun _ symbol => ?_) (fun symbol => ?_)
    (.inr published)
  · rwa [show (change symbol).kind = symbol.kind from congrArg (·.1) (published symbol)]
  · exact congrArg (·.2.1) (published symbol)
  · exact Prod.ext (enclosing symbol) (congrArg (·.2.2.2) (published symbol))

instance [detail : Symbol.Detail change] : Modest phase own (updateSymbol id change) :=
  modest_detail (fun symbol => ⟨detail.progress symbol, detail.name symbol, detail.span symbol⟩)
    detail.published
    detail.enclosing

instance {ownScope : Option ScopeId} :
    Modest phase own (updateSymbol id fun entry => { entry with ownScope }) :=
  modest_detail (fun _ => ⟨rfl, rfl, rfl⟩) (fun _ => rfl) fun _ => rfl

variable (listed : id ∈ own)

include listed

/-- Once everything is declared, a step may change everything of its own symbols but progress, name
and place, as long as no object arises. -/
theorem modest_own (inPlace : Symbol.InPlace change)
    (sort : ∀ symbol, symbol.kind.isObject = false → (change symbol).kind.isObject = false)
    (links : ∀ symbol, (change symbol).links = symbol.links) :
    Modest .settling own (updateSymbol id change) :=
  modest_update inPlace (fun _ => sort) nofun links (.inl listed)

theorem modest_setKind {kind : SymbolKind} {flags : Symbol → Flags}
    (noObject : phase = .settling → kind.isObject = false) :
    Modest phase own (updateSymbol id fun entry => { entry with kind, flags := flags entry }) :=
  modest_update (fun _ => ⟨rfl, rfl, rfl⟩) (fun settling _ _ => noObject settling) (fun _ _ => rfl)
    (fun _ => rfl)
    (.inl listed)

theorem modest_setSymbolType {type : TypeId} : Modest .settling own (setSymbolType id type) :=
  modest_own listed (fun _ => ⟨rfl, rfl, rfl⟩) (fun _ noObject => noObject) fun _ => rfl

theorem modest_setConstant {constant : Constant} : Modest .settling own (setConstant id constant) :=
  modest_own listed (fun _ => ⟨rfl, rfl, rfl⟩) (fun _ noObject => noObject) fun _ => rfl

/-- A symbol of its own gets a type that the step before made. -/
theorem modest_typed {step : Resolve TypeId} {next : TypeId → Resolve β}
    (first : Modest phase own step)
    (plain : ∀ site store, Returns step site store fun type middle =>
      middle.types.Rooted → middle.types.Plain type)
    (rest : ∀ type, Modest phase own (next type)) :
    Modest phase own (do let type ← step; setSymbolType id type; next type) := by
  refine ⟨⟨fun site store ready isOpen =>
    modest_andThen (first.drafts.ends site store ready isOpen) ?_⟩⟩
  intro type reports middle run keeps sustains _
  have stillOpen : ∀ id ∈ own, middle.Open phase id := fun id inside =>
    keeps.isOpen (isOpen id inside)
  refine modest_andThen (modest_change (fun _ => ⟨rfl, rfl, rfl⟩) (fun _ _ noObject => noObject)
    (.inl (stillOpen id listed)) (fun _ sound _ _ => ?_) fun _ sound =>
      sound.descends id) fun _ _ typed _ further last _ => ?_
  · exact plain site store type reports middle run False.elim sound.rooted
  · exact (rest type).drafts.ends site typed ((ready.next keeps sustains).next further last)
      fun id inside =>
      further.isOpen (stillOpen id inside)

theorem modest_setError : Modest phase own (setSymbolType id .error) := by
  refine ⟨⟨fun site store _ isOpen => ?_⟩⟩
  refine modest_change (fun _ => ⟨rfl, rfl, rfl⟩) (fun _ _ noObject => noObject)
    (.inl (isOpen id listed)) ?_
    fun _ sound => sound.descends id
  exact fun _ sound _ _ => sound.rooted.plain_builtin (show TypeId.error.index < 10 by decide)

end Details

/-! ## Nodes -/

instance (id : NodeId) (type : TypeId) : Modest phase own (setType id type) := by
  unfold setType
  infer_instance

instance (id : NodeId) (symbol : Option SymbolId) : Modest phase own (setSymbol id symbol) := by
  unfold setSymbol
  infer_instance

instance (kind : NodeKind) (span : Span) : Modest phase own (alloc kind span) := by
  unfold alloc
  infer_instance

instance (id : NodeId) : Modest phase own (fold id) := by
  unfold fold
  infer_instance

/-! ## The scan -/

section Placing

variable {site : Surroundings} {store : Store} {entry : Symbol} {enclosing : Option SymbolId}
  (id : NodeId) (scope : ScopeId)

/-- A new symbol is younger than the one around it. -/
theorem modest_placeholder (ready : store.Ready settles phase site) (known : settles →
    store.Houses enclosing) :
    Ending.Modest settles phase (fun symbol => [symbol]) store
    (placeholder id scope enclosing site store) := by
  unfold placeholder
  refine modest_andThen (modest_run _ ready) fun kind _ same run _ _ _ => ?_
  obtain rfl := (looks_kindOf id).unchanged _ _ _ _ _ run False.elim
  cases kind.header? with
  | none =>
    have faulty : Drafts phase [] (fun symbol => [symbol])
        (do throw (.misplaced .declaration (← kindOf id).describe) : Resolve SymbolId) :=
      Modest.bind inferInstance fun _ => drafts_throw
    exact faulty.ends site same ready (List.forall_mem_nil _)
  | some header =>
    refine modest_andThen ((drafts_create rfl).ends site same ready (List.forall_mem_nil _))
      fun symbol _ created run keeps sustains isOpen => ?_
    cases run
    have new := isOpen _ List.mem_cons_self
    refine modest_andThen (modest_change (fun _ => ⟨rfl, rfl, rfl⟩) (fun _ _ noObject => noObject)
      (.inl new)
      (fun scanning sound entry stored => sound.plain _ entry stored (.inl scanning))
        fun holds sound entry stored => ?_)
      fun _ _ placed _ further last _ => ?_
    · refine ⟨fun around listed => ?_, (sound.descends _ entry stored).2⟩
      obtain ⟨_, older⟩ := known holds around listed
      exact Table.lt_size_of_get? older
    · have answers : Drafts phase [same.symbols.next] (fun symbol => [symbol])
          (do setSymbol id (some same.symbols.next); return same.symbols.next) :=
        Modest.bind inferInstance fun _ => drafts_pure (List.Subset.refl _)
      exact answers.ends site placed ((ready.next keeps sustains).next further last)
        (List.forall_mem_singleton.mpr (further.isOpen new))

theorem modest_createMember {member : Member} (unlearned : member.type = none)
    (origin : ∀ original, member.dependency = some original →
      ∃ source, store.types.members.get? original = some source ∧ source.symbol = member.symbol)
    (below : store.types.Bounded store.symbols.size → member.symbol.index < store.symbols.size) :
    Ending.Modest settles phase (fun _ => []) store
    (onTypes (Types.createMember member) site store) := by
  refine modest_zoom inferInstance (fun _ => rfl) (fun _ => rfl) fun _ _ changed run => ?_
  refine .of_steps rfl fun sound => ?_
  exact Types.steps_createMember sound.rooted sound.raw unlearned origin below _ changed run

theorem modest_createOwn (known : store.symbols.get? symbol = some entry) :
    Ending.Modest settles phase (fun _ => []) store
    (onTypes (Types.createMember (.own symbol)) site store) :=
  modest_createMember rfl (by rintro _ ⟨⟩) fun _ => Table.lt_size_of_get? known

variable (around : ∀ outer ∈ enclosing, outer ∈ own)

include around

theorem drafts_placeholder : Drafts phase own (fun symbol => [symbol])
    (placeholder id scope enclosing) := by
  refine ⟨fun site store ready isOpen => modest_placeholder id scope ready fun _ outer listed => ?_⟩
  obtain ⟨symbol, known, _⟩ := isOpen outer (around outer listed)
  exact ⟨symbol, known⟩

omit around in
/-- A symbol of its own joins a scope under a name. -/
theorem modest_enter {name : String} (listed : symbol ∈ own) : Modest phase own (do
    let member ← onTypes (Types.createMember (.own symbol))
    onNames (Environment.insert scope name member)) := by
  refine ⟨⟨fun site store _ isOpen => ?_⟩⟩
  obtain ⟨entry, stored, _⟩ := isOpen symbol listed
  refine modest_andThen (modest_createOwn stored) fun member _ created run _ _ _ => ?_
  cases run
  exact modest_insert fun _ =>
    (Table.lt_size_of_get? (store.types.members.get?_push_next (.own symbol)))

omit around in
instance (symbol : SymbolId) (id : NodeId) : Modest phase own (appendFragment symbol id) := by
  unfold appendFragment
  refine .after fun fragments => ?_
  split <;> infer_instance

theorem drafts_declare : Drafts phase own Option.toList (declare id scope enclosing) := by
  unfold declare
  refine Modest.bind inferInstance fun kind => ?_
  split
  · exact drafts_pure (List.nil_subset _)
  refine Modest.bind inferInstance fun existing? => ?_
  split
  · refine Modest.bind inferInstance fun existing => Modest.bind inferInstance fun joins => ?_
    split
    · exact Modest.bind inferInstance fun _ => drafts_pure (List.nil_subset _)
    · refine Modest.bind inferInstance fun _ =>
        drafts_bind (drafts_placeholder _ _ around) fun symbol => ?_
      exact drafts_pure (List.subset_append_left _ _)
  · refine drafts_bind (drafts_placeholder _ _ around) fun symbol => ?_
    simp only [← bind_assoc]
    refine Modest.bind (modest_enter _ (List.mem_append_left _ List.mem_cons_self)) fun outcome =>
      ?_
    split
    · exact drafts_pure (List.subset_append_left _ _)
    · exact drafts_throw

omit around

theorem drafts_declareAll (declarations : List NodeId) (around : ∀ outer ∈ enclosing, outer ∈ own) :
    Drafts phase own (fun created => created) (declareAll scope enclosing declarations) := by
  induction declarations generalizing own with
  | nil => exact drafts_pure (List.nil_subset _)
  | cons id rest ih =>
    refine drafts_bind (drafts_declare _ _ around) fun declared =>
      drafts_bind (ih fun outer inside => List.mem_append_right _ (around outer inside))
        fun others => drafts_pure ?_
    intro symbol listed
    rcases List.mem_append.mp listed with listed | listed
    · exact List.mem_append_right _ (List.mem_append_left _ listed)
    · exact List.mem_append_left _ listed

end Placing

instance (symbol : SymbolId) (kind : ScopeKind) (type : TypeId)
    (parent : Option ScopeId) : Modest phase own (openTypeScope symbol kind type parent) := by
  unfold openTypeScope Scopes.create Scopes.bindType
  infer_instance

section Named

variable {kind : TypeKind} {symbol : SymbolId}

theorem modest_createNamed (noFunction : kind ≠ .function) :
    Modest phase own (onTypes (Types.createNamed kind symbol)) := by
  have sustains : (Types.createNamed kind symbol).Sustains phase :=
    Types.sustains_createNamed noFunction symbol
  infer_instance

theorem plain_createNamed {site : Surroundings} {store : Store} (noFunction : kind ≠ .function) :
    Returns (onTypes (Types.createNamed kind symbol)) site store fun type middle =>
    middle.types.Plain type :=
  ensures_onTypes.mpr (Types.ensures_push.mpr (Types.plain_push noFunction))

end Named

section Owned

variable {owner : SymbolId} (inside : owner ∈ own)

include inside

theorem modest_declareParameters (scope : ScopeId) (parameters : List NodeId) :
    Modest phase own (declareParameters owner scope parameters) := by
  induction parameters generalizing own with
  | nil => exact inferInstanceAs (Modest phase own (pure []))
  | cons id rest ih =>
    refine (drafts_declare _ _ (by simpa using inside)).bind fun declared => ?_
    cases declared with
    | none => exact ih inside
    | some parameter =>
      have listed : parameter ∈ (some parameter).toList ++ own :=
        List.mem_append_left _ List.mem_cons_self
      refine modest_bind (modest_setKind listed fun _ => rfl) fun _ => ?_
      -- The type is made and completed before its symbol gets it.
      let named : Resolve TypeId := do
        let type ← onTypes (Types.createNamed .parameter parameter)
        onTypes (Types.update type fun entry => { entry with complete := true })
        return type
      have made : Modest phase ((some parameter).toList ++ own) named :=
        modest_bind (modest_createNamed nofun) fun _ => inferInstance
      have plain : ∀ site store, Returns named site store fun type middle =>
          middle.types.Rooted → middle.types.Plain type := by
        intro site store
        refine (plain_createNamed (show TypeKind.parameter ≠ .function from nofun)).bind ?_
        rintro type middle ⟨entry, stored, noFunction⟩
        refine ensures_bind.mpr (ensures_onTypes.mpr (.updateIn fun _ => ?_))
        exact .pure fun _ => ⟨{ entry with complete := true }, by simp [stored], noFunction⟩
      simpa only [named, setSymbolType, bind_assoc, pure_bind] using
        modest_typed listed made plain fun type =>
          modest_bind (ih (List.mem_append_right _ inside)) fun _ => inferInstance

theorem modest_openParameterScope (parameters : List NodeId) :
    Modest phase own (openParameterScope owner parameters) := by
  have declares scope : Modest phase own (declareParameters owner scope parameters) :=
    modest_declareParameters inside scope parameters
  unfold openParameterScope Scopes.create
  infer_instance

theorem modest_declareArguments (scope : ScopeId) (arguments : List NodeId) :
    Modest phase own (declareArguments owner scope arguments) := by
  induction arguments generalizing own with
  | nil => exact inferInstanceAs (Modest phase own (pure []))
  | cons id rest ih =>
    refine (drafts_declare _ _ (by simpa using inside)).bind fun declared => ?_
    cases declared with
    | none => exact ih inside
    | some argument =>
      refine .after fun flags => modest_bind ?_ fun _ =>
        modest_bind (ih (List.mem_append_right _ inside)) fun _ => inferInstance
      exact modest_setKind (List.mem_append_left _ List.mem_cons_self) fun _ => rfl

end Owned

theorem isObject_functionKind (enclosing : Option SymbolKind) (name : String) (flags : Flags) :
    (functionKind enclosing name flags).isObject = false := by
  unfold functionKind
  split
  · split
    · rfl
    · split <;> rfl
  · rfl

theorem modest_declareFunction (listed : symbol ∈ own) (id : NodeId) :
    Modest phase own (declareFunction symbol id) := by
  have opens parameters : Modest phase own (openParameterScope symbol parameters) :=
    modest_openParameterScope listed parameters
  have declares scope arguments : Modest phase own (declareArguments symbol scope arguments) :=
    modest_declareArguments listed scope arguments
  unfold declareFunction Scopes.create
  refine .after fun kind => ?_
  split
  · refine .after fun enclosing => .after fun entry => modest_bind ?_ inferInstance
    exact modest_setKind listed fun _ => isObject_functionKind _ _ _
  · infer_instance

instance modest_linkFragments (fragments : List NodeId) :
    Modest phase own (linkFragments fragments) := by
  match fragments with
  | [] => exact inferInstanceAs (Modest phase own (pure ()))
  | [last] => exact inferInstanceAs (Modest phase own (onTree _))
  | first :: second :: rest => exact .after fun _ => modest_linkFragments (second :: rest)

instance (symbol : SymbolId) : Modest phase own (orderFragments symbol) := by
  unfold orderFragments
  refine .after fun fragments => .after fun primary => ?_
  split <;> infer_instance

theorem modest_reportStrayExtension (listed : symbol ∈ own) :
    Modest phase own (reportStrayExtension symbol) := by
  unfold reportStrayExtension
  exact .after fun entry => .after fun _ => modest_setError listed

section Members

variable {scan : MemberScan} {symbol : SymbolId}

section

variable (scans : ∀ fragments scope, Modest .scanning own (scan fragments scope symbol))

include scans

theorem modest_declareSpace (listed : symbol ∈ own) (fragments : List NodeId) :
    Modest .scanning own (declareSpace scan symbol fragments) := by
  unfold declareSpace
  refine modest_bind (modest_setKind listed nofun) fun _ => ?_
  have noFunction : TypeKind.space ≠ .function := nofun
  exact modest_typed listed (modest_createNamed noFunction)
    (fun _ _ => (plain_createNamed noFunction).weaken fun _ _ plain _ => plain) fun type =>
      inferInstance

theorem modest_declareEnum (listed : symbol ∈ own) (isFlags : Bool) (fragments : List NodeId) :
    Modest .scanning own (declareEnum scan symbol isFlags fragments) := by
  have noFunction : (if isFlags then TypeKind.flags else .enum) ≠
    .function := by cases isFlags <;> nofun
  unfold declareEnum
  refine modest_bind (modest_setKind listed nofun) fun _ => ?_
  exact modest_typed listed (modest_createNamed noFunction)
    (fun _ _ => (plain_createNamed noFunction).weaken fun _ _ plain _ => plain) fun type =>
      inferInstance

end

theorem index_builtin {name : String} {type : TypeId} (found : Types.builtin? name = some type) :
    type.index < 10 := by
  unfold Types.builtin? at found
  split at found <;> cases found <;> decide

instance (symbol : SymbolId) (sort : ObjectSort) :
    Modest .scanning own (objectType symbol sort) := by
  unfold objectType
  refine .after fun entry => ?_
  split
  · rename_i type found
    have sustains : (Types.bindBuiltin type symbol).Sustains .scanning := by
      refine Types.sustains_bindBuiltin ?_ symbol
      split at found
      · exact index_builtin found
      · cases found
    infer_instance
  · split <;> exact modest_createNamed nofun

theorem plain_objectType {site : Surroundings} {store : Store} {sort : ObjectSort} :
    Returns (objectType symbol sort) site store fun type middle =>
      middle.types.Rooted → middle.types.Plain type := by
  unfold objectType
  refine (looks_symbolOf symbol).bind fun entry => ?_
  split
  · rename_i type found
    refine ensures_bind.mpr fun _ _ _ _ _ => .pure fun rooted => rooted.plain_builtin ?_
    split at found
    · exact index_builtin found
    · cases found
  · split
    · exact (plain_createNamed (show TypeKind.classType ≠ .function from nofun)).weaken
        fun _ _ plain _ => plain
    · exact (plain_createNamed (show TypeKind.interface ≠ .function from nofun)).weaken
        fun _ _ plain _ => plain

variable (scans : ∀ fragments scope, Modest .scanning own (scan fragments scope symbol))

include scans

theorem modest_declareObject (listed : symbol ∈ own) (sort : ObjectSort)
    (parameters fragments : List NodeId) :
    Modest .scanning own (declareObject scan symbol sort parameters fragments) := by
  unfold declareObject
  refine modest_bind (modest_setKind listed nofun) fun _ => ?_
  have opens : Modest .scanning own (openParameterScope symbol parameters) :=
    modest_openParameterScope listed parameters
  exact modest_typed listed inferInstance (fun _ _ => plain_objectType) fun type => inferInstance

theorem modest_assignSort (listed : symbol ∈ own) (flags : Flags) (primary : NodeId)
    (fragments : List NodeId) :
    Modest .scanning own (assignSort scan symbol flags primary fragments) := by
  unfold assignSort
  refine .after fun kind => ?_
  split
  · exact modest_declareSpace scans listed fragments
  · exact modest_declareEnum scans listed _ fragments
  · exact modest_declareObject scans listed _ _ fragments
  · exact modest_declareFunction listed primary
  · exact .after fun _ => modest_setKind listed nofun
  · exact modest_setKind listed nofun
  · exact modest_setKind listed nofun
  · infer_instance

theorem modest_assignKind (listed : symbol ∈ own) :
    Modest .scanning own (assignKind scan symbol) := by
  unfold assignKind
  refine .after fun fragments? => ?_
  split
  · exact modest_reportStrayExtension listed
  · refine .after fun flags => .after fun _ => ?_
    split
    · infer_instance
    · exact modest_assignSort scans listed _ _ _

end Members

theorem modest_declareBlocks (fuel : Nat) (blocks : List NodeId) (scope : ScopeId)
    {enclosing : Option SymbolId}
    (around : ∀ outer ∈ enclosing, outer ∈ own) :
    Modest .scanning own (declareBlocks fuel blocks scope enclosing) := by
  induction fuel generalizing own blocks scope enclosing with
  | zero => exact inferInstanceAs (Modest .scanning own (throw .outOfFuel : Resolve Unit))
  | succ fuel ih =>
    refine .after fun statements => (drafts_declareAll _ _ around).bind fun created => ?_
    refine modest_forM fun symbol listed => modest_assignKind ?_ (List.mem_append_left _ listed)
    exact fun fragments scope => .after fun blocks => ih _ _ (by simpa using .inl listed)

instance (blocks : List NodeId) : Modest .scanning own (scan blocks) := by
  unfold scan
  exact .after fun store => modest_declareBlocks _ _ _ (by rintro _ ⟨⟩)

/-! ## Generated functions -/

section Generated

variable {site : Surroundings} {store : Store} {id : NodeId} {node : Node}

theorem modest_assignFunction {scan : MemberScan} {entry : Symbol}
    (ready : store.Ready settles phase site) (isOpen : store.Open phase symbol)
    (known : store.symbols.get? symbol = some entry) (declared : entry.node = some id)
    (stored : store.tree.get? id = some node) (alone : node.sibling = none)
    (isFunction : ∃ header parameters arguments result initializers body,
      node.kind = .functionDecl header parameters arguments result initializers body) :
    Ending.Modest settles phase (fun _ => []) store (assignKind scan symbol site store) := by
  obtain ⟨header, parameters, arguments, result, initializers, body, kind⟩ := isFunction
  have proper : ∀ header body, node.kind ≠ .extensionDecl header body := by
    intro _ _ isExtension
    cases kind.symm.trans isExtension
  unfold assignKind
  refine modest_andThen (modest_run _ ready) fun answer _ middle run keeps sustains _ => ?_
  have ready := ready.next keeps sustains
  obtain ⟨rfl, fragments, rfl, found⟩ :=
    returns_orderFragments known declared stored proper _ _ _ run False.elim
  rw [fragments_of_sibling_eq_none stored alone] at found
  cases found
  refine modest_andThen (modest_run _ ready) fun flags _ same run _ _ _ => ?_
  obtain rfl := (looks_fragmentFlags symbol [id]).unchanged _ _ _ _ _ run False.elim
  refine modest_andThen (modest_run (updateSymbol symbol fun entry => { entry with flags }) ready)
    fun _ _ flagged run keeps sustains _ => ?_
  have ready := ready.next keeps sustains
  have sameTree : flagged.tree = same.tree := by
    have : Returns (updateSymbol symbol fun entry => { entry with flags }) site same fun _ after =>
        after.tree = same.tree := ensures_onSymbols.mpr (Table.ensures_update.mpr fun _ => rfl)
    exact this _ _ _ run False.elim
  unfold assignSort
  refine modest_andThen (modest_run _ ready) fun sort _ last run _ _ _ => ?_
  have reads : Returns (kindOf id) site flagged fun sort after => after = flagged ∧
    sort = node.kind := by
    refine ensures_kindOf.mpr fun there found => ?_
    rw [sameTree, stored] at found
    cases found
    exact ⟨rfl, rfl⟩
  obtain ⟨rfl, rfl⟩ := reads _ _ _ run False.elim
  rw [kind]
  exact (modest_declareFunction List.mem_cons_self id).drafts.ends site last ready
    fun other listed => by
    rw [List.mem_singleton.mp listed]
    exact keeps.isOpen isOpen

/-- A function that the resolution appended itself is declared. -/
theorem modest_declareGenerated {scope : ScopeId} {enclosing : SymbolId}
    (ready : store.Ready settles phase site)
    (isOpen : store.Open phase enclosing) (stored : store.tree.get? id = some node)
    (alone : node.sibling = none)
    (isFunction : ∃ header parameters arguments result initializers body,
      node.kind = .functionDecl header parameters arguments result initializers body) :
    Ending.Modest settles phase (fun _ => []) store
    (declareGenerated id scope enclosing site store) := by
  have declares : Drafts phase [enclosing] Option.toList (declare id scope (some enclosing)) :=
    drafts_declare id scope (by simp)
  unfold declareGenerated
  refine modest_andThen (declares.ends site store ready (List.forall_mem_singleton.mpr isOpen)) ?_
  intro answer _ middle run keeps sustains created
  cases answer with
  | none =>
    exact ⟨.refl phase middle, fun _ => .refl phase middle, List.forall_mem_nil _,
      List.forall_mem_nil _⟩
  | some symbol =>
    have introduced := introduces_declare _ _ _ run False.elim symbol rfl
    obtain ⟨entry, known, _, _, declared⟩ := introduced.symbol
    refine modest_andThen (modest_assignFunction (ready.next keeps sustains)
      (created symbol (by simp)) known declared
      (introduced.node node stored) alone isFunction) fun _ _ last _ _ _ _ => ?_
    exact ⟨.refl phase last, fun _ => .refl phase last, List.forall_mem_nil _,
      List.forall_mem_nil _⟩

instance (owner : SymbolId) {header : Header} {parameters arguments : List NodeId}
    {result : Option NodeId} {initializers : List NodeId} {body : Option NodeId} (span : Span)
    (flags : Flags) :
    Modest phase [owner]
      (addGenerated owner (.functionDecl header parameters arguments result initializers body) span
        flags) := by
  have added : ∀ block scope, Modest phase [owner] (do
      let generated ← alloc (.functionDecl header parameters arguments result initializers body)
        span
      onTree (Tree.pushStatement block generated)
      match ← declareGenerated generated scope owner with
      | none => return
      | some generated =>
        updateSymbol generated fun entry => { entry with flags := entry.flags.union flags }) := by
    intro block scope
    refine ⟨⟨fun site store ready isOpen => ?_⟩⟩
    refine modest_andThen (modest_run _ ready) fun generated _ grown allocates keeps sustains _ =>
      ?_
    have ready := ready.next keeps sustains
    refine modest_andThen (modest_run _ ready) fun _ _ pushed appends further sustains _ => ?_
    have ready := ready.next further sustains
    have isOpen := (keeps.trans further).isOpen (isOpen owner List.mem_cons_self)
    -- The new node is no block, so the list of statements that it joins is another node.
    have made : Returns (alloc (.functionDecl header parameters arguments result initializers body)
      span) site store
        fun id after => after.tree.get? id =
          some { kind := .functionDecl header parameters arguments result initializers body, span }
            :=
      ensures_onTree.mpr (Tree.ensures_alloc fun _ _ lookups _ => (lookups _).trans (if_pos rfl))
    have isNew := made _ _ _ allocates False.elim
    have stays : Returns (onTree (Tree.pushStatement block generated)) site grown fun _ after =>
        after.tree.get? generated = some
          { kind := .functionDecl header parameters arguments result initializers body, span,
            parent := some block } := by
      refine ensures_onTree.mpr (Tree.ensures_pushStatement ?_)
      intro tree receiver statements reached isBlock _ _ lookups
      have apart : generated ≠ block := by
        rintro rfl
        cases isNew.symm.trans reached
        cases isBlock
      have found := lookups generated
      dsimp only at found
      rw [if_pos rfl, if_neg apart, isNew] at found
      exact found
    have stored := stays _ _ _ appends False.elim
    refine modest_andThen (modest_declareGenerated ready isOpen stored rfl ⟨_, _, _, _, _, _, rfl⟩)
      fun answer _ last _ keeps sustains _ => ?_
    have ready := ready.next keeps sustains
    cases answer with
    | none => exact modest_run (pure ()) ready
    | some symbol => exact modest_run _ ready
  unfold addGenerated
  refine .after fun symbol => ?_
  split
  · refine .after fun kind => ?_
    split
    · exact added _ _
    · exact added _ _
    · infer_instance
  · infer_instance

end Generated

/-! ## Locals -/

instance (id : NodeId) : Modest phase own (declareLocal id) := by
  have placed : Drafts phase own (fun symbol => [symbol]) (do
      let context ← read
      placeholder id context.scope context.function) := by
    refine ⟨fun site store ready _ =>
      modest_andThen (modest_run _ ready) fun context _ same run _ _ _ => ?_⟩
    cases run
    exact modest_placeholder id site.scope ready fun holds => (ready holds).2
  unfold declareLocal
  rw [← bind_assoc]
  refine placed.bind fun symbol => ?_
  have listed : symbol ∈ [symbol] ++ own := List.mem_append_left _ List.mem_cons_self
  refine .after fun flags => .after fun _ => .after fun kind => ?_
  dsimp only
  split
  · refine modest_bind (modest_declareFunction listed id) fun _ => ?_
    exact modest_bind (modest_setKind listed fun _ => rfl) fun _ => inferInstance
  · exact modest_bind (modest_setKind listed fun _ => rfl) fun _ => inferInstance
  · infer_instance

instance (symbol : SymbolId) : Modest phase own (insertLocal symbol) := by
  refine ⟨⟨fun site store ready _ => ?_⟩⟩
  unfold insertLocal
  refine modest_andThen (modest_run _ ready) fun entry _ same run _ _ _ => ?_
  obtain ⟨rfl, known⟩ := symbolOf_eq_ok run
  refine modest_andThen (modest_createOwn known) fun member _ created run keeps sustains _ => ?_
  cases run
  have ready := ready.next keeps sustains
  refine modest_andThen (modest_run _ ready) fun _ _ _ run _ _ _ => ?_
  cases run
  refine modest_andThen (modest_insert fun _ =>
    Table.lt_size_of_get? (same.types.members.get?_push_next (.own symbol)))
    fun outcome _ entered _ further sustains _ => ?_
  have ready := ready.next further sustains
  cases outcome with
  | ok _ => exact modest_run _ ready
  | error existing => exact modest_run _ ready

instance (program : NodeId) : Modest phase own (addPrelude program) := by
  unfold addPrelude
  refine .after fun _ => .after fun file => .after fun kind => ?_
  split <;> infer_instance

instance : Modest phase own openBlockScope := by
  unfold openBlockScope Scopes.create
  infer_instance

/-! ## Inheritance and merging -/

section Inheritance

variable {site : Surroundings} {store : Store} {name : String} {candidates : List MemberId}
  {inherited : Inheritance}

theorem origin_inheritedEntry :
    Returns (inheritedEntry symbol name candidates) site store fun member after =>
    member.type = none ∧ (∀ original, member.dependency = some original →
      ∃ source, after.types.members.get? original = some source ∧ source.symbol = member.symbol) ∧
      (after.types.Bounded after.symbols.size → member.symbol.index < after.symbols.size) := by
  unfold inheritedEntry
  split
  · refine ensures_bind.mpr (ensures_memberSymbol.mpr fun source stored =>
      .pure ⟨rfl, ?_, fun bounded => ?_⟩)
    · rintro _ ⟨⟩
      exact ⟨source, stored, rfl⟩
    · exact bounded.symbol _ source stored
  · refine (looks_symbolOf symbol).bind fun owner => ?_
    refine ensures_bind.mpr (ensures_onSymbols.mpr (Table.ensures_create.mpr ?_))
    refine .updateSymbol fun inside => .pure ⟨rfl, by rintro _ ⟨⟩, fun _ => ?_⟩
    rwa [Table.size_modify]

variable (ready : store.Ready settles .settling site)

include ready

/-- A name that waits to be merged is younger than its candidates. -/
theorem modest_unmerged (known : settles → ∀ candidate ∈ candidates, candidate.index <
    store.types.members.size) :
    Ending.Modest settles .settling (fun _ => []) store ((do
      let owner ← symbolOf symbol
      let unmerged ← onSymbols (Symbols.create name .unmerged owner.span)
      updateSymbol unmerged fun entry =>
      { entry with enclosing := some symbol, scope := owner.ownScope, candidates }
      return Member.own unmerged) site store) := by
  refine modest_andThen (modest_run _ ready) fun owner _ same run _ _ _ => ?_
  obtain ⟨rfl, around⟩ := symbolOf_eq_ok run
  refine modest_andThen ((drafts_create rfl).ends site same ready (List.forall_mem_nil _))
    fun unmerged _ created run keeps sustains isOpen => ?_
  cases run
  refine modest_andThen (modest_change (fun _ => ⟨rfl, rfl, rfl⟩) (fun _ _ noObject => noObject)
    (.inl (isOpen _ List.mem_cons_self)) (by rintro ⟨⟩) fun holds sound entry stored => ?_)
    fun _ _ placed _ further last _ => modest_run _ ((ready.next keeps sustains).next further last)
  refine ⟨?_, (sound.descends _ entry stored).2.1, fun candidate listed => ?_⟩
  · rintro _ ⟨⟩
    exact Table.lt_size_of_get? around
  · obtain ⟨member, found⟩ := Table.exists_get?_of_lt (show Handle.index candidate < _ from
      known holds candidate listed)
    exact ⟨member, found, (ready holds).1.bounded.symbol candidate member found⟩

theorem modest_inheritEntry (type : TypeId)
    (known : settles → ∀ candidate ∈ candidates, candidate.index < store.types.members.size) :
    Ending.Modest settles .settling (fun _ => []) store ((do
      let member ← onTypes (Types.createMember (← inheritedEntry symbol name candidates))
      onTypes (Types.setMember type name member)) site store) := by
  have entered : Ending.Modest settles .settling (fun _ => []) store
    (inheritedEntry symbol name candidates site store) := by
    rcases candidates with _ | ⟨single, _ | ⟨second, rest⟩⟩
    · exact modest_unmerged ready known
    · exact modest_run (do return Member.dependent (← memberSymbol single) single none) ready
    · exact modest_unmerged ready known
  refine modest_andThen entered fun member _ middle run _ _ _ => ?_
  obtain ⟨unlearned, origin, below⟩ := origin_inheritedEntry _ _ _ run False.elim
  refine modest_andThen (modest_createMember unlearned origin below) fun id _ last run _ _ _ => ?_
  cases run
  refine modest_zoom inferInstance (fun _ => rfl) (fun _ => rfl) fun _ _ changed run => ?_
  refine .of_steps rfl fun sound => ?_
  have stored := Table.lt_size_of_get? (middle.types.members.get?_push_next member)
  exact Types.steps_setMember sound.rooted sound.raw stored _ changed run

theorem modest_inheritAll (type : TypeId)
    (known : settles → ∀ entry ∈ inherited, ∀ candidate ∈ entry.2, candidate.index <
      store.types.members.size) :
    Ending.Modest settles .settling (fun _ => []) store ((inherited.forM fun entry => do
      let member ← onTypes (Types.createMember (← inheritedEntry symbol entry.1 entry.2))
      onTypes (Types.setMember type entry.1 member) : Resolve PUnit) site store) := by
  induction inherited generalizing store with
  | nil => exact modest_run (pure PUnit.unit) ready
  | cons entry rest ih =>
    refine modest_andThen (modest_inheritEntry ready type fun holds =>
      known holds entry List.mem_cons_self)
      fun _ _ middle _ keeps sustains _ => ?_
    refine ih (ready.next keeps sustains) fun holds other listed candidate inside => ?_
    have before : Handle.index candidate < _ :=
      known holds other (List.mem_cons_of_mem _ listed) candidate inside
    obtain ⟨member, stored⟩ := Table.exists_get?_of_lt before
    obtain ⟨_, found, _⟩ := ((sustains holds (ready holds).1).2 rfl).members candidate member stored
    exact Table.lt_size_of_get? found

end Inheritance

/-- A merged name stands for an older symbol. -/
theorem modest_applyMerge {site : Surroundings} {store : Store} {id : SymbolId} {merge : Merge}
    (ready : store.Ready settles .settling site) (isOpen : store.Open .settling id)
    (older : settles → ∀ target type, merge = .forwarded target type → target.index < id.index)
    (candidates : List Inherited) :
    Ending.Modest settles .settling (fun _ => []) store
    (applyMerge id candidates merge site store) := by
  have other {step : Resolve Unit} (modest : Modest .settling [id] step) :
      Ending.Modest settles .settling (fun _ => []) store (step site store) :=
    modest.drafts.ends site store ready (List.forall_mem_singleton.mpr isOpen)
  have changes {change : Symbol → Symbol} := @modest_own [id] id change List.mem_cons_self
  unfold applyMerge
  refine modest_andThen (modest_run _ ready) fun symbol _ same run _ _ _ => ?_
  obtain ⟨rfl, _⟩ := symbolOf_eq_ok run
  cases merge with
  | forwarded target type =>
    refine modest_change (fun _ => ⟨rfl, rfl, rfl⟩) (fun _ _ _ => rfl) (.inl isOpen) (by rintro ⟨⟩)
      fun holds sound entry stored => ?_
    obtain ⟨around, _, candidates⟩ := sound.descends id entry stored
    exact ⟨around, by rintro _ ⟨⟩; exact older holds target type rfl, candidates⟩
  | ambiguous => exact other (changes (fun _ => ⟨rfl, rfl, rfl⟩) (fun _ _ => rfl) fun _ => rfl)
  | unmergeable =>
    refine other (.after fun spans => .after fun _ => ?_)
    exact changes (fun _ => ⟨rfl, rfl, rfl⟩) (fun _ noObject => noObject) fun _ => rfl
  | mismatched =>
    refine other (.after fun listed => .after fun _ => ?_)
    exact changes (fun _ => ⟨rfl, rfl, rfl⟩) (fun _ noObject => noObject) fun _ => rfl
  | function type isAbstract isPure agreesOnPurity =>
    have merged {flags : Flags} : Modest .settling [id] (updateSymbol id fun entry =>
        { entry with kind := .merged, flags, type := some type }) :=
      changes (fun _ => ⟨rfl, rfl, rfl⟩) (fun _ _ => rfl) fun _ => rfl
    refine other ?_
    dsimp only
    split
    · exact .after fun _ => merged
    · exact merged

end Resolve
end Resolution
