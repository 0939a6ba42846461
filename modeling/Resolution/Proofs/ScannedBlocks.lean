import Resolution.Proofs.Scanning

/-!
# The scan of a program

All declarations of a list of blocks get new symbols before the first of them gets its sort, so
whatever is done for one of them leaves the others alone.  The built-in classes stand in one block,
and each of them is met once: when the scan is over, every built-in class has its symbol.
-/

namespace Resolution

namespace Tree

variable {before after : Tree}

theorem grows_of_kinds (kinds : ∀ id, (after.get? id).map Node.kind =
    (before.get? id).map Node.kind) :
    before.Grows after := by
  intro id node stored
  have same := kinds id
  rw [stored] at same
  exact Option.map_eq_some_iff.mp same

theorem Guarded.of_kinds {file block : NodeId} (guarded : before.Guarded file block)
    (kinds : ∀ id, (after.get? id).map Node.kind = (before.get? id).map Node.kind) :
    after.Guarded file block := by
  have forth := grows_of_kinds kinds
  have back := @grows_of_kinds after before fun id => (kinds id).symm
  refine ⟨?_, fun id node stored apart child listed => ?_, fun id node stored apart listed => ?_⟩
  · obtain ⟨node, stored, kind⟩ := guarded.isFile
    obtain ⟨later, found, same⟩ := forth file node stored
    exact ⟨later, found, same.trans kind⟩
  · obtain ⟨earlier, found, kind⟩ := back id node stored
    exact (guarded.inner id earlier found apart child (kind ▸ listed)).grow forth
  · obtain ⟨earlier, found, kind⟩ := back id node stored
    exact guarded.outer id earlier found apart (kind ▸ listed)

end Tree

/-- Sort of the symbol of a class or interface. -/
def ObjectSort.symbolKind : ObjectSort → SymbolKind
  | .classType => .classType
  | .interface => .interface

/-- Sort of the type of a class or interface. -/
def ObjectSort.typeKind : ObjectSort → TypeKind
  | .classType => .classType
  | .interface => .interface

namespace Store

variable {id : SymbolId} {before after : Store} {taken : TypeId → Prop} {declaration : NodeId}
  {named : SymbolId → Prop} {type : TypeId} {store : Store}

/-- The symbol is new, and nothing was done for its declaration. -/
def Placed (store : Store) (id : SymbolId) (declaration : NodeId) : Prop :=
  ∃ node header scope enclosing, store.tree.get? declaration = some node ∧
    node.kind.header? = some header ∧
    store.symbols.get? id = some (header.placeholder declaration scope enclosing)

theorem Placed.spare (placed : before.Placed id declaration)
    (spares : before.Spares named taken after)
    (spared : ¬named id) : after.Placed id declaration := by
  obtain ⟨node, header, scope, enclosing, found, headed, stored⟩ := placed
  obtain ⟨later, there, kind⟩ := Tree.grows_of_kinds spares.kinds declaration node found
  exact ⟨later, header, scope, enclosing,
    there, by rw [kind, headed], spares.symbols id _ stored spared⟩

theorem Introduces.placed (introduces : before.Introduces after declaration id) :
    after.Placed id declaration := by
  obtain ⟨node, header, scope, enclosing, found, headed, stored⟩ := introduces.made
  exact ⟨{ node with symbol := some id }, header, scope, enclosing, introduces.node node found,
    headed, stored⟩

/-- A type has a symbol. -/
def Bound (store : Store) (type : TypeId) : Prop :=
  ∃ entry id, store.types.entries.get? type = some entry ∧ entry.symbol = some id

/-- The scan of a symbol, after which a built-in type that it declares has a symbol. -/
def Assigned (id : SymbolId) (type? : Option TypeId) (store after : Store) : Prop :=
  store.Scanned (· = id) (fun type => type? = some type) after ∧ ∀ type, type? = some type →
    after.Bound type

theorem Bound.spare
    (bound : before.Bound type) (spares : before.Spares named taken after) (spared : ¬taken type) :
    after.Bound type := by
  obtain ⟨entry, id, stored, declares⟩ := bound
  obtain ⟨later, found, _, symbol⟩ := spares.types type entry stored
  exact ⟨later, id, found, (symbol spared).trans declares⟩

/-- The built-in type that a symbol declares. -/
def builtinOf (store : Store) (id : SymbolId) : Option TypeId :=
  (store.symbols.get? id).bind fun symbol =>
    if symbol.span.isPrelude then Types.builtin? symbol.name else none

/-- The symbol is new, and a built-in type that it declares is a class without a symbol. -/
structure Awaits (store : Store) (id : SymbolId) : Prop where
  placed : ∃ declaration, store.Placed id declaration ∧
    ∀ type, store.builtinOf id = some type → store.tree.DeclaresBuiltin declaration type
  blank : ∀ type, store.builtinOf id = some type → ∃ entry, store.types.entries.get? type =
    some entry ∧
    entry.kind = .classType ∧ entry.symbol = none

theorem builtinOf_of_placed {node : Node} {header : Header}
    (placed : store.Placed id declaration) (found : store.tree.get? declaration = some node)
    (headed : node.kind.header? = some header) : store.builtinOf id = header.builtin? := by
  obtain ⟨same, again, scope, enclosing, there, also, stored⟩ := placed
  cases found.symm.trans there
  cases headed.symm.trans also
  rw [builtinOf, stored]
  rfl

theorem builtinOf_spare (placed : before.Placed id declaration)
    (spares : before.Spares named taken after)
    (spared : ¬named id) : after.builtinOf id = before.builtinOf id := by
  obtain ⟨_, _, _, _, _, _, stored⟩ := placed
  rw [builtinOf, builtinOf, stored, spares.symbols id _ stored spared]

/-- Declarations outside of the block of the built-in classes declare no built-in types. -/
theorem Placed.awaits (placed : store.Placed id declaration)
    (ordinary : store.tree.Ordinary declaration) : store.builtinOf id = none ∧ store.Awaits id := by
  have ⟨node, header, _, _, found, headed, _⟩ := placed
  obtain ⟨same, again, plain⟩ := ordinary
  cases found.symm.trans again
  have none : store.builtinOf id = none := (builtinOf_of_placed placed found headed).trans
    (plain header headed)
  refine ⟨none, ⟨declaration, placed, fun type given => ?_⟩, fun type given => ?_⟩ <;>
    · cases none.symm.trans given

theorem Awaits.spare (awaits : before.Awaits id) (spares : before.Spares named taken after)
    (spared : ¬named id)
    (free : ∀ type, before.builtinOf id = some type → ¬taken type) : after.Awaits id := by
  obtain ⟨declaration, placed, isClass⟩ := awaits.placed
  have same := builtinOf_spare placed spares spared
  refine ⟨⟨declaration, placed.spare spares spared, fun type given => ?_⟩, fun type given => ?_⟩
  · exact (isClass type (same ▸ given)).grow (Tree.grows_of_kinds spares.kinds)
  · obtain ⟨entry, known, isSort, nameless⟩ := awaits.blank type (same ▸ given)
    obtain ⟨later, found, kind, symbol⟩ := spares.types type entry known
    exact ⟨later, found, kind.trans isSort, (symbol (free type (same ▸ given))).trans nameless⟩

/-- A declaration stays under way. -/
theorem Declaring.follow {here : Store} {symbol later : Symbol}
    (declaring : before.Declaring taken here id symbol type) (follows : here.Follows [] after)
    (scanned : here.Scanned (· = id) (fun _ => False) after)
    (stored : after.symbols.get? id = some later) (typed : later.type = symbol.type) :
    before.Declaring taken after id later type := by
  obtain ⟨entry, declares, _⟩ := declaring.declares
  obtain ⟨final, there⟩ := follows.declares id type entry declares
  obtain ⟨same, again, sort⟩ := scanned.consistent.named id type final there
  rw [stored] at again
  cases again
  exact ⟨declaring.scanned.trans (scanned.weaken (fun _ holds => holds) fun _ => False.elim),
    stored,
    typed.trans declaring.typed, final, there, sort⟩

end Store

namespace Resolve

variable {site : Surroundings} {store : Store} {id : SymbolId} {scope : ScopeId}
  {enclosing : Option SymbolId}

/-! ## Placeholders -/

theorem returns_insertReceived {name : String} {member : MemberId} (idle : site.active = [])
    (consistent : store.Consistent []) (unapplied : store.types.Unapplied)
    (incomplete : ∀ type entry, store.types.entries.get? type = some entry →
      entry.kind.isBuilt = true →
      entry.complete = false) (receives : store.Receives scope) :
    Returns (onNames (Environment.insert scope name member)) site store fun _ after =>
      store.Evolves [] after ∧ after.symbols = store.symbols ∧ after.tree = store.tree := by
  obtain ⟨opened, stored, typed⟩ := receives
  cases keeps : opened.type with
  | none =>
    refine (returns_insert (idle ▸ consistent) ⟨opened, stored, keeps⟩).weaken ?_
    rintro _ after ⟨kept, follows, symbols, tree⟩
    exact ⟨⟨idle ▸ kept, idle ▸ follows⟩, symbols, tree⟩
  | some type =>
    obtain ⟨entry, known⟩ := typed type keeps
    refine ensures_onNames.mpr ?_
    unfold Environment.insert
    refine .get ?_
    refine .ask fun same fetched => ?_
    obtain rfl : opened = same := Option.some.inj
      (stored.symm.trans ((Table.fetch_eq_ok_iff _ _ _).mp fetched))
    rw [keeps]
    refine Action.ensures_zoom.mpr ?_
    unfold Types.insertMember
    refine .get ?_
    refine .ask fun same found => ?_
    obtain rfl : entry = same := Option.some.inj (known.symm.trans (Types.entry_eq_ok_iff.mp found))
    split
    · exact .pure ⟨⟨consistent, .refl _ _⟩, rfl, rfl⟩
    rename_i members inserted
    obtain ⟨_, set⟩ := NameTable.eq_set_of_insert inserted
    obtain ⟨given, mirrored⟩ := consistent.inherits.mirrored
    refine Action.ensures_bind.mpr (.updateIn fun _ => .pure ?_)
    refine ⟨consistent.amend unapplied incomplete known ⟨rfl, rfl, rfl, fun _ => rfl, fun _ =>
      rfl⟩ rfl rfl ?_ rfl ?_
      fun _ => rfl, rfl, rfl⟩
    · exact set ▸ (mirrored.distinct type entry known).set name member
    · intro isObject
      exact (consistent.inherits.extendable known (unapplied type entry known) isObject).parameters

theorem returns_declareReceived {declaration : NodeId}
    (idle : site.active = []) (consistent : store.Consistent []) (unsettled : store.Unsettled)
    (receives : store.Receives scope) :
    Returns (declare declaration scope enclosing) site store fun answer after =>
      (store.Scanned (fun _ => False) (fun _ => False) after ∧ store.Follows [] after) ∧
        ∀ symbol, answer = some symbol → store.Introduces after declaration symbol := by
  have declared : Returns (declare declaration scope enclosing) site store fun answer after =>
    store.Evolves [] after ∧
        ∀ symbol, answer = some symbol → store.Introduces after declaration symbol := by
    refine returns_declare (idle ▸ consistent) (fun after kept follows =>
      ⟨idle ▸ kept, idle ▸ follows⟩) ?_
    intro name member middle kept follows same
    rw [idle] at kept follows
    refine (returns_insertReceived idle kept ?_ ?_ (receives.follow follows)).weaken ?_
    · intro type entry found
      exact unsettled.unapplied type entry (same ▸ found)
    · intro type entry found
      exact unsettled.incomplete type entry (same ▸ found)
    · rintro _ after ⟨⟨keptAfter, further⟩, _⟩
      exact ⟨keptAfter, follows.trans further⟩
  refine (declared.and (spares_declare (fun _ => False) unsettled)).weaken ?_
  rintro answer after ⟨⟨⟨kept, follows⟩, introduces⟩, ⟨unsettledAfter, spares⟩, _⟩
  exact ⟨⟨⟨kept, unsettledAfter, spares⟩, follows⟩, introduces⟩

theorem returns_declareAll {declarations : List NodeId}
    (idle : site.active = []) (consistent : store.Consistent []) (unsettled : store.Unsettled)
    (receives : store.Receives scope) :
    Returns (declareAll scope enclosing declarations) site store fun created after =>
      store.Scanned (fun _ => False) (fun _ => False) after ∧ created.Nodup ∧
        ∀ id ∈ created, store.symbols.get? id = none ∧ ∃ declaration ∈ declarations,
        after.Placed id declaration := by
  induction declarations generalizing store with
  | nil => exact .pure ⟨⟨consistent, unsettled, .refl _ _ _⟩, List.nodup_nil, nofun⟩
  | cons declaration rest ih =>
    rw [declareAll]
    refine (returns_declareReceived idle consistent unsettled receives).bind ?_
    rintro answer middle ⟨⟨one, follows⟩, introduces⟩
    refine (ih one.consistent one.unsettled (receives.follow follows)).bind ?_
    rintro created after ⟨two, distinct, others⟩
    have older : ∀ id ∈ created, store.symbols.get? id = none ∧
        ∃ other ∈ declaration :: rest, after.Placed id other := by
      intro id listed
      obtain ⟨missing, other, inside, placed⟩ := others id listed
      refine ⟨?_, other, List.mem_cons_of_mem _ inside, placed⟩
      cases stored : store.symbols.get? id with
      | none => rfl
      | some symbol =>
        rw [one.spares.symbols id symbol stored not_false] at missing
        cases missing
    refine .pure ⟨one.trans two, ?_⟩
    cases answer with
    | none => exact ⟨distinct, older⟩
    | some symbol =>
      have introduced := introduces symbol rfl
      obtain ⟨_, stored, _⟩ := introduced.symbol
      refine ⟨List.nodup_cons.mpr ⟨fun listed => ?_, distinct⟩, List.forall_mem_cons.mpr
        ⟨⟨introduced.new, declaration,
        List.mem_cons_self, introduced.placed.spare two.spares not_false⟩, older⟩⟩
      rw [(others symbol listed).1] at stored
      cases stored

/-! ## Types -/

/-- Scanning the members of a declaration makes new symbols and leaves the others alone. -/
def ScansMembers (site : Surroundings) (file block : NodeId) (scan : MemberScan) : Prop :=
  ∀ fragments scope id here, here.Consistent [] → here.Unsettled → here.tree.Guarded file block →
    here.Receives scope →
    Returns (scan fragments scope id) site here fun _ after =>
      here.Scanned (fun _ => False) (fun _ => False) after

section Types

variable {file block : NodeId} {scan : MemberScan} {symbol : Symbol} {fragments : List NodeId}
  {taken : TypeId → Prop} {before : Store} {type : TypeId} {sort : ObjectSort}
  {type? : Option TypeId} {parameters : List NodeId}

theorem returns_scanMembers {kind : ScopeKind} {parent : Option ScopeId}
    (members : ScansMembers site file block scan)
    (guarded : before.tree.Guarded file block)
    (declaring : before.Declaring taken store id symbol type)
    (opens : symbol.kind = .space ∨ symbol.kind.isBuilt = true) : Returns (do
      let scope ← openTypeScope id kind type parent
      scan fragments scope id) site store fun _ after =>
        store.Scanned (· = id) (fun _ => False) after := by
  refine (returns_openTypeScope declaring opens).bind ?_
  rintro scope opened ⟨one, receives⟩
  have kinds := declaring.scanned.spares.kinds
  refine (members _ _ _ _ one.consistent one.unsettled
    ((guarded.of_kinds kinds).of_kinds one.spares.kinds) receives).weaken ?_
  intro _ after two
  exact one.trans (two.weaken (fun _ => False.elim) fun _ => False.elim)

theorem returns_declareSpace (members : ScansMembers site file block scan)
    (consistent : store.Consistent [])
    (unsettled : store.Unsettled) (guarded : store.tree.Guarded file block)
    (stored : store.symbols.get? id = some symbol) (isNew : symbol.kind = .placeholder) :
    Returns (declareSpace scan id fragments) site store fun _ after =>
      store.Scanned (· = id) (fun _ => False) after := by
  unfold declareSpace
  refine .updateSymbol fun _ => ?_
  refine ensures_bind.mpr (ensures_onTypes.mpr (Types.ensures_push.mpr ?_))
  refine .updateSymbol fun _ => ?_
  have declaring := @Store.Consistent.declaring store id symbol _ .space (fun _ => False) .space _
    consistent unsettled
    stored isNew rfl (consistent.provides_named stored isNew nofun)
    fun entry known => by rw [store.types.entries.get?_next] at known; cases known
  refine (looks_symbolOf id).bind fun entry => ?_
  have scanned := @returns_scanMembers site _ id file block scan _ fragments _ _ _ .space
    entry.scope members guarded
    declaring (.inl rfl)
  refine ensures_bind.mpr ((ensures_bind.mp scanned).weaken fun scope opened inner => inner.bind ?_)
  intro _ filled one
  obtain ⟨made, ⟨there, _⟩, sort⟩ := declaring.declares
  obtain ⟨later, found, kind, _⟩ := one.spares.types _ made there
  have isSpace : later.kind = .space := by
    rw [kind]
    exact (Option.some.inj sort).symm
  refine ensures_onTypes.mpr (.updateIn fun _ => ?_)
  obtain ⟨given, mirrored⟩ := one.consistent.inherits.mirrored
  obtain ⟨kept, _⟩ := @Store.Consistent.amend filled _ later (fun entry =>
    { entry with complete := true }) one.consistent
    one.unsettled.unapplied one.unsettled.incomplete found ⟨rfl, rfl, rfl, fun _ => rfl, fun _ =>
      rfl⟩ rfl rfl
    (mirrored.distinct _ later found) rfl (by rw [isSpace]; nofun) (by rw [isSpace]; nofun)
  have notBuilt : ∀ same, filled.types.entries.get? store.types.entries.next = some same →
    same.kind.isBuilt = true →
      true = same.complete := by
    intro same again isBuilt
    cases found.symm.trans again
    rw [isSpace] at isBuilt
    cases isBuilt
  obtain ⟨unsettledAfter, two⟩ := @Store.Unsettled.updateType (· = id)
    (fun _ => False) filled one.unsettled _
    (fun entry => { entry with complete := true }) (fun _ => rfl) (fun _ => rfl) (.inr fun _ =>
      rfl) notBuilt
  exact (declaring.scanned.trans one).trans ⟨kept, unsettledAfter, two⟩

theorem returns_declareEnum {isFlags : Bool} (members : ScansMembers site file block scan)
    (consistent : store.Consistent []) (unsettled : store.Unsettled)
    (guarded : store.tree.Guarded file block)
    (stored : store.symbols.get? id = some symbol) (isNew : symbol.kind = .placeholder) :
    Returns (declareEnum scan id isFlags fragments) site store fun _ after =>
      store.Scanned (· = id) (fun _ => False) after := by
  unfold declareEnum
  refine .updateSymbol fun _ => ?_
  refine ensures_bind.mpr (ensures_onTypes.mpr (Types.ensures_push.mpr ?_))
  refine .updateSymbol fun _ => ?_
  have sorted : (if isFlags then SymbolKind.flags else .enum).typeKind? =
    some (if isFlags then .flags else .enum) := by
    cases isFlags <;> rfl
  have noFunction : (if isFlags then TypeKind.flags else .enum) ≠ .function := by
    cases isFlags <;> nofun
  have declaring := @Store.Consistent.declaring store id symbol _ _ (fun _ => False)
    (if isFlags then .flags else .enum) _
    consistent unsettled stored isNew sorted (consistent.provides_named stored isNew noFunction)
    fun entry known => by rw [store.types.entries.get?_next] at known; cases known
  refine (looks_symbolOf id).bind fun entry => ?_
  refine (returns_scanMembers members guarded declaring (.inr (by cases isFlags <;> rfl))).weaken ?_
  intro _ after one
  exact declaring.scanned.trans one

theorem returns_objectType (stored : store.symbols.get? id = some symbol)
    (builtin : (if symbol.span.isPrelude then Types.builtin? symbol.name else none) = type?)
    (created : Store.Provides store.types
      { store.types with
        entries := store.types.entries.push { kind := sort.typeKind, symbol := some id } } id
      store.types.entries.next sort.typeKind)
    (bound : ∀ type, type? = some type → Store.Provides store.types
      { store.types with
        entries := store.types.entries.modify type fun entry =>
          { entry with symbol := some id } } id type
      sort.typeKind) :
    Returns (objectType id sort) site store fun type after =>
    ∃ types, after = { store with types } ∧
      Store.Provides store.types types id type sort.typeKind ∧
        (type? = some type ∨ type? = none ∧ store.types.entries.get? type = none) := by
  unfold objectType
  refine ensures_bind.mpr (ensures_symbolOf.mpr fun same again => ?_)
  cases stored.symm.trans again
  rw [builtin]
  cases type? with
  | some type =>
    refine ensures_bind.mpr (ensures_onTypes.mpr (.updateIn fun _ => ?_))
    exact .pure ⟨_, rfl, bound type rfl, .inl rfl⟩
  | none =>
    have new := store.types.entries.get?_next
    cases sort with
    | classType =>
      exact ensures_onTypes.mpr (Types.ensures_push.mpr ⟨_, rfl, created, .inr ⟨rfl, new⟩⟩)
    | interface =>
      exact ensures_onTypes.mpr (Types.ensures_push.mpr ⟨_, rfl, created, .inr ⟨rfl, new⟩⟩)

/-- A class or interface under way gets its type parameters. -/
theorem returns_declareTypeParameters {parameters : List NodeId}
    {next : ScopeId → Resolve Unit} {post : Unit → Store → Prop} (idle : site.active = [])
    (declaring : before.Declaring taken store id symbol type) (bare : symbol.parameters = [])
    (rest : ∀ around after declared, store.Scanned (· = id) (fun _ => False) after →
      before.Declaring taken after id { symbol with parameters := declared } type →
      Returns (next around) site after post) :
    Returns (do
      let around ← openParameterScope id parameters
      onTypes (Types.setParameters type (← parameterTypes id))
      next around) site store post := by
  have consistent := declaring.scanned.consistent
  refine ((Safe.returns inferInstance (idle ▸ consistent)).and
    (spares_openParameterScope declaring.scanned.unsettled)).bind ?_
  rintro around opened ⟨⟨kept, follows⟩, ⟨unsettledOpened, spares⟩, declares⟩
  rw [idle] at kept follows
  obtain ⟨declared, there, areParameters⟩ := declares symbol declaring.stored bare
  have one : store.Scanned (· = id) (fun _ => False) opened := ⟨kept, unsettledOpened, spares⟩
  have further := declaring.follow follows one there rfl
  refine (returns_parameterTypes there areParameters).bind ?_
  rintro types _ ⟨rfl, areTypes⟩
  refine ensures_bind.mpr (ensures_onTypes.mpr (.updateIn fun _ => ?_))
  obtain ⟨entry, ⟨found, _⟩, _⟩ := further.declares
  obtain ⟨given, mirrored⟩ := kept.inherits.mirrored
  obtain ⟨keptAfter, last⟩ := @Store.Consistent.amend _ type entry (fun entry =>
    { entry with parameters := types }) kept
    unsettledOpened.unapplied unsettledOpened.incomplete found ⟨rfl, rfl, rfl, fun _ =>
      rfl, fun _ => rfl⟩ rfl rfl
    (mirrored.distinct type entry found) rfl (fun _ => areTypes) fun _ => rfl
  obtain ⟨unsettledAfter, sparesAfter⟩ := @Store.Unsettled.updateType (· = id) (fun _ => False) _
    unsettledOpened type (fun entry => { entry with parameters := types }) (fun _ => rfl)
      (fun _ => rfl) (.inr fun _ => rfl)
    fun _ _ _ => rfl
  have two := Store.Scanned.mk keptAfter unsettledAfter sparesAfter
  exact rest around _ declared (one.trans two) (further.follow last two there rfl)

theorem returns_declareObject {type? : Option TypeId}
    (idle : site.active = []) (members : ScansMembers site file block scan)
    (consistent : store.Consistent []) (unsettled : store.Unsettled)
    (guarded : store.tree.Guarded file block)
    (stored : store.symbols.get? id = some symbol) (isNew : symbol.kind = .placeholder)
    (bare : symbol.parameters = [])
    (builtin : (if symbol.span.isPrelude then Types.builtin? symbol.name else none) = type?)
    (blank : ∀ type, type? = some type → sort = .classType ∧
      ∃ entry, store.types.entries.get? type = some entry ∧ entry.kind = .classType ∧
      entry.symbol = none) :
    Returns (declareObject scan id sort parameters fragments) site store fun _ after =>
      store.Assigned id type? after := by
  unfold declareObject
  refine .updateSymbol fun _ => ?_
  have sorted : (store.symbols.modify id fun entry => { entry with kind := sort.symbolKind }).get?
    id =
      some { symbol with kind := sort.symbolKind } := by
    rw [Table.get?_modify_self, stored]
    rfl
  have noFunction : sort.typeKind ≠ .function := by cases sort <;> nofun
  have typed := @returns_objectType site
    { store with
      symbols := store.symbols.modify id fun entry =>
        { entry with kind := sort.symbolKind } } id _ sort type?
    sorted builtin (consistent.provides_named stored isNew noFunction) fun type given => by
      obtain ⟨rfl, entry, found, isClass, unnamed⟩ := blank type given
      exact consistent.provides_builtin unsettled stored isNew found isClass unnamed
  refine typed.bind ?_
  rintro type _ ⟨types, rfl, provides, chosen⟩
  refine .updateSymbol fun _ => ?_
  have declares : sort.symbolKind.typeKind? = some sort.typeKind := by cases sort <;> rfl
  have declaring := @Store.Consistent.declaring store id symbol type _ (fun type =>
    type? = some type) sort.symbolKind types
    consistent unsettled stored isNew declares provides fun entry known =>
      chosen.resolve_right fun ⟨_, new⟩ => by rw [new] at known; cases known
  refine returns_declareTypeParameters idle declaring bare fun around named declared one further =>
    ?_
  have isBuilt : sort.symbolKind.isBuilt = true := by cases sort <;> rfl
  refine (returns_scanMembers members guarded further (.inr isBuilt)).weaken ?_
  intro _ after two
  refine ⟨further.scanned.trans (two.weaken (fun _ holds => holds) fun _ => False.elim),
    fun known given => ?_⟩
  obtain ⟨entry, ⟨there, _, owner⟩, _⟩ := further.declares
  have bound : named.Bound type := ⟨entry, id, there, owner⟩
  rcases chosen with isType | ⟨none, _⟩
  · cases isType.symm.trans given
    exact bound.spare two.spares not_false
  · cases none.symm.trans given

end Types

/-! ## Sorts -/

theorem variableKind_typeless (enclosing : Option SymbolKind) (flags : Flags) :
    (variableKind enclosing flags).typeKind? = none ∧ variableKind enclosing flags ≠
    .placeholder := by
  unfold variableKind
  split
  all_goals first | exact ⟨rfl, nofun⟩ | (split <;> exact ⟨rfl, nofun⟩)

section Sorts

variable {file block declaration : NodeId} {scan : MemberScan} {symbol : Symbol}
  {type? : Option TypeId}
  {change : Symbol → Symbol}

variable (idle : site.active = [])

include idle

theorem returns_sortScanned (consistent : store.Consistent [])
    (unsettled : store.Unsettled) (stored : store.symbols.get? id = some symbol)
    (isNew : symbol.kind = .placeholder)
    (progress : ∀ symbol, (change symbol).progress = symbol.progress)
    (untyped : ∀ symbol, (change symbol).kind.typeKind? = none)
    (known : ∀ symbol, (change symbol).kind ≠ .placeholder)
    (ownScope : ∀ symbol, (change symbol).ownScope = symbol.ownScope) :
    Returns (updateSymbol id change) site store fun _ after =>
      store.Scanned (· = id) (fun _ => False) after := by
  have scans : Scans (· = id) (updateSymbol id change) := scans_updateSymbol progress rfl
  have sorted := returns_sort (idle ▸ consistent) ⟨symbol, stored, by rw [isNew]; rfl⟩ progress
    untyped known ownScope
  refine (sorted.and (scans.keeps site store unsettled)).weaken ?_
  rintro _ after ⟨⟨kept, _⟩, unsettledAfter, spares⟩
  exact ⟨idle ▸ kept, unsettledAfter, spares⟩

theorem returns_declareFunctionScanned (consistent : store.Consistent [])
    (unsettled : store.Unsettled) (stored : store.symbols.get? id = some symbol)
    (isNew : symbol.kind = .placeholder) :
    Returns (declareFunction id declaration) site store fun _ after =>
      store.Scanned (· = id) (fun _ => False) after := by
  have scans : Scans (· = id) (declareFunction id declaration) := scans_declareFunction rfl
  have declared := @returns_declareFunction site store id declaration (idle ▸ consistent)
    ⟨symbol, stored, by rw [isNew]; rfl⟩
  refine (declared.and (scans.keeps site store unsettled)).weaken ?_
  rintro _ after ⟨⟨kept, _⟩, unsettledAfter, spares⟩
  exact ⟨idle ▸ kept, unsettledAfter, spares⟩

omit idle in
/-- A symbol learns what has nothing to do with its sort, type and scope. -/
theorem returns_noteScanned (consistent : store.Consistent []) (unsettled : store.Unsettled)
    (develops : ∀ symbol, store.symbols.get? id = some symbol →
      symbol.Develops store (change symbol))
    (progress : ∀ symbol, (change symbol).progress = symbol.progress) :
    Returns (updateSymbol id change) site store fun _ after =>
      store.Scanned (· = id) (fun _ => False) after := by
  refine ensures_onSymbols.mpr (Table.ensures_update.mpr fun _ => ?_)
  obtain ⟨kept, _⟩ := consistent.update_symbol develops
  obtain ⟨unsettledAfter, spares⟩ := @Store.Unsettled.updateSymbol (· = id)
    (fun _ => False) _ unsettled id
    change progress rfl
  exact ⟨kept, unsettledAfter, spares⟩

theorem returns_orderScanned (consistent : store.Consistent []) (unsettled : store.Unsettled)
    (stored : store.symbols.get? id = some symbol)
    (declared : symbol.node = some declaration)
    (isClass : ∀ type, type? = some type → store.tree.DeclaresBuiltin declaration type) :
    Returns (orderFragments id) site store fun answer after =>
      (store.Scanned (· = id) (fun _ => False) after ∧
        ∃ node, after.symbols.get? id = some { symbol with node }) ∧
          ∀ type, type? = some type → after = store ∧
          ∃ rest, answer = some (declaration :: rest) := by
  refine (returns_reorderFragments idle consistent unsettled stored).and ?_
  cases type? with
  | none => exact fun _ _ _ _ _ => nofun
  | some type =>
    obtain ⟨node, _, _, _, _, found, kind, _⟩ := isClass type rfl
    refine (returns_orderFragments stored declared found fun _ _ isExtension => ?_).weaken ?_
    · cases kind.symm.trans isExtension
    · rintro _ after ⟨same, fragments, rfl, chained⟩ _ _
      obtain ⟨rest, rfl⟩ := fragments_eq_cons chained
      exact ⟨same, rest, rfl⟩

theorem returns_assignSort {primary : NodeId} {fragments : List NodeId} {flags : Flags}
    (members : ScansMembers site file block scan)
    (consistent : store.Consistent []) (unsettled : store.Unsettled)
    (guarded : store.tree.Guarded file block)
    (stored : store.symbols.get? id = some symbol) (isNew : symbol.kind = .placeholder)
    (bare : symbol.parameters = [])
    (builtin : (if symbol.span.isPrelude then Types.builtin? symbol.name else none) = type?)
    (blank : ∀ type, type? = some type → store.tree.DeclaresBuiltin primary type ∧
      ∃ entry, store.types.entries.get? type = some entry ∧ entry.kind = .classType ∧
      entry.symbol = none) :
    Returns (assignSort scan id flags primary fragments) site store fun _ after =>
    store.Assigned id type? after := by
  unfold assignSort
  refine ensures_bind.mpr (ensures_kindOf.mpr fun node found => ?_)
  have isClass : ∀ type, type? = some type → ∃ header parameters bases body,
      node.kind = .objectDecl header .classType parameters bases body := by
    intro type given
    obtain ⟨⟨same, header, parameters, bases, body, there, kind, _⟩, _⟩ := blank type given
    obtain rfl : node = same := Option.some.inj (found.symm.trans there)
    exact ⟨header, parameters, bases, body, kind⟩
  -- What is no class declares no built-in type.
  have plainly {step : Resolve Unit}
      (other : ∀ header parameters bases body, node.kind ≠ .objectDecl header .classType parameters
        bases body)
      (scanned : Returns step site store fun _ after =>
        store.Scanned (· = id) (fun _ => False) after) :
      Returns step site store fun _ after => store.Assigned id type? after := by
    refine scanned.weaken fun _ after one =>
      ⟨one.weaken (fun _ holds => holds) fun _ => False.elim, fun type given => ?_⟩
    obtain ⟨header, parameters, bases, body, kind⟩ := isClass type given
    exact (other header parameters bases body kind).elim
  split <;> rename_i kind
  case h_1 =>
    exact plainly (by rw [kind]; nofun)
      (returns_declareSpace members consistent unsettled guarded stored isNew)
  case h_2 =>
    exact plainly (by rw [kind]; nofun)
      (returns_declareEnum members consistent unsettled guarded stored isNew)
  case h_3 =>
    refine returns_declareObject idle members consistent unsettled guarded stored isNew bare builtin
      fun type given => ?_
    obtain ⟨_, _, _, _, isObject⟩ := isClass type given
    cases kind.symm.trans isObject
    exact ⟨rfl, (blank type given).2⟩
  case h_4 =>
    exact plainly (by rw [kind]; nofun)
      (returns_declareFunctionScanned idle consistent unsettled stored isNew)
  case h_5 =>
    refine (looks_enclosingKind? id).bind fun enclosing => plainly (by rw [kind]; nofun) ?_
    obtain ⟨untyped, known⟩ := variableKind_typeless enclosing flags
    exact returns_sortScanned idle consistent unsettled stored isNew (fun _ => rfl)
      (fun _ => untyped) (fun _ => known)
      fun _ => rfl
  case h_6 | h_7 =>
    refine plainly (by rw [kind]; nofun) ?_
    exact returns_sortScanned idle consistent unsettled stored isNew (fun _ => rfl) (fun _ => rfl)
      (fun _ => nofun)
      fun _ => rfl
  case h_8 => exact ensures_throw

theorem returns_assignKind (members : ScansMembers site file block scan)
    (consistent : store.Consistent []) (unsettled : store.Unsettled)
    (guarded : store.tree.Guarded file block) (stored : store.symbols.get? id = some symbol)
    (isNew : symbol.kind = .placeholder) (bare : symbol.parameters = [])
    (declared : symbol.node = some declaration)
    (builtin : (if symbol.span.isPrelude then Types.builtin? symbol.name else none) = type?)
    (blank : ∀ type, type? = some type → store.tree.DeclaresBuiltin declaration type ∧
      ∃ entry, store.types.entries.get? type = some entry ∧ entry.kind = .classType ∧
      entry.symbol = none) :
    Returns (assignKind scan id) site store fun _ after => store.Assigned id type? after := by
  unfold assignKind
  refine (returns_orderScanned idle consistent unsettled stored declared fun type given =>
    (blank type given).1).bind ?_
  rintro answer ordered ⟨⟨one, node, again⟩, first⟩
  have wide := one.weaken (fun _ holds => holds) fun type : TypeId =>
    (False.elim : False → type? = some type)
  cases answer with
  | none =>
    unfold reportStrayExtension
    refine (looks_symbolOf id).bind fun entry => (looks_report _).bind fun _ => ?_
    refine Runs.weaken (returns_noteScanned one.consistent one.unsettled (fun same there =>
      ?_) fun _ => rfl) ?_
    · rw [again] at there
      cases there
      refine ⟨rfl, .refl _, fun _ isBuilt => ?_, .inl rfl⟩
      rw [isNew] at isBuilt
      cases isBuilt
    · intro _ after two
      refine ⟨wide.trans (two.weaken (fun _ holds => holds) fun _ => False.elim), fun type given =>
        ?_⟩
      obtain ⟨_, _, none⟩ := first type given
      cases none
  | some fragments =>
    refine (looks_fragmentFlags id fragments).bind fun flags => ?_
    refine .updateSymbol fun _ => ?_
    have flagged := (Table.get?_modify_self ordered.symbols id fun entry =>
      { entry with flags }).trans (congrArg _ again)
    obtain ⟨kept, _⟩ := @Store.Consistent.update_symbol _ _ id one.consistent (fun entry =>
      { entry with flags })
      fun _ _ => ⟨rfl, .refl _, fun _ _ => rfl, .inl rfl⟩
    obtain ⟨unsettledFlagged, spares⟩ := @Store.Unsettled.updateSymbol (· = id) (fun type =>
      type? = some type)
      _ one.unsettled id (fun entry => { entry with flags }) (fun _ => rfl) rfl
    have two := wide.trans ⟨kept, unsettledFlagged, spares⟩
    cases fragments with
    | nil =>
      refine .pure ⟨two, fun type given => ?_⟩
      obtain ⟨_, _, none⟩ := first type given
      cases none
    | cons primary rest =>
      refine (returns_assignSort idle members two.consistent two.unsettled
        (guarded.of_kinds two.spares.kinds) flagged isNew
        bare builtin fun type given => ?_).weaken ?_
      · obtain ⟨rfl, _, listed⟩ := first type given
        cases listed
        exact blank type given
      · rintro _ after ⟨three, bound⟩
        exact ⟨two.trans three, bound⟩

end Sorts

/-! ## Blocks -/

section Blocks

variable {file block : NodeId} {scan : MemberScan} {blocks : List NodeId} {fuel : Nat}

/-- New symbols get their sorts one after the other. -/
theorem returns_assignKinds {created : List SymbolId} (idle : site.active = [])
    (members : ScansMembers site file block scan) (consistent : store.Consistent [])
    (unsettled : store.Unsettled)
    (guarded : store.tree.Guarded file block) (distinct : created.Nodup) (awaits : ∀ id ∈ created,
      store.Awaits id)
    (apart : (created.filterMap store.builtinOf).Nodup) :
    Returns (created.forM (assignKind scan)) site store fun _ after =>
      store.Scanned (fun id => id ∈ created) (fun type => type ∈ created.filterMap store.builtinOf)
      after ∧
        ∀ type ∈ created.filterMap store.builtinOf, after.Bound type := by
  induction created generalizing store with
  | nil => exact .pure ⟨⟨consistent, unsettled, .refl _ _ _⟩, nofun⟩
  | cons id rest ih =>
    obtain ⟨notListed, distinctRest⟩ := List.nodup_cons.mp distinct
    have separate : ∀ type, store.builtinOf id = some type →
      type ∉ rest.filterMap store.builtinOf := by
      intro type given
      rw [List.filterMap_cons_some given] at apart
      exact (List.nodup_cons.mp apart).1
    obtain ⟨⟨declaration, placed, isClass⟩, blank⟩ := awaits id List.mem_cons_self
    have ⟨_, header, _, _, _, _, stored⟩ := placed
    have own : store.builtinOf id = header.builtin? := by rw [Store.builtinOf, stored]; rfl
    refine (returns_assignKind idle members consistent unsettled guarded stored rfl rfl rfl own.symm
      fun type given => ⟨isClass type given, blank type given⟩).bind ?_
    rintro _ middle ⟨one, bound⟩
    have others : ∀ other ∈ rest, other ≠ id := fun other listed same => notListed (same ▸ listed)
    have awaitsRest : ∀ other ∈ rest, middle.Awaits other := fun other listed =>
      (awaits other (List.mem_cons_of_mem _ listed)).spare one.spares (others other listed)
        fun type given isTaken => separate type isTaken
          (List.mem_filterMap.mpr ⟨other, listed, given⟩)
    have same : rest.filterMap middle.builtinOf = rest.filterMap store.builtinOf := by
      refine List.filterMap_congr fun other listed => ?_
      obtain ⟨_, placedOther, _⟩ := (awaits other (List.mem_cons_of_mem _ listed)).placed
      exact Store.builtinOf_spare placedOther one.spares (others other listed)
    have distinctTypes : (rest.filterMap store.builtinOf).Nodup :=
      apart.sublist ((List.sublist_cons_self id rest).filterMap store.builtinOf)
    refine (ih one.consistent one.unsettled (guarded.of_kinds one.spares.kinds) distinctRest
      awaitsRest
      (same ▸ distinctTypes)).weaken ?_
    rintro _ after ⟨two, boundRest⟩
    rw [same] at two boundRest
    have mem (type : TypeId) : type ∈ (id :: rest).filterMap store.builtinOf ↔
        store.builtinOf id = some type ∨ type ∈ rest.filterMap store.builtinOf := by
      simp only [List.mem_filterMap, List.mem_cons, exists_eq_or_imp]
    refine ⟨(one.weaken ?_ ?_).trans (two.weaken ?_ ?_), fun type listed => ?_⟩
    · rintro _ rfl
      exact List.mem_cons_self
    · exact fun type given => (mem type).mpr (.inl given)
    · exact fun other listed => List.mem_cons_of_mem _ listed
    · exact fun type listed => (mem type).mpr (.inr listed)
    · rcases (mem type).mp listed with given | later
      · exact (bound type given).spare two.spares (separate type given)
      · exact boundRest type later

theorem returns_blockStatements {id : NodeId} :
    Returns (blockStatements id) site store fun statements after => after = store ∧
      ∃ node, store.tree.get? id = some node ∧ node.kind = .block statements := by
  unfold blockStatements
  refine ensures_bind.mpr (ensures_kindOf.mpr fun node found => ?_)
  split
  · rename_i kind
    exact .pure ⟨rfl, node, found, kind⟩
  · exact ensures_throw

/-- Only the block of the built-in classes has statements that declare them. -/
theorem returns_ordinaryStatements (guarded : store.tree.Guarded file block)
    (apart : block ∉ blocks) :
    Returns (blocks.mapM blockStatements) site store fun lists after => after = store ∧
      ∀ list ∈ lists, ∀ statement ∈ list, store.tree.Ordinary statement := by
  refine returns_mapM_reading fun id listed => returns_blockStatements.weaken ?_
  rintro statements after ⟨same, node, found, kind⟩
  refine ⟨same, fun statement inside =>
    guarded.inner id node found (fun here => apart (here ▸ listed)) statement ?_⟩
  rw [kind]
  exact inside

theorem returns_fragmentBlock {fragment : NodeId} (guarded : store.tree.Guarded file block) :
    Returns (fragmentBlock fragment) site store fun body after => after = store ∧ body ≠ block := by
  unfold fragmentBlock
  refine ensures_bind.mpr (ensures_kindOf.mpr fun node found => ?_)
  have part {body : NodeId} (listed : body ∈ node.kind.children)
    (notFile : ∀ other, node.kind ≠ .file other) :
      Returns (pure body : Resolve NodeId) site store fun body after => after = store ∧
        body ≠ block := by
    refine .pure ⟨rfl, ?_⟩
    rintro rfl
    refine guarded.outer fragment node found ?_ listed
    rintro rfl
    obtain ⟨same, again, isFile⟩ := guarded.isFile
    cases found.symm.trans again
    exact notFile _ isFile
  split
  case h_5 => exact ensures_throw
  all_goals
    rename_i kind
    exact part (by rw [kind]; simp [NodeKind.children]) (by rw [kind]; rintro _ ⟨⟩)

/-- How members are scanned within a number of nested blocks. -/
def scanWithin (fuel : Nat) : MemberScan := fun fragments scope symbol => do
  declareBlocks fuel (← fragments.mapM fragmentBlock) scope (some symbol)

/-- Fragments have other blocks than that of the built-in classes. -/
theorem scansMembers_of_declareBlocks
    (declares : ∀ blocks scope enclosing (here : Store), here.Consistent [] → here.Unsettled →
      here.tree.Guarded file block →
      here.Receives scope → block ∉ blocks →
      Returns (declareBlocks fuel blocks scope enclosing) site here
        fun _ after => here.Scanned (fun _ => False) (fun _ => False) after) :
    ScansMembers site file block (scanWithin fuel) := by
  intro fragments scope id here consistent unsettled guarded receives
  refine (returns_mapM_reading fun fragment _ => returns_fragmentBlock guarded).bind ?_
  rintro bodies _ ⟨rfl, others⟩
  exact declares bodies scope (some id) _ consistent unsettled guarded receives fun listed =>
    others block listed rfl

/-- Scanning blocks inside of declarations makes new symbols and leaves the others alone. -/
theorem returns_declareBlocks {enclosing : Option SymbolId}
    (idle : site.active = []) (consistent : store.Consistent []) (unsettled : store.Unsettled)
    (guarded : store.tree.Guarded file block) (receives : store.Receives scope)
    (apart : block ∉ blocks) :
    Returns (declareBlocks fuel blocks scope enclosing) site store fun _ after =>
      store.Scanned (fun _ => False) (fun _ => False) after := by
  induction fuel generalizing store blocks scope enclosing with
  | zero => exact ensures_throw
  | succ fuel ih =>
    rw [declareBlocks]
    refine (returns_ordinaryStatements guarded apart).bind ?_
    rintro statements _ ⟨rfl, ordinary⟩
    refine (returns_declareAll idle consistent unsettled receives).bind ?_
    rintro created middle ⟨one, distinct, new⟩
    have awaits : ∀ id ∈ created, middle.builtinOf id = none ∧ middle.Awaits id := by
      intro id listed
      obtain ⟨_, declaration, inside, placed⟩ := new id listed
      obtain ⟨list, listedToo, within⟩ := List.mem_flatten.mp inside
      exact placed.awaits ((ordinary list listedToo declaration within).grow
        (Tree.grows_of_kinds one.spares.kinds))
    have none : created.filterMap middle.builtinOf = [] :=
      List.filterMap_eq_nil_iff.mpr fun id listed => (awaits id listed).1
    have members := @scansMembers_of_declareBlocks site file block fuel fun _ _ _ _ => ih
    refine Runs.weaken (returns_assignKinds idle members one.consistent one.unsettled
      (guarded.of_kinds one.spares.kinds)
      distinct (fun id listed => (awaits id listed).2) (none ▸ List.nodup_nil)) ?_
    rintro _ after ⟨two, _⟩
    rw [none] at two
    exact one.further (two.weaken (fun _ holds => holds) nofun) fun id listed =>
      .inr (new id listed).1

end Blocks

end Resolve
end Resolution
