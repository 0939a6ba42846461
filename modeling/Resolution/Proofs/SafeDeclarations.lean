import Resolution.Proofs.Safety

/-!
# Later declarations

Functions, their arguments and their type parameters are declared the same way during the scan and
afterwards: a new symbol gets a place in a scope that keeps its names itself, and then its sort.
None of this touches a type that exists.
-/

namespace Resolution

variable {before after : Store} {declaration : NodeId} {id : SymbolId}

/-- Symbol of a declaration that was not looked at. -/
def Header.placeholder (header : Header) (declaration : NodeId) (scope : Option ScopeId)
    (enclosing : Option SymbolId) : Symbol :=
  { name := header.name, kind := .placeholder, span := header.span, node := some declaration, scope,
    enclosing }

/-- A declaration got a new symbol, which was not looked at. -/
structure Store.Introduces (before after : Store) (declaration : NodeId) (id : SymbolId) :
    Prop where
  new : before.symbols.get? id = none
  made : ∃ node header scope enclosing, before.tree.get? declaration = some node ∧
    node.kind.header? = some header ∧
    after.symbols.get? id = some (header.placeholder declaration scope enclosing)
  node : ∀ node, before.tree.get? declaration = some node →
    after.tree.get? declaration = some { node with symbol := some id }

section

variable (introduces : before.Introduces after declaration id)

include introduces

theorem Store.Introduces.symbol :
    ∃ symbol, after.symbols.get? id = some symbol ∧ symbol.kind = .placeholder ∧
    symbol.progress = .untouched ∧
      symbol.node = some declaration := by
  obtain ⟨_, _, _, _, _, _, stored⟩ := introduces.made
  exact ⟨_, stored, rfl, rfl, rfl⟩

theorem Store.Introduces.fresh : after.Fresh id := by
  obtain ⟨symbol, stored, isNew, untouched, _⟩ := introduces.symbol
  exact ⟨symbol, stored, isNew, untouched⟩

theorem Store.Introduces.later {final : Store}
    (symbols : final.symbols = after.symbols)
    (tree : final.tree = after.tree) : before.Introduces final declaration id where
  new := introduces.new
  made := symbols ▸ introduces.made
  node := tree ▸ introduces.node

end

namespace Resolve

variable {site : Surroundings} {store : Store} {inside : Prop} {busy : List SymbolId} {id : NodeId}
  {scope : ScopeId} {enclosing : Option SymbolId} {node : Node} {symbol : SymbolId} {tree : Tree}
  {entry : Symbol}

/-! ## Symbols and scopes -/

instance (id : NodeId) (scope : ScopeId) (enclosing : Option SymbolId) :
    Safe inside busy (placeholder id scope enclosing) := by
  unfold placeholder
  refine .after fun kind => ?_
  split
  · infer_instance
  · exact safe_bind (safe_createSymbol rfl) fun symbol => inferInstance

theorem introduces_placeholder :
    Returns (placeholder id scope enclosing) site store fun symbol after =>
      store.Introduces after id symbol ∧ after.types = store.types := by
  unfold placeholder
  refine ensures_bind.mpr (ensures_kindOf.mpr fun declared found => ?_)
  split
  · exact (looks_kindOf id).bind fun _ => ensures_throw
  rename_i header headed
  refine ensures_bind.mpr (ensures_onSymbols.mpr (Table.ensures_create.mpr ?_))
  refine .updateSymbol fun _ => ?_
  refine ensures_bind.mpr (ensures_onTree.mpr (Table.ensures_update.mpr fun _ =>
    .pure ⟨⟨?_, ?_, ?_⟩, rfl⟩))
  · exact store.symbols.get?_next
  · have stored := store.symbols.get?_push_next
      { name := header.name, kind := .placeholder, span := header.span }
    exact ⟨declared, header, some scope, enclosing, found, headed,
      (Table.get?_modify_self _ _ _).trans (congrArg _ stored)⟩
  · intro node stored
    rw [Table.get?_modify_self, stored]
    rfl

theorem returns_placeholder (consistent : store.Consistent site.active) :
    Returns (placeholder id scope enclosing) site store fun symbol after =>
    store.Evolves site.active after ∧
        store.Introduces after id symbol ∧ after.types = store.types := by
  exact (Safe.returns inferInstance consistent).and introduces_placeholder

instance (symbol : SymbolId) (id : NodeId) : Safe inside busy (appendFragment symbol id) := by
  unfold appendFragment
  refine .after fun fragments => ?_
  split <;> infer_instance

section

variable (consistent : store.Consistent site.active)

include consistent

theorem returns_insert {name : String} {member : MemberId}
    (isPlain : store.Plain scope) :
    Returns (onNames (Environment.insert scope name member)) site store fun _ after =>
      after.Consistent site.active ∧ store.Follows site.active after ∧
      after.symbols = store.symbols ∧
        after.tree = store.tree := by
  obtain ⟨opened, stored, untyped⟩ := isPlain
  refine ensures_onNames.mpr ?_
  unfold Environment.insert
  refine .get ?_
  refine .ask fun entry fetched => ?_
  obtain rfl : opened = entry :=
    Option.some.inj (stored.symm.trans ((Table.fetch_eq_ok_iff _ _ _).mp fetched))
  rw [untyped]
  dsimp only
  split
  · exact .pure ⟨consistent, .refl _ _, rfl, rfl⟩
  · rename_i locals _
    refine Action.ensures_bind.mpr (.updateIn fun _ => .pure ?_)
    have older : ∀ other known, store.scopes.get? other = some known → ∃ later,
        (store.scopes.modify scope fun entry => { entry with locals }).get? other = some later ∧
          later.type = known.type := by
      intro other known found
      rw [Table.get?_modify]
      split
      · exact ⟨{ known with locals }, by rw [found]; rfl, rfl⟩
      · exact ⟨known, found, rfl⟩
    obtain ⟨kept, follows⟩ := consistent.onScopes older
    exact ⟨kept, follows, rfl, rfl⟩

omit consistent in
/-- The symbol that a declaration gets is new and was not looked at. -/
theorem introduces_declare : Returns (declare id scope enclosing) site store fun answer after =>
      ∀ symbol, answer = some symbol → store.Introduces after id symbol := by
  unfold declare
  refine (looks_kindOf id).bind fun kind => ?_
  split
  · exact .pure nofun
  refine (looks_ask _).bind fun existing? => ?_
  split
  · refine (looks_memberSymbol _).bind fun existing =>
      (looks_joinsFragments existing id).bind fun joins => ?_
    split
    · exact ensures_bind.mpr fun _ _ _ _ _ => .pure nofun
    · refine (looks_reportRedeclared _ _).bind fun _ => introduces_placeholder.bind ?_
      rintro symbol after ⟨introduces, _⟩
      refine .pure ?_
      rintro _ ⟨⟩
      exact introduces
  · refine introduces_placeholder.bind ?_
    rintro symbol middle ⟨introduces, _⟩
    refine ensures_bind.mpr (ensures_onTypes.mpr (Types.ensures_createMember.mpr ?_))
    refine ensures_bind.mpr (ensures_onNames.mpr fun outcome environment _ => ?_)
    dsimp only
    split
    · refine .pure ?_
      rintro _ ⟨⟩
      exact introduces.later rfl rfl
    · exact ensures_throw

theorem returns_declare {reached : Store → Prop}
    (follow : ∀ after, after.Consistent site.active → store.Follows site.active after →
      reached after)
    (inserts : ∀ name member middle, middle.Consistent site.active →
      store.Follows site.active middle → middle.types.entries = store.types.entries →
      Returns (onNames (Environment.insert scope name member)) site middle fun _ after =>
      reached after) :
    Returns (declare id scope enclosing) site store fun answer after =>
      reached after ∧ ∀ symbol, answer = some symbol → store.Introduces after id symbol := by
  refine Runs.and ?_ introduces_declare
  unfold declare
  refine (looks_kindOf id).bind fun kind => ?_
  split
  · exact .pure (follow store consistent (.refl _ _))
  refine (looks_ask _).bind fun existing? => ?_
  split
  · refine (looks_memberSymbol _).bind fun existing =>
      (looks_joinsFragments existing id).bind fun joins => ?_
    split
    · refine (Safe.returns inferInstance consistent).bind ?_
      rintro _ after ⟨kept, follows⟩
      exact .pure (follow after kept follows)
    · refine (looks_reportRedeclared _ _).bind fun _ => (returns_placeholder consistent).bind ?_
      rintro symbol after ⟨⟨kept, follows⟩, _⟩
      exact .pure (follow after kept follows)
  · refine (returns_placeholder consistent).bind ?_
    rintro symbol middle ⟨⟨kept, follows⟩, _, same⟩
    refine ensures_bind.mpr (ensures_onTypes.mpr (Types.ensures_createMember.mpr ?_))
    obtain ⟨keptMember, further⟩ := kept.push_member (.own symbol)
    refine (inserts _ _ _ keptMember (follows.trans further) (by rw [same])).bind ?_
    intro outcome after done
    split
    · exact .pure done
    · exact ensures_throw

/-- Declaring something in a scope that keeps its names itself is safe. -/
theorem returns_declarePlain (isPlain : store.Plain scope) :
    Returns (declare id scope enclosing) site store fun answer after =>
    store.Evolves site.active after ∧
        ∀ symbol, answer = some symbol → store.Introduces after id symbol := by
  refine returns_declare consistent (fun _ kept follows => ⟨kept, follows⟩)
    fun name member middle kept follows _ => ?_
  refine (returns_insert kept (follows.plain isPlain)).weaken ?_
  rintro _ after ⟨keptAfter, further, _⟩
  exact ⟨keptAfter, follows.trans further⟩

theorem returns_sort {id : SymbolId} {change : Symbol → Symbol}
    (unnamed : ∃ symbol, store.symbols.get? id = some symbol ∧ symbol.kind.typeKind? = none)
    (progress : ∀ symbol, (change symbol).progress = symbol.progress)
    (untyped : ∀ symbol, (change symbol).kind.typeKind? = none)
    (known : ∀ symbol, (change symbol).kind ≠ .placeholder)
    (ownScope : ∀ symbol, (change symbol).ownScope = symbol.ownScope) :
    Returns (updateSymbol id change) site store fun _ after =>
      after.Consistent site.active ∧ store.Follows site.active after ∧ after.Typeless id := by
  obtain ⟨symbol, stored, none⟩ := unnamed
  refine ensures_onSymbols.mpr (Table.ensures_update.mpr fun _ => ?_)
  have develops : ∀ same, store.symbols.get? id = some same →
    same.Develops store (change same) := by
    intro same again
    cases stored.symm.trans again
    refine ⟨progress symbol, .inr ⟨none, known symbol, .inl (untyped symbol)⟩, fun _ isBuilt =>
      ?_, .inl (ownScope symbol)⟩
    obtain ⟨sort, declares⟩ := SymbolKind.typeKind?_of_isBuilt isBuilt
    cases none.symm.trans declares
  obtain ⟨kept, follows⟩ := consistent.update_symbol develops
  refine ⟨kept, follows, change symbol, ?_, untyped symbol, known symbol⟩
  rw [Table.get?_modify_self, stored]
  rfl

/-! ## Functions -/

theorem returns_declareArguments {function : SymbolId} {arguments : List NodeId}
    (isPlain : store.Plain scope) :
    Returns (declareArguments function scope arguments) site store fun _ after =>
    store.Evolves site.active after := by
  induction arguments generalizing store with
  | nil => exact .pure ⟨consistent, .refl _ _⟩
  | cons id rest ih =>
    rw [declareArguments]
    refine (returns_declarePlain consistent isPlain).bind ?_
    rintro answer middle ⟨⟨kept, follows⟩, introduces⟩
    cases answer with
    | none =>
      refine (ih kept (follows.plain isPlain)).weaken ?_
      rintro _ after ⟨keptAfter, further⟩
      exact ⟨keptAfter, follows.trans further⟩
    | some argument =>
      obtain ⟨symbol, stored, isNew, _⟩ := (introduces argument rfl).symbol
      refine (looks_writtenFlags id).bind fun flags => ?_
      refine Runs.bind (returns_sort kept ⟨symbol, stored, by rw [isNew]; rfl⟩ (fun _ => rfl)
        (fun _ => rfl)
        (fun _ => nofun) fun _ => rfl) ?_
      rintro _ named ⟨keptNamed, next, _⟩
      have isPlainNamed := (follows.trans next).plain isPlain
      refine (ih keptNamed isPlainNamed).bind ?_
      rintro _ after ⟨keptAfter, further⟩
      exact .pure ⟨keptAfter, (follows.trans next).trans further⟩

theorem returns_nameParameter {α : Type} {parameter : SymbolId} {next : Resolve α}
    {post : α → Store → Prop}
    (fresh : store.Fresh parameter)
    (rest : ∀ after, after.Consistent site.active → store.Follows site.active after →
      Returns next site after post) :
    Returns (do
      updateSymbol parameter fun entry => { entry with kind := .typeParameter }
      let type ← onTypes (Types.createNamed .parameter parameter)
      onTypes (Types.update type fun entry => { entry with complete := true })
      updateSymbol parameter fun entry => { entry with type := some type }
      next) site store post := by
  obtain ⟨symbol, stored, isNew, untouched⟩ := fresh
  have unnamed := consistent.undeclared stored (by rw [isNew]; rfl)
  refine .updateSymbol fun _ => ?_
  refine ensures_bind.mpr (ensures_onTypes.mpr (Types.ensures_push.mpr ?_))
  refine ensures_bind.mpr (ensures_onTypes.mpr (.updateIn fun _ => ?_))
  refine .updateSymbol fun _ => ?_
  dsimp only
  rw [Table.modify_push_next]
  have changed (other : SymbolId) : ((store.symbols.modify parameter fun entry =>
      { entry with kind := .typeParameter }).modify parameter fun entry =>
        { entry with type := some store.types.entries.next }).get? other =
      if other = parameter then some
        { symbol with kind := .typeParameter, type := some store.types.entries.next }
      else store.symbols.get? other := by
    rw [Table.get?_modify, Table.get?_modify]
    split
    · rename_i same
      rw [same, stored]
      rfl
    · rfl
  have next := store.types.entries.get?_next
  refine rest _ ?_ ⟨?_, ?_, ?_, ?_, ?_, ?_⟩
  · refine consistent.declare stored isNew untouched ((changed parameter).trans (if_pos rfl))
      untouched rfl rfl rfl
      (fun other different => (changed other).trans (if_neg different))
      (consistent.inherits.push_named nofun fun type entry known plain declares =>
        unnamed type entry ⟨known, plain, declares⟩)
      (Table.get?_push_next _ _) rfl rfl nofun ?_ fun other different =>
        Table.get?_push_of_ne _ _ different
    intro entry known
    cases next.symm.trans known
  · exact Types.extends_push store.types _ _
  · intro type entry known _ _
    exact ⟨entry.waiting, Table.get?_push_of_stored _ known⟩
  · rintro other type entry ⟨known, plain, declares⟩
    exact ⟨entry, Table.get?_push_of_stored _ known, plain, declares⟩
  · intro other known here
    rw [changed]
    split
    · rename_i same
      subst same
      cases stored.symm.trans here
      rw [isNew]
      exact ⟨_, rfl, .inr ⟨rfl, nofun, .inr ⟨rfl, rfl⟩⟩,
        fun done => by rw [untouched] at done; cases done⟩
    · exact ⟨known, here, .refl _, id⟩
  · intro other later missing found
    rw [changed] at found
    split at found
    · cases found
      rfl
    · cases missing.symm.trans found
  · intro scope opened known
    exact ⟨opened, known, rfl⟩

theorem returns_declareParameters {owner : SymbolId} {parameters : List NodeId}
    (isPlain : store.Plain scope) :
    Returns (declareParameters owner scope parameters) site store fun _ after =>
    store.Evolves site.active after := by
  induction parameters generalizing store with
  | nil => exact .pure ⟨consistent, .refl _ _⟩
  | cons id rest ih =>
    rw [declareParameters]
    refine (returns_declarePlain consistent isPlain).bind ?_
    rintro answer middle ⟨⟨kept, follows⟩, introduces⟩
    cases answer with
    | none =>
      refine (ih kept (follows.plain isPlain)).weaken ?_
      rintro _ after ⟨keptAfter, further⟩
      exact ⟨keptAfter, follows.trans further⟩
    | some parameter =>
      refine returns_nameParameter kept (introduces parameter rfl).fresh fun named keptNamed next =>
        ?_
      refine (ih keptNamed ((follows.trans next).plain isPlain)).bind ?_
      rintro _ after ⟨keptAfter, further⟩
      exact .pure ⟨keptAfter, (follows.trans next).trans further⟩

/-- A scope that opens keeps its names itself. -/
theorem returns_createScope {kind : ScopeKind} {parent : Option ScopeId} {symbol : Option SymbolId}
    :
    Returns (onScopes (Scopes.create kind parent symbol)) site store fun scope after =>
      store.Evolves site.active after ∧ after.Plain scope := by
  refine (Safe.returns inferInstance consistent).and ?_
  exact ensures_onScopes.mpr (Table.ensures_create.mpr ⟨_, Table.get?_push_next _ _, rfl⟩)

end

instance (symbol : SymbolId) (parameters : List NodeId) :
    Safe inside busy (openParameterScope symbol parameters) := by
  unfold openParameterScope
  refine .after fun entry => ?_
  dsimp only
  split
  · infer_instance
  refine ⟨fun site store consistent _ _ => (returns_createScope consistent).bind ?_⟩
  rintro scope opened ⟨⟨kept, follows⟩, isPlain⟩
  refine (returns_declareParameters kept isPlain).bind ?_
  rintro declared named ⟨keptNamed, next⟩
  refine (Safe.returns inferInstance keptNamed).bind ?_
  rintro _ after ⟨keptAfter, last⟩
  exact .pure ⟨keptAfter, (follows.trans next).trans last⟩

theorem functionKind_typeless (enclosing : Option SymbolKind) (name : String) (flags : Flags) :
    (functionKind enclosing name flags).typeKind? = none ∧ functionKind enclosing name flags ≠
    .placeholder := by
  unfold functionKind
  split
  · split
    · exact ⟨rfl, nofun⟩
    split <;> exact ⟨rfl, nofun⟩
  · exact ⟨rfl, nofun⟩

theorem returns_declareFunction {id : NodeId} (consistent : store.Consistent site.active)
    (unnamed : ∃ entry, store.symbols.get? symbol = some entry ∧ entry.kind.typeKind? = none) :
    Returns (declareFunction symbol id) site store fun _ after =>
      after.Consistent site.active ∧ store.Follows site.active after ∧ after.Typeless symbol := by
  unfold declareFunction
  refine (looks_kindOf id).bind fun kind => ?_
  split
  case h_2 => exact ensures_throw
  rename_i parameters arguments _ _ body
  refine (looks_enclosingKind? symbol).bind fun enclosing =>
    (looks_symbolOf symbol).bind fun entry => ?_
  obtain ⟨untyped, known⟩ := functionKind_typeless enclosing entry.name entry.flags
  refine Runs.bind (returns_sort consistent unnamed (fun _ => rfl) (fun _ => untyped)
    (fun _ => known) fun _ => rfl) ?_
  rintro _ sorted ⟨keptSorted, one, typeless⟩
  refine (Safe.returns inferInstance keptSorted).bind ?_
  rintro around opened ⟨keptOpened, two⟩
  refine (returns_createScope keptOpened).bind ?_
  rintro scope created ⟨⟨keptCreated, three⟩, isPlain⟩
  refine .updateSymbol fun _ => ?_
  have opens : ∀ same, created.symbols.get? symbol = some same →
      same.Develops created { same with ownScope := some scope } :=
    fun _ _ => ⟨rfl, .refl _, fun _ _ => rfl, .inr ⟨scope, rfl, isPlain⟩⟩
  obtain ⟨keptScope, four⟩ := keptCreated.update_symbol opens
  refine (returns_declareArguments keptScope (four.plain isPlain)).bind ?_
  rintro declared argued ⟨keptArgued, five⟩
  refine (Safe.returns inferInstance keptArgued).weaken ?_
  rintro _ after ⟨keptAfter, six⟩
  have later := (((two.trans three).trans four).trans five).trans six
  exact ⟨keptAfter, one.trans later, later.typeless typeless⟩

theorem fragments_of_sibling_eq_none (stored : tree.get? id = some node)
    (alone : node.sibling = none) : tree.fragments id = .ok [id] := by
  have fetched : tree.fetch id = .ok node := (Table.fetch_eq_ok_iff _ _ _).mpr stored
  have link : tree.siblingOf id = .ok none := by
    unfold Tree.siblingOf
    rw [fetched, ← alone]
    rfl
  unfold Tree.fragments Chain.toList
  rw [link]
  rfl

theorem fragments_eq_cons {fragments : List NodeId} (found : tree.fragments id = .ok fragments) :
    ∃ rest, fragments = id :: rest := by
  unfold Tree.fragments Chain.toList at found
  obtain ⟨sibling, _, answer⟩ := (except_bind_eq_ok_iff ..).mp found
  cases sibling with
  | none =>
    cases answer
    exact ⟨[], rfl⟩
  | some next =>
    obtain ⟨rest, _, same⟩ := (except_bind_eq_ok_iff ..).mp answer
    cases same
    exact ⟨rest, rfl⟩

/-- A proper declaration comes first already. -/
theorem returns_orderFragments {entry : Symbol}
    (known : store.symbols.get? symbol = some entry) (declared : entry.node = some id)
    (stored : store.tree.get? id = some node)
    (isProper : ∀ header body, node.kind ≠ .extensionDecl header body) :
    Returns (orderFragments symbol) site store fun answer after =>
      after = store ∧ ∃ fragments, answer = some fragments ∧
      store.tree.fragments id = .ok fragments := by
  unfold orderFragments fragmentsOf
  refine ensures_bind.mpr (ensures_bind.mpr (ensures_symbolOf.mpr fun same again => ?_))
  cases known.symm.trans again
  rw [declared]
  refine ensures_ask.mpr fun fragments found => ?_
  obtain ⟨rest, rfl⟩ := fragments_eq_cons found
  have isPrimary : Returns ((id :: rest).findM? fun fragment => return !(← isExtension fragment))
    site store
      fun answer after => after = store ∧ answer = some id := by
    refine ensures_bind.mpr (ensures_bind.mpr ?_)
    unfold isExtension
    refine ensures_bind.mpr (ensures_kindOf.mpr fun same there => ?_)
    cases stored.symm.trans there
    split
    · rename_i header body kind
      exact absurd kind (isProper header body)
    · exact .pure (.pure (.pure ⟨rfl, rfl⟩))
  refine isPrimary.bind ?_
  rintro _ after ⟨same, rfl⟩
  dsimp only
  rw [List.head?_cons, if_pos rfl]
  exact .pure ⟨same, _, rfl, found⟩

theorem returns_assignFunction {scan : MemberScan} {entry : Symbol}
    (consistent : store.Consistent site.active) (known : store.symbols.get? symbol = some entry)
    (isNew : entry.kind = .placeholder) (declared : entry.node = some id)
    (stored : store.tree.get? id = some node)
    (alone : node.sibling = none)
    (isFunction : ∃ header parameters arguments result initializers body,
      node.kind = .functionDecl header parameters arguments result initializers body) :
    Returns (assignKind scan symbol) site store fun _ after => store.Evolves site.active after := by
  unfold assignKind
  obtain ⟨header, parameters, arguments, result, initializers, body, kind⟩ := isFunction
  refine (returns_orderFragments known declared stored fun _ _ isExtension => ?_).bind ?_
  · cases kind.symm.trans isExtension
  rintro _ after ⟨same, fragments, rfl, found⟩
  rw [fragments_of_sibling_eq_none stored alone] at found
  cases found
  rw [same]
  refine (looks_fragmentFlags symbol [id]).bind fun flags => ?_
  refine .updateSymbol fun _ => ?_
  unfold assignSort
  refine ensures_bind.mpr (ensures_kindOf.mpr fun same there => ?_)
  dsimp only at there
  cases stored.symm.trans there
  rw [kind]
  have flagged : ∀ same, store.symbols.get? symbol = some same →
    same.Develops store { same with flags } :=
    fun _ _ => ⟨rfl, .refl _, fun _ _ => rfl, .inl rfl⟩
  obtain ⟨kept, follows⟩ := consistent.update_symbol flagged
  refine (returns_declareFunction kept ⟨{ entry with flags }, ?_, by rw [isNew]; rfl⟩).weaken ?_
  · rw [Table.get?_modify_self, known]
    rfl
  · rintro _ after ⟨keptAfter, further, _⟩
    exact ⟨keptAfter, follows.trans further⟩

/-! ## Locals -/

instance (id : NodeId) : Safe inside busy (declareLocal id) := by
  refine ⟨fun site store consistent _ _ => ?_⟩
  unfold declareLocal
  refine looks_read.bind fun context => (returns_placeholder consistent).bind ?_
  rintro symbol placed ⟨⟨keptPlaced, one⟩, introduces, _⟩
  obtain ⟨entry, stored, isNew, _⟩ := introduces.symbol
  refine (looks_writtenFlags id).bind fun flags => ?_
  refine .updateSymbol fun _ => ?_
  have flagged : ∀ same, placed.symbols.get? symbol = some same →
    same.Develops placed { same with flags } :=
    fun _ _ => ⟨rfl, .refl _, fun _ _ => rfl, .inl rfl⟩
  obtain ⟨keptFlagged, two⟩ := keptPlaced.update_symbol flagged
  have unnamed : ∃ same, (placed.symbols.modify symbol fun entry => { entry with flags }).get?
    symbol = some same ∧
      same.kind.typeKind? = none :=
    ⟨{ entry with flags }, by rw [Table.get?_modify_self, stored]; rfl, by rw [isNew]; rfl⟩
  refine (looks_kindOf id).bind fun kind => ?_
  dsimp only
  split
  · refine (returns_declareFunction keptFlagged unnamed).bind ?_
    rintro _ declared ⟨keptDeclared, three, known, there, untyped, _⟩
    refine Runs.bind (returns_sort keptDeclared ⟨known, there, untyped⟩ (fun _ => rfl) (fun _ =>
      rfl) (fun _ => nofun)
      fun _ => rfl) ?_
    rintro _ after ⟨keptAfter, four, _⟩
    exact .pure ⟨keptAfter, ((one.trans two).trans three).trans four⟩
  · refine Runs.bind (returns_sort keptFlagged unnamed (fun _ => rfl) (fun _ => rfl)
      (fun _ => nofun) fun _ => rfl) ?_
    rintro _ after ⟨keptAfter, three, _⟩
    exact .pure ⟨keptAfter, (one.trans two).trans three⟩
  · exact ensures_bind.mpr ensures_throw

instance safe_insertLocal (symbol : SymbolId) : Safe True busy (insertLocal symbol) := by
  refine ⟨fun site store consistent isPlain _ => ?_⟩
  unfold insertLocal
  refine (looks_symbolOf symbol).bind fun entry => ?_
  refine ensures_bind.mpr (ensures_onTypes.mpr (Types.ensures_createMember.mpr ?_))
  obtain ⟨kept, follows⟩ := consistent.push_member (.own symbol)
  refine ensures_bind.mpr (ensures_read.mpr ?_)
  refine (returns_insert kept (follows.plain (isPlain trivial))).bind ?_
  rintro outcome after ⟨keptAfter, further, _⟩
  split
  · exact .pure ⟨keptAfter, follows.trans further⟩
  · refine (looks_memberSymbol _).bind fun existing => (looks_reportRedeclared _ _).ensures fun _ =>
      ?_
    exact ⟨keptAfter, follows.trans further⟩

end Resolve
end Resolution
