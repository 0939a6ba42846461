import Resolution.Program
import Resolution.Proofs.ScannedBlocks

/-!
# The scan of a program

The built-in file joins the files of a program, and its block is the first one that is scanned.  The
outermost scope has none of the names of the built-in classes then, so each class gets a symbol of
its own.  When the scan is over, every built-in class has its symbol.
-/

namespace Resolution

/-! ## The starting point -/

namespace Types

variable {type : TypeId}

theorem entries_new {entry : TypeEntry} (stored : Types.new.entries.get? type = some entry) :
    entry.symbol = none ∧ entry.generic = none ∧
    (entry.kind.isBuilt = true → entry.complete = false) ∧
      (entry.kind.isObject = true → type ∈ Prelude.classTypes) := by
  obtain ⟨position⟩ := type
  match position, stored with
  | 0, stored | 1, stored | 2, stored | 3, stored | 4, stored | 5, stored | 6, stored | 7,
    stored | 8, stored
  | 9, stored =>
    cases stored
    decide

theorem exists_new_of_mem_classTypes (listed : type ∈ Prelude.classTypes) :
    ∃ entry, Types.new.entries.get? type = some entry ∧ entry.kind = .classType ∧
    entry.symbol = none := by
  simp only [Prelude.classTypes, List.mem_cons, List.not_mem_nil, or_false] at listed
  rcases listed with rfl | rfl | rfl | rfl | rfl | rfl | rfl <;> exact ⟨_, rfl, rfl, rfl⟩

end Types

namespace Store

theorem consistent_initial (source : Source) : (Store.initial source).Consistent [] := by
  have undeclared : ∀ id type entry, ¬(Store.initial source).Declares id type entry := by
    rintro id type entry ⟨stored, _, declares⟩
    rw [(Types.entries_new stored).1] at declares
    cases declares
  have unknown : ∀ id symbol, (Store.initial source).symbols.get? id ≠ some symbol := by
    intro id symbol stored
    rw [initial, Table.get?_empty] at stored
    cases stored
  exact {
    inherits := .new
    named id type entry declares := (undeclared id type entry declares).elim
    untouched id symbol stored := (unknown id symbol stored).elim
    settled id symbol _ _ stored := (unknown id symbol stored).elim
    homes id symbol _ stored := (unknown id symbol stored).elim
    around := ⟨{ kind := .global }, rfl, rfl⟩
    started id symbol stored := (unknown id symbol stored).elim
    begun := nofun }

theorem unsettled_initial (source : Source) : (Store.initial source).Unsettled where
  untouched id symbol stored := by
    rw [initial, Table.get?_empty] at stored
    cases stored
  unapplied _ _ stored := (Types.entries_new stored).2.1
  incomplete _ _ stored := (Types.entries_new stored).2.2.1

/-- The outermost scope has no name of the listed built-in classes. -/
def Vacant (store : Store) (types : List TypeId) : Prop :=
  ∃ opened, store.scopes.get? globalScope = some opened ∧ opened.type = none ∧
    ∀ name type, type ∈ types → Types.builtin? name = some type → opened.locals.find? name = none

theorem vacant_initial (source : Source) (types : List TypeId) :
    (Store.initial source).Vacant types :=
  ⟨{ kind := .global }, rfl, rfl, fun _ _ _ _ => rfl⟩

end Store

/-! ## The built-in file -/

theorem Tree.Holds.enlist {tree after : Tree} {file block root : NodeId}
    {classes rest files : List NodeId} {node : Node}
    (holds : tree.Holds file block classes rest) (stored : tree.get? root = some node)
    (isRoot : node.kind = .program files)
    (kinds : ∀ id, (after.get? id).map Node.kind =
      if id = root then some (.program (file :: files)) else (tree.get? id).map Node.kind) :
    after.Holds file block classes rest := by
  have forth : ∀ id known, tree.get? id = some known → id ≠ root →
      ∃ later, after.get? id = some later ∧ later.kind = known.kind := by
    intro id known found different
    have same := kinds id
    rw [if_neg different, found] at same
    exact Option.map_eq_some_iff.mp same
  have apart : ∀ id known, tree.get? id = some known → (∀ files, known.kind ≠ .program files) →
    id ≠ root := by
    rintro id known found other rfl
    cases stored.symm.trans found
    exact other files isRoot
  have ordinary : ∀ id, tree.Ordinary id → after.Ordinary id := by
    rintro id ⟨known, found, plain⟩
    have same := kinds id
    by_cases here : id = root
    · rw [if_pos here] at same
      obtain ⟨later, there, kind⟩ := Option.map_eq_some_iff.mp same
      exact ⟨later, there, fun header headed => by rw [kind] at headed; cases headed⟩
    · obtain ⟨later, there, kind⟩ := forth id known found here
      exact ⟨later, there, kind ▸ plain⟩
  have back : ∀ id later, after.get? id = some later → id = root ∧
    later.kind = .program (file :: files) ∨
      ∃ known, tree.get? id = some known ∧ later.kind = known.kind := by
    intro id later found
    have same := kinds id
    rw [found] at same
    split at same
    · rename_i here
      exact .inl ⟨here, Option.some.inj same⟩
    · obtain ⟨known, there, kind⟩ := Option.map_eq_some_iff.mp same.symm
      exact .inr ⟨known, there, kind.symm⟩
  obtain ⟨⟨fileNode, fileStored, isFile⟩, inner, outer⟩ := holds.guarded
  obtain ⟨blockNode, blockStored, isBlock⟩ := holds.block
  have rootApart : root ≠ block := (apart block blockNode blockStored (by rw [isBlock]; nofun)).symm
  have fileApart := apart file fileNode fileStored (by rw [isFile]; nofun)
  have different : file ≠ block := by
    rintro rfl
    cases fileStored.symm.trans blockStored
    cases isFile.symm.trans isBlock
  refine ⟨⟨?_, ?_, ?_⟩, ?_, ?_, ?_⟩
  · obtain ⟨later, found, kind⟩ := forth file fileNode fileStored fileApart
    exact ⟨later, found, kind.trans isFile⟩
  · intro id later found notBlock child listed
    rcases back id later found with ⟨rfl, kind⟩ | ⟨known, there, kind⟩
    · rw [kind] at listed
      rcases List.mem_cons.mp listed with rfl | older
      · exact ordinary child ⟨fileNode, fileStored,
          fun header headed => by rw [isFile] at headed; cases headed⟩
      · exact ordinary child (inner id node stored notBlock child (by rw [isRoot]; exact older))
    · rw [kind] at listed
      exact ordinary child (inner id known there notBlock child listed)
  · intro id later found notFile listed
    rcases back id later found with ⟨rfl, kind⟩ | ⟨known, there, kind⟩
    · rw [kind] at listed
      rcases List.mem_cons.mp listed with same | older
      · exact different same.symm
      · exact outer id node stored notFile (by rw [isRoot]; exact older)
    · rw [kind] at listed
      exact outer id known there notFile listed
  · obtain ⟨later, found, kind⟩ := forth block blockNode blockStored rootApart.symm
    exact ⟨later, found, kind.trans isBlock⟩
  · refine holds.classes.imp fun id type ⟨known, header, parameters, bases, body, found, kind,
      builtin⟩ => ?_
    obtain ⟨later, there, same⟩ := forth id known found (apart id known found (by rw [kind]; nofun))
    exact ⟨later, header, parameters, bases, body, there, same.trans kind, builtin⟩
  · exact fun id listed => ordinary id (holds.rest id listed)

namespace Resolve

variable {site : Surroundings} {store : Store} {classes others : List NodeId} {file block : NodeId}
  {types : List TypeId} {root : NodeId} {enclosing : Option SymbolId} {rest : List NodeId}

/-- The built-in file is the first file of the program, and everything but the source stays. -/
theorem returns_addPrelude (sheltered : store.tree.Sheltered) :
    Returns (addPrelude root) site store fun prelude after =>
      (after.symbols = store.symbols ∧ after.types = store.types ∧ after.scopes = store.scopes) ∧
        ∃ block classes rest files node, after.tree.Holds prelude block classes rest ∧
          after.tree.get? root = some node ∧ node.kind = .program (prelude :: files) ∧
          prelude ∉ files := by
  unfold addPrelude
  have interned : (reservedNames.forM Source.intern).Ensures store.toSource fun _ source =>
    source.tree = store.tree :=
    Action.ensures_forM rfl fun _ _ here same => Action.ensures_modify.mpr same
  refine ensures_bind.mpr (ensures_onSource.mpr (interned.weaken fun _ named same => ?_))
  have extended : Prelude.extend.Ensures named fun prelude source =>
      (∀ id node, source.tree.get? id = some node → prelude ∉ node.kind.children) ∧
        ∃ block classes rest, source.tree.Holds prelude block classes rest :=
    Action.ensures_zoom.mpr ((Prelude.ensures_build ⟨rfl, same ▸ sheltered⟩).weaken fun _ _ ⟨_,
      built⟩ => built)
  refine ensures_bind.mpr (ensures_onSource.mpr (extended.weaken ?_))
  rintro prelude source ⟨unlisted, block, classes, rest, holds⟩
  refine ensures_bind.mpr (ensures_kindOf.mpr fun node stored => ?_)
  split
  case h_2 => exact ensures_throw
  rename_i files isRoot
  refine ensures_bind.mpr (ensures_onTree.mpr (Table.ensures_update.mpr fun _ => ?_))
  refine ensures_bind.mpr (ensures_onTree.mpr (Table.ensures_update.mpr fun _ =>
    .pure ⟨⟨rfl, rfl, rfl⟩, ?_⟩))
  have kinds (id : NodeId) :
    ((((source.tree.modify root fun node =>
    { node with kind := .program (prelude :: files) }).modify
      prelude fun node => { node with parent := some root }).get? id).map Node.kind) =
        if id = root then some (.program (prelude :: files)) else (source.tree.get? id).map
          Node.kind := by
    have here : source.tree.get? root = some node := stored
    rw [Table.get?_modify, Table.get?_modify]
    by_cases isRoot : id = root
    · subst isRoot
      split <;> simp [here]
    · rw [if_neg isRoot, if_neg isRoot]
      split
      · exact Option.map_map ..
      · rfl
  obtain ⟨later, there, kind⟩ := Option.map_eq_some_iff.mp ((kinds root).trans (if_pos rfl))
  refine ⟨block, classes, rest, files, later, holds.enlist stored isRoot kinds, there, kind,
    fun listed => ?_⟩
  exact unlisted root node stored (by rw [isRoot]; exact listed)

theorem returns_fileBlocks {files : List NodeId} {node : Node}
    (guarded : store.tree.Guarded file block) (stored : store.tree.get? root = some node)
    (isRoot : node.kind = .program (file :: files)) (once : file ∉ files) :
    Returns (fileBlocks root) site store fun blocks after =>
      after = store ∧ ∃ others, blocks = block :: others ∧ block ∉ others := by
  unfold fileBlocks
  refine ensures_bind.mpr (ensures_kindOf.mpr fun same again => ?_)
  cases stored.symm.trans again
  rw [isRoot]
  dsimp only
  rw [List.mapM_cons]
  refine ensures_bind.mpr (ensures_bind.mpr (ensures_kindOf.mpr fun fileNode found => ?_))
  obtain ⟨same, again, isFile⟩ := guarded.isFile
  cases found.symm.trans again
  rw [isFile]
  refine .pure ?_
  refine (@returns_mapM_reading NodeId NodeId site store _ files (· ≠ block) fun other listed =>
    ?_).bind ?_
  · refine ensures_bind.mpr (ensures_kindOf.mpr fun otherNode there => ?_)
    split
    · rename_i body kind
      refine .pure ⟨rfl, fun isBlock => ?_⟩
      refine guarded.outer other otherNode there (fun same => once (same ▸ listed)) ?_
      rw [kind, isBlock]
      exact List.mem_singleton_self block
    · exact ensures_throw
  · rintro bodies _ ⟨rfl, apart⟩
    exact .pure ⟨rfl, bodies, rfl, fun listed => apart block listed rfl⟩

/-! ## The built-in classes -/

/-- A built-in class whose name is free gets a symbol of its own. -/
theorem returns_declareClass {declaration : NodeId} {type : TypeId}
    (declares : store.tree.DeclaresBuiltin declaration type) (vacant : store.Vacant (type :: types))
    (distinct : type ∉ types) : Returns (declare declaration globalScope enclosing) site store
    fun answer after =>
      after.Vacant types ∧ ∃ symbol, answer = some symbol := by
  obtain ⟨node, header, parameters, bases, body, stored, kind, builtin⟩ := declares
  obtain ⟨opened, found, untyped, free⟩ := vacant
  have named : Types.builtin? header.name = some type := by
    unfold Header.builtin? at builtin
    split at builtin
    · exact builtin
    · cases builtin
  have isFree := free header.name type List.mem_cons_self named
  unfold declare
  refine ensures_bind.mpr (ensures_kindOf.mpr fun same again => ?_)
  cases stored.symm.trans again
  rw [kind]
  refine ensures_bind.mpr (ensures_ask.mpr fun existing? looked => ?_)
  have absent : existing? = none := by
    have fetched : store.scopes.fetch globalScope = .ok opened :=
      (Table.fetch_eq_ok_iff _ _ _).mpr found
    rw [Scopes.findLocal?, fetched] at looked
    simpa [bind, Except.bind, isFree, untyped, pure, Except.pure, eq_comm] using looked
  rw [absent]
  have placed : Returns (placeholder declaration globalScope enclosing) site store fun _ after =>
      after.scopes = store.scopes := by
    unfold placeholder
    refine (looks_kindOf declaration).bind fun kind => ?_
    split
    · exact (looks_kindOf declaration).bind fun _ => ensures_throw
    · refine ensures_bind.mpr (ensures_onSymbols.mpr (Table.ensures_create.mpr ?_))
      refine .updateSymbol fun _ => ?_
      exact ensures_bind.mpr (ensures_onTree.mpr (Table.ensures_update.mpr fun _ => .pure rfl))
  refine placed.bind fun symbol middle same => ?_
  refine ensures_bind.mpr (ensures_onTypes.mpr (Types.ensures_createMember.mpr ?_))
  have inserted :
    Returns (onNames (Environment.insert globalScope header.name middle.types.members.next)) site
      { middle with
        types := { middle.types with members := middle.types.members.push (.own symbol) } }
      fun outcome after =>
        outcome = .ok () ∧ after.Vacant types := by
    refine ensures_onNames.mpr ?_
    unfold Environment.insert
    refine .get ?_
    refine .ask fun entry fetched => ?_
    have there : store.scopes.get? globalScope = some entry :=
      same ▸ (Table.fetch_eq_ok_iff _ _ _).mp fetched
    cases found.symm.trans there
    simp only [untyped, NameTable.insert, isFree]
    refine Action.ensures_bind.mpr (.updateIn fun _ => ?_)
    refine .pure
      ⟨rfl, { opened with locals := opened.locals.set header.name middle.types.members.next },
      ?_, untyped, ?_⟩
    · rw [same, Table.get?_modify_self, found]
      rfl
    · intro name other listed isNamed
      refine (NameTable.find?_set_of_ne _ _ ?_).trans
        (free name other (List.mem_cons_of_mem _ listed) isNamed)
      rintro rfl
      cases named.symm.trans isNamed
      exact distinct listed
  refine inserted.bind ?_
  rintro _ after ⟨rfl, vacantAfter⟩
  exact .pure ⟨vacantAfter, symbol, rfl⟩

theorem returns_declareProgram (idle : site.active = []) (consistent : store.Consistent [])
    (unsettled : store.Unsettled)
    (declares : List.Forall₂ store.tree.DeclaresBuiltin classes types) (vacant : store.Vacant types)
    (distinct : types.Nodup) :
    Returns (declareAll globalScope enclosing (classes ++ others)) site store fun created after =>
      (store.Scanned (fun _ => False) (fun _ => False) after ∧ created.Nodup ∧
        ∀ id ∈ created, store.symbols.get? id = none) ∧
      ∃ first later, created = first ++ later ∧ List.Forall₂ after.Placed first classes ∧
        ∀ id ∈ later, ∃ declaration ∈ others, after.Placed id declaration := by
  have receives : store.Receives globalScope := by
    obtain ⟨opened, found, untyped, _⟩ := vacant
    exact ⟨opened, found, fun type keeps => by rw [untyped] at keeps; cases keeps⟩
  induction classes generalizing store types with
  | nil =>
    refine (returns_declareAll idle consistent unsettled receives).weaken ?_
    rintro created after ⟨scanned, single, new⟩
    exact ⟨⟨scanned, single, fun id listed => (new id listed).1⟩, [], created, rfl, .nil,
      fun id listed => (new id listed).2⟩
  | cons declaration classes ih =>
    obtain _ | ⟨first, rest⟩ := declares
    obtain ⟨apart, distinctRest⟩ := List.nodup_cons.mp distinct
    rw [List.cons_append, declareAll]
    refine ((returns_declareReceived idle consistent unsettled receives).and
      (returns_declareClass first vacant apart)).bind ?_
    rintro answer middle ⟨⟨⟨one, follows⟩, introduces⟩, vacantMiddle, symbol, rfl⟩
    have introduced := introduces symbol rfl
    have grows := Tree.grows_of_kinds one.spares.kinds
    refine (ih one.consistent one.unsettled (rest.imp fun _ _ declares => declares.grow grows)
      vacantMiddle distinctRest
      (receives.follow follows)).bind ?_
    rintro created after ⟨⟨two, single, new⟩, placed, later, rfl, placedFirst, placedLater⟩
    have fresh : ∀ id ∈ placed ++ later, store.symbols.get? id = none := by
      intro id listed
      cases stored : store.symbols.get? id with
      | none => rfl
      | some known =>
        have missing := new id listed
        rw [one.spares.symbols id known stored not_false] at missing
        cases missing
    obtain ⟨_, stored, _⟩ := introduced.symbol
    refine .pure ⟨⟨one.trans two, List.nodup_cons.mpr ⟨fun listed => ?_, single⟩,
      List.forall_mem_cons.mpr ⟨introduced.new, fresh⟩⟩, symbol :: placed, later, rfl,
      .cons (introduced.placed.spare two.spares not_false) placedFirst, placedLater⟩
    rw [new symbol listed] at stored
    cases stored

/-- The declarations of the built-in classes come first. -/
theorem returns_programStatements (holds : store.tree.Holds file block classes rest)
    (apart : block ∉ others) :
    Returns ((block :: others).mapM blockStatements) site store fun lists after => after = store ∧
      ∃ more, lists.flatten = classes ++ more ∧ ∀ statement ∈ more,
      store.tree.Ordinary statement := by
  rw [List.mapM_cons]
  refine returns_blockStatements.bind ?_
  rintro statements _ ⟨rfl, node, found, kind⟩
  obtain ⟨same, again, isBlock⟩ := holds.block
  cases found.symm.trans again
  cases kind.symm.trans isBlock
  refine (returns_ordinaryStatements holds.guarded apart).bind ?_
  rintro lists _ ⟨rfl, ordinary⟩
  refine .pure ⟨rfl, rest ++ lists.flatten, by simp, fun statement listed => ?_⟩
  rcases List.mem_append.mp listed with inRest | inLists
  · exact holds.rest statement inRest
  · obtain ⟨list, listedToo, within⟩ := List.mem_flatten.mp inLists
    exact ordinary list listedToo statement within

theorem awaits_classes {first : List SymbolId}
    (placed : List.Forall₂ store.Placed first classes)
    (declares : List.Forall₂ store.tree.DeclaresBuiltin classes types)
    (blank : ∀ type ∈ types, ∃ entry, store.types.entries.get? type = some entry ∧
      entry.kind = .classType ∧
      entry.symbol = none) : first.filterMap store.builtinOf = types ∧
      ∀ id ∈ first, store.Awaits id := by
  induction placed generalizing types with
  | nil =>
    cases declares
    exact ⟨rfl, nofun⟩
  | @cons id declaration first classes here _ ih =>
    obtain _ | ⟨isClass, rest⟩ := declares
    rename_i type types
    obtain ⟨same, awaits⟩ := ih rest fun other listed => blank other (List.mem_cons_of_mem _ listed)
    have ⟨node, header, _, _, _, found, kind, builtin⟩ := isClass
    have own : store.builtinOf id = some type := by
      rw [Store.builtinOf_of_placed here found (by rw [kind]; rfl), builtin]
    refine ⟨by rw [List.filterMap_cons_some own, same],
      List.forall_mem_cons.mpr ⟨⟨⟨declaration, here, ?_⟩, ?_⟩, awaits⟩⟩
    all_goals
      intro other given
      cases own.symm.trans given
    · exact isClass
    · exact blank type List.mem_cons_self

theorem returns_scan (idle : site.active = [])
    (consistent : store.Consistent []) (unsettled : store.Unsettled)
    (holds : store.tree.Holds file block classes rest)
    (apart : block ∉ others) (vacant : store.Vacant Prelude.classTypes)
    (blank : ∀ type ∈ Prelude.classTypes, ∃ entry, store.types.entries.get? type = some entry ∧
      entry.kind = .classType ∧
      entry.symbol = none) :
    Returns (scan (block :: others)) site store fun _ after =>
      store.Scanned (fun _ => False) (fun type => type ∈ Prelude.classTypes) after ∧
        ∀ type ∈ Prelude.classTypes, after.Bound type := by
  have distinctTypes : Prelude.classTypes.Nodup := by decide
  unfold scan
  refine ensures_bind.mpr (ensures_get.mpr ?_)
  rw [declareBlocks]
  refine (returns_programStatements holds apart).bind ?_
  rintro lists here ⟨rfl, more, statements, ordinary⟩
  rw [statements]
  refine (returns_declareProgram idle consistent unsettled holds.classes vacant distinctTypes).bind
    ?_
  rintro _ middle ⟨⟨one, distinct, new⟩, first, later, rfl, placed, placedLater⟩
  have grows := Tree.grows_of_kinds one.spares.kinds
  have still : ∀ type ∈ Prelude.classTypes, ∃ entry, middle.types.entries.get? type = some entry ∧
    entry.kind = .classType ∧
      entry.symbol = none := by
    intro type listed
    obtain ⟨entry, known, isClass, nameless⟩ := blank type listed
    obtain ⟨last, found, kind, symbol⟩ := one.spares.types type entry known
    exact ⟨last, found, kind.trans isClass, (symbol not_false).trans nameless⟩
  obtain ⟨types, awaits⟩ := awaits_classes placed (holds.classes.imp fun _ _ declares =>
    declares.grow grows) still
  have awaitsLater : ∀ id ∈ later, middle.builtinOf id = none ∧ middle.Awaits id := by
    intro id listed
    obtain ⟨declaration, inside, isPlaced⟩ := placedLater id listed
    exact isPlaced.awaits ((ordinary declaration inside).grow grows)
  have all : (first ++ later).filterMap middle.builtinOf = Prelude.classTypes := by
    rw [List.filterMap_append, types, List.filterMap_eq_nil_iff.mpr fun id listed =>
      (awaitsLater id listed).1,
      List.append_nil]
  have guarded := holds.guarded
  have members := @scansMembers_of_declareBlocks site file block here.tree.size
    fun _ _ _ _ kept open_ shut receives =>
    returns_declareBlocks idle kept open_ shut receives
  refine Runs.weaken (returns_assignKinds idle members one.consistent one.unsettled
    (guarded.of_kinds one.spares.kinds)
    distinct (List.forall_mem_append.mpr ⟨awaits, fun id listed => (awaitsLater id listed).2⟩)
      (all ▸ distinctTypes)) ?_
  rintro _ after ⟨two, bound⟩
  rw [all] at two bound
  exact ⟨(one.weaken (fun _ => False.elim) fun _ => False.elim).further two fun id listed =>
    .inr (new id listed), bound⟩

end Resolve
end Resolution
