import Resolution.Proofs.SafeRules
import Resolution.Proofs.Surgery

/-!
# Setting up types

The type of a class, interface or enum is set up while its symbol is active: it gets its bases, the
members of the bases, and generated functions, and then it is complete.  Whatever is settled in
between leaves it alone, because it belongs to an active symbol.
-/

namespace Resolution

/-- Names that the definitions behind bases have, constructors apart. -/
def Types.Covers (types : Types) (bases : List TypeId) (names : String → Prop) : Prop :=
  ∀ base ∈ bases, ∀ origin source, types.DefinitionOf base origin →
    types.entries.get? origin = some source →
    ∀ name, name ≠ "new" → (source.members.find? name).isSome → names name

namespace Store

/-- The type of an active symbol is being set up; it has the given bases and at least the given
names. -/
structure Builds (active : List SymbolId) (id : SymbolId) (type : TypeId) (bases : List TypeId)
    (names : String → Prop) (store : Store) : Prop where
  consistent : store.Consistent active
  built : ∃ entry, store.Declares id type entry ∧ entry.kind.isBuilt = true ∧
    entry.complete = false ∧
    entry.related = bases ∧ ∀ name, names name → (entry.members.find? name).isSome

/-- The state that the rule for the type of an active symbol leads to. -/
def Completes (active : List SymbolId) (id : SymbolId) (type : TypeId) (store after : Store) :
    Prop :=
  (after.Consistent (id :: active) ∧ store.Follows active after) ∧
    ∃ later, after.Declares id type later ∧ later.complete = true

section Building

variable {id : SymbolId} {active : List SymbolId} {type : TypeId} {bases : List TypeId}
  {names : String → Prop}
  {store after : Store}

/-- Safe steps leave the type alone. -/
theorem Builds.follow (builds : store.Builds (id :: active) id type bases names)
    (consistent : after.Consistent (id :: active)) (follows : store.Follows (id :: active) after) :
    after.Builds (id :: active) id type bases names := by
  obtain ⟨entry, ⟨stored, plain, declares⟩, facts⟩ := builds.built
  obtain ⟨waiting, found⟩ := follows.frozen type entry stored plain
    (.inr ⟨id, List.mem_cons_self, declares⟩)
  exact ⟨consistent, _, ⟨found, plain, declares⟩, facts⟩

theorem Follows.covers {first second : Store} (follows : first.Follows active second)
    (inherits : first.types.Inherits)
    (based : ∀ base ∈ bases, first.types.IsBase base) (covers : first.types.Covers bases names) :
    second.types.Covers bases names := by
  intro base listed origin source known found name notNew named
  have isBase := based base listed
  have ⟨_, entry, stored, _⟩ := isBase
  obtain ⟨given, mirrored⟩ := inherits.mirrored
  have early := known.earlier stored follows.types
  obtain ⟨before, there, plain, complete, isObject⟩ := mirrored.definition_of_isBase isBase early
  obtain ⟨waiting, later⟩ := follows.frozen origin before there plain
    (.inl ⟨TypeKind.isBuilt_of_isObject isObject, complete⟩)
  cases found.symm.trans later
  exact covers base listed origin before early there name notNew named

/-- The type under construction changes, and nothing else does. -/
theorem Builds.develop {types : Types} {entry later : TypeEntry}
    (builds : store.Builds (id :: active) id type bases names) (idle : id ∉ active)
    (mirrored : ∃ given, types.Mirrored (fun _ => False) given)
    (steady : store.types.Steady (· = type) types)
    (stored : store.types.entries.get? type = some entry)
    (found : types.entries.get? type = some later)
    (symbol : later.symbol = entry.symbol) (parameters : later.parameters = entry.parameters)
    (extendable : later.kind.isObject = true → store.types.LegalBases later.kind later.related ∧
      (∀ base ∈ later.related, store.types.IsBase base) ∧
      (later.complete = true → store.types.Covers later.related fun name =>
        (later.members.find? name).isSome)) :
    ({ store with types } : Store).Consistent (id :: active) ∧
    store.Follows active { store with types } := by
  obtain ⟨known, ⟨again, plain, declares⟩, _, incomplete, _⟩ := builds.built
  cases stored.symm.trans again
  obtain ⟨same, there, kept⟩ := steady.kept type entry stored
  cases found.symm.trans there
  have inherits : types.Inherits := by
    refine builds.consistent.inherits.develop mirrored steady ?_ ?_
    · rintro other before known _ _ complete rfl
      cases stored.symm.trans known
      cases incomplete.symm.trans complete
    · rintro other before rfl known _
      cases stored.symm.trans known
      refine ⟨later, found, symbol, fun isObject => ?_⟩
      obtain ⟨legal, based, covers⟩ := extendable isObject
      have before := builds.consistent.inherits.extendable stored plain (kept.kind ▸ isObject)
      refine ⟨parameters ▸ before.parameters, legal, based, ?_⟩
      intro complete base listed origin source behind there name notNew named
      exact covers complete base listed origin source behind there name notNew named
  refine ⟨builds.consistent.develop inherits steady ?_, .develop steady ?_⟩
  · rintro other before rfl known _
    cases stored.symm.trans known
    refine ⟨later, found, symbol, fun owner declared _ => ?_⟩
    cases declares.symm.trans declared
    exact .inl List.mem_cons_self
  · rintro other before rfl known _
    cases stored.symm.trans known
    refine ⟨⟨fun _ => incomplete, fun owner listed declared => ?_⟩, later, found, symbol⟩
    rw [declares] at declared
    cases declared
    exact idle listed

end Building

end Store

namespace Resolve

section Building

variable {site : Surroundings} {id : SymbolId} {active : List SymbolId} {type : TypeId}
  {bases : List TypeId}
  {names : String → Prop} {store : Store} {more : List TypeId} {name : String} {member : MemberId}

variable (builds : store.Builds (id :: active) id type bases names)

include builds

variable (idle : id ∉ active)

include idle

theorem returns_updateType {change : TypeEntry → TypeEntry} {further : String → Prop}
    (changes : ∀ entry, store.types.entries.get? type = some entry → entry.related = bases →
      (∀ name, names name → (entry.members.find? name).isSome) → entry.members.Distinct →
      ∃ members, change entry = { entry with related := more, members } ∧ members.Distinct ∧
        ∀ name, further name → (members.find? name).isSome)
    (extendable : ∀ entry, store.types.entries.get? type = some entry → entry.kind.isObject = true →
      store.types.LegalBases entry.kind more ∧ ∀ base ∈ more, store.types.IsBase base) :
    Returns (onTypes (Types.update type change)) site store fun _ after =>
      after.Builds (id :: active) id type more further ∧ store.Follows active after ∧
      after.symbols = store.symbols ∧
        after.tree = store.tree := by
  obtain ⟨entry, ⟨stored, plain, declares⟩, isBuilt, incomplete, related, named⟩ := builds.built
  obtain ⟨given, mirrored⟩ := builds.consistent.inherits.mirrored
  obtain ⟨members, changed, distinct, renamed⟩ :=
    changes entry stored related named (mirrored.distinct type entry stored)
  have lookup (other : TypeId) : (store.types.entries.modify type change).get? other =
      if other = type then some { entry with related := more, members }
        else store.types.entries.get? other :=
    changed ▸ Table.get?_modify_of_stored stored other
  have keeps : entry.Keeps { entry with related := more, members } := by
    refine ⟨rfl, rfl, rfl, fun isFunction => ?_, fun _ => rfl⟩
    rw [isFunction] at isBuilt
    cases isBuilt
  have found := (lookup type).trans (if_pos rfl)
  have mirroredAfter : Types.Mirrored (fun _ => False) given
      { store.types with entries := store.types.entries.modify type change } := by
    refine mirrored.change stored plain lookup rfl rfl keeps rfl (.inl rfl) distinct ?_
    intro other filled there original
    refine ⟨?_, rfl⟩
    cases done : filled.complete with
    | false => rfl
    | true =>
      rw [mirrored.mature other filled type entry there original stored done] at incomplete
      cases incomplete
  have steady : store.types.Steady (· = type)
      { store.types with entries := store.types.entries.modify type change } :=
    .of_lookup stored lookup keeps
  refine ensures_onTypes.mpr (.updateIn fun _ => ?_)
  obtain ⟨consistent, follows⟩ := builds.develop idle ⟨given, mirroredAfter⟩ steady stored found rfl
    rfl fun isObject => by
    obtain ⟨legal, based⟩ := extendable entry stored isObject
    refine ⟨legal, based, fun complete => ?_⟩
    cases incomplete.symm.trans complete
  exact ⟨⟨consistent, _, ⟨found, plain, declares⟩, isBuilt, incomplete, rfl, renamed⟩, follows, rfl,
    rfl⟩

omit idle in
/-- The bases of the type under construction may stay. -/
theorem extendable_of_builds (entry : TypeEntry)
    (stored : store.types.entries.get? type = some entry) (isObject : entry.kind.isObject = true) :
    store.types.LegalBases entry.kind bases ∧ ∀ base ∈ bases, store.types.IsBase base := by
  obtain ⟨known, ⟨again, plain, _⟩, _, _, rfl, _⟩ := builds.built
  cases stored.symm.trans again
  have := builds.consistent.inherits.extendable stored plain isObject
  exact ⟨this.legal, this.bases⟩

theorem returns_setRelated (extendable : ∀ entry, store.types.entries.get? type = some entry →
    entry.kind.isObject = true →
      store.types.LegalBases entry.kind more ∧ ∀ base ∈ more, store.types.IsBase base) :
    Returns (onTypes (Types.setRelated type more)) site store fun _ after =>
      after.Builds (id :: active) id type more names ∧ store.Follows active after ∧
      after.symbols = store.symbols ∧
        after.tree = store.tree := by
  refine returns_updateType builds idle ?_ extendable
  intro entry _ _ named distinct
  exact ⟨entry.members, rfl, distinct, named⟩

theorem returns_setMember :
    Returns (onTypes (Types.setMember type name member)) site store fun _ after =>
      after.Builds (id :: active) id type bases (fun other => names other ∨ other = name) ∧
        store.Follows active after ∧ after.symbols = store.symbols ∧ after.tree = store.tree := by
  refine returns_updateType builds idle ?_ (extendable_of_builds builds)
  intro entry _ related named distinct
  refine ⟨entry.members.set name member, by rw [← related], distinct.set name member, ?_⟩
  rintro other known
  by_cases same : other = name
  · simp [same]
  · rw [NameTable.find?_set_of_ne _ _ same]
    exact named other (known.resolve_right same)

/-- A name joins the scope that keeps its names in the type under construction, unless it is taken.
-/
theorem returns_insertOwn {scope : ScopeId} {opened : Scope} {member : MemberId}
    (stored : store.scopes.get? scope = some opened) (keeps : opened.type = some type) :
    Returns (onNames (Environment.insert scope name member)) site store fun _ after =>
      after.Builds (id :: active) id type bases names ∧ store.Follows active after ∧
      after.symbols = store.symbols ∧
        after.tree = store.tree := by
  refine ensures_onNames.mpr ?_
  unfold Environment.insert
  refine .get ?_
  refine .ask fun entry fetched => ?_
  obtain rfl : opened = entry :=
    Option.some.inj (stored.symm.trans ((Table.fetch_eq_ok_iff _ _ _).mp fetched))
  rw [keeps]
  refine Action.ensures_zoom.mpr ?_
  unfold Types.insertMember
  refine .get ?_
  refine .ask fun entry found => ?_
  have known := Types.entry_eq_ok_iff.mp found
  split
  · exact .pure ⟨builds, .refl _ _, rfl, rfl⟩
  rename_i members inserted
  obtain ⟨free, set⟩ := NameTable.eq_set_of_insert inserted
  have updated : Returns (onTypes (Types.update type fun entry => { entry with members })) site
    store fun _ after =>
      after.Builds (id :: active) id type bases names ∧ store.Follows active after ∧
        after.symbols = store.symbols ∧
        after.tree = store.tree := by
    refine returns_updateType builds idle ?_ (extendable_of_builds builds)
    intro same again related named distinct
    rw [known] at again
    cases again
    refine ⟨members, by rw [← related], set ▸ distinct.set name member, fun other listed => ?_⟩
    have here := named other listed
    have apart : other ≠ name := by
      rintro rfl
      rw [free] at here
      cases here
    rw [set, NameTable.find?_set_of_ne _ _ apart]
    exact here
  exact Action.ensures_bind.mpr ((ensures_onTypes.mp updated).weaken fun _ _ holds => .pure holds)

theorem returns_complete {fuel : Nat}
    (covers : ∀ entry, store.types.entries.get? type = some entry → entry.kind.isObject = true →
      store.types.Covers bases names) :
    Returns (onTypes (Types.complete fuel type)) site store fun _ after =>
      after.Consistent (id :: active) ∧ store.Follows active after ∧
        ∃ entry, after.Declares id type entry ∧ entry.kind.isBuilt = true ∧
        entry.complete = true := by
  obtain ⟨entry, ⟨stored, plain, declares⟩, isBuilt, incomplete, related, named⟩ := builds.built
  obtain ⟨given, mirrored⟩ := builds.consistent.inherits.mirrored
  have isDefinition : store.types.IsDefinition type := by
    intro same again
    cases stored.symm.trans again
    exact plain
  refine ensures_onTypes.mpr ((Types.ensures_complete_mirrors fuel mirrored isDefinition).weaken ?_)
  rintro _ types ⟨mirroredAfter, steady, finished⟩
  obtain ⟨waiting, found⟩ := finished entry stored
  obtain ⟨consistent, follows⟩ := builds.develop idle ⟨given, mirroredAfter⟩ steady stored found rfl
    rfl fun isObject => by
    obtain ⟨legal, based⟩ := extendable_of_builds builds entry stored isObject
    rw [related]
    refine ⟨legal, based, fun _ base listed origin source known there name notNew has =>
      named name ?_⟩
    exact covers entry stored isObject base listed origin source known there name notNew has
  exact ⟨consistent, follows, _, ⟨found, plain, declares⟩, isBuilt, rfl⟩

end Building

/-! ## Generated functions -/

/-- The step sets up the type of the innermost active symbol further: bases and names stay. -/
class Erects {α : Type} (id : SymbolId) (active : List SymbolId) (step : Resolve α) : Prop where
  keeps : ∀ site store type bases names, site.active = id :: active → id ∉ active →
    store.Builds (id :: active) id type bases names →
    Returns step site store fun _ after =>
      after.Builds (id :: active) id type bases names ∧ store.Follows active after

section Generated

variable {α β : Type} {id : SymbolId} {active : List SymbolId} {step : Resolve α}
  {next : α → Resolve β}

instance (priority := low) erects_of_safe [safe : Safe False [id] step] :
    Erects id active step := by
  refine ⟨fun site store type bases names here idle builds => ?_⟩
  have keeps := safe.keeps site store
  rw [here] at keeps
  refine (keeps builds.consistent False.elim (by simp)).weaken ?_
  rintro _ after ⟨kept, follows⟩
  exact ⟨builds.follow kept follows, follows.weaken (List.subset_cons_self id active)⟩

theorem erects_bind (first : Erects id active step)
    (rest : ∀ value, Erects id active (next value)) : Erects id active (step >>= next) := by
  refine ⟨fun site store type bases names here idle builds => ?_⟩
  refine (first.keeps site store type bases names here idle builds).bind ?_
  rintro value middle ⟨building, follows⟩
  refine ((rest value).keeps site middle type bases names here idle building).weaken ?_
  rintro answer after ⟨done, further⟩
  exact ⟨done, follows.trans further⟩

instance [first : Erects id active step]
    [rest : ∀ value, Erects id active (next value)] : Erects id active (step >>= next) :=
  erects_bind first rest

instance {condition : Prop} [Decidable condition] {yes no : Resolve α}
    [first : Erects id active yes]
    [second : Erects id active no] : Erects id active (if condition then yes else no) := by
  split
  · exact first
  · exact second

theorem erects_declareGenerated {store : Store} {site : Surroundings} {type : TypeId}
    {bases : List TypeId}
    {names : String → Prop} {declaration : NodeId} {scope : ScopeId} {symbol : Symbol} {node : Node}
    (here : site.active = id :: active) (idle : id ∉ active)
    (builds : store.Builds (id :: active) id type bases names)
    (stored : store.symbols.get? id = some symbol)
    (opens : symbol.ownScope = some scope) (found : store.tree.get? declaration = some node)
    (alone : node.sibling = none)
    (isFunction : ∃ header parameters arguments result initializers body,
      node.kind = .functionDecl header parameters arguments result initializers body) :
    Returns (declareGenerated declaration scope id) site store fun _ after =>
      after.Builds (id :: active) id type bases names ∧ store.Follows active after := by
  obtain ⟨opened, listed, typed⟩ := builds.consistent.homes id symbol scope stored opens
  have fewer : active ⊆ site.active := by
    rw [here]
    exact List.subset_cons_self id active
  have consistent : store.Consistent site.active := here ▸ builds.consistent
  have follow : ∀ middle, middle.Consistent site.active → store.Follows site.active middle →
      middle.Builds (id :: active) id type bases names ∧ store.Follows active middle := by
    intro middle kept follows
    rw [here] at kept
    exact ⟨builds.follow kept (here ▸ follows), follows.weaken fewer⟩
  have declared : Returns (declare declaration scope (some id)) site store fun answer after =>
      (after.Builds (id :: active) id type bases names ∧ store.Follows active after) ∧
        ∀ symbol, answer = some symbol → store.Introduces after declaration symbol := by
    refine returns_declare consistent follow fun name member middle kept follows _ => ?_
    obtain ⟨building, followed⟩ := follow middle kept follows
    obtain ⟨later, reached, same⟩ := follows.scopes scope opened listed
    cases keeps : opened.type with
    | none =>
      refine (returns_insert kept ⟨later, reached, same.trans keeps⟩).weaken ?_
      rintro _ after ⟨keptAfter, further, _⟩
      exact follow after keptAfter (follows.trans further)
    | some home =>
      obtain ⟨entry, declares, isBuilt, _⟩ := builds.built
      obtain ⟨same, again, sort⟩ := builds.consistent.named id type entry declares
      cases stored.symm.trans again
      rcases typed home keeps with isSpace | ⟨_, other, declaresOther⟩
      · rw [isSpace] at sort
        rw [← Option.some.inj sort] at isBuilt
        cases isBuilt
      · obtain ⟨rfl, _⟩ := builds.consistent.declares_unique declares declaresOther
        refine (returns_insertOwn building idle reached (same.trans keeps)).weaken ?_
        rintro _ after ⟨done, further, _⟩
        exact ⟨done, followed.trans further⟩
  unfold declareGenerated
  refine declared.bind ?_
  rintro answer middle ⟨⟨building, follows⟩, introduces⟩
  cases answer with
  | none => exact .pure ⟨building, follows⟩
  | some generated =>
    have introduced := introduces generated rfl
    obtain ⟨entry, known, isNew, _, declared⟩ := introduced.symbol
    have kept : middle.Consistent site.active := here ▸ building.consistent
    refine (returns_assignFunction kept known isNew declared (introduced.node node found) alone
      isFunction).bind ?_
    rintro _ after ⟨keptAfter, further⟩
    rw [here] at keptAfter
    exact .pure ⟨building.follow keptAfter (here ▸ further), follows.trans (further.weaken fewer)⟩

/-- A generated function joins the declaration of the innermost active symbol. -/
instance {header : Header} {parameters arguments : List NodeId} {result : Option NodeId}
    {initializers : List NodeId} {body : Option NodeId} {span : Span} {flags : Flags} :
    Erects id active (addGenerated id
      (.functionDecl header parameters arguments result initializers body) span flags) := by
  refine ⟨fun site store type bases names here idle builds => ?_⟩
  unfold addGenerated
  refine ensures_bind.mpr (ensures_symbolOf.mpr fun symbol stored => ?_)
  split
  case h_2 => exact .pure ⟨builds, .refl _ _⟩
  rename_i primary scope _ opens
  have added : ∀ block, Returns (do
      let generated ← alloc (.functionDecl header parameters arguments result initializers body)
        span
      onTree (Tree.pushStatement block generated)
      match ← declareGenerated generated scope id with
      | none => return
      | some generated =>
        updateSymbol generated fun entry => { entry with flags := entry.flags.union flags })
      site store fun _ after =>
        after.Builds (id :: active) id type bases names ∧ store.Follows active after := by
    intro block
    refine ensures_bind.mpr (ensures_onTree.mpr (Tree.ensures_alloc fun grown _ allocated _ => ?_))
    refine ensures_bind.mpr (ensures_onTree.mpr (Tree.ensures_pushStatement ?_))
    intro tree receiver statements reached isBlock _ _ pushed
    have isNew := (allocated store.tree.next).trans (if_pos rfl)
    have apart : store.tree.next ≠ block := by
      rintro rfl
      cases isNew.symm.trans reached
      cases isBlock
    have found := pushed store.tree.next
    dsimp only at found
    rw [if_pos rfl, if_neg apart, isNew] at found
    obtain ⟨consistent, follows⟩ : ({ store with tree } : Store).Consistent (id :: active) ∧
        store.Follows (id :: active) { store with tree } := builds.consistent.elsewhere rfl rfl rfl
    have building := builds.follow consistent follows
    refine (erects_declareGenerated here idle building stored opens found rfl
      ⟨_, _, _, _, _, _, rfl⟩).bind ?_
    rintro answer middle ⟨done, further⟩
    have started := (follows.weaken (List.subset_cons_self id active)).trans further
    cases answer with
    | none => exact .pure ⟨done, started⟩
    | some generated =>
      have flagged : Erects id active
          (updateSymbol generated fun entry => { entry with flags := entry.flags.union flags }) :=
            inferInstance
      refine (flagged.keeps site middle type bases names here idle done).weaken ?_
      rintro _ after ⟨kept, last⟩
      exact ⟨kept, started.trans last⟩
  refine (looks_kindOf primary).bind fun kind => ?_
  split
  · exact added _
  · exact added _
  · exact .pure ⟨builds, .refl _ _⟩

set_option synthInstance.maxSize 2000

variable [Resolver] [Resolver.Careful]

instance (values : List SymbolId) : Erects id active (generateEnumText id values) := by
  unfold generateEnumText
  infer_instance

instance : Erects id active (generateConstructor id) := by
  unfold generateConstructor
  refine erects_bind inferInstance fun symbol => ?_
  dsimp only
  refine erects_bind inferInstance fun base? => ?_
  split <;> infer_instance

end Generated

end Resolve
end Resolution
