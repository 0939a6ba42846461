import Resolution.Proofs.Builtins
import Resolution.Proofs.SafeDeclarations

/-!
# The scan declares types

Before anything is settled, every class, interface, enum and namespace gets its type.  The types of
the built-in classes exist already; each of them gets the symbol of its declaration.  The scan makes
no instances and completes no class, interface or enum, and what it is not declaring at the moment
stays as it is.
-/

namespace Resolution

/-! ## Types without instances -/

namespace Types

/-- No type was applied to type arguments. -/
def Unapplied (types : Types) : Prop := ∀ type entry, types.entries.get? type = some entry →
    entry.generic = none

/-- Where there are no instances, a type may change in every way that keeps what makes it the same.
-/
theorem Mirrored.amend {given : MemberId → Prop} {types after : Types} {type : TypeId}
    {entry changed : TypeEntry}
    (mirrored : types.Mirrored (fun _ => False) given) (unapplied : types.Unapplied)
    (stored : types.entries.get? type = some entry)
    (lookup : ∀ other, after.entries.get? other = if other =
      type then some changed else types.entries.get? other)
    (interned : after.interned = types.interned) (members : after.members = types.members)
    (keeps : entry.Keeps changed) (waiting : changed.waiting = entry.waiting)
    (distinct : changed.members.Distinct) :
    after.Mirrored (fun _ => False) given := by
  have unused : ∀ other made generic, types.entries.get? other = some made →
    made.generic ≠ some generic := by
    intro other made generic there original
    cases (unapplied other made there).symm.trans original
  have idle : entry.waiting = [] := by
    refine List.eq_nil_iff_forall_not_mem.mpr fun listed inside => ?_
    obtain ⟨_, made, there, original, _⟩ := (mirrored.waiting type entry stored).2 listed inside
    exact unused listed made type there original
  exact mirrored.change stored (unapplied type entry stored) lookup interned members keeps waiting
    (.inr idle) distinct
    fun other made there original => absurd original (unused other made type there)

end Types

namespace Store

/-- Nothing was settled, applied to type arguments or completed, namespaces and type parameters
apart. -/
structure Unsettled (store : Store) : Prop where
  untouched : ∀ id symbol, store.symbols.get? id = some symbol → symbol.progress = .untouched
  unapplied : store.types.Unapplied
  incomplete : ∀ type entry, store.types.entries.get? type = some entry →
    entry.kind.isBuilt = true →
    entry.complete = false

/-- What a part of the scan leaves alone: all symbols but the named ones, the sorts of nodes, and
which symbols declare types, apart from the taken ones. -/
structure Spares (named : SymbolId → Prop) (taken : TypeId → Prop) (before after : Store) :
    Prop where
  symbols : ∀ id symbol, before.symbols.get? id = some symbol → ¬named id →
    after.symbols.get? id = some symbol
  kinds : ∀ id, (after.tree.get? id).map Node.kind = (before.tree.get? id).map Node.kind
  types : ∀ type entry, before.types.entries.get? type = some entry → ∃ later,
    after.types.entries.get? type = some later ∧ later.kind = entry.kind ∧
      (¬taken type → later.symbol = entry.symbol)

namespace Spares

variable {named more : SymbolId → Prop} {taken : TypeId → Prop} {first second third : Store}

theorem refl (named : SymbolId → Prop) (taken : TypeId → Prop) (store : Store) :
    store.Spares named taken store where
  symbols _ _ stored _ := stored
  kinds _ := rfl
  types _ entry stored := ⟨entry, stored, rfl, fun _ => rfl⟩

theorem further (one : first.Spares named taken second) (two : second.Spares more taken third)
    (new : ∀ id, more id → named id ∨ first.symbols.get? id = none) :
    first.Spares named taken third where
  symbols id symbol stored other := by
    refine two.symbols id symbol (one.symbols id symbol stored other) fun isNamed => ?_
    rcases new id isNamed with here | missing
    · exact other here
    · cases stored.symm.trans missing
  kinds id := (two.kinds id).trans (one.kinds id)
  types type entry stored := by
    obtain ⟨middle, between, kind, symbol⟩ := one.types type entry stored
    obtain ⟨later, found, same, alike⟩ := two.types type middle between
    exact ⟨later, found, same.trans kind, fun other => (alike other).trans (symbol other)⟩

theorem trans (one : first.Spares named taken second) (two : second.Spares named taken third) :
    first.Spares named taken third :=
  one.further two fun _ => .inl

theorem weaken {wider : TypeId → Prop} (spares : first.Spares named taken second)
    (symbols : ∀ id, named id → more id)
    (types : ∀ type, taken type → wider type) : first.Spares more wider second where
  symbols id symbol stored other := spares.symbols id symbol stored fun isNamed =>
    other (symbols id isNamed)
  kinds := spares.kinds
  types type entry stored := by
    obtain ⟨later, found, kind, symbol⟩ := spares.types type entry stored
    exact ⟨later, found, kind, fun other => symbol fun isTaken => other (types type isTaken)⟩

end Spares

/-- Nothing is settled on the way, and what is not named or taken is left alone. -/
def Skims (named : SymbolId → Prop) (taken : TypeId → Prop) (before after : Store) : Prop :=
  after.Unsettled ∧ before.Spares named taken after

theorem Skims.trans {named : SymbolId → Prop} {taken : TypeId → Prop} {first second third : Store}
    (one : first.Skims named taken second) (two : second.Skims named taken third) :
    first.Skims named taken third :=
  ⟨two.1, one.2.trans two.2⟩

/-- What a part of the scan does: it settles nothing, and symbols, types and scopes stay consistent.
-/
structure Scanned (named : SymbolId → Prop) (taken : TypeId → Prop) (before after : Store) :
    Prop where
  consistent : after.Consistent []
  unsettled : after.Unsettled
  spares : before.Spares named taken after

namespace Scanned

variable {named more : SymbolId → Prop} {taken : TypeId → Prop} {first second third : Store}

theorem further (one : first.Scanned named taken second) (two : second.Scanned more taken third)
    (new : ∀ id, more id → named id ∨ first.symbols.get? id = none) :
    first.Scanned named taken third :=
  ⟨two.consistent, two.unsettled, one.spares.further two.spares new⟩

theorem trans (one : first.Scanned named taken second) (two : second.Scanned named taken third) :
    first.Scanned named taken third :=
  one.further two fun _ => .inl

theorem weaken {wider : TypeId → Prop} (scanned : first.Scanned named taken second)
    (symbols : ∀ id, named id → more id)
    (types : ∀ type, taken type → wider type) : first.Scanned more wider second :=
  ⟨scanned.consistent, scanned.unsettled, scanned.spares.weaken symbols types⟩

end Scanned

section Steps

variable {named : SymbolId → Prop} {taken : TypeId → Prop} {store : Store}

theorem Unsettled.updateSymbol (unsettled : store.Unsettled) {id : SymbolId}
    {change : Symbol → Symbol}
    (progress : ∀ symbol, (change symbol).progress = symbol.progress) (isNamed : named id) :
    store.Skims named taken { store with symbols := store.symbols.modify id change } := by
  refine ⟨⟨fun other symbol found => ?_, unsettled.unapplied, unsettled.incomplete⟩,
    { Spares.refl named taken store with symbols := fun other symbol stored different => ?_ }⟩
  · obtain ⟨earlier, stored, ⟨_, rfl⟩ | ⟨_, rfl⟩⟩ := Table.get?_modify_cases found
    · rw [progress]
      exact unsettled.untouched other earlier stored
    · exact unsettled.untouched other _ stored
  · have apart : other ≠ id := fun same => different (same ▸ isNamed)
    exact (Table.get?_modify_of_ne _ _ apart).trans stored

/-- A type changes, but neither its sort nor its symbol does, and it is not completed. -/
theorem Unsettled.updateType (unsettled : store.Unsettled) {type : TypeId}
    {change : TypeEntry → TypeEntry}
    (kind : ∀ entry, (change entry).kind = entry.kind) (generic : ∀ entry, (change entry).generic =
      entry.generic)
    (symbol : taken type ∨ ∀ entry, (change entry).symbol = entry.symbol)
    (complete : ∀ entry, store.types.entries.get? type = some entry → entry.kind.isBuilt = true →
      (change entry).complete = entry.complete) :
    store.Skims named taken
      { store with types := { store.types with entries := store.types.entries.modify type change } }
      := by
  refine ⟨⟨unsettled.untouched, fun other entry found => ?_, fun other entry found isBuilt => ?_⟩,
    { Spares.refl named taken store with types := fun other entry stored => ?_ }⟩
  · obtain ⟨earlier, stored, ⟨_, rfl⟩ | ⟨_, rfl⟩⟩ := Table.get?_modify_cases found
    · rw [generic]
      exact unsettled.unapplied other earlier stored
    · exact unsettled.unapplied other _ stored
  · obtain ⟨earlier, stored, ⟨rfl, rfl⟩ | ⟨_, rfl⟩⟩ := Table.get?_modify_cases found
    · rw [kind] at isBuilt
      rw [complete earlier stored isBuilt]
      exact unsettled.incomplete other earlier stored isBuilt
    · exact unsettled.incomplete other _ stored isBuilt
  · by_cases same : other = type
    · subst same
      refine ⟨change entry, by simp [stored], kind entry, fun spared => ?_⟩
      exact (symbol.resolve_left spared) entry
    · exact ⟨entry, (Table.get?_modify_of_ne _ _ same).trans stored, rfl, fun _ => rfl⟩

/-- A type joins, which is not complete if it is a class, interface or enum. -/
theorem Unsettled.pushType (unsettled : store.Unsettled) {entry : TypeEntry}
    (plain : entry.generic = none)
    (incomplete : entry.kind.isBuilt = true → entry.complete = false) :
    store.Skims named taken
    { store with types := { store.types with entries := store.types.entries.push entry } } := by
  refine ⟨⟨unsettled.untouched, fun other known found => ?_, fun other known found isBuilt => ?_⟩,
    { Spares.refl named taken store with types := fun other known stored => ?_ }⟩
  · obtain ⟨_, rfl⟩ | ⟨_, stored⟩ := Table.get?_push_cases found
    · exact plain
    · exact unsettled.unapplied other known stored
  · obtain ⟨_, rfl⟩ | ⟨_, stored⟩ := Table.get?_push_cases found
    · exact incomplete isBuilt
    · exact unsettled.incomplete other known stored isBuilt
  · exact ⟨known, Table.get?_push_of_stored _ stored, rfl, fun _ => rfl⟩

end Steps

/-! ## Types of declarations -/

section Declaring

variable {store : Store} {id : SymbolId} {symbol : Symbol} {type : TypeId}
  {entry : TypeEntry} {sort : TypeKind} {active : List SymbolId} {scope : ScopeId}

/-- A type changes without getting bases or becoming complete. -/
theorem Consistent.amend {change : TypeEntry → TypeEntry}
    (consistent : store.Consistent []) (unapplied : store.types.Unapplied)
    (incomplete : ∀ type entry, store.types.entries.get? type = some entry →
      entry.kind.isBuilt = true →
      entry.complete = false)
    (stored : store.types.entries.get? type = some entry) (keeps : entry.Keeps (change entry))
    (symbol : (change entry).symbol = entry.symbol)
    (waiting : (change entry).waiting = entry.waiting)
    (distinct : (change entry).members.Distinct) (related : (change entry).related = entry.related)
    (parameters : entry.kind.isObject = true → ∀ parameter ∈ (change entry).parameters,
      ∃ known, store.types.entries.get? parameter = some known ∧ known.kind = .parameter)
    (complete : entry.kind.isBuilt = true → (change entry).complete = entry.complete) :
    ({ store with types := { store.types with entries := store.types.entries.modify type change } }
      : Store).Consistent [] ∧
      store.Follows []
      { store with types := { store.types with entries := store.types.entries.modify type change } }
      := by
  have plain := unapplied type entry stored
  have lookup := @Table.get?_modify_of_stored _ _ _ _ _ _ change _ stored
  have found := (lookup type).trans (if_pos rfl)
  obtain ⟨given, mirrored⟩ := consistent.inherits.mirrored
  have steady : store.types.Steady (· = type)
      { store.types with entries := store.types.entries.modify type change } :=
    .of_lookup stored lookup keeps
  have inherits : Types.Inherits
    { store.types with entries := store.types.entries.modify type change } := by
    refine consistent.inherits.develop
      ⟨given, mirrored.amend unapplied stored lookup rfl rfl keeps waiting distinct⟩ steady ?_ ?_
    · rintro other before there _ isObject done rfl
      rw [incomplete other before there (TypeKind.isBuilt_of_isObject isObject)] at done
      cases done
    · rintro other before rfl there _
      cases stored.symm.trans there
      refine ⟨_, found, symbol, fun isObject => ?_⟩
      rw [keeps.kind] at isObject
      have isBuilt := TypeKind.isBuilt_of_isObject isObject
      have known := consistent.inherits.extendable stored plain isObject
      refine ⟨parameters isObject, ?_, ?_, fun done => ?_⟩
      · rw [keeps.kind, related]
        exact known.legal
      · rw [related]
        exact known.bases
      · rw [complete isBuilt, incomplete other entry stored isBuilt] at done
        cases done
  refine ⟨consistent.develop inherits steady ?_, .develop steady ?_⟩
  · rintro other before rfl there _
    cases stored.symm.trans there
    exact ⟨_, found, symbol, fun _ _ isBuilt => .inr (complete isBuilt)⟩
  · rintro other before rfl there _
    cases stored.symm.trans there
    exact ⟨⟨incomplete other entry stored, nofun⟩, _, found, symbol⟩

/-- A type joins or a type without a symbol gets one. -/
structure Provides (before after : Types) (id : SymbolId) (type : TypeId) (sort : TypeKind) :
    Prop where
  inherits : after.Inherits
  made : ∃ entry, after.entries.get? type = some entry ∧ entry.kind = sort ∧ entry.generic = none ∧
    entry.symbol = some id ∧ entry.complete = false
  blank : ∀ entry, before.entries.get? type = some entry → entry.symbol = none ∧ entry.kind = sort
  elsewhere : ∀ other, other ≠ type → after.entries.get? other = before.entries.get? other

theorem Consistent.provides_named (consistent : store.Consistent [])
    (stored : store.symbols.get? id = some symbol) (isNew : symbol.kind = .placeholder)
    (noFunction : sort ≠ .function) :
    Provides store.types
      { store.types with entries := store.types.entries.push { kind := sort, symbol := some id } }
      id
      store.types.entries.next sort where
  inherits := consistent.inherits.push_named noFunction fun type entry known plain declares =>
    consistent.undeclared stored (by rw [isNew]; rfl) type entry ⟨known, plain, declares⟩
  made := ⟨_, Table.get?_push_next _ _, rfl, rfl, rfl, rfl⟩
  blank entry known := by
    rw [store.types.entries.get?_next] at known
    cases known
  elsewhere other different := Table.get?_push_of_ne _ _ different

theorem Consistent.provides_builtin (consistent : store.Consistent []) (unsettled : store.Unsettled)
    (stored : store.symbols.get? id = some symbol)
    (isNew : symbol.kind = .placeholder) (found : store.types.entries.get? type = some entry)
    (isClass : entry.kind = .classType) (blank : entry.symbol = none) : Provides store.types
      { store.types with
        entries := store.types.entries.modify type fun entry =>
          { entry with symbol := some id } } id
      type .classType := by
  have plain := unsettled.unapplied type entry found
  have lookup (other : TypeId) : (store.types.entries.modify type fun entry =>
    { entry with symbol := some id }).get?
      other = if other = type then some { entry with symbol := some id }
        else store.types.entries.get? other :=
    Table.get?_modify_of_stored found other
  have here := (lookup type).trans (if_pos rfl)
  obtain ⟨given, mirrored⟩ := consistent.inherits.mirrored
  have unapplied : entry.arguments = none := by
    have := mirrored.applied type entry found
    simpa [plain] using this
  have keeps : entry.Keeps { entry with symbol := some id } := by
    refine ⟨rfl, rfl, rfl, fun _ => rfl, fun declared => ?_⟩
    rw [isClass, unapplied] at declared
    rcases declared with isFunction | applied
    · cases isFunction
    · cases applied
  have undeclared := consistent.undeclared stored (by rw [isNew]; rfl)
  refine ⟨?_, ⟨_, here, isClass, plain, rfl, ?_⟩, ?_, fun other different =>
    (lookup other).trans (if_neg different)⟩
  · refine consistent.inherits.relabel
      ⟨given, mirrored.amend unsettled.unapplied found lookup rfl rfl keeps rfl
      (mirrored.distinct type entry found)⟩ ?_ ?_ ?_ ?_
    · intro other known there
      by_cases same : other = type
      · subst same
        cases found.symm.trans there
        exact ⟨some id, here⟩
      · exact ⟨known.symbol, by rw [lookup, if_neg same, there]⟩
    · intro other known missing there _
      obtain ⟨earlier, before, _⟩ := Table.get?_modify_cases there
      cases missing.symm.trans before
    · intro one two first second owner oneFound twoFound onePlain twoPlain declaresOne declaresTwo
      obtain ⟨earlier, before, ⟨rfl, rfl⟩ | ⟨_, rfl⟩⟩ := Table.get?_modify_cases oneFound <;>
        obtain ⟨earlierAlso, beforeAlso, ⟨rfl, rfl⟩ | ⟨_, rfl⟩⟩ := Table.get?_modify_cases twoFound
      · rfl
      · cases declaresOne
        exact (undeclared two second ⟨beforeAlso, twoPlain, declaresTwo⟩).elim
      · cases declaresTwo
        exact (undeclared one first ⟨before, onePlain, declaresOne⟩).elim
      · exact consistent.inherits.unique one two first second owner before beforeAlso onePlain
          twoPlain declaresOne
          declaresTwo
    · intro other known there isPlain isObject nameless
      obtain ⟨earlier, before, ⟨rfl, rfl⟩ | ⟨_, rfl⟩⟩ := Table.get?_modify_cases there
      · cases nameless
      · exact consistent.inherits.owned other known before isPlain isObject nameless
  · exact unsettled.incomplete type entry found (by rw [isClass]; rfl)
  · intro same again
    cases found.symm.trans again
    exact ⟨blank, isClass⟩

/-- A declaration is under way: its symbol has its sort and its type. -/
structure Declaring (taken : TypeId → Prop) (before after : Store) (id : SymbolId) (symbol : Symbol)
    (type : TypeId) :
    Prop where
  scanned : before.Scanned (· = id) taken after
  stored : after.symbols.get? id = some symbol
  typed : symbol.type = some type
  declares : ∃ entry, after.Declares id type entry ∧ symbol.kind.typeKind? = some entry.kind

theorem Consistent.declaring {taken : TypeId → Prop} {kind : SymbolKind}
    {types : Types} (consistent : store.Consistent []) (unsettled : store.Unsettled)
    (stored : store.symbols.get? id = some symbol) (isNew : symbol.kind = .placeholder)
    (sorted : kind.typeKind? = some sort) (provides : Provides store.types types id type sort)
    (isTaken : ∀ entry, store.types.entries.get? type = some entry → taken type) :
    store.Declaring taken { store with
        symbols := (store.symbols.modify id fun entry => { entry with kind }).modify id fun entry =>
          { entry with type := some type }
        types } id { symbol with kind, type := some type } type := by
  have changed (other : SymbolId) :
    ((store.symbols.modify id fun entry => { entry with kind }).modify id fun entry =>
      { entry with type := some type }).get? other =
      if other = id then some { symbol with kind, type := some type } else store.symbols.get?
        other := by
    rw [Table.get?_modify, Table.get?_modify]
    split
    · rename_i same
      rw [same, stored]
      rfl
    · rfl
  have here := (changed id).trans (if_pos rfl)
  have untouched := unsettled.untouched id symbol stored
  obtain ⟨made, there, isSort, plain, declares, incomplete⟩ := provides.made
  refine ⟨⟨?_, ⟨?_, ?_, ?_⟩, ⟨?_, fun _ => rfl, ?_⟩⟩, here, rfl, made, ⟨there, plain, declares⟩,
    isSort ▸ sorted⟩
  · refine consistent.declare stored isNew untouched here untouched rfl rfl (isSort ▸ sorted)
      (fun other different => (changed other).trans (if_neg different)) provides.inherits there
        plain declares
      (fun _ => incomplete) (fun entry known => (provides.blank entry known).1) provides.elsewhere
  · intro other known found
    change ((store.symbols.modify id fun entry => { entry with kind }).modify id fun entry =>
      { entry with type := some type }).get? other = some known at found
    rw [changed] at found
    split at found
    · cases found
      exact untouched
    · exact unsettled.untouched other known found
  · intro other known found
    by_cases same : other = type
    · subst same
      cases there.symm.trans found
      exact plain
    · rw [provides.elsewhere other same] at found
      exact unsettled.unapplied other known found
  · intro other known found isBuilt
    by_cases same : other = type
    · subst same
      cases there.symm.trans found
      exact incomplete
    · exact unsettled.incomplete other known ((provides.elsewhere other same).symm.trans found)
        isBuilt
  · intro other known before different
    exact (changed other).trans ((if_neg different).trans before)
  · intro other known before
    by_cases same : other = type
    · subst same
      exact ⟨made,
        there, by rw [isSort, (provides.blank known before).2],
        fun spared => (spared (isTaken known before)).elim⟩
    · exact ⟨known, (provides.elsewhere other same).trans before, rfl, fun _ => rfl⟩

theorem Consistent.openScope {opened : Scope}
    (consistent : store.Consistent active) (stored : store.symbols.get? id = some symbol)
    (found : store.scopes.get? scope = some opened) (typed : ∀ type, opened.type = some type →
      symbol.kind = .space ∨ symbol.kind.isBuilt = true ∧ ∃ entry, store.Declares id type entry) :
    ({ store with
       symbols := store.symbols.modify id fun symbol => { symbol with ownScope := some scope } } :
      Store).Consistent active := by
  exact (consistent.moveSymbol stored ⟨.refl _, fun early => early, fun _ _ =>
    rfl, .inl, fun done => done,
    consistent.started id symbol stored, .inr ⟨scope, opened, rfl, found, typed⟩⟩ (fun _ _ =>
      .rfl) active).1

/-- A scope that takes names: it keeps them itself or in a type that exists. -/
def Receives (store : Store) (scope : ScopeId) : Prop :=
  ∃ opened, store.scopes.get? scope = some opened ∧
    ∀ type, opened.type = some type → ∃ entry, store.types.entries.get? type = some entry

theorem Receives.follow {after : Store} (receives : store.Receives scope)
    (follows : store.Follows active after) : after.Receives scope := by
  obtain ⟨opened, stored, typed⟩ := receives
  obtain ⟨later, found, same⟩ := follows.scopes scope opened stored
  refine ⟨later, found, fun type keeps => ?_⟩
  obtain ⟨entry, known⟩ := typed type (same.symm.trans keeps)
  obtain ⟨last, there, _⟩ := follows.types type entry known
  exact ⟨last, there⟩

end Declaring

end Store

namespace Resolve

variable {α β : Type} {site : Surroundings} {store before : Store} {id : SymbolId}

theorem returns_openTypeScope {taken : TypeId → Prop} {symbol : Symbol} {type : TypeId}
    {kind : ScopeKind}
    {parent : Option ScopeId} (declaring : before.Declaring taken store id symbol type)
    (opens : symbol.kind = .space ∨ symbol.kind.isBuilt = true) :
    Returns (openTypeScope id kind type parent) site store fun scope after =>
      store.Scanned (· = id) (fun _ => False) after ∧ after.Receives scope := by
  unfold openTypeScope
  refine ensures_bind.mpr (ensures_onScopes.mpr (Table.ensures_create.mpr ?_))
  refine ensures_bind.mpr (ensures_onScopes.mpr (Table.ensures_update.mpr fun _ => ?_))
  refine ensures_bind.mpr (ensures_onSymbols.mpr (Table.ensures_update.mpr fun _ => .pure ?_))
  dsimp only
  rw [Table.modify_push_next]
  obtain ⟨entry, declares, _⟩ := declaring.declares
  have found := store.scopes.get?_push_next { kind, parent, symbol := some id, type := some type }
  have older : ∀ scope opened, store.scopes.get? scope = some opened → ∃ later,
      (store.scopes.push { kind, parent, symbol := some id, type := some type }).get? scope =
        some later ∧
        later.type = opened.type := fun scope opened stored =>
          ⟨opened, Table.get?_push_of_stored _ stored, rfl⟩
  obtain ⟨kept, _⟩ := declaring.scanned.consistent.onScopes older
  have consistent := kept.openScope declaring.stored found fun known keeps => by
    cases keeps
    exact opens.imp_right fun isBuilt => ⟨isBuilt, entry, declares⟩
  have unsettled : ({ store with
      scopes := store.scopes.push { kind, parent, symbol := some id, type := some type } } :
        Store).Unsettled :=
    { declaring.scanned.unsettled with }
  obtain ⟨unsettledAfter, spares⟩ := @Store.Unsettled.updateSymbol (· = id)
    (fun _ => False) _ unsettled id
    (fun symbol => { symbol with ownScope := some store.scopes.next }) (fun _ => rfl) rfl
  refine ⟨⟨consistent, unsettledAfter, { spares with }⟩, _, found, ?_⟩
  rintro known ⟨⟩
  exact ⟨entry, declares.1⟩

/-! ## Steps of the scan -/

/-- The step settles, applies and completes nothing, and leaves alone what it does not name. -/
class Scans (named : SymbolId → Prop) (step : Resolve α) : Prop where
  keeps : ∀ site store, store.Unsettled → Returns step site store fun _ =>
    store.Skims named fun _ => False

section Scans

variable {named : SymbolId → Prop} {node : NodeId} {scope : ScopeId}
  {step : Resolve α} {next : α → Resolve β} {enclosing : Option SymbolId}

instance (priority := low) scans_of_looks [looks : Looks step] : Scans named step :=
  ⟨fun _ _ unsettled => looks.ensures fun _ => ⟨unsettled, .refl _ _ _⟩⟩

theorem scans_bind (first : Scans named step) (rest : ∀ value, Scans named (next value)) :
    Scans named (step >>= next) := by
  refine ⟨fun site store unsettled => (first.keeps site store unsettled).bind ?_⟩
  intro value middle one
  exact ((rest value).keeps site middle one.1).weaken fun _ _ two => one.trans two

instance [first : Scans named step] [rest : ∀ value, Scans named (next value)] :
    Scans named (step >>= next) :=
  scans_bind first rest

/-- Nodes keep their sorts. -/
theorem scans_updateNode {change : Node → Node} (kind : ∀ node, (change node).kind = node.kind) :
    Scans named (onTree (Table.update node change)) := by
  refine ⟨fun site store unsettled => ensures_onTree.mpr (Table.ensures_update.mpr fun _ => ?_)⟩
  refine ⟨{ unsettled with }, { Store.Spares.refl named _ store with kinds := fun other => ?_ }⟩
  rw [Table.get?_modify]
  split
  · rw [Option.map_map]
    exact congrArg (fun map => Option.map map (store.tree.get? other)) (funext kind)
  · rfl

instance {symbol : Option SymbolId} : Scans named (setSymbol node symbol) :=
  scans_updateNode fun _ => rfl

instance {sibling : Option NodeId} :
    Scans named (onTree (Table.update node fun node => { node with sibling })) :=
  scans_updateNode fun _ => rfl

instance {action : Action Scopes α} : Scans named (onScopes action) :=
  ⟨fun _ store unsettled => ensures_onScopes.mpr fun _ _ _ =>
    ⟨{ unsettled with }, { Store.Spares.refl named _ store with }⟩⟩

instance {member : Member} : Scans named (onTypes (Types.createMember member)) :=
  ⟨fun _ store unsettled => ensures_onTypes.mpr (Types.ensures_createMember.mpr
    ⟨{ unsettled with }, { Store.Spares.refl named _ store with }⟩)⟩

theorem scans_updateSymbol {change : Symbol → Symbol}
    (progress : ∀ symbol, (change symbol).progress = symbol.progress)
    (isNamed : named id) : Scans named (updateSymbol id change) :=
  ⟨fun _ _ unsettled => ensures_onSymbols.mpr (Table.ensures_update.mpr fun _ =>
    unsettled.updateSymbol progress isNamed)⟩

instance {name : String} {member : MemberId} :
    Scans named (onNames (Environment.insert scope name member)) := by
  refine ⟨fun site store unsettled => ensures_onNames.mpr ?_⟩
  unfold Environment.insert
  refine .get ?_
  refine .ask fun opened _ => ?_
  have unchanged : store.Skims named (fun _ => False) store := ⟨unsettled, .refl _ _ _⟩
  split
  · refine Action.ensures_zoom.mpr ?_
    unfold Types.insertMember
    refine .get ?_
    refine .ask fun entry _ => ?_
    split
    · exact .pure unchanged
    · refine Action.ensures_bind.mpr (.updateIn fun _ => ?_)
      exact .pure (unsettled.updateType (fun _ => rfl) (fun _ => rfl) (.inr fun _ =>
        rfl) fun _ _ _ => rfl)
  · split
    · exact .pure unchanged
    · refine Action.ensures_bind.mpr (.updateIn fun _ => ?_)
      exact .pure ⟨{ unsettled with }, { Store.Spares.refl named _ store with }⟩

instance : Scans named (placeholder node scope enclosing) := by
  refine ⟨fun site store unsettled => ?_⟩
  unfold placeholder
  refine (looks_kindOf node).bind fun kind => ?_
  split
  · exact (looks_kindOf node).bind fun _ => ensures_throw
  refine ensures_bind.mpr (ensures_onSymbols.mpr (Table.ensures_create.mpr ?_))
  refine .updateSymbol fun _ => ?_
  dsimp only
  rw [Table.modify_push_next]
  have marked : Scans named (setSymbol node (some store.symbols.next)) := inferInstance
  refine Runs.bind (marked.keeps site _ ⟨?_, unsettled.unapplied, unsettled.incomplete⟩) ?_
  · intro other symbol found
    obtain ⟨_, rfl⟩ | ⟨_, stored⟩ := Table.get?_push_cases found
    · rfl
    · exact unsettled.untouched other symbol stored
  · rintro _ after ⟨unsettledAfter, spares⟩
    refine .pure ⟨unsettledAfter, ?_, spares.kinds, spares.types⟩
    intro other symbol stored different
    exact spares.symbols other symbol (Table.get?_push_of_stored _ stored) different

instance scans_appendFragment {symbol : SymbolId} : Scans named (appendFragment symbol node) := by
  unfold appendFragment
  refine scans_bind inferInstance fun fragments => ?_
  split <;> infer_instance

theorem spares_declare (named : SymbolId → Prop) (unsettled : store.Unsettled) :
    Returns (declare node scope enclosing) site store fun answer after =>
      store.Skims named (fun _ => False) after ∧
        ∀ symbol, answer = some symbol → store.symbols.get? symbol = none := by
  unfold declare
  refine (looks_kindOf node).bind fun kind => ?_
  split
  · exact .pure ⟨⟨unsettled, .refl _ _ _⟩, nofun⟩
  rename_i header _
  refine (looks_ask _).bind fun existing? => ?_
  have places : Scans named (placeholder node scope enclosing) := inferInstance
  have placed := (places.keeps site store unsettled).and introduces_placeholder
  split
  · refine (looks_memberSymbol _).bind fun existing =>
      (looks_joinsFragments existing node).bind fun joins => ?_
    split
    · exact (scans_appendFragment.keeps site store unsettled).bind fun _ _ kept =>
        .pure ⟨kept, nofun⟩
    · refine (looks_reportRedeclared _ _).bind fun _ => placed.bind ?_
      rintro symbol after ⟨kept, introduces, _⟩
      refine .pure ⟨kept, ?_⟩
      rintro _ ⟨⟩
      exact introduces.new
  · refine placed.bind ?_
    rintro symbol middle ⟨one, introduces, _⟩
    have rest : Scans named (do
        let member ← onTypes (Types.createMember (.own symbol))
        onNames (Environment.insert scope header.name member)) := inferInstance
    refine ensures_bind.mpr ((ensures_bind.mp (rest.keeps site middle one.1)).weaken ?_)
    intro member created inserted
    refine inserted.bind ?_
    intro outcome after two
    split
    · refine .pure ⟨one.trans two, ?_⟩
      rintro _ ⟨⟩
      exact introduces.new
    · exact ensures_throw

instance {function : SymbolId} {arguments : List NodeId} :
    Scans named (declareArguments function scope arguments) := by
  induction arguments with
  | nil => exact @scans_of_looks _ _ _ (looks_pure _)
  | cons id rest ih =>
    refine ⟨fun site store unsettled => ?_⟩
    rw [declareArguments]
    refine (spares_declare named unsettled).bind ?_
    rintro answer middle ⟨one, new⟩
    cases answer with
    | none => exact (ih.keeps site middle one.1).weaken fun _ _ two => one.trans two
    | some argument =>
      refine (looks_writtenFlags id).bind fun flags => ?_
      have sorted : Scans (· = argument)
          (updateSymbol argument fun entry => { entry with kind := .argument, flags }) :=
        scans_updateSymbol (fun _ => rfl) rfl
      refine (sorted.keeps site middle one.1).bind ?_
      rintro _ flagged ⟨unsettledFlagged, two⟩
      refine (ih.keeps site flagged unsettledFlagged).bind ?_
      rintro _ after ⟨unsettledAfter, three⟩
      refine .pure ⟨unsettledAfter, (one.2.further two ?_).trans three⟩
      rintro _ rfl
      exact .inr (new _ rfl)

end Scans

end Resolve

/-! ## Type parameters -/

/-- The type of the symbol is that of a type parameter. -/
def Store.IsParameter (store : Store) (id : SymbolId) : Prop :=
  ∃ symbol type entry, store.symbols.get? id = some symbol ∧ symbol.type = some type ∧
    store.types.entries.get? type = some entry ∧ entry.kind = .parameter

theorem Store.IsParameter.spare {named : SymbolId → Prop} {taken : TypeId → Prop}
    {store after : Store} {id : SymbolId}
    (isParameter : store.IsParameter id) (spares : store.Spares named taken after)
    (spared : ¬named id) :
    after.IsParameter id := by
  obtain ⟨symbol, type, entry, stored, typed, found, isSort⟩ := isParameter
  obtain ⟨later, there, kind, _⟩ := spares.types type entry found
  exact ⟨symbol, type, later, spares.symbols id symbol stored spared, typed, there,
    kind.trans isSort⟩

namespace Resolve

variable {site : Surroundings} {store : Store} {id : SymbolId} {parameters : List NodeId}
  {symbol : Symbol}

theorem spares_declareParameters {owner : SymbolId} {scope : ScopeId}
    (unsettled : store.Unsettled) :
    Returns (declareParameters owner scope parameters) site store fun declared after =>
      store.Skims (fun _ => False) (fun _ => False) after ∧
        ∀ parameter ∈ declared, after.IsParameter parameter := by
  induction parameters generalizing store with
  | nil => exact .pure ⟨⟨unsettled, .refl _ _ _⟩, List.forall_mem_nil _⟩
  | cons id rest ih =>
    rw [declareParameters]
    refine (spares_declare (fun _ => False) unsettled).bind ?_
    rintro answer placed ⟨one, new⟩
    cases answer with
    | none => exact (ih one.1).weaken fun _ _ two => two.imp_left one.trans
    | some parameter =>
      refine .updateSymbol fun inside => ?_
      refine ensures_bind.mpr (ensures_onTypes.mpr (Types.ensures_push.mpr ?_))
      refine ensures_bind.mpr (ensures_onTypes.mpr (.updateIn fun _ => ?_))
      refine .updateSymbol fun _ => ?_
      dsimp only
      rw [Table.modify_push_next]
      obtain ⟨symbol, stored⟩ := Table.exists_get?_of_lt inside
      have two := @Store.Unsettled.updateSymbol (· = parameter) (fun _ => False) _
        one.1 parameter (fun entry => { entry with kind := .typeParameter }) (fun _ => rfl) rfl
      have three := @Store.Unsettled.pushType (· = parameter) (fun _ => False) _
        two.1 { kind := .parameter, symbol := some parameter, complete := true } rfl (by rintro ⟨⟩)
      have four := @Store.Unsettled.updateSymbol (· = parameter) (fun _ => False) _
        three.1 parameter (fun entry => { entry with type := some placed.types.entries.next })
          (fun _ => rfl) rfl
      refine (ih four.1).bind ?_
      rintro declared after ⟨⟨unsettledAfter, five⟩, areParameters⟩
      have spares := one.2.further ((two.trans three).trans four).2 fun other same =>
        .inr (same ▸ new parameter rfl)
      refine .pure ⟨⟨unsettledAfter, spares.trans five⟩, ?_⟩
      intro other listed
      rcases List.mem_cons.mp listed with rfl | later
      · refine Store.IsParameter.spare
          ⟨{ symbol with kind := .typeParameter, type := some placed.types.entries.next }, _,
          _, ?_, rfl, Table.get?_push_next _ _, rfl⟩ five not_false
        exact (Table.get?_modify_self _ _ _).trans
          (congrArg _ ((Table.get?_modify_self _ _ _).trans (congrArg _ stored)))
      · exact areParameters other later

/-- A symbol without type parameters gets those of its declaration. -/
theorem spares_openParameterScope (unsettled : store.Unsettled) :
    Returns (openParameterScope id parameters) site store fun _ after =>
      store.Skims (· = id) (fun _ => False) after ∧
        ∀ symbol, store.symbols.get? id = some symbol → symbol.parameters = [] → ∃ declared,
          after.symbols.get? id = some { symbol with parameters := declared } ∧
            ∀ parameter ∈ declared, after.IsParameter parameter := by
  unfold openParameterScope
  refine (looks_symbolOf id).bind fun around => ?_
  dsimp only
  split
  · refine .pure ⟨⟨unsettled, .refl _ _ _⟩, fun symbol stored none => ⟨[], ?_, nofun⟩⟩
    rw [stored, ← none]
  have opens : Scans (fun _ => False)
    (onScopes (Scopes.create .parameters (some (around.scope.getD globalScope)) (some id))) :=
    inferInstance
  refine (opens.keeps site store unsettled).bind ?_
  rintro scope opened ⟨unsettledOpened, one⟩
  refine (spares_declareParameters unsettledOpened).bind ?_
  rintro declared named ⟨⟨unsettledNamed, two⟩, areParameters⟩
  refine ensures_bind.mpr (ensures_onSymbols.mpr (Table.ensures_update.mpr fun _ => .pure ?_))
  obtain ⟨unsettledAfter, three⟩ := @Store.Unsettled.updateSymbol (· = id)
    (fun _ => False) _ unsettledNamed
    id (fun entry => { entry with parameters := declared }) (fun _ => rfl) rfl
  have spared := one.trans two
  refine ⟨⟨unsettledAfter, (spared.weaken (fun _ => False.elim) fun _ => False.elim).trans three⟩,
    fun symbol stored _ => ?_⟩
  refine ⟨declared, ?_, fun parameter listed => ?_⟩
  · exact (Table.get?_modify_self _ _ _).trans
      (congrArg _ (spared.symbols id symbol stored not_false))
  · obtain ⟨known, type, entry, found, typed, there⟩ := areParameters parameter listed
    by_cases same : parameter = id
    · subst same
      exact ⟨_, type, entry, (Table.get?_modify_self _ _ _).trans (congrArg _ found), typed, there⟩
    · exact ⟨known, type, entry, (Table.get?_modify_of_ne _ _ same).trans found, typed, there⟩

theorem returns_parameterTypes (stored : store.symbols.get? id = some symbol)
    (areParameters : ∀ parameter ∈ symbol.parameters, store.IsParameter parameter) :
    Returns (parameterTypes id) site store fun types after => after = store ∧ ∀ type ∈ types,
      ∃ entry, store.types.entries.get? type = some entry ∧ entry.kind = .parameter := by
  unfold parameterTypes
  refine ensures_bind.mpr (ensures_symbolOf.mpr fun same again => ?_)
  cases stored.symm.trans again
  refine returns_mapM_reading fun parameter listed => ?_
  refine ensures_bind.mpr (ensures_symbolOf.mpr fun known found => .pure ⟨rfl, ?_⟩)
  obtain ⟨same, type, entry, again, typed, there⟩ := areParameters parameter listed
  cases found.symm.trans again
  rw [Symbol.typeOrError, typed]
  exact ⟨entry, there⟩

/-! ## Functions and fragments -/

section Named

variable {named : SymbolId → Prop}

theorem scans_openParameterScope {parameters : List NodeId} (isNamed : named id) :
    Scans named (openParameterScope id parameters) := by
  refine ⟨fun site store unsettled => (spares_openParameterScope unsettled).weaken ?_⟩
  rintro _ after ⟨⟨unsettledAfter, spares⟩, _⟩
  exact ⟨unsettledAfter, spares.weaken (fun _ same => same ▸ isNamed) fun _ => False.elim⟩

theorem scans_declareFunction {declaration : NodeId} (isNamed : named id) :
    Scans named (declareFunction id declaration) := by
  unfold declareFunction
  refine scans_bind inferInstance fun kind => ?_
  split
  · refine scans_bind inferInstance fun enclosing => scans_bind inferInstance fun entry => ?_
    refine scans_bind (scans_updateSymbol (fun _ => rfl) isNamed) fun _ => ?_
    refine scans_bind (scans_openParameterScope isNamed) fun around =>
      scans_bind inferInstance fun scope => ?_
    refine scans_bind (scans_updateSymbol (fun _ => rfl) isNamed) fun _ =>
      scans_bind inferInstance fun declared => ?_
    exact scans_updateSymbol (fun _ => rfl) isNamed
  · infer_instance

instance {fragments : List NodeId} : Scans named (linkFragments fragments) := by
  fun_induction linkFragments fragments with
  | case1 => infer_instance
  | case2 => infer_instance
  | case3 first second rest ih => exact scans_bind inferInstance fun _ => ih

end Named

instance {inside : Prop} {busy : List SymbolId} {fragments : List NodeId} :
    Safe inside busy (linkFragments fragments) := by
  fun_induction linkFragments fragments with
  | case1 => infer_instance
  | case2 => infer_instance
  | case3 first second rest ih => exact .after fun _ => ih

/-- A symbol may get another first fragment, and stays as it is otherwise. -/
theorem returns_reorderFragments (idle : site.active = []) (consistent : store.Consistent [])
    (unsettled : store.Unsettled) (stored : store.symbols.get? id = some symbol) :
    Returns (orderFragments id) site store fun _ after =>
      store.Scanned (· = id) (fun _ => False) after ∧
        ∃ node, after.symbols.get? id = some { symbol with node } := by
  unfold orderFragments
  refine (looks_fragmentsOf id).bind fun fragments => ?_
  refine Looks.bind (by infer_instance) fun primary? => ?_
  have unchanged : store.Scanned (· = id) (fun _ => False) store ∧
      ∃ node, store.symbols.get? id = some { symbol with node } :=
    ⟨⟨consistent, unsettled, .refl _ _ _⟩, symbol.node, stored⟩
  split
  · exact .pure unchanged
  rename_i primary
  split
  · exact .pure unchanged
  dsimp only
  have links : Scans (fun _ => False) (linkFragments (primary :: fragments.erase primary)) :=
    inferInstance
  refine ((Safe.returns inferInstance (idle ▸ consistent)).and
    (links.keeps site store unsettled)).bind ?_
  rintro _ linked ⟨⟨kept, _⟩, unsettledLinked, one⟩
  refine ensures_bind.mpr (ensures_onSymbols.mpr (Table.ensures_update.mpr fun _ => .pure ?_))
  have moves : ∀ same, linked.symbols.get? id = some same →
    same.Develops linked { same with node := some primary } :=
    fun _ _ => ⟨rfl, .refl _, fun _ _ => rfl, .inl rfl⟩
  obtain ⟨unsettledAfter, two⟩ := @Store.Unsettled.updateSymbol (· = id) (fun _ =>
    False) _ unsettledLinked
    id (fun entry => { entry with node := some primary }) (fun _ => rfl) rfl
  rw [idle] at kept
  refine ⟨⟨(kept.update_symbol moves).1, unsettledAfter, ?_⟩, some primary, ?_⟩
  · exact (one.weaken (fun _ => False.elim) fun _ => False.elim).trans two
  · exact (Table.get?_modify_self _ _ _).trans (congrArg _ (one.symbols id symbol stored not_false))

end Resolve
end Resolution
