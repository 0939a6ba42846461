import Resolution.Proofs.ErrorFree
import Resolution.Proofs.Hierarchy

/-!
# Symbols, scopes and their types

Every class, interface and enum has one type, which is set up while its symbol is active and
complete once the symbol is settled.  `Store.Consistent` ties symbols, types and scopes together;
`Store.Follows` says what later steps leave alone: complete definitions, and those of active
symbols, which only their own rule may change.
-/

namespace Resolution

namespace SymbolKind

/-- Classes, interfaces and enums, whose types are set up when they are settled. -/
def isBuilt (kind : SymbolKind) : Bool := kind.isObject || kind.isEnum

/-- How the sort of a symbol may change while symbols are settled: what declares a type stays as it
is, and no other sort declares one later, except that a new symbol may become a type parameter. -/
def Becomes (before after : SymbolKind) : Prop :=
  after = before ∨ before.typeKind? = none ∧ after ≠ .placeholder ∧
    (after.typeKind? = none ∨ before = .placeholder ∧ after = .typeParameter)

theorem Becomes.refl (kind : SymbolKind) : kind.Becomes kind := .inl rfl

theorem Becomes.trans {first second third : SymbolKind} (one : first.Becomes second)
    (two : second.Becomes third) :
    first.Becomes third := by
  unfold Becomes at *
  grind [typeKind?]

theorem typeKind?_of_isBuilt {kind : SymbolKind} (isBuilt : kind.isBuilt = true) :
    ∃ sort, kind.typeKind? = some sort := by
  cases kind <;> first | exact ⟨_, rfl⟩ | cases isBuilt

/-- A symbol that becomes a class, interface, enum or namespace was one. -/
theorem Becomes.eq_of_isBuilt {before after : SymbolKind} (becomes : before.Becomes after)
    (opens : after.isBuilt = true ∨ after = .space) : after = before := by
  rcases becomes with same | ⟨_, _, none | ⟨_, rfl⟩⟩
  · exact same
  · rcases opens with isBuilt | rfl
    · obtain ⟨sort, declares⟩ := typeKind?_of_isBuilt isBuilt
      cases none.symm.trans declares
    · cases none
  · rcases opens with isBuilt | isSpace
    · cases isBuilt
    · cases isSpace

end SymbolKind

/-- Classes, interfaces and enums. -/
def TypeKind.isBuilt (kind : TypeKind) : Bool := kind.isObject || kind.isEnum

theorem TypeKind.isBuilt_of_isObject {kind : TypeKind} (isObject : kind.isObject = true) :
    kind.isBuilt = true := by
  rw [isBuilt, isObject, Bool.true_or]

theorem SymbolKind.isBuilt_of_typeKind? {kind : SymbolKind} {sort : TypeKind}
    (declares : kind.typeKind? = some sort) :
    sort.isBuilt = kind.isBuilt := by
  cases kind <;> cases declares <;> rfl

namespace Store

/-- A scope that keeps its names itself. -/
def Plain (store : Store) (scope : ScopeId) : Prop :=
  ∃ opened, store.scopes.get? scope = some opened ∧ opened.type = none

def Settled (store : Store) (id : SymbolId) : Prop :=
  ∃ symbol, store.symbols.get? id = some symbol ∧ symbol.progress = .settled

/-- A new symbol, whose declaration was not looked at. -/
def Fresh (store : Store) (id : SymbolId) : Prop :=
  ∃ symbol, store.symbols.get? id = some symbol ∧ symbol.kind = .placeholder ∧
    symbol.progress = .untouched

/-- A symbol that declares no type and never will. -/
def Typeless (store : Store) (id : SymbolId) : Prop :=
  ∃ symbol, store.symbols.get? id = some symbol ∧ symbol.kind.typeKind? = none ∧
    symbol.kind ≠ .placeholder

/-- The type is the definition that a symbol declares. -/
def Declares (store : Store) (id : SymbolId) (type : TypeId) (entry : TypeEntry) : Prop :=
  store.types.entries.get? type = some entry ∧ entry.generic = none ∧ entry.symbol = some id

/-- Symbols, types and scopes agree while the listed symbols are being settled. -/
structure Consistent (active : List SymbolId) (store : Store) : Prop where
  inherits : store.types.Inherits
  named : ∀ id type entry, store.Declares id type entry →
    ∃ symbol, store.symbols.get? id = some symbol ∧ symbol.kind.typeKind? = some entry.kind
  /-- What nothing was started on has a type that is not complete. -/
  untouched : ∀ id symbol, store.symbols.get? id = some symbol → symbol.progress = .untouched →
    symbol.kind.isBuilt = true →
    ∃ type entry, symbol.type = some type ∧ store.Declares id type entry ∧ entry.complete = false
  settled : ∀ id symbol type entry, store.symbols.get? id = some symbol →
    symbol.progress = .settled →
    store.Declares id type entry → entry.kind.isBuilt = true → entry.complete = true
  /-- Scopes that keep their names in a type belong to the symbol of that type. -/
  homes : ∀ id symbol scope, store.symbols.get? id = some symbol → symbol.ownScope = some scope →
    ∃ opened, store.scopes.get? scope = some opened ∧ ∀ type, opened.type = some type →
      symbol.kind = .space ∨ symbol.kind.isBuilt = true ∧ ∃ entry, store.Declares id type entry
  around : store.Plain globalScope
  started : ∀ id symbol, store.symbols.get? id = some symbol →
    (symbol.progress = .active ↔ id ∈ active)
  begun : ∀ id ∈ active, ∃ symbol, store.symbols.get? id = some symbol

/-- What stays while the listed symbols are being settled. -/
structure Follows (active : List SymbolId) (before after : Store) : Prop where
  types : before.types.Extends after.types
  /-- Complete classes, interfaces and enums and the types of active symbols stay as they are, apart
  from waiting instances. -/
  frozen : ∀ type entry, before.types.entries.get? type = some entry → entry.generic = none →
    (entry.kind.isBuilt = true ∧ entry.complete = true ∨ ∃ id ∈ active, entry.symbol = some id) →
    ∃ waiting, after.types.entries.get? type = some { entry with waiting }
  declares : ∀ id type entry, before.Declares id type entry → ∃ later, after.Declares id type later
  symbols : ∀ id symbol, before.symbols.get? id = some symbol →
    ∃ later, after.symbols.get? id = some later ∧ symbol.kind.Becomes later.kind ∧
      (symbol.progress = .settled → later.progress = .settled)
  /-- New symbols declare no classes, interfaces and enums. -/
  unbuilt : ∀ id symbol, before.symbols.get? id = none → after.symbols.get? id = some symbol →
    symbol.kind.isBuilt = false
  scopes : ∀ scope opened, before.scopes.get? scope = some opened →
    ∃ later, after.scopes.get? scope = some later ∧ later.type = opened.type

namespace Follows

variable {active : List SymbolId} {first second third : Store} {id : SymbolId}

theorem refl (active : List SymbolId) (store : Store) : store.Follows active store where
  types := .refl _
  frozen _ entry stored _ _ := ⟨entry.waiting, stored⟩
  declares _ _ entry declares := ⟨entry, declares⟩
  symbols _ symbol stored := ⟨symbol, stored, .refl _, id⟩
  unbuilt id symbol missing stored := by
    cases missing.symm.trans stored
  scopes _ opened stored := ⟨opened, stored, rfl⟩

theorem trans (one : first.Follows active second) (two : second.Follows active third) :
    first.Follows active third where
  types := one.types.trans two.types
  frozen type entry stored plain fixed := by
    obtain ⟨_, middle⟩ := one.frozen type entry stored plain fixed
    obtain ⟨waiting, final⟩ := two.frozen type _ middle plain fixed
    exact ⟨waiting, final⟩
  declares id type entry declares := by
    obtain ⟨_, middle⟩ := one.declares id type entry declares
    exact two.declares id type _ middle
  symbols := Table.later_trans one.symbols two.symbols fun _ _ _ earlier later =>
    ⟨earlier.1.trans later.1, later.2 ∘ earlier.2⟩
  unbuilt id symbol missing found := by
    cases between : second.symbols.get? id with
    | none => exact two.unbuilt id symbol between found
    | some middle =>
      have plain := one.unbuilt id middle missing between
      obtain ⟨later, again, becomes, _⟩ := two.symbols id middle between
      cases found.symm.trans again
      refine Bool.eq_false_iff.mpr fun isBuilt => ?_
      rw [becomes.eq_of_isBuilt (.inl isBuilt), plain] at isBuilt
      cases isBuilt
  scopes := Table.later_trans one.scopes two.scopes fun _ _ _ same alike => alike.trans same

variable (follows : first.Follows active second)

include follows

theorem weaken {fewer : List SymbolId} (listed : fewer ⊆ active) :
    first.Follows fewer second where
  types := follows.types
  frozen type entry stored plain fixed := by
    refine follows.frozen type entry stored plain (fixed.imp_right ?_)
    rintro ⟨id, inside, declares⟩
    exact ⟨id, listed inside, declares⟩
  declares := follows.declares
  symbols := follows.symbols
  unbuilt := follows.unbuilt
  scopes := follows.scopes

theorem plain {scope : ScopeId} (isPlain : first.Plain scope) :
    second.Plain scope := by
  obtain ⟨opened, stored, untyped⟩ := isPlain
  obtain ⟨later, found, same⟩ := follows.scopes scope opened stored
  exact ⟨later, found, same.trans untyped⟩

theorem typeless (typeless : first.Typeless id) : second.Typeless id := by
  obtain ⟨symbol, stored, none, known⟩ := typeless
  obtain ⟨later, found, becomes, _⟩ := follows.symbols id symbol stored
  refine ⟨later, found, ?_⟩
  rcases becomes with same | ⟨_, stillKnown, untyped | ⟨isNew, _⟩⟩
  · rw [same]
    exact ⟨none, known⟩
  · exact ⟨untyped, stillKnown⟩
  · exact absurd isNew known

theorem isBase {base : TypeId} (inherits : first.types.Inherits)
    (isBase : first.types.IsBase base) : second.types.IsBase base := by
  obtain ⟨⟨entry, stored, done⟩, same, again, isObject⟩ := isBase
  cases stored.symm.trans again
  obtain ⟨later, found, kept⟩ := follows.types base entry stored
  refine ⟨⟨later, found, ?_⟩, later, found, by rw [kept.kind, isObject]⟩
  rw [kept.generic]
  cases original : entry.generic with
  | none =>
    rw [original] at done
    obtain ⟨waiting, there⟩ := follows.frozen base entry stored original
      (.inl ⟨TypeKind.isBuilt_of_isObject isObject, done⟩)
    cases found.symm.trans there
    exact done
  | some generic =>
    rw [original] at done
    obtain ⟨definition, known, complete⟩ := done
    obtain ⟨given, mirrored⟩ := inherits.mirrored
    obtain ⟨same, again, plain, kind, _⟩ := mirrored.definition base entry generic stored original
    cases known.symm.trans again
    obtain ⟨waiting, there⟩ := follows.frozen generic definition known plain
      (.inl ⟨TypeKind.isBuilt_of_isObject (kind ▸ isObject), complete⟩)
    exact ⟨_, there, complete⟩

theorem isSettled (settled : first.Settled id) : second.Settled id := by
  obtain ⟨symbol, stored, done⟩ := settled
  obtain ⟨later, found, _, stays⟩ := follows.symbols id symbol stored
  exact ⟨later, found, stays done⟩

end Follows

/-- A state is consistent, and follows an earlier one. -/
def Evolves (active : List SymbolId) (store after : Store) : Prop :=
  after.Consistent active ∧ store.Follows active after

namespace Consistent

variable {active : List SymbolId} {store after : Store}

/-- Steps on the tree, the names and the books about cycles and the entry point keep everything. -/
theorem elsewhere (consistent : store.Consistent active) (types : after.types = store.types)
    (symbols : after.symbols = store.symbols) (scopes : after.scopes = store.scopes) :
    store.Evolves active after := by
  obtain ⟨⟨tree, names⟩, symbolsAfter, typesAfter, scopesAfter, cyclic, entryPoint⟩ := after
  dsimp only at types symbols scopes
  subst types symbols scopes
  exact ⟨{ consistent with }, { Follows.refl active store with }⟩

theorem declares_unique (consistent : store.Consistent active) {id : SymbolId} {type other : TypeId}
    {entry same : TypeEntry} (one : store.Declares id type entry)
    (two : store.Declares id other same) :
    type = other ∧ entry = same := by
  have here := consistent.inherits.unique type other entry same id one.1 two.1 one.2.1 two.2.1
    one.2.2 two.2.2
  subst here
  exact ⟨rfl, Option.some.inj (one.1.symm.trans two.1)⟩

/-- Definitions are set up further, and everything else stays; only those of active symbols become
complete. -/
theorem develop {types : Types} {touched : TypeId → Prop} (consistent : store.Consistent active)
    (inherits : types.Inherits) (steady : store.types.Steady touched types)
    (changed : ∀ type entry, touched type → store.types.entries.get? type = some entry →
      entry.generic = none →
      ∃ later, types.entries.get? type = some later ∧ later.symbol = entry.symbol ∧
        ∀ id, entry.symbol = some id → entry.kind.isBuilt = true → id ∈ active ∨
        later.complete = entry.complete) :
    ({ store with types } : Store).Consistent active := by
  have forth : ∀ id type entry, store.Declares id type entry → ∃ later,
      ({ store with types } : Store).Declares id type later ∧ later.kind = entry.kind ∧
        (entry.kind.isBuilt = true → id ∉ active → later.complete = entry.complete) := by
    rintro id type entry ⟨stored, plain, declares⟩
    by_cases isTouched : touched type
    · obtain ⟨later, found, symbol, isActive⟩ := changed type entry isTouched stored plain
      obtain ⟨same, again, kept⟩ := steady.kept type entry stored
      cases found.symm.trans again
      exact ⟨later, ⟨found, kept.generic.trans plain, symbol.trans declares⟩, kept.kind,
        fun isBuilt idle => (isActive id declares isBuilt).resolve_left idle⟩
    · obtain ⟨waiting, found⟩ := steady.definitions type entry isTouched stored plain
      exact ⟨_, ⟨found, plain, declares⟩, rfl, fun _ _ => rfl⟩
  have back : ∀ id type later, ({ store with types } : Store).Declares id type later →
      ∃ entry, store.Declares id type entry := by
    rintro id type later ⟨found, plain, declares⟩
    cases stored : store.types.entries.get? type with
    | none =>
      rw [(steady.functions type later stored found plain).1] at declares
      cases declares
    | some entry =>
      obtain ⟨same, again, kept⟩ := steady.kept type entry stored
      change types.entries.get? type = some later at found
      cases found.symm.trans again
      have wasPlain : entry.generic = none := kept.generic.symm.trans plain
      refine ⟨entry, stored, wasPlain, ?_⟩
      by_cases isTouched : touched type
      · obtain ⟨same, again, symbol, _⟩ := changed type entry isTouched stored wasPlain
        cases found.symm.trans again
        exact symbol.symm.trans declares
      · obtain ⟨waiting, again⟩ := steady.definitions type entry isTouched stored wasPlain
        cases found.symm.trans again
        exact declares
  refine ⟨inherits, ?_, ?_, ?_, ?_, consistent.around, consistent.started, consistent.begun⟩
  · intro id type later declares
    obtain ⟨entry, earlier⟩ := back id type later declares
    obtain ⟨same, again, kind, _⟩ := forth id type entry earlier
    obtain rfl : same = later := Option.some.inj (again.1.symm.trans declares.1)
    rw [kind]
    exact consistent.named id type entry earlier
  · intro id symbol known progress isBuilt
    obtain ⟨type, entry, typed, declares, incomplete⟩ :=
      consistent.untouched id symbol known progress isBuilt
    obtain ⟨later, found, _, same⟩ := forth id type entry declares
    obtain ⟨_, again, sort⟩ := consistent.named id type entry declares
    change store.symbols.get? id = some symbol at known
    cases known.symm.trans again
    have isBuiltType : entry.kind.isBuilt =
      true := by rw [SymbolKind.isBuilt_of_typeKind? sort, isBuilt]
    refine ⟨type, later, typed, found, (same isBuiltType fun isActive => ?_).trans incomplete⟩
    rw [(consistent.started id symbol known).mpr isActive] at progress
    cases progress
  · intro id symbol type later known progress declares isBuilt
    obtain ⟨entry, earlier⟩ := back id type later declares
    obtain ⟨same, again, kind, complete⟩ := forth id type entry earlier
    obtain rfl : same = later := Option.some.inj (again.1.symm.trans declares.1)
    refine (complete (kind ▸ isBuilt) fun isActive => ?_).trans
      (consistent.settled id symbol type entry known progress earlier (kind ▸ isBuilt))
    rw [(consistent.started id symbol known).mpr isActive] at progress
    cases progress
  · intro id symbol scope known opens
    obtain ⟨opened, found, typed⟩ := consistent.homes id symbol scope known opens
    refine ⟨opened, found, fun type keeps => (typed type keeps).imp_right ?_⟩
    rintro ⟨isBuilt, entry, declares⟩
    obtain ⟨later, there, _⟩ := forth id type entry declares
    exact ⟨isBuilt, later, there⟩

end Consistent

/-- What stays while definitions are set up further. -/
theorem Follows.develop {store : Store} {types : Types} {touched : TypeId → Prop}
    {active : List SymbolId}
    (steady : store.types.Steady touched types)
    (loose : ∀ type entry, touched type → store.types.entries.get? type = some entry →
      entry.generic = none →
      ((entry.kind.isBuilt = true → entry.complete = false) ∧
        ∀ id ∈ active, entry.symbol ≠ some id) ∧
        ∃ later, types.entries.get? type = some later ∧ later.symbol = entry.symbol) :
    store.Follows active { store with types } where
  types := steady.kept
  declares id type entry := by
    rintro ⟨stored, plain, declares⟩
    by_cases isTouched : touched type
    · obtain ⟨_, later, found, symbol⟩ := loose type entry isTouched stored plain
      obtain ⟨same, again, kept⟩ := steady.kept type entry stored
      cases found.symm.trans again
      exact ⟨later, found, kept.generic.trans plain, symbol.trans declares⟩
    · obtain ⟨waiting, found⟩ := steady.definitions type entry isTouched stored plain
      exact ⟨_, found, plain, declares⟩
  frozen type entry stored plain fixed := by
    refine steady.definitions type entry (fun isTouched => ?_) stored plain
    obtain ⟨⟨incomplete, idle⟩, _⟩ := loose type entry isTouched stored plain
    rcases fixed with ⟨isBuilt, complete⟩ | ⟨id, isActive, declares⟩
    · rw [incomplete isBuilt] at complete
      cases complete
    · exact idle id isActive declares
  symbols _ symbol stored := ⟨symbol, stored, .refl _, id⟩
  unbuilt id symbol missing stored := by
    cases missing.symm.trans stored
  scopes _ opened stored := ⟨opened, stored, rfl⟩

namespace Consistent

variable {active : List SymbolId} {store : Store}

/-- Instances, functions and members join. -/
theorem steady {types : Types} (consistent : store.Consistent active)
    (mirrored : ∃ given, types.Mirrored (fun _ => False) given)
    (steady : store.types.Steady (fun _ => False) types) :
    ({ store with types } : Store).Consistent active ∧ store.Follows active { store with types } :=
  ⟨consistent.develop (consistent.inherits.steady mirrored steady) steady fun _ _ isTouched =>
    isTouched.elim,
    .develop steady fun _ _ isTouched => isTouched.elim⟩

theorem push_member (consistent : store.Consistent active) (member : Member) :
    ({ store with types := { store.types with members := store.types.members.push member } } :
      Store).Consistent active ∧
      store.Follows active
      { store with types := { store.types with members := store.types.members.push member } } := by
  obtain ⟨given, mirrored⟩ := consistent.inherits.mirrored
  exact consistent.steady ⟨_, mirrored.push_member member⟩ (.of_members store.types _)

end Consistent

end Store

/-- How one symbol may change: its progress stays, its sort follows the rules, the type of an
untouched class or enum stays, and a new scope keeps its names itself. -/
structure Symbol.Develops (store : Store) (before after : Symbol) : Prop where
  progress : after.progress = before.progress
  kind : before.kind.Becomes after.kind
  type : before.progress = .untouched → before.kind.isBuilt = true → after.type = before.type
  ownScope : after.ownScope = before.ownScope ∨ ∃ scope, after.ownScope = some scope ∧
    store.Plain scope

theorem Symbol.Develops.refl (store : Store) (symbol : Symbol) : symbol.Develops store symbol :=
  ⟨rfl, .refl _, fun _ _ => rfl, .inl rfl⟩

/-- How one symbol may change when other symbols become active: what is settled by the change has a
complete type, and a new scope keeps its names itself or in the type of the symbol. -/
structure Symbol.Moves (before : Symbol) (store : Store) (active : List SymbolId) (id : SymbolId)
    (after : Symbol) : Prop where
  kind : before.kind.Becomes after.kind
  untouched : after.progress = .untouched → before.progress = .untouched
  type : after.progress = .untouched → before.kind.isBuilt = true → after.type = before.type
  settled : after.progress = .settled → before.progress = .settled ∨
    ∀ type entry, store.Declares id type entry → entry.kind.isBuilt = true → entry.complete = true
  stays : before.progress = .settled → after.progress = .settled
  started : after.progress = .active ↔ id ∈ active
  ownScope : after.ownScope = before.ownScope ∨ ∃ scope opened, after.ownScope = some scope ∧
    store.scopes.get? scope = some opened ∧ ∀ type, opened.type = some type →
      after.kind = .space ∨ after.kind.isBuilt = true ∧ ∃ entry, store.Declares id type entry

theorem Symbol.Moves.refl {active : List SymbolId} {id : SymbolId} (store : Store) (symbol : Symbol)
    (started : symbol.progress = .active ↔ id ∈ active) : symbol.Moves store active id symbol :=
  ⟨.refl _, fun early => early, fun _ _ => rfl, .inl, fun done => done, started, .inl rfl⟩

namespace Store
namespace Consistent

variable {active : List SymbolId} {store : Store} {symbol : Symbol} {id : SymbolId}
  {symbols : Symbols} {others : List SymbolId} {change : Symbol → Symbol}

variable (consistent : store.Consistent active)

include consistent

theorem moveSymbols {fewer : List SymbolId}
    (begun : ∀ id ∈ others, ∃ symbol, store.symbols.get? id = some symbol)
    (older : ∀ id symbol, store.symbols.get? id = some symbol →
      ∃ later, symbols.get? id = some later ∧ symbol.Moves store others id later)
    (newer : ∀ id symbol, store.symbols.get? id = none → symbols.get? id = some symbol →
      symbol.progress = .untouched ∧ symbol.kind.typeKind? = none ∧ symbol.ownScope = none) :
    ({ store with symbols } : Store).Consistent others ∧
    store.Follows fewer { store with symbols } := by
  have unbuilt : ∀ kind : SymbolKind, kind.typeKind? = none → kind.isBuilt = true → False := by
    intro kind none isBuilt
    obtain ⟨sort, declares⟩ := SymbolKind.typeKind?_of_isBuilt isBuilt
    cases none.symm.trans declares
  have back : ∀ id later, symbols.get? id = some later →
      (∃ symbol, store.symbols.get? id = some symbol ∧ symbol.Moves store others id later) ∨
      (later.progress = .untouched ∧ later.kind.typeKind? = none ∧ later.ownScope = none) := by
    intro id later found
    cases stored : store.symbols.get? id with
    | none => exact .inr (newer id later stored found)
    | some symbol =>
      obtain ⟨same, again, moves⟩ := older id symbol stored
      cases found.symm.trans again
      exact .inl ⟨symbol, rfl, moves⟩
  refine ⟨⟨consistent.inherits, ?_, ?_, ?_, ?_, consistent.around, ?_, ?_⟩,
    { Follows.refl fewer store with symbols := ?_, unbuilt := ?_ }⟩
  · intro id type entry declares
    obtain ⟨symbol, stored, kind⟩ := consistent.named id type entry declares
    obtain ⟨later, found, moves⟩ := older id symbol stored
    refine ⟨later, found, ?_⟩
    rcases moves.kind with same | ⟨none, _⟩
    · rw [same, kind]
    · cases none.symm.trans kind
  · intro id later found progress isBuilt
    rcases back id later found with ⟨symbol, stored, moves⟩ | ⟨_, none, _⟩
    · have same := moves.kind.eq_of_isBuilt (.inl isBuilt)
      obtain ⟨type, entry, typed, declares⟩ :=
        consistent.untouched id symbol stored (moves.untouched progress) (same ▸ isBuilt)
      exact ⟨type, entry, (moves.type progress (same ▸ isBuilt)).trans typed, declares⟩
    · exact (unbuilt _ none isBuilt).elim
  · intro id later type entry found progress declares isBuilt
    rcases back id later found with ⟨symbol, stored, moves⟩ | ⟨untouched, _⟩
    · rcases moves.settled progress with before | complete
      · exact consistent.settled id symbol type entry stored before declares isBuilt
      · exact complete type entry declares isBuilt
    · cases untouched.symm.trans progress
  · intro id later scope found opens
    rcases back id later found with ⟨symbol, stored, moves⟩ | ⟨_, _, none⟩
    · rcases moves.ownScope with same | ⟨other, opened, fresh, there, typed⟩
      · obtain ⟨opened, there, typed⟩ := consistent.homes id symbol scope stored
          (same.symm.trans opens)
        refine ⟨opened, there, fun type keeps => ?_⟩
        rcases moves.kind with unchanged | ⟨none, _⟩
        · rw [unchanged]
          exact typed type keeps
        · rcases typed type keeps with isSpace | ⟨isBuilt, _⟩
          · rw [isSpace] at none
            cases none
          · exact (unbuilt _ none isBuilt).elim
      · cases fresh.symm.trans opens
        exact ⟨opened, there, typed⟩
    · cases none.symm.trans opens
  · intro id later found
    rcases back id later found with ⟨symbol, stored, moves⟩ | ⟨untouched, _⟩
    · exact moves.started
    · rw [untouched]
      refine ⟨nofun, fun isActive => ?_⟩
      obtain ⟨symbol, stored⟩ := begun id isActive
      obtain ⟨same, again, moves⟩ := older id symbol stored
      change symbols.get? id = some later at found
      cases found.symm.trans again
      rw [← moves.started.mpr isActive, untouched]
  · intro id isActive
    obtain ⟨symbol, stored⟩ := begun id isActive
    obtain ⟨later, found, _⟩ := older id symbol stored
    exact ⟨later, found⟩
  · intro id symbol stored
    obtain ⟨later, found, moves⟩ := older id symbol stored
    exact ⟨later, found, moves.kind, moves.stays⟩
  · intro id later missing found
    exact Bool.eq_false_iff.mpr (unbuilt _ (newer id later missing found).2.1)

theorem onSymbols (older : ∀ id symbol, store.symbols.get? id = some symbol →
      ∃ later, symbols.get? id = some later ∧ symbol.Develops store later)
    (newer : ∀ id symbol, store.symbols.get? id = none → symbols.get? id = some symbol →
      symbol.progress = .untouched ∧ symbol.kind.typeKind? = none ∧ symbol.ownScope = none) :
    ({ store with symbols } : Store).Consistent active ∧
    store.Follows active { store with symbols } := by
  refine consistent.moveSymbols consistent.begun (fun id symbol stored => ?_) newer
  obtain ⟨later, found, progress, kind, type, ownScope⟩ := older id symbol stored
  refine ⟨later, found, kind, progress.symm.trans, fun early => type (progress.symm.trans early),
    fun done => .inl (progress.symm.trans done), progress.trans, ?_, ownScope.imp_right ?_⟩
  · rw [progress]
    exact consistent.started id symbol stored
  · rintro ⟨scope, fresh, opened, there, untyped⟩
    refine ⟨scope, opened, fresh, there, fun type keeps => ?_⟩
    cases untyped.symm.trans keeps

section

variable (stored : store.symbols.get? id = some symbol)

include stored

theorem moveSymbol (moves : symbol.Moves store others id (change symbol))
    (listed : ∀ other, other ≠ id → (other ∈ others ↔ other ∈ active)) (fewer : List SymbolId) :
    ({ store with symbols := store.symbols.modify id change } : Store).Consistent others ∧
      store.Follows fewer { store with symbols := store.symbols.modify id change } := by
  refine consistent.moveSymbols (fun other isListed => ?_) (fun other old kept =>
    ?_) fun other later missing found => ?_
  · by_cases same : other = id
    · exact ⟨symbol, same ▸ stored⟩
    · exact consistent.begun other ((listed other same).mp isListed)
  · rw [Table.get?_modify_of_stored stored]
    split
    · rename_i same
      subst same
      cases stored.symm.trans kept
      exact ⟨_, rfl, moves⟩
    · rename_i different
      exact ⟨old, kept, .refl store old
        ((consistent.started other old kept).trans (listed other different).symm)⟩
  · obtain ⟨old, kept, _⟩ := Table.get?_modify_cases found
    cases missing.symm.trans kept

omit stored in
/-- A new symbol declares no type yet. -/
theorem push_symbol (progress : symbol.progress = .untouched)
    (kind : symbol.kind.typeKind? = none) (ownScope : symbol.ownScope = none) :
    ({ store with symbols := store.symbols.push symbol } : Store).Consistent active ∧
      store.Follows active { store with symbols := store.symbols.push symbol } := by
  refine consistent.onSymbols ?_ ?_
  · intro id known stored
    exact ⟨known, Table.get?_push_of_stored symbol stored, .refl store known⟩
  · intro id known missing found
    obtain ⟨_, rfl⟩ | ⟨_, stored⟩ := Table.get?_push_cases found
    · exact ⟨progress, kind, ownScope⟩
    · cases missing.symm.trans stored

omit stored in
theorem update_symbol {change : Symbol → Symbol}
    (develops : ∀ symbol, store.symbols.get? id = some symbol →
      symbol.Develops store (change symbol)) :
    ({ store with symbols := store.symbols.modify id change } : Store).Consistent active ∧
      store.Follows active { store with symbols := store.symbols.modify id change } := by
  refine consistent.onSymbols ?_ ?_
  · intro other symbol stored
    rw [Table.get?_modify]
    split
    · rename_i same
      subst same
      exact ⟨change symbol, by rw [stored]; rfl, develops symbol stored⟩
    · exact ⟨symbol, stored, .refl store symbol⟩
  · intro other symbol missing found
    obtain ⟨before, stored, _⟩ := Table.get?_modify_cases found
    cases missing.symm.trans stored

theorem undeclared (untyped : symbol.kind.typeKind? = none) (type : TypeId)
    (entry : TypeEntry) : ¬store.Declares id type entry := by
  intro declares
  obtain ⟨same, again, sort⟩ := consistent.named id type entry declares
  cases stored.symm.trans again
  cases untyped.symm.trans sort

theorem declare {types : Types} {later : Symbol} {type : TypeId}
    {made : TypeEntry}
    (isNew : symbol.kind = .placeholder) (untouched : symbol.progress = .untouched)
    (found : symbols.get? id = some later) (progress : later.progress = .untouched)
    (ownScope : later.ownScope = symbol.ownScope) (typed : later.type = some type)
    (sort : later.kind.typeKind? = some made.kind)
    (apart : ∀ other, other ≠ id → symbols.get? other = store.symbols.get? other)
    (inherits : types.Inherits)
    (there : types.entries.get? type = some made) (plain : made.generic = none)
    (declares : made.symbol = some id)
    (incomplete : made.kind.isBuilt = true → made.complete = false)
    (blank : ∀ entry, store.types.entries.get? type = some entry → entry.symbol = none)
    (elsewhere : ∀ other, other ≠ type →
      types.entries.get? other = store.types.entries.get? other) :
    ({ store with symbols, types } : Store).Consistent active := by
  have new : ({ store with symbols, types } : Store).Declares id type made :=
    ⟨there, plain, declares⟩
  have forth : ∀ other known entry, store.Declares other known entry →
      ({ store with symbols, types } : Store).Declares other known entry := by
    rintro other known entry ⟨before, original, declared⟩
    refine ⟨(elsewhere known ?_).trans before, original, declared⟩
    rintro rfl
    rw [blank entry before] at declared
    cases declared
  have back : ∀ other known entry, ({ store with symbols, types } : Store).Declares other known
    entry →
      other = id ∧ known = type ∧ entry = made ∨ other ≠ id ∧ store.Declares other known entry := by
    rintro other known entry ⟨after, original, declared⟩
    change types.entries.get? known = some entry at after
    by_cases same : known = type
    · subst same
      cases there.symm.trans after
      cases declares.symm.trans declared
      exact .inl ⟨rfl, rfl, rfl⟩
    · rw [elsewhere known same] at after
      have before : store.Declares other known entry := ⟨after, original, declared⟩
      refine .inr ⟨?_, before⟩
      rintro rfl
      exact consistent.undeclared stored (by rw [isNew]; rfl) known entry before
  have idle : id ∉ active := by
    intro isActive
    rw [(consistent.started id symbol stored).mpr isActive] at untouched
    cases untouched
  refine ⟨inherits, ?_, ?_, ?_, ?_, consistent.around, ?_, ?_⟩
  · intro other known entry declared
    rcases back other known entry declared with ⟨rfl, rfl, rfl⟩ | ⟨different, before⟩
    · exact ⟨later, found, sort⟩
    · obtain ⟨old, kept, sorted⟩ := consistent.named other known entry before
      exact ⟨old, (apart other different).trans kept, sorted⟩
  · intro other old kept waits isBuilt
    by_cases same : other = id
    · subst same
      change symbols.get? other = some old at kept
      cases found.symm.trans kept
      exact ⟨type, made, typed, new,
        incomplete (by rw [SymbolKind.isBuilt_of_typeKind? sort, isBuilt])⟩
    · obtain ⟨known, entry, oldTyped, before, open_⟩ :=
        consistent.untouched other old ((apart other same).symm.trans kept) waits isBuilt
      exact ⟨known, entry, oldTyped, forth other known entry before, open_⟩
  · intro other old known entry kept done declared isBuilt
    rcases back other known entry declared with ⟨rfl, rfl, rfl⟩ | ⟨different, before⟩
    · change symbols.get? other = some old at kept
      cases found.symm.trans kept
      cases progress.symm.trans done
    · exact consistent.settled other old known entry ((apart other different).symm.trans kept) done
        before isBuilt
  · intro other old scope kept opens
    by_cases same : other = id
    · subst same
      change symbols.get? other = some old at kept
      cases found.symm.trans kept
      obtain ⟨opened, reached, typedBy⟩ := consistent.homes other symbol scope stored
        (ownScope.symm.trans opens)
      refine ⟨opened, reached, fun known keeps => ?_⟩
      rcases typedBy known keeps with isSpace | ⟨isBuilt, _⟩
      · cases isNew.symm.trans isSpace
      · rw [isNew] at isBuilt
        cases isBuilt
    · obtain ⟨opened, reached, typedBy⟩ :=
        consistent.homes other old scope ((apart other same).symm.trans kept) opens
      refine ⟨opened, reached, fun known keeps => (typedBy known keeps).imp_right ?_⟩
      rintro ⟨isBuilt, entry, before⟩
      exact ⟨isBuilt, entry, forth other known entry before⟩
  · intro other old kept
    by_cases same : other = id
    · subst same
      change symbols.get? other = some old at kept
      cases found.symm.trans kept
      rw [progress]
      exact ⟨nofun, fun isActive => (idle isActive).elim⟩
    · exact consistent.started other old ((apart other same).symm.trans kept)
  · intro other isActive
    obtain ⟨old, kept⟩ := consistent.begun other isActive
    exact ⟨old, (apart other fun same => idle (same ▸ isActive)).trans kept⟩

omit stored in
theorem advance (progress : Progress) (stored : store.symbols.get? id = some symbol)
    (begins : progress ≠ .untouched) (stays : symbol.progress = .settled → progress = .settled)
    (listed : ∀ other, other ∈ others ↔ if other = id then progress = .active else other ∈ active)
    (complete : progress = .settled → ∀ type entry, store.Declares id type entry →
      entry.kind.isBuilt = true →
      entry.complete = true) (fewer : List SymbolId) :
    ({ store with symbols := store.symbols.modify id fun symbol => { symbol with progress } } :
      Store).Consistent others ∧
      store.Follows fewer
      { store with symbols := store.symbols.modify id fun symbol => { symbol with progress } } := by
  refine consistent.moveSymbol stored ⟨.refl _, fun early => absurd early begins, fun early =>
    absurd early begins,
    fun done => .inr (complete done), stays, ?_, .inl rfl⟩ (fun other different => ?_) fewer
  · rw [listed, if_pos rfl]
  · rw [listed, if_neg different]

theorem start (untouched : symbol.progress = .untouched) :
    ({ store with
       symbols := store.symbols.modify id fun symbol =>
         { symbol with progress := .active } } : Store).Consistent
        (id :: active) ∧
      store.Follows active
        { store with
          symbols := store.symbols.modify id fun symbol =>
            { symbol with progress := .active } } := by
  refine consistent.advance .active stored nofun (fun done => ?_) (fun other => ?_) nofun active
  · cases untouched.symm.trans done
  · rw [List.mem_cons]
    split <;> simp [*]

end

omit consistent in
theorem finish (consistent : store.Consistent (id :: active)) (idle : id ∉ active)
    (complete : ∀ type entry, store.Declares id type entry → entry.kind.isBuilt = true →
      entry.complete = true) :
    ({ store with
       symbols := store.symbols.modify id fun symbol =>
         { symbol with progress := .settled } } : Store).Consistent
        active ∧
      store.Follows active
        { store with
          symbols := store.symbols.modify id fun symbol =>
            { symbol with progress := .settled } } := by
  obtain ⟨symbol, stored⟩ := consistent.begun id List.mem_cons_self
  refine consistent.advance .settled stored nofun (fun _ => rfl) (fun other => ?_)
    (fun _ => complete) active
  split
  · rename_i same
    simp [same, idle]
  · rename_i different
    simp [different]

/-- Scopes open, and names of their own join. -/
theorem onScopes {scopes : Scopes}
    (older : ∀ scope opened, store.scopes.get? scope = some opened →
      ∃ later, scopes.get? scope = some later ∧ later.type = opened.type) :
    ({ store with scopes } : Store).Consistent active ∧
    store.Follows active { store with scopes } := by
  refine ⟨{ consistent with homes := ?_, around := ?_ },
    { Follows.refl active store with scopes := older }⟩
  · intro id symbol scope stored opens
    obtain ⟨opened, found, typed⟩ := consistent.homes id symbol scope stored opens
    obtain ⟨later, there, same⟩ := older scope opened found
    exact ⟨later, there, fun type keeps => typed type (same.symm.trans keeps)⟩
  · obtain ⟨opened, found, untyped⟩ := consistent.around
    obtain ⟨later, there, same⟩ := older _ opened found
    exact ⟨later, there, same.trans untyped⟩

end Consistent

end Store
end Resolution
