import Resolution.Proofs.Returning
import Resolution.Type.Instance

/-!
# Shared types

Function types and instances of generic definitions are shared: each is stored once and found again
by what makes it the same type.  `HashConsed` says that the intern table and the stored types
describe each other, and `Extends` says what no operation ever changes about a stored type.
-/

namespace Resolution

/-- What operations keep about a stored type: its sort, type arguments and definition, the signature
of a function, and the symbol wherever it takes part in the identity of the type. -/
structure TypeEntry.Keeps (before after : TypeEntry) : Prop where
  kind : after.kind = before.kind
  arguments : after.arguments = before.arguments
  generic : after.generic = before.generic
  related : before.kind = .function → after.related = before.related
  symbol : before.kind = .function ∨ before.arguments.isSome → after.symbol = before.symbol

namespace TypeEntry.Keeps

theorem refl (entry : TypeEntry) : entry.Keeps entry :=
  ⟨rfl, rfl, rfl, fun _ => rfl, fun _ => rfl⟩

theorem trans {first second third : TypeEntry} (earlier : first.Keeps second)
    (later : second.Keeps third) : first.Keeps third where
  kind := later.kind.trans earlier.kind
  arguments := later.arguments.trans earlier.arguments
  generic := later.generic.trans earlier.generic
  related isFunction := by
    rw [later.related (by rw [earlier.kind, isFunction]), earlier.related isFunction]
  symbol identified := by
    rw [later.symbol (by rw [earlier.kind, earlier.arguments]; exact identified),
      earlier.symbol identified]

end TypeEntry.Keeps

namespace Types

variable {type : TypeId}
  {types third : Types} {entry firstEntry secondEntry : TypeEntry} {change : TypeEntry → TypeEntry}
  {symbol : SymbolId}

/-- Every stored type is still stored, with all that operations keep about it. -/
def Extends (before after : Types) : Prop :=
  ∀ type entry, before.entries.get? type = some entry →
    ∃ later, after.entries.get? type = some later ∧ entry.Keeps later

theorem Extends.refl (types : Types) : types.Extends types :=
  fun _ entry stored => ⟨entry, stored, .refl entry⟩

theorem Extends.trans {first second : Types} (earlier : first.Extends second)
    (later : second.Extends third) : first.Extends third :=
  Table.later_trans earlier later fun _ _ _ => .trans

theorem get?_members_new {id : MemberId} : Types.new.members.get? id = none :=
  Table.get?_empty _

/-- The intern table and the stored types describe each other. -/
structure HashConsed (types : Types) : Prop where
  findsFunction : ∀ type entry, types.entries.get? type = some entry → entry.kind = .function →
    types.interned? (.function entry.related) = some type
  findsInstance : ∀ type entry arguments, types.entries.get? type = some entry →
    entry.arguments = some arguments →
    ∃ symbol, entry.symbol = some symbol ∧ types.interned? (.applied symbol arguments) = some type
  foundFunction : ∀ signature type, types.interned? (.function signature) = some type →
    ∃ entry, types.entries.get? type = some entry ∧ entry.kind = .function ∧
      entry.related = signature
  foundInstance : ∀ symbol arguments type, types.interned? (.applied symbol arguments) = some type →
    ∃ entry, types.entries.get? type = some entry ∧ entry.symbol = some symbol ∧
      entry.arguments = some arguments
  anonymous : ∀ type entry, types.entries.get? type = some entry → entry.kind = .function →
    entry.symbol = none ∧ entry.arguments = none ∧ entry.generic = none
  /-- Built-in types are there and are neither functions nor instances. -/
  builtin : ∀ position, position < 10 →
    ∃ entry, types.entries.get? ⟨position⟩ = some entry ∧ entry.kind ≠ .function ∧
      entry.arguments = none

/-- From a hash-consed state to one that extends it. -/
def Advances (before after : Types) : Prop := after.HashConsed ∧ before.Extends after

variable (consed : types.HashConsed)

include consed

theorem Advances.refl : types.Advances types :=
  ⟨consed, .refl types⟩

omit consed in
theorem Advances.trans {first second : Types} (earlier : first.Advances second)
    (later : second.Advances third) : first.Advances third :=
  ⟨later.1, earlier.2.trans later.2⟩

omit consed in
/-- Of a built-in type nothing is known at first but its sort. -/
theorem blank_new (stored : Types.new.entries.get? type = some entry) :
    type.index < 10 ∧ entry.kind ≠ .function ∧ ∃ kind complete, entry = { kind, complete } := by
  obtain ⟨position⟩ := type
  match position, stored with
  | 0, stored | 1, stored | 2, stored | 3, stored | 4, stored | 5, stored | 6, stored | 7,
    stored | 8, stored
  | 9, stored =>
    cases stored
    exact ⟨by decide, by decide, _, _, rfl⟩

omit consed in
theorem new_hashConsed : Types.new.HashConsed := by
  constructor
  · intro type entry found isFunction
    exact absurd isFunction (blank_new found).2.1
  · intro type entry arguments found applied
    obtain ⟨_, _, _, _, rfl⟩ := blank_new found
    cases applied
  · intro signature type found
    cases found
  · intro symbol arguments type found
    cases found
  · intro type entry found isFunction
    exact absurd isFunction (blank_new found).2.1
  · intro position bound
    obtain ⟨entry, found⟩ : ∃ entry, Types.new.entries.get? ⟨position⟩ = some entry :=
      Table.exists_get?_of_lt bound
    obtain ⟨_, noFunction, _, _, rfl⟩ := blank_new found
    exact ⟨_, found, noFunction, rfl⟩

/-! ## Changing a type -/

omit consed in
theorem extends_modify {change : TypeEntry → TypeEntry}
    (keeps : ∀ entry, types.entries.get? type = some entry → entry.Keeps (change entry)) :
    types.Extends { types with entries := types.entries.modify type change } :=
  fun _ _ => Table.later_of_modify .refl keeps

omit consed in
theorem extends_of_lookup {after : Types} {changed : TypeEntry}
    (stored : types.entries.get? type = some entry)
    (lookup : ∀ other, after.entries.get? other = if other =
      type then some changed else types.entries.get? other)
    (keeps : entry.Keeps changed) : types.Extends after := by
  intro other before found
  by_cases here : other = type
  · subst here
    cases stored.symm.trans found
    exact ⟨changed, by rw [lookup, if_pos rfl], keeps⟩
  · exact ⟨before, by rw [lookup, if_neg here, found], .refl before⟩

/-- A state with the same types, up to what no operation keeps, and the same intern table is
hash-consed too. -/
theorem HashConsed.of_keeps {later : Types} (interned : later.interned = types.interned)
    (origin : ∀ other after, later.entries.get? other = some after →
      ∃ before, types.entries.get? other = some before ∧ before.Keeps after)
    (extended : types.Extends later) : later.HashConsed := by
  have found (key : TypeKey) : later.interned? key = types.interned? key := by
    rw [interned?, interned?, interned]
  constructor
  · intro other after stored isFunction
    obtain ⟨before, known, kept⟩ := origin other after stored
    have wasFunction : before.kind = .function := kept.kind ▸ isFunction
    rw [kept.related wasFunction, found]
    exact consed.findsFunction other before known wasFunction
  · intro other after arguments stored applied
    obtain ⟨before, known, kept⟩ := origin other after stored
    rw [kept.arguments] at applied
    obtain ⟨symbol, declared, remembered⟩ :=
      consed.findsInstance other before arguments known applied
    exact ⟨symbol,
      by rw [kept.symbol (.inr (by simp [applied])), declared], by rw [found, remembered]⟩
  · intro signature other remembered
    rw [found] at remembered
    obtain ⟨before, known, isFunction, related⟩ := consed.foundFunction signature other remembered
    obtain ⟨after, stored, kept⟩ := extended other before known
    exact ⟨after, stored, by rw [kept.kind, isFunction], by rw [kept.related isFunction, related]⟩
  · intro symbol arguments other remembered
    rw [found] at remembered
    obtain ⟨before, known, declared, applied⟩ :=
      consed.foundInstance symbol arguments other remembered
    obtain ⟨after, stored, kept⟩ := extended other before known
    exact ⟨after, stored, by rw [kept.symbol (.inr (by simp [applied])), declared],
      by rw [kept.arguments, applied]⟩
  · intro other after stored isFunction
    obtain ⟨before, known, kept⟩ := origin other after stored
    have wasFunction : before.kind = .function := kept.kind ▸ isFunction
    obtain ⟨nameless, plain, original⟩ := consed.anonymous other before known wasFunction
    exact ⟨by rw [kept.symbol (.inl wasFunction), nameless], by rw [kept.arguments, plain],
      by rw [kept.generic, original]⟩
  · intro position bound
    obtain ⟨before, known, noFunction, plain⟩ := consed.builtin position bound
    obtain ⟨after, stored, kept⟩ := extended _ before known
    exact ⟨after, stored, by rw [kept.kind]; exact noFunction, by rw [kept.arguments, plain]⟩

theorem HashConsed.modify (keeps : ∀ entry, types.entries.get? type = some entry →
    entry.Keeps (change entry)) :
    HashConsed { types with entries := types.entries.modify type change } :=
  consed.of_keeps rfl (fun _ _ => Table.origin_of_modify .refl keeps) (extends_modify keeps)

/-! ## Storing a type -/

omit consed in
theorem extends_push (types : Types) (entry : TypeEntry) (interned : List (TypeKey × TypeId)) :
    types.Extends { types with entries := types.entries.push entry, interned } :=
  fun _ before stored => ⟨before, Table.get?_push_of_stored entry stored, .refl before⟩

omit consed in
/-- Looking a key up after another one was remembered. -/
theorem interned?_cons (types : Types) (entries : Table TypeId TypeEntry) (key other : TypeKey)
    (type : TypeId) :
    Types.interned? { types with entries, interned := (key, type) :: types.interned } other =
      if other = key then some type else types.interned? other := by
  by_cases same : other = key
  · simp [interned?, same]
  · have differs : (other == key) = false := by simpa using same
    simp [interned?, List.lookup_cons, same, differs]

theorem HashConsed.builtin_push (entry : TypeEntry) (position : Nat) (bound : position < 10) :
    ∃ before, (types.entries.push entry).get? ⟨position⟩ = some before ∧ before.kind ≠ .function ∧
    before.arguments = none := by
  obtain ⟨before, stored, rest⟩ := consed.builtin position bound
  exact ⟨before, Table.get?_push_of_stored entry stored, rest⟩

/-- A named type joins without being remembered. -/
theorem HashConsed.push_named (noFunction : entry.kind ≠ .function)
    (plain : entry.arguments = none) :
    HashConsed { types with entries := types.entries.push entry } := by
  constructor
  · intro type after found isFunction
    obtain ⟨_, rfl⟩ | ⟨_, stored⟩ := Table.get?_push_cases found
    · exact absurd isFunction noFunction
    · exact consed.findsFunction type after stored isFunction
  · intro type after arguments found applied
    obtain ⟨_, rfl⟩ | ⟨_, stored⟩ := Table.get?_push_cases found
    · cases plain.symm.trans applied
    · exact consed.findsInstance type after arguments stored applied
  · intro signature type interned
    obtain ⟨before, stored, rest⟩ := consed.foundFunction signature type interned
    exact ⟨before, Table.get?_push_of_stored entry stored, rest⟩
  · intro symbol arguments type interned
    obtain ⟨before, stored, rest⟩ := consed.foundInstance symbol arguments type interned
    exact ⟨before, Table.get?_push_of_stored entry stored, rest⟩
  · intro type after found isFunction
    obtain ⟨_, rfl⟩ | ⟨_, stored⟩ := Table.get?_push_cases found
    · exact absurd isFunction noFunction
    · exact consed.anonymous type after stored isFunction
  · exact consed.builtin_push entry

/-- A type joins together with a new key, which is the key of just this type. -/
theorem HashConsed.push_keyed {key : TypeKey} (fresh : types.interned? key = none)
    (function : entry.kind = .function →
      key = .function entry.related ∧ entry.symbol = none ∧ entry.arguments = none ∧
      entry.generic = none)
    (applied : ∀ arguments, entry.arguments = some arguments →
      ∃ symbol, entry.symbol = some symbol ∧ key = .applied symbol arguments)
    (ofFunction : ∀ signature, key = .function signature → entry.kind = .function ∧
      entry.related = signature)
    (ofInstance : ∀ symbol arguments, key = .applied symbol arguments →
      entry.symbol = some symbol ∧ entry.arguments = some arguments) : HashConsed
      { types with
        entries := types.entries.push entry,
        interned := (key, types.entries.next) :: types.interned } := by
  have kept {other : TypeKey} {type : TypeId} (interned : types.interned? other = some type) :
      (if other = key then some types.entries.next else types.interned? other) = some type := by
    rw [if_neg, interned]
    rintro rfl
    cases fresh.symm.trans interned
  constructor
  · intro type after found isFunction
    rw [interned?_cons]
    obtain ⟨rfl, rfl⟩ | ⟨_, stored⟩ := Table.get?_push_cases found
    · rw [(function isFunction).1, if_pos rfl]
    · exact kept (consed.findsFunction type after stored isFunction)
  · intro type after arguments found isApplied
    obtain ⟨rfl, rfl⟩ | ⟨_, stored⟩ := Table.get?_push_cases found
    · obtain ⟨symbol, declared, rfl⟩ := applied arguments isApplied
      exact ⟨symbol, declared, by rw [interned?_cons, if_pos rfl]⟩
    · obtain ⟨symbol, declared, interned⟩ :=
        consed.findsInstance type after arguments stored isApplied
      exact ⟨symbol, declared, by rw [interned?_cons]; exact kept interned⟩
  · intro signature type interned
    rw [interned?_cons] at interned
    split at interned
    · rename_i same
      cases interned
      exact ⟨entry, Table.get?_push_next _ _, ofFunction signature same.symm⟩
    · obtain ⟨before, stored, rest⟩ := consed.foundFunction signature type interned
      exact ⟨before, Table.get?_push_of_stored entry stored, rest⟩
  · intro symbol arguments type interned
    rw [interned?_cons] at interned
    split at interned
    · rename_i same
      cases interned
      exact ⟨entry, Table.get?_push_next _ _, ofInstance symbol arguments same.symm⟩
    · obtain ⟨before, stored, rest⟩ := consed.foundInstance symbol arguments type interned
      exact ⟨before, Table.get?_push_of_stored entry stored, rest⟩
  · intro type after found isFunction
    obtain ⟨_, rfl⟩ | ⟨_, stored⟩ := Table.get?_push_cases found
    · exact (function isFunction).2
    · exact consed.anonymous type after stored isFunction
  · exact consed.builtin_push entry

/-- A function type with a new signature joins together with its key. -/
theorem HashConsed.push_function (isFunction : entry.kind = .function)
    (nameless : entry.symbol = none)
    (plain : entry.arguments = none) (original : entry.generic = none)
    (fresh : types.interned? (.function entry.related) = none) : HashConsed
      { types with
        entries := types.entries.push entry
        interned := (.function entry.related, types.entries.next) :: types.interned } := by
  refine consed.push_keyed fresh (fun _ => ⟨rfl, nameless, plain, original⟩) ?_ ?_ nofun
  · intro arguments applied
    cases plain.symm.trans applied
  · rintro _ ⟨⟩
    exact ⟨isFunction, rfl⟩

/-- An instance with new type arguments joins together with its key. -/
theorem HashConsed.push_instance {arguments : List TypeId} (noFunction : entry.kind ≠ .function)
    (declared : entry.symbol = some symbol) (applied : entry.arguments = some arguments)
    (fresh : types.interned? (.applied symbol arguments) = none) : HashConsed
      { types with
        entries := types.entries.push entry
        interned := (.applied symbol arguments, types.entries.next) :: types.interned } := by
  refine consed.push_keyed fresh (fun isFunction => absurd isFunction noFunction) ?_ nofun ?_
  · intro others otherApplied
    cases applied.symm.trans otherApplied
    exact ⟨symbol, declared, rfl⟩
  · rintro _ _ ⟨⟩
    exact ⟨declared, applied⟩

/-! ## Steps of the operations -/

omit consed in
theorem ensures_push {post : TypeId → Types → Prop} : (push entry).Ensures types post ↔
      post types.entries.next { types with entries := types.entries.push entry } :=
  Action.ensures_zoom.trans Table.ensures_create

omit consed in
theorem ensures_remember {key : TypeKey} {post : Unit → Types → Prop} :
    (remember key type).Ensures types post ↔
    post () { types with interned := (key, type) :: types.interned } :=
  Action.ensures_modify

omit consed in
theorem ensures_createMember {member : Member} {post : MemberId → Types → Prop} :
    (createMember member).Ensures types post ↔
      post types.members.next { types with members := types.members.push member } :=
  Action.ensures_zoom.trans Table.ensures_create

/-- Members take no part in the identity of types. -/
theorem HashConsed.members (members : Table MemberId Member) :
    types.Advances { types with members } :=
  ⟨⟨consed.findsFunction, consed.findsInstance, consed.foundFunction, consed.foundInstance,
    consed.anonymous, consed.builtin⟩, fun _ entry stored => ⟨entry, stored, .refl entry⟩⟩

theorem HashConsed.function_unique {first second : TypeId}
    (firstStored : types.entries.get? first = some firstEntry)
    (secondStored : types.entries.get? second = some secondEntry)
    (firstFunction : firstEntry.kind = .function) (secondFunction : secondEntry.kind = .function)
    (same : firstEntry.related = secondEntry.related) : first = second := by
  have firstFound := consed.findsFunction first firstEntry firstStored firstFunction
  have secondFound := consed.findsFunction second secondEntry secondStored secondFunction
  rw [same, secondFound] at firstFound
  exact (Option.some.inj firstFound).symm

theorem HashConsed.instance_unique {first second : TypeId}
    (firstStored : types.entries.get? first = some firstEntry)
    (secondStored : types.entries.get? second = some secondEntry)
    (isInstance : firstEntry.isInstance)
    (sameSymbol : firstEntry.symbol = secondEntry.symbol)
    (sameArguments : firstEntry.arguments = secondEntry.arguments) : first = second := by
  obtain ⟨arguments, applied⟩ := Option.isSome_iff_exists.mp isInstance
  obtain ⟨symbol, declared, firstFound⟩ :=
    consed.findsInstance first firstEntry arguments firstStored applied
  obtain ⟨other, otherDeclared, secondFound⟩ :=
    consed.findsInstance second secondEntry arguments secondStored (sameArguments ▸ applied)
  obtain rfl : symbol = other := by
    rw [sameSymbol, otherDeclared] at declared
    exact (Option.some.inj declared).symm
  rw [firstFound] at secondFound
  exact Option.some.inj secondFound

omit consed in
theorem keeps_of_setRelated {related : List TypeId}
    (noFunction : entry.kind ≠ .function) : entry.Keeps { entry with related } :=
  ⟨rfl, rfl, rfl, fun isFunction => absurd isFunction noFunction, fun _ => rfl⟩

theorem HashConsed.kind_ne_of_generic (stored : types.entries.get? type = some entry)
    {generic : TypeId}
    (original : entry.generic = some generic) : entry.kind ≠ .function := by
  intro isFunction
  rw [(consed.anonymous type entry stored isFunction).2.2] at original
  cases original

/-- A built-in type is neither a function nor an instance, so it may get a symbol. -/
theorem HashConsed.keeps_of_bindBuiltin (builtin : type.index < 10) (symbol : SymbolId)
    (entry : TypeEntry)
    (stored : types.entries.get? type = some entry) :
    entry.Keeps { entry with symbol := some symbol } := by
  refine ⟨rfl, rfl, rfl, fun _ => rfl, fun identified => ?_⟩
  obtain ⟨known, found, noFunction, plain⟩ := consed.builtin type.index builtin
  obtain rfl : known = entry := Option.some.inj (found.symm.trans stored)
  rcases identified with isFunction | isInstance
  · exact absurd isFunction noFunction
  · simp [plain] at isInstance

theorem HashConsed.kind_ne_of_symbol (stored : types.entries.get? type = some entry)
    (declared : entry.symbol = some symbol) : entry.kind ≠ .function := by
  intro isFunction
  rw [(consed.anonymous type entry stored isFunction).1] at declared
  cases declared

end Types
end Resolution
