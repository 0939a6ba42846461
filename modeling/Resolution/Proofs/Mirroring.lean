import Resolution.Proofs.HashConsing

/-!
# Instances mirror their definitions

An instance is filled when its definition is complete: at once, or later out of the queue of the
definition.  Filling substitutes in the bases and copies the members, and it may ask for further
instances while it is under way, also for ones that still wait in the queue that is being emptied.
`Mirrored` describes every such point; the set `unfinished` holds the instances whose filling has
begun and not ended.  In between two calls nothing is unfinished, so both ways of being filled end
the same: an instance of a complete definition mirrors it, and one of an incomplete definition is
blank and waits.
-/

namespace Resolution
namespace Types

variable {type : TypeId} {entry : TypeEntry} {before after : Types}
  {sources : List (String × MemberId)}

/-! ## Substitution as a relation -/

section Replaced

variable {parameters arguments : List TypeId} {types : Types} {before first second : List TypeId}

theorem eq_of_zip {relation : TypeId → TypeId → Prop}
    (length : before.length = first.length) (sameLength : before.length = second.length)
    (determined : ∀ part answer, (part, answer) ∈ before.zip first → ∀ other, relation part other →
      answer = other)
    (related : ∀ part answer, (part, answer) ∈ before.zip second → relation part answer) :
    first = second := by
  induction before generalizing first second with
  | nil =>
    rw [List.length_eq_zero_iff.mp length.symm, List.length_eq_zero_iff.mp sameLength.symm]
  | cons part rest ih =>
    obtain ⟨one, others, rfl⟩ := List.exists_cons_of_length_eq_add_one length.symm
    obtain ⟨two, more, rfl⟩ := List.exists_cons_of_length_eq_add_one sameLength.symm
    have head := determined part one List.mem_cons_self two (related part two List.mem_cons_self)
    have tail := ih (Nat.succ.inj length) (Nat.succ.inj sameLength)
      (fun part answer listed => determined part answer (List.mem_cons_of_mem _ listed))
      (fun part answer listed => related part answer (List.mem_cons_of_mem _ listed))
    rw [head, tail]

/-- Without type parameters nothing is replaced. -/
theorem Replaced.eq_of_unparameterized (consed : types.HashConsed) {result : TypeId}
    (replaced : types.Replaced [] arguments type result) : result = type := by
  have itself (parts : List TypeId) (part answer : TypeId)
    (listed : (part, answer) ∈ parts.zip parts) :
      part = answer := by
    obtain ⟨position, _, here⟩ := List.mem_iff_getElem.mp listed
    rw [List.getElem_zip, Prod.mk.injEq] at here
    exact here.1.symm.trans here.2
  generalize blank : ([] : List TypeId) = parameters at replaced
  induction replaced with
  | unparameterized => rfl
  | parameter replaced =>
    subst blank
    cases replaced
  | @function type result entry made stays stored isFunction found alsoFunction length parts ih =>
    refine consed.function_unique found stored alsoFunction isFunction
      (eq_of_zip length rfl (fun part answer listed other same => ?_) (itself entry.related))
    exact (ih part answer listed).trans same
  | @applied type result entry made before after stays stored applied found sameSymbol alsoApplied
    length parts ih =>
    have same : after = before := eq_of_zip length rfl
      (fun part answer listed other same => (ih part answer listed).trans same) (itself before)
    refine consed.instance_unique found stored ?_ sameSymbol ?_
    · rw [TypeEntry.isInstance, alsoApplied]
      rfl
    · rw [alsoApplied, applied, same]
  | plain => rfl

/-- Under shared types there is one answer. -/
theorem Replaced.unique (consed : types.HashConsed) {first second : TypeId}
    (one : types.Replaced parameters arguments type first)
    (two : types.Replaced parameters arguments type second) :
    first = second := by
  induction one generalizing second with
  | unparameterized blank =>
    subst blank
    exact (two.eq_of_unparameterized consed).symm
  | parameter replaced => cases two <;> grind [replacement?]
  | @function type first entry made stays stored isFunction found alsoFunction length parts ih =>
    cases two with
    | unparameterized blank =>
      subst blank
      exact Replaced.eq_of_unparameterized consed
        (.function stays stored isFunction found alsoFunction length parts)
    | function _ storedAlso _ foundAlso secondFunction lengthAlso partsAlso =>
      cases stored.symm.trans storedAlso
      exact consed.function_unique found foundAlso alsoFunction secondFunction
        (eq_of_zip length lengthAlso (fun part answer listed other => ih part answer listed)
          partsAlso)
    | parameter replaced => grind
    | applied _ storedAlso applied =>
      have := (consed.anonymous type entry stored isFunction).2.1
      grind
    | plain => grind
  | @applied type first entry made before after stays stored applied found sameSymbol alsoApplied
    length parts ih =>
    cases two with
    | unparameterized blank =>
      subst blank
      exact Replaced.eq_of_unparameterized consed
        (.applied stays stored applied found sameSymbol alsoApplied length parts)
    | applied _ storedAlso appliedAlso foundAlso sameSymbolAlso secondApplied lengthAlso
      partsAlso =>
      cases stored.symm.trans storedAlso
      cases applied.symm.trans appliedAlso
      have same := eq_of_zip length lengthAlso (fun part answer listed other =>
        ih part answer listed) partsAlso
      refine consed.instance_unique found foundAlso ?_ (sameSymbol.trans sameSymbolAlso.symm) ?_
      · rw [TypeEntry.isInstance, alsoApplied]
        rfl
      · rw [alsoApplied, secondApplied, same]
    | parameter replaced => grind
    | function _ storedAlso isFunction =>
      have := (consed.anonymous type entry stored (by grind)).2.1
      grind
    | plain => grind
  | plain stays stored noFunction unapplied => cases two <;> grind

theorem ReplacedAll.unique (consed : types.HashConsed)
    (one : types.ReplacedAll parameters arguments before first)
    (two : types.ReplacedAll parameters arguments before second) : first = second :=
  eq_of_zip one.1 two.1 (fun part answer listed _ => (one.2 part answer listed).unique consed) two.2

end Replaced

/-! ## Definitions and their instances -/

/-- A member of an instance stands for a member of its definition. -/
def IsCopy (types : Types) (type : TypeId) (original copy : MemberId) : Prop :=
  ∃ source member, types.members.get? original = some source ∧
    types.members.get? copy = some member ∧
    member.symbol = source.symbol ∧ member.dependency = some original ∧
      member.instanceType = some type

/-- An instance looks like its definition.  The members of `given` were made by callers; all others
are copies. -/
structure Mirrors (types : Types) (given : MemberId → Prop) (type : TypeId)
    (definition entry : TypeEntry) : Prop where
  bases : types.ReplacedAll definition.parameters (entry.arguments.getD []) definition.related
    entry.related
  copies : ∀ name original, definition.members.find? name = some original →
    ∃ copy, entry.members.find? name = some copy ∧ types.IsCopy type original copy
  names : ∀ name copy, entry.members.find? name = some copy →
    ¬given copy ∧ ∃ original, definition.members.find? name = some original
  /-- The instance was filled once: every copy made for it is the member of one name. -/
  once : ∀ id member, types.members.get? id = some member → member.instanceType = some type →
    ¬given id →
    ∃ name, entry.members.find? name = some id ∧ ∀ other, entry.members.find? other = some id →
      other = name

/-- Types at a point where the instances of `unfinished` are being filled. -/
structure Mirrored (unfinished : TypeId → Prop) (given : MemberId → Prop) (types : Types) :
    Prop where
  consed : types.HashConsed
  begun : ∀ type, unfinished type →
    ∃ entry, types.entries.get? type = some entry ∧ entry.generic.isSome ∧ entry.complete = false
  made : ∀ id, given id → ∃ member, types.members.get? id = some member
  /-- A copy is made for a type that exists. -/
  homed : ∀ id member, types.members.get? id = some member → ¬given id →
    ∃ type entry, member.instanceType = some type ∧ types.entries.get? type = some entry
  /-- Instances have type arguments and a definition, other types have neither. -/
  applied : ∀ type entry, types.entries.get? type = some entry →
    (entry.arguments.isSome ↔ entry.generic.isSome)
  /-- An instance agrees with its definition, which is no instance. -/
  definition : ∀ type entry generic, types.entries.get? type = some entry →
    entry.generic = some generic →
    ∃ definition, types.entries.get? generic = some definition ∧ definition.generic = none ∧
      definition.kind = entry.kind ∧ definition.symbol = entry.symbol
  distinct : ∀ type entry, types.entries.get? type = some entry → entry.members.Distinct
  waiting : ∀ generic definition, types.entries.get? generic = some definition →
    definition.waiting.Nodup ∧ ∀ type ∈ definition.waiting, ¬unfinished type ∧
      ∃ entry, types.entries.get? type = some entry ∧ entry.generic = some generic ∧
        entry.complete = false
  /-- Nothing waits for a complete definition. -/
  attended : ∀ generic definition, types.entries.get? generic = some definition →
    definition.complete = true → definition.waiting = []
  /-- An instance has no bases and members before it is complete. -/
  blank : ∀ type entry, types.entries.get? type = some entry → entry.generic.isSome →
    entry.complete = false → entry.related = [] ∧ entry.members = .empty
  /-- No copy is made for an instance before it is complete. -/
  unfilled : ∀ type entry, types.entries.get? type = some entry → entry.generic.isSome →
    entry.complete = false →
    ∀ id member, types.members.get? id = some member → member.instanceType = some type → given id
  /-- An instance is complete, or it is being filled or waits. -/
  filled : ∀ type entry generic definition, types.entries.get? type = some entry →
    entry.generic = some generic → types.entries.get? generic = some definition →
    entry.complete = true ∨ unfinished type ∨ type ∈ definition.waiting
  mature : ∀ type entry generic definition, types.entries.get? type = some entry →
    entry.generic = some generic → types.entries.get? generic = some definition →
    entry.complete = true → definition.complete = true
  mirrors : ∀ type entry generic definition, types.entries.get? type = some entry →
    entry.generic = some generic → types.entries.get? generic = some definition →
    entry.complete = true → types.Mirrors given type definition entry

/-- The definition behind a type is complete. -/
def DefinitionComplete (types : Types) (type : TypeId) : Prop :=
  ∃ entry, types.entries.get? type = some entry ∧
    match entry.generic with
    | none => entry.complete = true
    | some generic =>
      ∃ definition, types.entries.get? generic = some definition ∧ definition.complete = true

/-- An object whose definition is complete, as every base of an object is. -/
def IsBase (types : Types) (type : TypeId) : Prop :=
  types.DefinitionComplete type ∧ ∃ entry, types.entries.get? type = some entry ∧
    entry.kind.isObject = true

/-- What exists stays as it is, except that definitions collect waiting instances, and except for
the touched types.  New types are instances or functions. -/
structure Sprouts (touched : TypeId → Prop) (before after : Types) : Prop where
  entries : ∀ type entry, ¬touched type → before.entries.get? type = some entry →
    ∃ waiting, after.entries.get? type = some { entry with waiting := entry.waiting ++ waiting }
  members : ∀ id member, before.members.get? id = some member → after.members.get? id = some member
  nameless : ∀ type entry, ¬touched type → before.entries.get? type = none →
    after.entries.get? type = some entry →
    entry.generic = none → entry.symbol = none ∧ entry.kind = .function

namespace Sprouts

variable {touched : TypeId → Prop}

theorem refl (types : Types) : types.Sprouts touched types where
  entries _ entry _ stored := ⟨[], by simpa using stored⟩
  members _ _ stored := stored
  nameless _ _ _ missing found := by
    cases missing.symm.trans found

theorem trans {first second third : Types} (one : first.Sprouts touched second)
    (two : second.Sprouts touched third) : first.Sprouts touched third where
  entries type entry apart stored := by
    obtain ⟨early, middle⟩ := one.entries type entry apart stored
    obtain ⟨late, final⟩ := two.entries type _ apart middle
    exact ⟨early ++ late, by simpa using final⟩
  members id member stored := two.members id member (one.members id member stored)
  nameless type entry apart missing found plain := by
    cases between : second.entries.get? type with
    | none => exact two.nameless type entry apart between found plain
    | some middle =>
      obtain ⟨waiting, same⟩ := two.entries type middle apart between
      cases found.symm.trans same
      exact one.nameless type middle apart missing between plain

theorem keeps {before after : Types} (sprouts : before.Sprouts (fun _ => False) after) :
    before.Extends after := by
  intro type entry stored
  obtain ⟨waiting, found⟩ := sprouts.entries type entry id stored
  exact ⟨_, found, rfl, rfl, rfl, fun _ => rfl, fun _ => rfl⟩

theorem push {types : Types} {entry : TypeEntry} {interned : List (TypeKey × TypeId)}
    (nameless : entry.generic = none → entry.symbol = none ∧ entry.kind = .function) :
    types.Sprouts touched { types with entries := types.entries.push entry, interned } where
  entries _ _ _ stored := ⟨[], by simpa using Table.get?_push_of_stored entry stored⟩
  members _ _ stored := stored
  nameless _ _ _ missing found plain := by
    obtain ⟨_, rfl⟩ | ⟨_, older⟩ := Table.get?_push_cases found
    · exact nameless plain
    · cases missing.symm.trans older

theorem enqueue (types : Types) (generic type : TypeId) : types.Sprouts touched { types with
    entries := types.entries.modify generic fun entry =>
      { entry with waiting := entry.waiting ++ [type] } } where
  entries other entry _ stored := by
    by_cases same : other = generic
    · exact ⟨[type], by simp [← same, stored]⟩
    · exact ⟨[], by simp [Table.get?_modify_of_ne _ _ same, stored]⟩
  members _ _ stored := stored
  nameless _ _ _ missing found _ := by
    obtain ⟨_, stored, _⟩ := Table.get?_modify_cases found
    cases missing.symm.trans stored

end Sprouts

/-- What an instance looks like stays while types are only added to and members only learn their
types. -/
theorem Mirrors.keep {given later : MemberId → Prop}
    {definition : TypeEntry} (mirrors : before.Mirrors given type definition entry)
    (kept : before.Extends after)
    (sameGiven : ∀ id member, before.members.get? id = some member → (given id ↔ later id))
    (older : ∀ id member, before.members.get? id = some member → ∃ later, after.members.get? id =
      some later ∧
      later.symbol = member.symbol ∧ later.dependency = member.dependency ∧
      later.instanceType = member.instanceType)
    (newer : ∀ id member, after.members.get? id = some member → member.instanceType = some type →
      ¬later id →
      ∃ earlier, before.members.get? id = some earlier ∧ earlier.instanceType = some type) :
    after.Mirrors later type definition entry where
  bases := mirrors.bases.keep kept
  copies name original found := by
    obtain ⟨copy, named, source, member, sourceStored, memberStored, symbol, dependency, home⟩ :=
      mirrors.copies name original found
    obtain ⟨laterSource, sourceFound, sameSymbol, _⟩ := older original source sourceStored
    obtain ⟨laterMember, memberFound, memberSymbol, memberDependency, memberHome⟩ :=
      older copy member memberStored
    refine ⟨copy, named, laterSource, laterMember, sourceFound, memberFound, ?_,
      memberDependency.trans dependency,
      memberHome.trans home⟩
    rw [memberSymbol, symbol, sameSymbol]
  names name copy bound := by
    obtain ⟨apart, original, named⟩ := mirrors.names name copy bound
    obtain ⟨same, boundAlso, _, member, _, stored, _⟩ := mirrors.copies name original named
    cases bound.symm.trans boundAlso
    exact ⟨fun isGiven => apart ((sameGiven copy member stored).mpr isGiven), original, named⟩
  once id member found home apart := by
    obtain ⟨earlier, stored, sameHome⟩ := newer id member found home apart
    exact mirrors.once id earlier stored sameHome fun isGiven =>
      apart ((sameGiven id earlier stored).mp isGiven)

/-- Members of `sources` were copied into the member table of a type, and nothing else changed. -/
structure Copies (before : Types) (type : TypeId) (entry : TypeEntry)
    (sources : List (String × MemberId))
    (table : NameTable) (after : Types) : Prop where
  interned : after.interned = before.interned
  entries : ∀ other, after.entries.get? other =
    if other = type then some { entry with members := table } else before.entries.get? other
  older : ∀ id member, before.members.get? id = some member → after.members.get? id = some member
  named : ∀ name source, (name, source) ∈ sources → ∃ copy origin, table.find? name = some copy ∧
    before.members.get? copy = none ∧ after.members.get? source = some origin ∧
    after.members.get? copy = some (.dependent origin.symbol source (some type))
  others : ∀ name, name ∉ sources.map Prod.fst → table.find? name = entry.members.find? name
  newer : ∀ id member, after.members.get? id = some member → before.members.get? id = some member ∨
    before.members.get? id = none ∧ ∃ name source, (name, source) ∈ sources ∧
      table.find? name = some id ∧
      ∀ other ∈ sources.map Prod.fst, table.find? other = some id → other = name
  distinct : table.Distinct

theorem ensures_copyMembers_copies {types : Types} (stored : types.entries.get? type = some entry)
    (names : (sources.map Prod.fst).Nodup) (distinct : entry.members.Distinct) :
    (copyMembers type sources).Ensures types fun _ after =>
    ∃ table, types.Copies type entry sources table after := by
  induction sources generalizing types entry with
  | nil =>
    refine .pure ⟨entry.members, ⟨rfl, fun other => ?_, fun _ _ found => found, ?_, fun _ _ => rfl,
      fun _ _ found => .inl found, distinct⟩⟩
    · split
      · rename_i same
        rw [same, stored]
      · rfl
    · intro name source listed
      cases listed
  | cons first rest ih =>
    obtain ⟨name, source⟩ := first
    obtain ⟨freshName, restNames⟩ := List.nodup_cons.mp names
    unfold copyMembers
    refine .get ?_
    refine .fetch fun origin known => ?_
    refine Action.ensures_bind.mpr (ensures_createMember.mpr ?_)
    refine Action.ensures_bind.mpr (.updateIn fun _ => ?_)
    have pushed := types.members.get?_push (.dependent origin.symbol source (some type))
    have unstored := types.members.get?_next
    have named (other : TypeId) := types.entries.get?_modify type other
      fun entry => { entry with members := entry.members.set name types.members.next }
    refine (ih (by rw [named, if_pos rfl, stored]; rfl) restNames (distinct.set name _)).weaken ?_
    rintro _ after ⟨table, copies⟩
    have first : table.find? name = some types.members.next := by
      rw [copies.others name freshName]
      simp
    refine ⟨table, ⟨copies.interned, fun other => ?_, fun id member found =>
      ?_, fun other origin listed => ?_,
      fun other apart => ?_, fun id member found => ?_, copies.distinct⟩⟩
    · rw [copies.entries]
      split
      · rfl
      · rename_i apart
        rw [named, if_neg apart]
    · exact copies.older id member (by rw [pushed, if_neg (Table.ne_next_of_get? found), found])
    · rcases List.mem_cons.mp listed with same | later
      · cases same
        refine ⟨types.members.next, origin, first, unstored, ?_, ?_⟩
        · exact copies.older _ _ (by rw [pushed, if_neg (Table.ne_next_of_get? known), known])
        · exact copies.older _ _ (by rw [pushed, if_pos rfl])
      · obtain ⟨copy, origin, bound, missing, reached, made⟩ := copies.named other _ later
        refine ⟨copy, origin, bound, ?_, reached, made⟩
        rw [pushed] at missing
        split at missing
        · cases missing
        · exact missing
    · have notFirst : other ≠ name := fun same => apart (same ▸ List.mem_cons_self)
      rw [copies.others other fun later => apart (List.mem_cons_of_mem _ later)]
      exact NameTable.find?_set_of_ne _ _ notFirst
    · rcases copies.newer id member found with earlier | ⟨missing, other, origin, listed, bound,
        only⟩
      · rw [pushed] at earlier
        split at earlier
        · rename_i isNext
          refine .inr ⟨isNext ▸ unstored, name, source, List.mem_cons_self, isNext ▸ first, ?_⟩
          intro other listed bound
          rcases List.mem_cons.mp listed with same | later
          · exact same
          · obtain ⟨⟨_, origin⟩, pair, rfl⟩ := List.mem_map.mp later
            obtain ⟨copy, _, here, missing, _⟩ := copies.named _ origin pair
            cases bound.symm.trans here
            rw [pushed, if_pos isNext] at missing
            cases missing
        · exact .inl earlier
      · rw [pushed] at missing
        split at missing
        · cases missing
        · rename_i notNext
          refine .inr ⟨missing, other, origin, List.mem_cons_of_mem _ listed, bound, ?_⟩
          intro another listed boundAlso
          rcases List.mem_cons.mp listed with same | later
          · rw [same] at boundAlso
            dsimp only at boundAlso
            cases first.symm.trans boundAlso
            exact absurd rfl notNext
          · exact only another later boundAlso

/-- A copy knows the type that it was made for. -/
theorem Copies.home {sources : List (String × MemberId)}
    {table : NameTable} (copies : before.Copies type entry sources table after) {id : MemberId}
    {member : Member}
    (found : after.members.get? id = some member) :
    before.members.get? id = some member ∨ member.instanceType = some type := by
  rcases copies.newer id member found with earlier | ⟨_, name, source, listed, bound, _⟩
  · exact .inl earlier
  · obtain ⟨copy, origin, here, _, _, made⟩ := copies.named name source listed
    cases bound.symm.trans here
    cases found.symm.trans made
    exact .inr rfl

namespace Mirrored

variable {unfinished : TypeId → Prop} {given : MemberId → Prop} {types after : Types}
  {entry definition : TypeEntry}
  {type generic : TypeId}

section

variable (mirrored : types.Mirrored unfinished given)

include mirrored

theorem congr {others : TypeId → Prop}
    (same : ∀ type, unfinished type ↔ others type) : types.Mirrored others given := by
  have equal : unfinished = others := funext fun type => propext (same type)
  exact equal ▸ mirrored

/-- What the instances look like stays when entries that are no instances join or change. -/
theorem mirrors_keep (kept : types.Extends after)
    (members : after.members = types.members)
    (stored : types.entries.get? type = some entry) (original : entry.generic = some generic)
    (known : types.entries.get? generic = some definition) (complete : entry.complete = true) :
    after.Mirrors given type definition entry := by
  refine (mirrored.mirrors type entry generic definition stored original known complete).keep kept
    (fun _ _ _ => .rfl) ?_ ?_
  · intro id member found
    exact ⟨member, members ▸ found, rfl, rfl, rfl⟩
  · intro id member found home _
    exact ⟨member, members ▸ found, home⟩

/-- A type joins.  An instance joins blank, and counts as unfinished from now on. -/
theorem push {interned : List (TypeKey × TypeId)} {pending : TypeId → Prop}
    (consed : HashConsed { types with entries := types.entries.push entry, interned })
    (applied : entry.arguments.isSome ↔ entry.generic.isSome)
    (definition : ∀ generic, entry.generic = some generic →
      ∃ definition, types.entries.get? generic = some definition ∧
      definition.generic = none ∧ definition.kind = entry.kind ∧ definition.symbol = entry.symbol)
    (waiting : entry.waiting = []) (unnamed : entry.members = .empty)
    (blank : entry.generic.isSome → entry.complete = false ∧ entry.related = [])
    (joins : ∀ type, pending type ↔ unfinished type ∨ type = types.entries.next ∧
      entry.generic.isSome) :
    Mirrored pending given { types with entries := types.entries.push entry, interned } := by
  have lookup := types.entries.get?_push entry
  have unstored := types.entries.get?_next
  have kept := extends_push types entry interned
  constructor
  · exact consed
  · have := mirrored.begun
    grind
  · exact mirrored.made
  · have := mirrored.homed
    grind
  · have := mirrored.applied
    grind
  · have := mirrored.definition
    grind
  · have := mirrored.distinct
    have := NameTable.distinct_empty
    grind
  · have := mirrored.waiting
    grind
  · have := mirrored.attended
    grind
  · have := mirrored.blank
    grind
  · have := mirrored.unfilled
    have := mirrored.homed
    grind
  · have := mirrored.filled
    have := mirrored.definition
    grind
  · have := mirrored.mature
    have := mirrored.definition
    grind
  · intro type after generic source found isInstance known complete
    obtain ⟨_, rfl⟩ | ⟨_, stored⟩ := Table.get?_push_cases found
    · cases (blank (by rw [isInstance]; rfl)).1.symm.trans complete
    · have := mirrored.definition type after generic stored isInstance
      exact mirrored.mirrors_keep kept rfl stored isInstance (by grind) complete

/-- A type that is no instance joins. -/
theorem push_plain {interned : List (TypeKey × TypeId)}
    (consed : HashConsed { types with entries := types.entries.push entry, interned })
    (plain : entry.arguments = none) (original : entry.generic = none)
    (waiting : entry.waiting = [])
    (unnamed : entry.members = .empty) :
    Mirrored unfinished given { types with entries := types.entries.push entry, interned } :=
  mirrored.push consed (by simp [plain, original]) (by simp [original]) waiting unnamed
    (by simp [original])
    (by simp [original])

/-- A blank instance joins, and counts as unfinished from now on. -/
theorem push_instance {symbol : SymbolId} {arguments : List TypeId}
    (stored : types.entries.get? generic = some definition) (original : definition.generic = none)
    (declared : definition.symbol = some symbol)
    (fresh : types.interned? (.applied symbol arguments) = none) :
    Mirrored (fun type => unfinished type ∨ type = types.entries.next) given { types with
        entries := types.entries.push (instanceEntry definition symbol arguments generic)
        interned := (.applied symbol arguments, types.entries.next) :: types.interned } := by
  have noFunction : definition.kind ≠ .function := by
    intro isFunction
    rw [(mirrored.consed.anonymous generic definition stored isFunction).1] at declared
    cases declared
  refine mirrored.push (mirrored.consed.push_instance noFunction rfl rfl fresh) Iff.rfl ?_ rfl rfl
    (fun _ => ⟨rfl, rfl⟩) ?_
  · rintro _ ⟨⟩
    exact ⟨definition, stored, original, rfl, declared⟩
  · simp

/-- A definition changes.  Instances that wait for it may be taken up or queued, and what its
complete instances are made of stays. -/
theorem revise {pending : TypeId → Prop} {changed : TypeEntry}
    (stored : types.entries.get? type = some entry) (plain : entry.generic = none)
    (lookup : ∀ other, after.entries.get? other = if other =
      type then some changed else types.entries.get? other)
    (interned : after.interned = types.interned) (members : after.members = types.members)
    (keeps : entry.Keeps changed) (distinct : changed.members.Distinct)
    (moves : ∀ other, pending other ∨ other ∈ changed.waiting ↔ unfinished other ∨
      other ∈ entry.waiting)
    (waits : changed.waiting.Nodup ∧ ∀ other ∈ changed.waiting, ¬pending other ∧
      ∃ made, types.entries.get? other = some made ∧ made.generic = some type ∧
      made.complete = false)
    (attended : changed.complete = true → changed.waiting = [])
    (settled : ∀ other made, types.entries.get? other = some made → made.generic = some type →
      changed.symbol = entry.symbol ∧ (made.complete = true → changed.complete = true ∧
        changed.parameters = entry.parameters ∧ changed.related = entry.related ∧
        changed.members = entry.members)) :
    after.Mirrored pending given := by
  have kept := extends_of_lookup stored lookup keeps
  have sameGeneric := keeps.generic
  have sameArguments := keeps.arguments
  have sameKind := keeps.kind
  constructor
  · refine mirrored.consed.of_keeps interned ?_ kept
    intro other later found
    rw [lookup] at found
    split at found
    · rename_i here
      cases found
      exact ⟨entry, here ▸ stored, keeps⟩
    · exact ⟨later, found, .refl later⟩
  · have := mirrored.begun
    have := mirrored.waiting type entry stored
    grind
  · rw [members]
    exact mirrored.made
  · have := mirrored.homed
    grind
  · have := mirrored.applied
    grind
  · have := mirrored.definition
    grind
  · have := mirrored.distinct
    grind
  · have := mirrored.waiting
    grind
  · have := mirrored.attended
    grind
  · have := mirrored.blank
    grind
  · have := mirrored.unfilled
    grind
  · have := mirrored.filled
    grind
  · have := mirrored.mature
    grind
  · intro other later owner source found isInstance there done
    have foundBefore : types.entries.get? other = some later := by grind
    rw [lookup] at there
    split at there
    · rename_i here
      cases there
      have mirrors := mirrored.mirrors_keep kept members foundBefore isInstance (here ▸ stored) done
      obtain ⟨_, parameters, related, names⟩ :=
        (settled other later foundBefore (here ▸ isInstance)).2 done
      refine ⟨?_, ?_, ?_, mirrors.once⟩
      · rw [parameters, related]
        exact mirrors.bases
      · rw [names]
        exact mirrors.copies
      · rw [names]
        exact mirrors.names
    · exact mirrored.mirrors_keep kept members foundBefore isInstance there done

omit mirrored in
theorem enqueue (mirrored : types.Mirrored (fun other => unfinished other ∨ other = type) given)
    (stored : types.entries.get? generic = some definition)
    (incomplete : definition.complete = false)
    (found : types.entries.get? type = some entry) (original : entry.generic = some generic)
    (blank : entry.complete = false) (idle : ¬unfinished type) :
    Mirrored unfinished given { types with
        entries := types.entries.modify generic fun entry =>
          { entry with waiting := entry.waiting ++ [type] } } := by
  obtain ⟨_, again, plain, _⟩ := mirrored.definition type entry generic found original
  cases stored.symm.trans again
  have waiting := mirrored.waiting generic definition stored
  refine mirrored.revise stored plain (Table.get?_modify_of_stored stored) rfl rfl
    ⟨rfl, rfl, rfl, fun _ => rfl, fun _ => rfl⟩ (mirrored.distinct generic definition stored) ?_ ?_
      ?_ ?_
  · grind
  · grind
  · grind
  · have := mirrored.mature
    grind

theorem unawaited (stored : types.entries.get? type = some entry)
    (original : entry.generic = some generic) : entry.waiting = [] := by
  refine List.eq_nil_iff_forall_not_mem.mpr fun queued listed => ?_
  obtain ⟨waiter, there, waits, _⟩ := ((mirrored.waiting type entry stored).2 queued listed).2
  obtain ⟨same, found, plain, _⟩ := mirrored.definition queued waiter type there waits
  cases stored.symm.trans found
  cases plain.symm.trans original

theorem fill {related : List TypeId} {table : NameTable}
    (stored : types.entries.get? type = some entry) (original : entry.generic = some generic)
    (blank : entry.complete = false)
    (known : types.entries.get? generic = some definition) (complete : definition.complete = true)
    (bases : types.ReplacedAll definition.parameters (entry.arguments.getD []) definition.related
      related)
    (copies : types.Copies type { entry with related, complete := true } definition.members.sorted
      table after) :
    after.Mirrored (fun other => unfinished other ∧ other ≠ type) given := by
  have noFunction : entry.kind ≠ .function := mirrored.consed.kind_ne_of_generic stored original
  have changed : entry.Keeps { entry with related, members := table, complete := true } :=
    ⟨rfl, rfl, rfl, fun isFunction => absurd isFunction noFunction, fun _ => rfl⟩
  have unawaited := mirrored.unawaited stored original
  have lookup := copies.entries
  have kept : types.Extends after := by
    intro other before found
    by_cases same : other = type
    · subst same
      cases stored.symm.trans found
      exact ⟨_, by rw [lookup, if_pos rfl], changed⟩
    · exact ⟨before, by rw [lookup, if_neg same, found], .refl before⟩
  have oldNames : entry.members = .empty :=
    (mirrored.blank type entry stored (by rw [original]; rfl) blank).2
  have listed (name : String) (source : MemberId) : (name, source) ∈ definition.members.sorted ↔
      definition.members.find? name = some source := by
    rw [NameTable.mem_sorted, ← (mirrored.distinct generic definition known).find?_eq_some_iff]
  have unstored (id : MemberId) : types.members.get? id = none → ¬given id := by
    intro missing isGiven
    obtain ⟨member, found⟩ := mirrored.made id isGiven
    cases missing.symm.trans found
  constructor
  · refine mirrored.consed.of_keeps copies.interned ?_ kept
    intro other later found
    rw [lookup] at found
    split at found
    · rename_i same
      subst same
      cases found
      exact ⟨entry, stored, changed⟩
    · exact ⟨later, found, .refl later⟩
  · have := mirrored.begun
    grind
  · intro id isGiven
    obtain ⟨member, found⟩ := mirrored.made id isGiven
    exact ⟨member, copies.older id member found⟩
  · intro id member found apart
    rcases copies.home found with earlier | home
    · obtain ⟨home, before, inside, there⟩ := mirrored.homed id member earlier apart
      obtain ⟨later, here, _⟩ := kept home before there
      exact ⟨home, later, inside, here⟩
    · exact ⟨type, _, home, by rw [lookup, if_pos rfl]⟩
  · have := mirrored.applied
    grind
  · have := mirrored.definition
    grind
  · have := mirrored.distinct
    have := copies.distinct
    grind
  · have := mirrored.waiting
    have := mirrored.attended
    have := mirrored.definition
    grind
  · have := mirrored.attended
    grind
  · have := mirrored.blank
    grind
  · intro other later found isInstance incomplete id member stored inside
    rw [lookup] at found
    split at found
    · cases found
      cases incomplete
    · rename_i apart
      rcases copies.home stored with earlier | home
      · exact mirrored.unfilled other later found isInstance incomplete id member earlier inside
      · rw [inside] at home
        exact absurd (Option.some.inj home) apart
  · have := mirrored.filled
    have := mirrored.definition
    have := mirrored.attended
    grind
  · have := mirrored.mature
    have := mirrored.definition
    grind
  · intro other later owner source found isInstance there done
    rw [lookup] at found
    split at found
    · rename_i same
      subst same
      cases found
      cases original.symm.trans isInstance
      have apart : generic ≠ other := by
        obtain ⟨_, _, plain, _⟩ := mirrored.definition other entry generic stored original
        grind
      rw [lookup, if_neg apart, known] at there
      cases there
      refine ⟨bases.keep kept, ?_, ?_, ?_⟩
      · intro name source bound
        obtain ⟨copy, origin, here, _, reached, made⟩ :=
          copies.named name source ((listed name source).mpr bound)
        exact ⟨copy, here, origin, _, reached, made, rfl, rfl, rfl⟩
      · intro name copy bound
        by_cases isListed : name ∈ definition.members.sorted.map Prod.fst
        · obtain ⟨⟨_, source⟩, pair, rfl⟩ := List.mem_map.mp isListed
          obtain ⟨copied, _, here, missing, _⟩ := copies.named _ source pair
          cases bound.symm.trans here
          exact ⟨unstored copy missing, source, (listed _ source).mp pair⟩
        · have := copies.others name isListed
          rw [bound, oldNames] at this
          cases this
      · intro id member found inside apart
        rcases copies.newer id member found with earlier | ⟨_, name, source, pair, bound, only⟩
        · exact absurd (mirrored.unfilled other entry stored (by rw [original]; rfl) blank id member
            earlier inside) apart
        · refine ⟨name, bound, fun another boundAlso => ?_⟩
          by_cases isListed : another ∈ definition.members.sorted.map Prod.fst
          · exact only another isListed boundAlso
          · have := copies.others another isListed
            rw [boundAlso, oldNames] at this
            cases this
    · rename_i apart
      have thereBefore : types.entries.get? owner = some source := by
        obtain ⟨_, _, plain, _⟩ := mirrored.definition other later owner found isInstance
        grind
      refine (mirrored.mirrors other later owner source found isInstance thereBefore done).keep kept
        (fun _ _ _ => .rfl) ?_ ?_
      · intro id member stored
        exact ⟨member, copies.older id member stored, rfl, rfl, rfl⟩
      · intro id member stored inside _
        rcases copies.home stored with earlier | home
        · exact ⟨member, earlier, inside⟩
        · rw [inside] at home
          exact absurd (Option.some.inj home) apart

omit mirrored in
/-- A definition becomes complete, and the instances that waited for it are being filled. -/
theorem start (mirrored : types.Mirrored (fun _ => False) given)
    (stored : types.entries.get? type = some entry) (plain : entry.generic = none) :
    Mirrored (fun other => other ∈ entry.waiting) given { types with
        entries := types.entries.modify type fun entry =>
          { entry with complete := true, waiting := [] } } := by
  have waiting := mirrored.waiting type entry stored
  refine mirrored.revise stored plain (Table.get?_modify_of_stored stored) rfl rfl
    ⟨rfl, rfl, rfl, fun _ => rfl, fun _ => rfl⟩ (mirrored.distinct type entry stored) ?_ ?_ ?_ ?_
  all_goals grind

/-- A definition is set up: it may get type parameters, bases, members and a symbol as long as no
instance has been filled from it, and a symbol only before it has instances. -/
theorem change {changed : TypeEntry} (stored : types.entries.get? type = some entry)
    (plain : entry.generic = none)
    (lookup : ∀ other, after.entries.get? other = if other =
      type then some changed else types.entries.get? other)
    (interned : after.interned = types.interned) (members : after.members = types.members)
    (keeps : entry.Keeps changed) (waiting : changed.waiting = entry.waiting)
    (complete : changed.complete = entry.complete ∨ entry.waiting = [])
    (distinct : changed.members.Distinct)
    (free : ∀ other instanceEntry, types.entries.get? other = some instanceEntry →
      instanceEntry.generic = some type → instanceEntry.complete = false ∧
      changed.symbol = entry.symbol) :
    after.Mirrored unfinished given := by
  have queue := mirrored.waiting type entry stored
  have attended := mirrored.attended type entry stored
  refine mirrored.revise stored plain lookup interned members keeps distinct ?_ ?_ ?_ ?_
  all_goals grind

/-- A caller makes a member. -/
theorem push_member (member : Member) :
    Mirrored unfinished (fun id => given id ∨ id = types.members.next)
      { types with members := types.members.push member } := by
  have lookup := types.members.get?_push member
  refine { mirrored with
           consed := (mirrored.consed.members _).1,
           made := ?_, homed := ?_, unfilled := ?_, mirrors := ?_ }
  · rintro id (isGiven | rfl)
    · obtain ⟨earlier, found⟩ := mirrored.made id isGiven
      exact ⟨earlier, Table.get?_push_of_stored member found⟩
    · exact ⟨member, Table.get?_push_next _ _⟩
  · have := mirrored.homed
    grind
  · have := mirrored.unfilled
    grind
  · intro type entry generic definition stored original known complete
    refine (mirrored.mirrors type entry generic definition stored original known complete).keep
      (mirrored.consed.members _).2 ?_ ?_ ?_
    · intro id earlier found
      have := Table.ne_next_of_get? found
      simp [this]
    · intro id earlier found
      exact ⟨earlier, Table.get?_push_of_stored member found, rfl, rfl, rfl⟩
    · intro id later found home apart
      obtain ⟨isNext, _⟩ | ⟨_, earlier⟩ := Table.get?_push_cases found
      · exact absurd (.inr isNext) apart
      · exact ⟨later, earlier, home⟩

theorem type_member (id : MemberId) (result : TypeId) :
    Mirrored unfinished given
      { types with
        members := types.members.modify id fun member => { member with type := some result } } := by
  have lookup (other : MemberId) := types.members.get?_modify id other
    fun member => { member with type := some result }
  have earlier : ∀ other later, (types.members.modify id fun member =>
    { member with type := some result }).get? other =
      some later → ∃ member, types.members.get? other = some member ∧
        member.instanceType = later.instanceType := by
    intro other later found
    obtain ⟨member, stored, ⟨_, rfl⟩ | ⟨_, rfl⟩⟩ := Table.get?_modify_cases found
    · exact ⟨member, stored, rfl⟩
    · exact ⟨later, stored, rfl⟩
  refine { mirrored with
           consed := (mirrored.consed.members _).1,
           made := ?_, homed := ?_, unfilled := ?_, mirrors := ?_ }
  · have := mirrored.made
    grind
  · have := mirrored.homed
    grind
  · have := mirrored.unfilled
    grind
  · intro type entry generic definition stored original known complete
    refine (mirrored.mirrors type entry generic definition stored original known complete).keep
      (mirrored.consed.members _).2 (fun _ _ _ => .rfl) ?_ ?_
    · intro other member found
      by_cases same : other = id
      · exact ⟨{ member with type := some result },
          by rw [lookup, if_pos same, found]; rfl, rfl, rfl, rfl⟩
      · exact ⟨member, by rw [lookup, if_neg same, found], rfl, rfl, rfl⟩
    · intro other later found home _
      obtain ⟨member, stored, sameHome⟩ := earlier other later found
      exact ⟨member, stored, sameHome.trans home⟩

end

theorem new : Mirrored (fun _ => False) (fun _ => False) Types.new := by
  have blank : ∀ type entry, Types.new.entries.get? type = some entry →
      entry.arguments = none ∧ entry.generic = none ∧ entry.waiting = [] ∧
        entry.members = .empty := by
    intro type entry found
    obtain ⟨_, _, _, _, rfl⟩ := blank_new found
    exact ⟨rfl, rfl, rfl, rfl⟩
  have memberless : ∀ id, Types.new.members.get? id = none := fun _ => rfl
  have empty := NameTable.distinct_empty
  constructor
  · exact new_hashConsed
  all_goals grind

end Mirrored

end Types
end Resolution
