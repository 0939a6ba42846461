import Resolution.Proofs.Remembering

/-!
# Working member types out again

Substitution finds every type it needs where the types are shared, so it answers what `Replaced`
says and makes nothing new.  A member that has learned its type answers it; the calculation of any
other ends with a substitution.
-/

namespace Resolution
namespace Types

variable {types before after : Types}

theorem run_entry {α : Type} {type : TypeId} {entry : TypeEntry} {next : TypeEntry → Action Types α}
    {members : Table MemberId Member} (stored : types.entries.get? type = some entry) :
    (do
      let types ← get
      let entry ← Action.ofExcept (types.entry type)
      next entry : Action Types α)
      { types with members } = next entry { types with members } := by
  change (Action.ofExcept (types.entries.fetch type) >>= next) { types with members } = _
  rw [(Table.fetch_eq_ok_iff ..).mpr stored]
  rfl

/-- Replacing type parameters in a type gives an answer and nothing new, at every number of steps
from some number on. -/
def Stable (types : Types) (parameters arguments : List TypeId) (type result : TypeId) : Prop :=
  ∃ least, ∀ fuel, least ≤ fuel → ∀ members,
    substitute fuel type parameters arguments { types with members } = .ok result
      { types with members }

/-- Parts that are replaced one by one are replaced together. -/
theorem Stable.each {parts results parameters arguments : List TypeId}
    (length : parts.length = results.length)
    (stable : ∀ part result, (part, result) ∈ parts.zip results →
      types.Stable parameters arguments part result) :
    ∃ least, ∀ fuel, least ≤ fuel → ∀ members,
      (parts.mapM fun part => substitute fuel part parameters arguments) { types with members } =
        .ok results { types with members } := by
  induction parts generalizing results with
  | nil =>
    obtain rfl := List.length_eq_zero_iff.mp length.symm
    exact ⟨0, fun _ _ _ => rfl⟩
  | cons part rest ih =>
    obtain ⟨result, others, rfl⟩ := List.exists_cons_of_length_eq_add_one length.symm
    obtain ⟨least, first⟩ := stable part result List.mem_cons_self
    obtain ⟨more, second⟩ := ih (Nat.succ.inj length) fun part result listed =>
      stable part result (List.mem_cons_of_mem _ listed)
    refine ⟨max least more, fun fuel enough members => ?_⟩
    rw [List.mapM_cons]
    refine (Action.bind_eq_ok_iff ..).mpr ⟨result, _, first fuel (by omega) members, ?_⟩
    exact (Action.bind_eq_ok_iff ..).mpr ⟨others, _, second fuel (by omega) members, rfl⟩

section Stable

variable {parameters arguments : List TypeId} {type result : TypeId} {entry made : TypeEntry}

theorem Rooted.stable_function (rooted : types.Rooted) (notEmpty : ¬parameters.isEmpty = true)
    (stays : replacement? type parameters arguments = none)
    (stored : types.entries.get? type = some entry)
    (isFunction : entry.kind = .function) (found : types.entries.get? result = some made)
    (alsoFunction : made.kind = .function) (length : entry.related.length = made.related.length)
    (parts : ∀ part replaced, (part, replaced) ∈ entry.related.zip made.related →
      types.Stable parameters arguments part replaced) :
      types.Stable parameters arguments type result := by
  obtain ⟨least, each⟩ := Stable.each length parts
  refine ⟨least + 1, fun fuel enough members => ?_⟩
  obtain ⟨fewer, rfl⟩ := Nat.exists_eq_add_of_le' (Nat.one_le_of_lt enough)
  unfold substitute
  rw [if_neg notEmpty, stays]
  refine (run_entry stored).trans ?_
  rw [isFunction]
  refine (Action.bind_eq_ok_iff ..).mpr
    ⟨made.related, _, each fewer (Nat.le_of_succ_le_succ enough) members, ?_⟩
  split
  · rename_i same
    rw [rooted.consed.function_unique found stored alsoFunction isFunction same]
    rfl
  · rename_i differs
    have finds := rooted.consed.findsFunction result made found alsoFunction
    cases signature : made.related with
    | nil =>
      rw [signature] at length differs
      exact absurd (List.length_eq_zero_iff.mp length).symm differs
    | cons first rest =>
      rw [signature] at finds
      change functionType first rest { types with members } = _
      unfold functionType
      refine (Action.bind_eq_ok_iff ..).mpr ⟨_, _, rfl, ?_⟩
      rw [show Types.interned? { types with members } (.function (first :: rest)) = some result from
        finds]
      rfl

theorem Rooted.stable_applied (rooted : types.Rooted) {before after : List TypeId}
    (notEmpty : ¬parameters.isEmpty = true)
    (stays : replacement? type parameters arguments = none)
    (stored : types.entries.get? type = some entry)
    (applied : entry.arguments = some before) (found : types.entries.get? result = some made)
    (sameSymbol : made.symbol = entry.symbol) (alsoApplied : made.arguments = some after)
    (length : before.length = after.length)
    (parts : ∀ part replaced, (part, replaced) ∈ before.zip after →
      types.Stable parameters arguments part replaced) :
    types.Stable parameters arguments type result := by
  obtain ⟨least, each⟩ := Stable.each length parts
  refine ⟨least + 1, fun fuel enough members => ?_⟩
  obtain ⟨fewer, rfl⟩ := Nat.exists_eq_add_of_le' (Nat.one_le_of_lt enough)
  obtain ⟨generic, original⟩ := Option.isSome_iff_exists.mp
    ((rooted.applied type entry stored).mp (by rw [applied]; rfl))
  obtain ⟨definition, known, declared⟩ := rooted.definition type entry generic stored original
  obtain ⟨symbol, isSymbol, finds⟩ :=
    rooted.consed.findsInstance result made after found alsoApplied
  have rebuilt : (do
      let replaced ← before.mapM fun part => substitute fewer part parameters arguments
      if replaced = before then pure type else parameterizeVia (substitute fewer) generic replaced :
        Action Types TypeId)
      { types with members } = .ok result { types with members } := by
    refine (Action.bind_eq_ok_iff ..).mpr
      ⟨after, _, each fewer (Nat.le_of_succ_le_succ enough) members, ?_⟩
    split
    · rename_i same
      rw [rooted.consed.instance_unique found stored
        (by rw [TypeEntry.isInstance, alsoApplied]; rfl) sameSymbol
        (by rw [alsoApplied, applied, same])]
      rfl
    · rename_i differs
      have notBlank : ¬after.isEmpty = true := by
        intro isEmpty
        obtain rfl := List.isEmpty_iff.mp isEmpty
        exact differs (List.length_eq_zero_iff.mp length).symm
      unfold parameterizeVia
      rw [if_neg notBlank]
      refine (run_entry known).trans ?_
      rw [declared, ← sameSymbol, isSymbol]
      refine (Action.bind_eq_ok_iff ..).mpr ⟨_, _, rfl, ?_⟩
      rw [show Types.interned? { types with members } (.applied symbol after) = some result from
        finds]
      rfl
  unfold substitute
  rw [if_neg notEmpty, stays]
  refine (run_entry stored).trans ?_
  simp only [original, applied]
  cases sort : entry.kind with
  | function => exact absurd sort (rooted.consed.kind_ne_of_generic stored original)
  | _ => exact rebuilt

/-- Where a type was replaced before, replacing it again gives the same type and nothing new. -/
theorem Rooted.stable (rooted : types.Rooted)
    (replaced : types.Replaced parameters arguments type result) :
    types.Stable parameters arguments type result := by
  by_cases blank : parameters = []
  · subst blank
    obtain rfl := replaced.eq_of_unparameterized rooted.consed
    refine ⟨1, fun fuel enough members => ?_⟩
    obtain ⟨fewer, rfl⟩ := Nat.exists_eq_add_of_le' enough
    rfl
  have notEmpty : ¬parameters.isEmpty = true := mt List.isEmpty_iff.mp blank
  induction replaced with
  | unparameterized isBlank => exact absurd isBlank blank
  | parameter replaced =>
    refine ⟨1, fun fuel enough members => ?_⟩
    obtain ⟨fewer, rfl⟩ := Nat.exists_eq_add_of_le' enough
    unfold substitute
    rw [if_neg notEmpty, replaced]
    rfl
  | function stays stored isFunction found alsoFunction length _ ih =>
    exact rooted.stable_function notEmpty stays stored isFunction found alsoFunction length ih
  | applied stays stored applied found sameSymbol alsoApplied length _ ih =>
    exact rooted.stable_applied notEmpty stays stored applied found sameSymbol alsoApplied length ih
  | @plain type entry stays stored noFunction unapplied =>
    refine ⟨1, fun fuel enough members => ?_⟩
    obtain ⟨fewer, rfl⟩ := Nat.exists_eq_add_of_le' enough
    unfold substitute
    rw [if_neg notEmpty, stays]
    refine (run_entry stored).trans ?_
    rw [unapplied]
    cases sort : entry.kind with
    | function => exact absurd sort noFunction
    | _ => rfl

end Stable

/-- The types with members that have not learned their types. -/
def forgotten (types : Types) : Types :=
  { types with members := ⟨types.members.entries.map fun member => { member with type := none }⟩ }

section Again

variable {symbols : Symbols} {members : Table MemberId Member} {id : MemberId} {member : Member}
  {type : TypeId}
  {fuel : Nat} {base : TypeId}

theorem run_memberType_learned (stored : members.get? id = some member)
    (learned : member.type = some type) :
    memberType symbols (fuel + 1) id { types with members } = .ok type { types with members } := by
  obtain ⟨owner, _, dependency, context⟩ := member
  cases learned
  rw [memberType]
  change (Action.ofExcept (members.fetch id) >>= _) { types with members } = _
  rw [(Table.fetch_eq_ok_iff ..).mpr stored]
  rfl

/-- Where a member that remembers nothing starts from: the member it was taken from, or its symbol.
-/
def startOf (symbols : Symbols) (fuel : Nat) (member : Member) : Action Types TypeId :=
  match member.dependency with
  | some original => memberType symbols fuel original
  | none => do return (← Action.ofExcept (symbols.fetch member.symbol)).typeOrError

theorem run_memberType_unlearned (stored : types.members.get? id = some member)
    (unlearned : member.type = none) :
    memberType symbols (fuel + 1) id types =
      (startOf symbols fuel member >>= concluded symbols fuel id member.symbol member.instanceType)
      types := by
  obtain ⟨owner, _, dependency, context⟩ := member
  cases unlearned
  rw [memberType]
  change (Action.ofExcept (types.members.fetch id) >>= _) types = _
  rw [(Table.fetch_eq_ok_iff ..).mpr stored]
  cases dependency with
  | some original => rfl
  | none =>
    simp only [startOf, bind_assoc, pure_bind]
    rfl

end Again

end Types
end Resolution
