import Resolution.Proofs.Recomputing

/-!
# Substitution and what members remember

Substitution may fill new instances and copy members into them, but it never asks a member for its
type.  So it does the same in two tables that differ at most in what members remember, and it still
does so when it is given more steps.  `Follows` states this for any two computations and is shown
for each operation in turn.
-/

namespace Resolution
namespace Types

variable {one other : Types} {α β : Type}

/-- Tables that differ at most in the types that members remember. -/
structure Alike (one other : Types) : Prop where
  entries : one.entries = other.entries
  interned : one.interned = other.interned
  members : one.forgotten.members = other.forgotten.members

namespace Alike

theorem refl (types : Types) : types.Alike types := ⟨rfl, rfl, rfl⟩

section

variable (alike : one.Alike other)

include alike

theorem symm : other.Alike one :=
  ⟨alike.entries.symm, alike.interned.symm, alike.members.symm⟩

theorem trans {third : Types} (also : other.Alike third) : one.Alike third :=
  ⟨alike.entries.trans also.entries, alike.interned.trans also.interned,
    alike.members.trans also.members⟩

theorem entry : one.entry = other.entry := by
  unfold Types.entry
  rw [alike.entries]

theorem interned? : one.interned? = other.interned? := by
  unfold Types.interned?
  rw [alike.interned]

theorem substitutionOf : one.substitutionOf = other.substitutionOf := by
  unfold Types.substitutionOf
  rw [alike.entry]

theorem membersOf : one.membersOf = other.membersOf := by
  unfold Types.membersOf
  rw [alike.entry]

omit alike in
theorem get?_forgotten (types : Types) (id : MemberId) :
    types.forgotten.members.get? id = (types.members.get? id).map fun member =>
    { member with type := none } := by
  change (types.members.entries.map _)[Handle.index id]? = _
  rw [Array.getElem?_map]
  rfl

/-- A member is the same in both tables, up to its type. -/
theorem member {id : MemberId} {member : Member} (stored : one.members.get? id = some member) :
    ∃ learned, other.members.get? id = some { member with type := learned } := by
  have same := get?_forgotten one id
  rw [alike.members, get?_forgotten, stored] at same
  obtain ⟨found, there, agree⟩ := Option.map_eq_some_iff.mp same
  refine ⟨found.type, there.trans (congrArg some ?_)⟩
  obtain ⟨_, _, _, _⟩ := found
  obtain ⟨_, _, _, _⟩ := member
  cases agree
  rfl

theorem members_size : one.members.size = other.members.size := by
  have same := congrArg Table.size alike.members
  simpa [forgotten, Table.size] using same

theorem push_member (member : Member) :
    Alike { one with members := one.members.push member }
    { other with members := other.members.push member } := by
  have pushed (types : Types) :
    (forgotten { types with members := types.members.push member }).members =
      types.forgotten.members.push { member with type := none } := by
    simp [forgotten, Table.push]
  refine ⟨alike.entries, alike.interned, ?_⟩
  rw [pushed, pushed, alike.members]

end

theorem learn (types : Types) (id : MemberId) (type : TypeId) :
    types.Alike { types with
                  members := types.members.modify id fun member =>
                    { member with type := some type } } := by
  refine ⟨rfl, rfl, congrArg Table.mk (Array.ext (by simp [Table.modify]) fun position _ _ => ?_)⟩
  simp only [Table.modify, Array.getElem_map, Array.getElem_modify]
  split
  · rfl
  · rfl

end Alike

/-- What the first computation returns on one table, the second returns on the other, and the tables
stay alike. -/
def Follows (one other : Types) (first second : Action Types α) : Prop :=
  ∀ answer after, first one = .ok answer after → ∃ final, second other = .ok answer final ∧
    after.Alike final

namespace Follows

variable {next later : α → Action Types β} {second : Action Types α} {question : Except Fault α}

theorem pure (alike : one.Alike other) (answer : α) :
    Follows one other (Pure.pure answer) (Pure.pure answer) := by
  rintro _ _ ⟨⟩
  exact ⟨other, rfl, alike⟩

theorem throw {fault : Fault} : Follows one other (MonadExcept.throw fault) second := nofun

theorem bind {first : Action Types α} (step : Follows one other first second)
    (continues : ∀ answer after final, after.Alike final →
      Follows after final (next answer) (later answer)) :
    Follows one other (first >>= next) (second >>= later) := by
  intro answer after run
  obtain ⟨value, middle, ran, run⟩ := (Action.bind_eq_ok_iff ..).mp run
  obtain ⟨between, also, alike⟩ := step value middle ran
  obtain ⟨final, finishes, alikeStill⟩ := continues value middle between alike answer after run
  exact ⟨final, (Action.bind_eq_ok_iff ..).mpr ⟨value, between, also, finishes⟩, alikeStill⟩

theorem get {next later : Types → Action Types β}
    (continues : Follows one other (next one) (later other)) :
    Follows one other (MonadState.get >>= next) (MonadState.get >>= later) := continues

theorem ask {also : Except Fault α} (continues : ∀ answer, question = .ok answer →
      ∃ heard, also = .ok heard ∧ Follows one other (next answer) (later heard)) :
    Follows one other (Action.ofExcept question >>= next) (Action.ofExcept also >>= later) := by
  cases question with
  | error fault => exact nofun
  | ok answer =>
    obtain ⟨heard, rfl, follows⟩ := continues answer rfl
    exact follows

theorem ask_same (continues : ∀ answer, question = .ok answer →
    Follows one other (next answer) (later answer)) :
    Follows one other (Action.ofExcept question >>= next) (Action.ofExcept question >>= later) :=
  ask fun answer heard => ⟨answer, heard, continues answer heard⟩

/-- A change of the types does not touch the members. -/
theorem zoom (alike : one.Alike other) (action : Action (Table TypeId TypeEntry) α) :
    Follows one other (Action.zoom Types.entries (fun types entries => { types with entries })
      action)
      (Action.zoom Types.entries (fun types entries => { types with entries }) action) := by
  intro answer after run
  unfold Action.zoom at run ⊢
  rw [← alike.entries]
  cases ran : action one.entries with
  | error fault changed =>
    rw [ran] at run
    cases run
  | ok value changed =>
    rw [ran] at run
    cases run
    exact ⟨_, rfl, rfl, alike.interned, alike.members⟩

theorem update (alike : one.Alike other) (type : TypeId) (change : TypeEntry → TypeEntry) :
    Follows one other (Types.update type change) (Types.update type change) := zoom alike _

theorem remember (alike : one.Alike other) (key : TypeKey) (type : TypeId) :
    Follows one other (Types.remember key type) (Types.remember key type) := by
  rintro _ _ ⟨⟩
  exact ⟨_, rfl, alike.entries, congrArg (List.cons (key, type)) alike.interned, alike.members⟩

theorem createMember (alike : one.Alike other) (member : Member) :
    Follows one other (Types.createMember member) (Types.createMember member) := by
  rintro _ _ ⟨⟩
  have same : one.members.next = other.members.next := congrArg Handle.ofIndex alike.members_size
  refine ⟨_, ?_, alike.push_member member⟩
  rw [same]
  rfl

theorem mapM {first second : TypeId → Action Types α} (each : ∀ item one other, one.Alike other →
      Follows one other (first item) (second item)) (alike : one.Alike other)
      (items : List TypeId) :
    Follows one other (items.mapM first) (items.mapM second) := by
  induction items generalizing one other with
  | nil => exact pure alike []
  | cons item rest ih =>
    rw [List.mapM_cons, List.mapM_cons]
    refine bind (each item one other alike) fun answer after final alike => ?_
    exact bind (ih alike) fun answers after final alike => pure alike _

end Follows

/-! ## Operations -/

theorem functionType_follows (alike : one.Alike other) (result : TypeId) (arguments : List TypeId) :
    Follows one other (functionType result arguments) (functionType result arguments) := by
  unfold functionType
  refine Follows.get ?_
  rw [← alike.interned?]
  cases one.interned? (.function (result :: arguments)) with
  | some type => exact .pure alike type
  | none =>
    refine Follows.bind (.zoom alike _) fun type after final alike => ?_
    exact Follows.bind (.remember alike _ type) fun _ after final alike => .pure alike type

theorem copyMembers_follows (type : TypeId) (members : List (String × MemberId))
    (alike : one.Alike other) :
    Follows one other (copyMembers type members) (copyMembers type members) := by
  induction members generalizing one other with
  | nil => exact .pure alike ()
  | cons entry rest ih =>
    obtain ⟨name, source⟩ := entry
    unfold copyMembers
    refine Follows.get (Follows.ask fun member fetched => ?_)
    obtain ⟨learned, found⟩ := alike.member ((Table.fetch_eq_ok_iff ..).mp fetched)
    refine ⟨_, (Table.fetch_eq_ok_iff ..).mpr found, ?_⟩
    refine Follows.bind (.createMember alike _) fun copy after final alike => ?_
    exact Follows.bind (.update alike type _) fun _ after final alike => ih alike

/-- What the first substitution returns, the second returns where members remember other types. -/
def Substitution.Follows (first second : Substitution) : Prop :=
  ∀ type parameters arguments one other, Alike one other →
    Types.Follows one other (first type parameters arguments) (second type parameters arguments)

section Substitution

variable {first second : Substitution}

theorem instantiate_follows (follows : first.Follows second) (alike : one.Alike other)
    (type : TypeId) :
    Follows one other (instantiate first type) (instantiate second type) := by
  unfold instantiate
  refine Follows.get ?_
  rw [← alike.entry, ← alike.substitutionOf]
  refine Follows.ask_same fun entry _ => ?_
  cases entry.generic with
  | none => exact .pure alike ()
  | some generic =>
    refine Follows.ask_same fun context _ => ?_
    refine Follows.ask_same fun definition _ => ?_
    refine Follows.bind (.mapM (fun base _ _ => follows base _ _ _ _) alike _)
      fun related after final alike => ?_
    refine Follows.bind (.update alike type _) fun _ after final alike => ?_
    refine Follows.get ?_
    rw [← alike.membersOf]
    refine Follows.ask_same fun members _ => ?_
    exact Follows.bind (copyMembers_follows type members alike) fun _ after final alike =>
      .update alike type _

theorem parameterizeVia_follows (follows : first.Follows second) (alike : one.Alike other)
    (generic : TypeId)
    (arguments : List TypeId) :
    Follows one other (parameterizeVia first generic arguments)
    (parameterizeVia second generic arguments) := by
  unfold parameterizeVia
  split
  · exact .pure alike generic
  refine Follows.get ?_
  rw [← alike.entry]
  refine Follows.ask_same fun definition _ => ?_
  cases definition.symbol with
  | none => exact .throw
  | some symbol =>
    refine Follows.get ?_
    rw [← alike.interned?]
    cases one.interned? (.applied symbol arguments) with
    | some type => exact .pure alike type
    | none =>
      refine Follows.bind (.zoom alike _) fun type after final alike => ?_
      refine Follows.bind (.remember alike _ type) fun _ after final alike => ?_
      split
      · exact Follows.bind (instantiate_follows follows alike type) fun _ after final alike =>
          .pure alike type
      · exact Follows.bind (.update alike generic _) fun _ after final alike => .pure alike type

end Substitution

/-- Substitution does not look at what members remember, and more steps do not change what it
returns. -/
theorem substitute_follows {fuel more : Nat} (enough : fuel ≤ more) :
    (substitute fuel).Follows (substitute more) := by
  induction fuel generalizing more with
  | zero => exact fun _ _ _ _ _ _ => .throw
  | succ fuel ih =>
    obtain ⟨more, rfl⟩ := Nat.exists_eq_add_of_le' (Nat.one_le_of_lt enough)
    have follows := ih (Nat.le_of_succ_le_succ enough)
    intro type parameters arguments one other alike
    unfold substitute
    split
    · exact .pure alike type
    cases replacement? type parameters arguments with
    | some argument => exact .pure alike argument
    | none =>
      refine Follows.get ?_
      rw [← alike.entry]
      refine Follows.ask_same fun entry _ => ?_
      have each (parts : List TypeId) :=
        Follows.mapM (fun part _ _ => follows part parameters arguments _ _) alike parts
      split
      · refine Follows.bind (each entry.related) fun replaced after final alike => ?_
        split
        · exact .pure alike type
        cases replaced with
        | nil => exact .throw
        | cons result rest => exact functionType_follows alike result rest
      · rename_i existing _ _
        refine Follows.bind (each existing) fun replaced after final alike => ?_
        split
        · exact .pure alike type
        cases entry.generic with
        | none => exact .pure alike type
        | some generic => exact parameterizeVia_follows follows alike generic replaced
      · exact .pure alike type

end Types
end Resolution
