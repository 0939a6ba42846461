import Resolution.Proofs.Growth

/-!
# Hash-consing of types

Calls of the operations keep types shared.  The invariant holds at every point of a call, because a
type is stored and remembered before anything else happens.  So at any time there is one function
type for a signature and one instance for a symbol and type arguments.
-/

namespace Resolution
namespace Types

variable {types : Types}

/-- Types that stay shared while they grow. -/
abbrev Growth.sharing : Growth where
  fits := HashConsed
  leads := Advances
  knows _ _ := True
  declared := False
  consed := id
  refl := .refl
  trans := .trans
  reached advances := advances.1
  extended advances := advances.2
  lasting _ _ := trivial
  stored _ _ := trivial
  replaced _ _ _ := trivial
  signature _ _ _ _ _ := trivial
  applied _ _ _ _ _ _ := trivial
  definition := nofun
  declares := nofun
  modify consed keeps _ _ _ := ⟨consed.modify keeps, extends_modify keeps⟩
  pushFunction consed _ fresh := ⟨consed.push_function rfl rfl rfl rfl fresh, extends_push _ _ _⟩
  pushInstance consed _ _ _ noFunction fresh :=
    ⟨consed.push_instance noFunction rfl rfl fresh, extends_push _ _ _⟩
  pushMember _ consed _ := consed.members _

theorem ensures_update {type : TypeId} {change : TypeEntry → TypeEntry} (consed : types.HashConsed)
    (keeps : ∀ entry, types.entries.get? type = some entry → entry.Keeps (change entry)) :
    (update type change).Ensures types fun _ => types.Advances := by
  refine .updateIn ?_
  intro _
  exact ⟨consed.modify keeps, extends_modify keeps⟩

/-- The function type that is answered has the signature that was asked for. -/
theorem ensures_functionType (consed : types.HashConsed) (result : TypeId)
    (arguments : List TypeId) :
    (functionType result arguments).Ensures types fun type after =>
      types.Advances after ∧ ∃ entry, after.entries.get? type = some entry ∧
        entry.kind = .function ∧ entry.related = result :: arguments :=
  Growth.sharing.buildsFunctions types result arguments consed fun _ _ => trivial

theorem substitute_advances (fuel : Nat) : Growth.sharing.Moves (substitute fuel) :=
  Growth.sharing.moves_substitute fuel

/-- The instance that is answered has the symbol of the definition and the type arguments that were
asked for. -/
theorem ensures_parameterizeVia {substitution : Substitution}
    (moves : Growth.sharing.Moves substitution)
    (generic : TypeId) (arguments : List TypeId) (consed : types.HashConsed) :
    (parameterizeVia substitution generic arguments).Ensures types fun type after =>
    types.Advances after ∧
        (arguments ≠ [] → ∀ definition, types.entries.get? generic = some definition →
          ∃ entry, after.entries.get? type = some entry ∧ entry.symbol = definition.symbol ∧
            entry.arguments = some arguments) := by
  refine (Growth.sharing.ensures_parameterizeVia moves generic consed fun _ _ => trivial).weaken ?_
  rintro type after ⟨advances, answers⟩
  refine ⟨advances, fun notEmpty definition stored => ?_⟩
  obtain ⟨known, entry, found, made⟩ := answers notEmpty
  obtain rfl : definition = known := Option.some.inj (stored.symm.trans found)
  exact ⟨entry, made⟩

/-! ## Histories of calls -/

/-- A call of an operation on the types. -/
inductive Call where
  | createNamed (kind : TypeKind) (symbol : SymbolId)
  | bindBuiltin (type : TypeId) (symbol : SymbolId)
  | setParameters (type : TypeId) (parameters : List TypeId)
  | setRelated (type : TypeId) (related : List TypeId)
  | complete (fuel : Nat) (type : TypeId)
  | createMember (member : Member)
  | insertMember (type : TypeId) (name : String) (member : MemberId)
  | setMember (type : TypeId) (name : String) (member : MemberId)
  | memberType (symbols : Symbols) (fuel : Nat) (member : MemberId)
  | functionType (result : TypeId) (arguments : List TypeId)
  | parameterize (fuel : Nat) (generic : TypeId) (arguments : List TypeId)
  | substitute (fuel : Nat) (type : TypeId) (parameters arguments : List TypeId)

/-- Make a call; what it answers is left out. -/
def Call.run : Call → Action Types Unit
  | .createNamed kind symbol => do let _ ← Types.createNamed kind symbol
  | .bindBuiltin type symbol => Types.bindBuiltin type symbol
  | .setParameters type parameters => Types.setParameters type parameters
  | .setRelated type related => Types.setRelated type related
  | .complete fuel type => Types.complete fuel type
  | .createMember member => do let _ ← Types.createMember member
  | .insertMember type name member => do let _ ← Types.insertMember type name member
  | .setMember type name member => Types.setMember type name member
  | .memberType symbols fuel member => do let _ ← Types.memberType symbols fuel member
  | .functionType result arguments => do let _ ← Types.functionType result arguments
  | .parameterize fuel generic arguments => do let _ ← Types.parameterize fuel generic arguments
  | .substitute fuel type parameters arguments => do
      let _ ← Types.substitute fuel type parameters arguments

/-- What callers promise: only `functionType` makes function types, a symbol is given to built-in
classes alone, and the signature of a function is left as it is. -/
def Call.Admitted (types : Types) : Call → Prop
  | .createNamed kind _ => kind ≠ .function
  | .bindBuiltin type _ => TypeId.bool.index ≤ type.index ∧ type.index ≤ TypeId.map.index
  | .setRelated type _ => ∀ entry, types.entries.get? type = some entry → entry.kind ≠ .function
  | _ => True

/-- States that the built-in types lead to by calls that return. -/
inductive Reachable : Types → Prop where
  | new : Reachable .new
  | call {types after : Types} (call : Call) : Reachable types → call.Admitted types →
      call.run types = .ok () after → Reachable after

/-- The table after some calls. -/
def afterCalls (calls : List Call) :
    Types := calls.foldl (fun types call => call.run.final types) .new

/-- Calls return one after the other, each where it is allowed. -/
def Runs (allowed : Types → Call → Prop) : List Call → Types → Prop
  | [], _ => True
  | call :: rest, types =>
    allowed types call ∧ call.run.answer? types = some () ∧ Runs allowed rest (call.run.final types)

section Runs

variable {allowed : Types → Call → Prop} {calls : List Call}

instance Runs.decidable [∀ types call, Decidable (allowed types call)] :
    (calls : List Call) → (types : Types) → Decidable (Runs allowed calls types)
  | [], _ => inferInstanceAs (Decidable True)
  | call :: rest, types =>
    have := decidable rest (call.run.final types)
    inferInstanceAs (Decidable (_ ∧ _ ∧ _))

instance (call : Call) : Decidable (call.Admitted types) := by
  apply @Call.casesOn _ call <;> intros <;> (dsimp only [Call.Admitted]; infer_instance)

theorem Runs.foldl {holds : Types → Prop} (runs : Runs allowed calls types)
    (step : ∀ {types after} call, holds types → allowed types call → call.run types = .ok () after →
      holds after)
    (start : holds types) : holds (calls.foldl (fun types call => call.run.final types) types) := by
  induction calls generalizing types with
  | nil => exact start
  | cons call rest ih =>
    obtain ⟨admitted, returned, later⟩ := runs
    exact ih later (step call start admitted (Action.eq_ok_of_answer? returned))

theorem Reachable.afterCalls (runs : Runs Call.Admitted calls .new) :
    Reachable (afterCalls calls) :=
  runs.foldl (fun call before => before.call call) .new

end Runs

/-- Calls that build types and write bases and members, but neither declare anything nor learn
types. -/
def Call.Builds : Call → Prop
  | .createNamed .. | .bindBuiltin .. | .setParameters .. | .createMember .. | .memberType .. =>
    False
  | _ => True

/-- The types that a call builds from. -/
def Call.parts : Call → List TypeId
  | .functionType result arguments => result :: arguments
  | .parameterize _ _ arguments | .substitute _ _ _ arguments => arguments
  | _ => []

theorem Growth.ensures_call (growth : Growth) (unlisted : ¬growth.listed) (call : Call)
    (fits : growth.fits types)
    (admitted : call.Admitted types) (builds : call.Builds) (given : ∀ part ∈ call.parts,
      growth.knows types part) :
    call.run.Ensures types fun _ => growth.leads types := by
  cases call with
  | createNamed | bindBuiltin | setParameters | createMember | memberType => exact builds.elim
  | setRelated type related => exact growth.ensures_setRelated fits related admitted
  | complete fuel type => exact growth.ensures_complete fuel type fits
  | insertMember type name member =>
    exact .bind (growth.ensures_insertMember (absurd · unlisted) fits type name) fun _ _ grown =>
      .pure grown
  | setMember type name member => exact growth.ensures_setMember (absurd · unlisted) fits type name
  | functionType result arguments =>
    exact .bind (growth.buildsFunctions types result arguments fits given) fun _ _ built =>
      .pure built.1
  | parameterize fuel generic arguments =>
    exact .bind (growth.ensures_parameterize fuel generic fits given) fun _ _ built => .pure built.1
  | substitute fuel type parameters arguments =>
    exact .bind (growth.moves_substitute fuel types type parameters arguments fits given)
      fun _ _ answers => .pure answers.leads

/-- One call keeps the invariant and extends the state. -/
theorem Call.ensures_run (call : Call) (consed : types.HashConsed)
    (admitted : call.Admitted types) : call.run.Ensures types fun _ => types.Advances := by
  cases call with
  | createNamed kind symbol =>
    refine Action.ensures_bind.mpr (ensures_push.mpr (.pure ?_))
    exact ⟨consed.push_named admitted rfl, extends_push types _ types.interned⟩
  | bindBuiltin type symbol =>
    exact ensures_update consed (consed.keeps_of_bindBuiltin (Nat.lt_succ_of_le admitted.2) symbol)
  | setParameters type parameters =>
    exact ensures_update consed fun _ _ => ⟨rfl, rfl, rfl, fun _ => rfl, fun _ => rfl⟩
  | createMember member =>
    exact Action.ensures_bind.mpr (ensures_createMember.mpr (.pure (consed.members _)))
  | memberType symbols fuel member =>
    exact .bind (Growth.sharing.ensures_memberType (fun _ _ _ consed => consed.members _) symbols
      fuel
      member consed) fun _ _ advanced => .pure advanced
  | setRelated | complete | insertMember | setMember | functionType | parameterize | substitute =>
    exact Growth.sharing.ensures_call id _ consed admitted trivial fun _ _ => trivial

theorem Reachable.hashConsed (reachable : Reachable types) : types.HashConsed := by
  induction reachable with
  | new => exact new_hashConsed
  | call call _ admitted returned consed => exact (call.ensures_run consed admitted () _ returned).1

theorem functionType_returns (types : Types) (result : TypeId) (arguments : List TypeId) :
    ∃ type after, functionType result arguments types = .ok type after := by
  cases interned : types.interned? (.function (result :: arguments)) with
  | some type =>
    refine ⟨type, types, (Action.bind_eq_ok_iff ..).mpr ⟨types, types, rfl, ?_⟩⟩
    rw [interned]
    rfl
  | none =>
    let entry : TypeEntry := { kind := .function, related := result :: arguments, complete := true }
    let after : Types :=
      { types with
        entries := types.entries.push entry
        interned := (.function (result :: arguments), types.entries.next) :: types.interned }
    refine ⟨types.entries.next, after, (Action.bind_eq_ok_iff ..).mpr ⟨types, types, rfl, ?_⟩⟩
    rw [interned]
    rfl

/-- Types are shared in every reachable state.  Function types with one signature are one type,
instances with one symbol and one list of type arguments are one type, `functionType` and
`parameterize` answer the type that was asked for, and no call changes the sort, type arguments or
definition of a stored type or the signature of a function. -/
theorem reachable_types_shared {types : Types} (reachable : Reachable types) :
    (∀ first second firstEntry secondEntry, types.entries.get? first = some firstEntry →
      types.entries.get? second = some secondEntry → firstEntry.kind = .function →
      secondEntry.kind = .function → firstEntry.related = secondEntry.related → first = second) ∧
    (∀ first second firstEntry secondEntry, types.entries.get? first = some firstEntry →
      types.entries.get? second = some secondEntry → firstEntry.isInstance →
      firstEntry.symbol = secondEntry.symbol → firstEntry.arguments = secondEntry.arguments →
      first = second) ∧
    (∀ result arguments, ∃ type after, functionType result arguments types = .ok type after ∧
      ∃ entry, after.entries.get? type = some entry ∧ entry.kind = .function ∧
        entry.related = result :: arguments) ∧
    (∀ fuel generic definition arguments type after, types.entries.get? generic = some definition →
      arguments ≠ [] → parameterize fuel generic arguments types = .ok type after →
      ∃ entry, after.entries.get? type = some entry ∧ entry.symbol = definition.symbol ∧
        entry.arguments = some arguments) ∧
    (∀ (call : Call) after, call.Admitted types → call.run types = .ok () after →
      ∀ type entry, types.entries.get? type = some entry →
        ∃ later, after.entries.get? type = some later ∧ later.kind = entry.kind ∧
          later.arguments = entry.arguments ∧ later.generic = entry.generic ∧
          (entry.kind = .function → later.related = entry.related)) := by
  have consed := reachable.hashConsed
  refine ⟨?_, ?_, ?_, ?_, ?_⟩
  · intro first second firstEntry secondEntry
    exact consed.function_unique
  · intro first second firstEntry secondEntry
    exact consed.instance_unique
  · intro result arguments
    obtain ⟨type, after, returned⟩ := functionType_returns types result arguments
    exact ⟨type, after, returned, (ensures_functionType consed result arguments type after
      returned).2⟩
  · intro fuel generic definition arguments type after stored given returned
    exact (ensures_parameterizeVia (substitute_advances fuel) generic arguments consed type after
      returned).2 given definition stored
  · intro call after admitted returned type entry stored
    obtain ⟨later, found, kept⟩ := (call.ensures_run consed admitted () after returned).2 type entry
      stored
    exact ⟨later, found, kept.kind, kept.arguments, kept.generic, kept.related⟩

/-- A generic list is declared, an instance of it is asked for before and after the definition is
complete, and a function type mentions the instance. -/
theorem reachable_types_shared_list : ∃ types applied function, Reachable types ∧
      types.entries.get? ⟨11⟩ = some applied ∧ applied.isInstance ∧ applied.symbol = some ⟨0⟩ ∧
      applied.arguments = some [.int] ∧ types.entries.get? ⟨12⟩ = some function ∧
      function.kind = .function ∧ function.related = [.void, ⟨11⟩] ∧ types.size = 13 ∧
      ∀ first second firstEntry secondEntry, types.entries.get? first = some firstEntry →
        types.entries.get? second = some secondEntry → firstEntry.isInstance →
        firstEntry.symbol = secondEntry.symbol → firstEntry.arguments = secondEntry.arguments →
        first = second := by
  have declared := Reachable.new.call (.bindBuiltin .list ⟨0⟩) ⟨by decide, by decide⟩ rfl
  have parameter := declared.call (.createNamed .parameter ⟨1⟩) (by simp [Call.Admitted]) rfl
  have generic := parameter.call (.setParameters .list [⟨10⟩]) trivial rfl
  have early := generic.call (.parameterize 3 .list [.int]) trivial rfl
  have completed := early.call (.complete 3 .list) trivial rfl
  have late := completed.call (.parameterize 3 .list [.int]) trivial rfl
  have mentioned := late.call (.functionType .void [⟨11⟩]) trivial rfl
  exact ⟨_, _, _, mentioned, rfl, rfl, rfl, rfl, rfl, rfl, rfl, rfl,
    (reachable_types_shared mentioned).2.1⟩

end Types
end Resolution
