import Mathlib.Data.List.Nodup
import Resolution.Proofs.Mirroring

/-!
# Filling instances

Every operation on the types keeps instances in step with their definitions.  The heart is the
recursion that fills an instance: substitution in the bases asks for instances, which are filled in
turn or join a queue.  Histories of calls in which definitions are set up before they are completed
then lead to types where both ways of filling agree.
-/

namespace Resolution
namespace Types

variable {given : List MemberId} {types : Types}

/-! ## The recursion -/

/-- A definition, as opposed to an instance of one. -/
def IsDefinition (types : Types) (type : TypeId) : Prop :=
  ∀ entry, types.entries.get? type = some entry → entry.generic = none

/-- Instances stay in step with their definitions, whichever of them are being filled. -/
abbrev Regime.mirroring : Regime where
  fits types := ∃ unfinished given, types.Mirrored unfinished given
  leads before after := before.Sprouts (fun _ => False) after ∧
    (∃ unfinished given, after.Mirrored unfinished given) ∧
    ∀ unfinished given, before.Mirrored unfinished given → after.Mirrored unfinished given
  knows _ _ := True
  declared := True
  consed := fun ⟨_, _, mirrored⟩ => mirrored.consed
  refl fits := ⟨.refl _, fits, fun _ _ mirrored => mirrored⟩
  trans one two := ⟨one.1.trans two.1, two.2.1, fun _ _ mirrored =>
    two.2.2 _ _ (one.2.2 _ _ mirrored)⟩
  reached leads := leads.2.1
  extended leads := leads.1.keeps
  lasting _ _ := trivial
  stored _ _ := trivial
  replaced _ _ _ := trivial
  signature _ _ _ _ _ := trivial
  applied _ _ _ _ _ _ := trivial
  definition _ _ type entry arguments fits stored applied := by
    obtain ⟨_, _, mirrored⟩ := fits
    have isInstance := (mirrored.applied type entry stored).mp (by rw [applied]; rfl)
    obtain ⟨generic, original⟩ := Option.isSome_iff_exists.mp isInstance
    obtain ⟨definition, known, _, _, same⟩ := mirrored.definition type entry generic stored original
    exact ⟨generic, definition, original, known, same⟩
  declares _ _ _ type entry later leads stored found := by
    obtain ⟨waiting, there⟩ := leads.1.entries type entry id stored
    cases there.symm.trans found
    rfl

section Filling

variable {substitution : Substitution} {unfinished : TypeId → Prop} {given : MemberId → Prop}
  {types : Types}
  {arguments : List TypeId} {generic : TypeId}

section

variable (moves : Regime.mirroring.Moves substitution)

include moves

variable (mirrored : types.Mirrored unfinished given)

include mirrored

theorem ensures_substituteEach_replaces {parts parameters : List TypeId} :
    (parts.mapM fun part => substitution part parameters arguments).Ensures types
    fun answers after =>
      after.Mirrored unfinished given ∧ types.Sprouts (fun _ => False) after ∧
      after.ReplacedAll parameters arguments parts answers :=
  (moves.each ⟨unfinished, given, mirrored⟩ fun _ _ => trivial).weaken fun _ _ each =>
    ⟨each.leads.2.2 _ _ mirrored, each.leads.1, each.replaced trivial⟩

/-- An unfinished instance of a complete definition is filled; nothing else that exists is touched.
-/
theorem ensures_instantiate_mirrors {type : TypeId}
    {entry definition : TypeEntry}
    (stored : types.entries.get? type = some entry) (original : entry.generic = some generic)
    (blank : entry.complete = false)
    (known : types.entries.get? generic = some definition) (complete : definition.complete = true) :
    (instantiate substitution type).Ensures types fun _ after =>
      after.Mirrored (fun other => unfinished other ∧ other ≠ type) given ∧
      types.Sprouts (· = type) after ∧
      ∃ related members, after.entries.get? type =
      some { entry with related, members, complete := true } := by
  unfold instantiate
  refine .get ?_
  refine .fetch fun found again => ?_
  obtain rfl : found = entry := Option.some.inj (again.symm.trans stored)
  rw [original]
  dsimp only
  obtain ⟨arguments, applied⟩ : ∃ arguments, found.arguments = some arguments := by
    refine Option.isSome_iff_exists.mp ((mirrored.applied type found stored).mpr ?_)
    rw [original]
    rfl
  have context : types.substitutionOf type = .ok (definition.parameters, arguments) := by
    simp only [substitutionOf, entry, (Table.fetch_eq_ok_iff _ _ _).mpr stored,
      (Table.fetch_eq_ok_iff _ _ _).mpr known, original, applied, bind, Except.bind, pure,
        Except.pure]
  refine .ask fun pair answered => ?_
  cases context.symm.trans answered
  refine .fetch fun source again => ?_
  obtain rfl : source = definition := Option.some.inj (again.symm.trans known)
  refine .bind (ensures_substituteEach_replaces moves mirrored) ?_
  rintro related middle ⟨kept, sprouts, replaced⟩
  have idle := mirrored.unawaited stored original
  obtain ⟨late, here⟩ := sprouts.entries type found id stored
  obtain ⟨more, there⟩ := sprouts.entries generic source id known
  have still : late = [] := by
    have none := kept.unawaited here original
    simpa [idle] using none
  have settled : more = [] := by
    have none := kept.attended generic _ there complete
    simpa using (List.append_eq_nil_iff.mp none).2
  subst still settled
  rw [List.append_nil] at here there
  refine Action.ensures_bind.mpr (.updateIn fun _ => ?_)
  have based (other : TypeId) := middle.entries.get?_modify type other fun entry =>
    { entry with related }
  refine .get ?_
  refine .ask fun members listed => ?_
  have apart : generic ≠ type := by
    rintro rfl
    obtain ⟨_, again, plain, _⟩ := mirrored.definition generic found generic stored original
    cases stored.symm.trans again
    cases plain.symm.trans original
  have sorted : members = source.members.sorted := by
    have reached : (middle.entries.modify type fun entry => { entry with related }).get? generic =
      some source := by
      rw [based, if_neg apart, there]
    obtain ⟨same, again, answer⟩ := (except_bind_eq_ok_iff ..).mp listed
    rw [(Table.fetch_eq_ok_iff _ _ _).mp again] at reached
    cases reached
    exact (Except.ok.inj answer).symm
  subst sorted
  have emptied : ({ found with related } : TypeEntry).members.Distinct :=
    kept.distinct type found here
  refine .bind (ensures_copyMembers_copies (by rw [based, if_pos rfl, here]; rfl)
    (kept.distinct generic source there).sorted emptied) ?_
  rintro _ copied ⟨table, copies⟩
  refine .updateIn fun _ => ?_
  have filled (other : TypeId) := copied.entries.get?_modify type other fun entry =>
    { entry with complete := true }
  have exactly (other : TypeId) :
    (copied.entries.modify type fun entry => { entry with complete := true }).get? other =
      if other = type then some { found with related, members := table, complete := true }
      else middle.entries.get? other := by
    rw [filled]
    split
    · rw [copies.entries, if_pos ‹_›]
      rfl
    · rename_i apart
      rw [copies.entries, if_neg apart, based, if_neg apart]
  have whole : middle.Copies type { found with related, complete := true } source.members.sorted
    table
      { copied with
        entries := copied.entries.modify type fun entry => { entry with complete := true } } :=
    { copies with entries := exactly }
  refine ⟨kept.fill here original blank there complete (by simpa [applied] using replaced) whole,
    ⟨?_, ?_, ?_⟩,
    related, table, (exactly type).trans (by rw [if_pos rfl, original])⟩
  · intro other before apart found
    rw [exactly, if_neg apart]
    exact sprouts.entries other before id found
  · intro id member found
    exact copies.older id member (sprouts.members id member found)
  · intro other entry apart missing found
    rw [exactly, if_neg apart] at found
    exact sprouts.nameless other entry id missing found

/-- The instance that is answered has the symbol and the type arguments that were asked for. -/
theorem ensures_parameterizeVia_mirrors (isDefinition : types.IsDefinition generic) :
    (parameterizeVia substitution generic arguments).Ensures types fun type after =>
      after.Mirrored unfinished given ∧ types.Sprouts (fun _ => False) after ∧
      Regime.IsInstance types generic arguments type after := by
  have young : ¬unfinished types.entries.next := by
    intro begun
    obtain ⟨entry, there, _⟩ := mirrored.begun _ begun
    exact Table.ne_next_of_get? there rfl
  unfold parameterizeVia
  split
  · rename_i isEmpty
    exact .pure ⟨mirrored, .refl types, fun applied => absurd (by simpa using isEmpty) applied⟩
  refine .get ?_
  refine .fetch fun found stored => ?_
  have plain := isDefinition found stored
  cases declared : found.symbol with
  | none => exact .throw
  | some symbol =>
    refine .get ?_
    cases interned : types.interned? (.applied symbol arguments) with
    | some type =>
      obtain ⟨entry, there, owner, applied⟩ :=
        mirrored.consed.foundInstance symbol arguments type interned
      exact .pure ⟨mirrored, .refl types, fun _ =>
        ⟨found, entry, stored, there, owner.trans declared.symm, applied⟩⟩
    | none =>
      refine Action.ensures_bind.mpr (ensures_push.mpr ?_)
      refine Action.ensures_bind.mpr (ensures_remember.mpr ?_)
      have joined := mirrored.push_instance stored plain declared interned
      have isNew := Table.get?_push_next types.entries
        (instanceEntry found symbol arguments generic)
      have remains := Table.get?_push_of_stored (instanceEntry found symbol arguments generic)
        stored
      split
      · rename_i complete
        refine Action.ensures_bind.mpr
          ((ensures_instantiate_mirrors moves joined isNew rfl rfl remains complete).weaken ?_)
        rintro _ after ⟨kept, filling, related, members, there⟩
        refine .pure ⟨kept.congr fun other => ?_, ?_, fun _ =>
          ⟨found, _, stored, there, declared.symm, rfl⟩⟩
        · by_cases isLast : other = types.entries.next
          · subst isLast
            simp [young]
          · simp [isLast]
        · refine ⟨fun type before _ stored => ?_, fun id member stored =>
            filling.members id member stored, ?_⟩
          · exact filling.entries type before (Table.ne_next_of_get? stored)
              (Table.get?_push_of_stored _ stored)
          · intro type entry _ missing found plain
            by_cases isLast : type = types.entries.next
            · rw [isLast, there] at found
              cases found
              cases plain
            · refine filling.nameless type entry isLast ?_ found plain
              rwa [Table.get?_push_of_ne _ _ isLast]
      · rename_i incomplete
        refine Action.ensures_bind.mpr (.updateIn fun _ => ?_)
        have grows : types.Sprouts (fun _ => False) { types with
            entries := types.entries.push (instanceEntry found symbol arguments generic)
            interned := (.applied symbol arguments, types.entries.next) :: types.interned } :=
              .push nofun
        refine .pure ⟨joined.enqueue remains (by simpa using incomplete) isNew rfl rfl young,
          grows.trans (.enqueue _ _ _),
          fun _ => ⟨found, instanceEntry found symbol arguments generic, stored, ?_, declared.symm,
            rfl⟩⟩
        exact (Table.get?_modify_of_ne _ _ (Table.ne_next_of_get? stored).symm).trans isNew

end

theorem ensures_functionType_mirrors {result : TypeId}
    (mirrored : types.Mirrored unfinished given) :
    (functionType result arguments).Ensures types fun type after =>
      after.Mirrored unfinished given ∧ types.Sprouts (fun _ => False) after ∧
      ∃ entry, after.entries.get? type = some entry ∧ entry.kind = .function ∧
        entry.related = result :: arguments := by
  unfold functionType
  refine .get ?_
  cases interned : types.interned? (.function (result :: arguments)) with
  | some type =>
    exact .pure ⟨mirrored, .refl types, mirrored.consed.foundFunction _ type interned⟩
  | none =>
    refine Action.ensures_bind.mpr (ensures_push.mpr ?_)
    refine Action.ensures_bind.mpr (ensures_remember.mpr (.pure ?_))
    have joined : HashConsed
        { types with
          entries := types.entries.push
            { kind := .function, related := result :: arguments, complete := true }
          interned := (.function (result :: arguments), types.entries.next) :: types.interned } :=
      mirrored.consed.push_function rfl rfl rfl rfl interned
    exact ⟨mirrored.push_plain joined rfl rfl rfl rfl, .push fun _ =>
      ⟨rfl, rfl⟩, _, Table.get?_push_next _ _, rfl, rfl⟩

end Filling

theorem moves_substitute_mirrors (fuel : Nat) : Regime.mirroring.Moves (substitute fuel) := by
  refine Regime.moves_substitute ?_ ?_ fuel
  · rintro types result arguments ⟨unfinished, given, mirrored⟩ _ type after run
    have built := ensures_functionType_mirrors mirrored type after run
    exact ⟨⟨built.2.1, ⟨unfinished, given, built.1⟩, fun _ _ others =>
      (ensures_functionType_mirrors others type after run).1⟩, built.2.2⟩
  · rintro substitution moves types generic arguments ⟨unfinished, given, mirrored⟩ _
      ⟨made, entry, stored, original⟩ type
      after run
    obtain ⟨definition, known, plain, _⟩ := mirrored.definition made entry generic stored original
    have isDefinition : types.IsDefinition generic := by
      intro again found
      cases known.symm.trans found
      exact plain
    have built := ensures_parameterizeVia_mirrors moves mirrored isDefinition type after run
    exact ⟨⟨built.2.1, ⟨unfinished, given, built.1⟩, fun _ _ others =>
      (ensures_parameterizeVia_mirrors moves others isDefinition type after run).1⟩, built.2.2⟩

theorem substitute_replaces (fuel : Nat) (unfinished : TypeId → Prop) (given : MemberId → Prop)
    (types : Types)
    (type : TypeId) (parameters arguments : List TypeId)
    (mirrored : types.Mirrored unfinished given) :
    (substitute fuel type parameters arguments).Ensures types fun result after =>
      after.Mirrored unfinished given ∧ types.Sprouts (fun _ => False) after ∧
      after.Replaced parameters arguments type result :=
  (moves_substitute_mirrors fuel types type parameters arguments ⟨unfinished, given, mirrored⟩
    fun _ _ => trivial).weaken
    fun _ _ answers => ⟨answers.leads.2.2 _ _ mirrored, answers.leads.1, answers.replaced trivial⟩

/-! ## Between two calls -/

/-- Definitions stay as they are, except that they collect waiting instances, and except for the
touched ones.  New types are instances or functions. -/
structure Steady (touched : TypeId → Prop) (before after : Types) : Prop where
  kept : before.Extends after
  definitions : ∀ type entry, ¬touched type → before.entries.get? type = some entry →
    entry.generic = none →
    ∃ waiting, after.entries.get? type = some { entry with waiting }
  functions : ∀ type entry, before.entries.get? type = none → after.entries.get? type = some entry →
    entry.generic = none → entry.symbol = none ∧ entry.kind = .function

namespace Steady

variable {touched : TypeId → Prop} {before after : Types}

theorem refl (types : Types) : types.Steady touched types where
  kept := .refl types
  definitions _ entry _ stored _ := ⟨entry.waiting, stored⟩
  functions _ _ missing found := by
    cases missing.symm.trans found

/-- One definition changes. -/
theorem of_lookup {type : TypeId} {entry changed : TypeEntry}
    (stored : before.entries.get? type = some entry)
    (lookup : ∀ other, after.entries.get? other = if other =
      type then some changed else before.entries.get? other)
    (keeps : entry.Keeps changed) : before.Steady (· = type) after where
  kept := extends_of_lookup stored lookup keeps
  definitions _ known apart found _ := ⟨known.waiting, by rw [lookup, if_neg apart, found]⟩
  functions _ _ missing found := by
    rw [lookup] at found
    split at found
    · rename_i same
      cases stored.symm.trans (same ▸ missing)
    · cases missing.symm.trans found

theorem trans {first second third : Types} (one : first.Steady touched second)
    (two : second.Steady touched third) :
    first.Steady touched third where
  kept := one.kept.trans two.kept
  definitions type entry apart stored plain := by
    obtain ⟨_, middle⟩ := one.definitions type entry apart stored plain
    obtain ⟨waiting, final⟩ := two.definitions type _ apart middle plain
    exact ⟨waiting, final⟩
  functions type entry missing found plain := by
    cases between : second.entries.get? type with
    | none => exact two.functions type entry between found plain
    | some middle =>
      obtain ⟨later, same, keeps⟩ := two.kept type middle between
      cases found.symm.trans same
      obtain ⟨nameless, isFunction⟩ := one.functions type middle missing between
        (keeps.generic.symm.trans plain)
      exact ⟨(keeps.symbol (.inl isFunction)).trans nameless, keeps.kind.trans isFunction⟩

theorem of_sprouts (sprouts : before.Sprouts (fun _ => False) after) :
    before.Steady touched after where
  kept := sprouts.keeps
  definitions type entry _ stored _ := by
    obtain ⟨waiting, found⟩ := sprouts.entries type entry id stored
    exact ⟨_, found⟩
  functions type entry := sprouts.nameless type entry id

theorem of_members (types : Types) (members : Table MemberId Member) :
    types.Steady touched { types with members } where
  kept _ entry stored := ⟨entry, stored, .refl entry⟩
  definitions _ entry _ stored _ := ⟨entry.waiting, stored⟩
  functions _ _ missing found := by
    cases missing.symm.trans found

theorem widen (steady : before.Steady (fun _ => False) after) : before.Steady touched after where
  kept := steady.kept
  definitions type entry _ := steady.definitions type entry id
  functions := steady.functions

end Steady

section Calls

variable {given : MemberId → Prop} {types : Types} {type : TypeId}

theorem ensures_fillAll_mirrors (fuel : Nat) {waiting : List TypeId} {definition : TypeEntry}
    (mirrored : types.Mirrored (fun other => other ∈ waiting) given) (distinct : waiting.Nodup)
    (stored : types.entries.get? type = some definition) (plain : definition.generic = none)
    (complete : definition.complete = true)
    (blank : ∀ other ∈ waiting, ∃ entry, types.entries.get? other = some entry ∧
      entry.generic = some type ∧
      entry.complete = false) :
    (waiting.forM (instantiate (substitute fuel))).Ensures types fun _ after =>
      after.Mirrored (fun _ => False) given ∧ types.Steady (fun _ => False) after := by
  induction waiting generalizing types definition with
  | nil => exact .pure ⟨mirrored.congr fun other => by simp, .refl types⟩
  | cons first rest ih =>
    obtain ⟨apart, distinctRest⟩ := List.nodup_cons.mp distinct
    obtain ⟨entry, there, original, incomplete⟩ := blank first List.mem_cons_self
    refine .bind (ensures_instantiate_mirrors (moves_substitute_mirrors fuel) mirrored there
      original
      incomplete stored complete) ?_
    rintro _ middle ⟨kept, sprouts, related, members, filled⟩
    have typeApart : type ≠ first := by
      rintro rfl
      cases stored.symm.trans there
      cases plain.symm.trans original
    have steady : types.Steady (fun _ => False) middle := by
      refine ⟨?_, fun other before _ found plainOther => ?_, fun other after missing => ?_⟩
      · intro other before found
        by_cases here : other = first
        · subst here
          cases there.symm.trans found
          have noFunction := mirrored.consed.kind_ne_of_generic there original
          exact ⟨_, filled, rfl, rfl, rfl, fun isFunction => absurd isFunction noFunction, fun _ =>
            rfl⟩
        · obtain ⟨more, later⟩ := sprouts.entries other before here found
          exact ⟨_, later, rfl, rfl, rfl, fun _ => rfl, fun _ => rfl⟩
      · have here : other ≠ first := by
          rintro rfl
          cases there.symm.trans found
          cases plainOther.symm.trans original
        obtain ⟨more, later⟩ := sprouts.entries other before here found
        exact ⟨_, later⟩
      · refine sprouts.nameless other after ?_ missing
        rintro rfl
        cases there.symm.trans missing
    obtain ⟨more, later⟩ := sprouts.entries type definition typeApart stored
    refine (ih (kept.congr fun other => ?_) distinctRest later plain complete ?_).weaken ?_
    · constructor
      · rintro ⟨listed, distinctFirst⟩
        exact (List.mem_cons.mp listed).resolve_left distinctFirst
      · intro listed
        refine ⟨List.mem_cons_of_mem first listed, ?_⟩
        rintro rfl
        exact apart listed
    · intro other listed
      obtain ⟨before, found, originalOther, incompleteOther⟩ :=
        blank other (List.mem_cons_of_mem first listed)
      have different : other ≠ first := by
        rintro rfl
        exact apart listed
      obtain ⟨_, laterOther⟩ := sprouts.entries other before different found
      exact ⟨_, laterOther, originalOther, incompleteOther⟩
    · rintro _ after ⟨done, further⟩
      exact ⟨done, steady.trans further⟩

theorem ensures_complete_mirrors (fuel : Nat) (mirrored : types.Mirrored (fun _ => False) given)
    (isDefinition : types.IsDefinition type) : (complete fuel type).Ensures types fun _ after =>
      after.Mirrored (fun _ => False) given ∧ types.Steady (· = type) after ∧
      ∀ entry, types.entries.get? type = some entry →
        ∃ waiting, after.entries.get? type = some { entry with complete := true, waiting } := by
  unfold complete
  refine .get ?_
  refine .fetch fun found stored => ?_
  have plain := isDefinition found stored
  refine Action.ensures_bind.mpr (.updateIn fun _ => ?_)
  have lookup (other : TypeId) := types.entries.get?_modify type other
    fun entry => { entry with complete := true, waiting := [] }
  have completed : (types.entries.modify type fun entry =>
    { entry with complete := true, waiting := [] }).get? type =
      some { found with complete := true, waiting := [] } := by
    rw [lookup, if_pos rfl, stored]
    rfl
  have marked : types.Steady (· = type)
      { types with
        entries := types.entries.modify type fun entry =>
          { entry with complete := true, waiting := [] } } :=
    .of_lookup stored (Table.get?_modify_of_stored stored) ⟨rfl, rfl, rfl, fun _ => rfl, fun _ =>
      rfl⟩
  obtain ⟨distinct, waits⟩ := mirrored.waiting type found stored
  refine (ensures_fillAll_mirrors fuel (mirrored.start stored plain) distinct completed plain rfl
    ?_).weaken ?_
  · intro other listed
    obtain ⟨_, instanceEntry, there, original, incomplete⟩ := waits other listed
    have apart : other ≠ type := by
      rintro rfl
      cases stored.symm.trans there
      cases plain.symm.trans original
    exact ⟨instanceEntry, by rw [lookup, if_neg apart, there], original, incomplete⟩
  · rintro _ after ⟨kept, steady⟩
    refine ⟨kept, marked.trans steady.widen, fun entry again => ?_⟩
    cases stored.symm.trans again
    exact steady.definitions type _ id completed plain

theorem ensures_memberType_mirrors (symbols : Symbols) (fuel : Nat) (id : MemberId)
    (mirrored : types.Mirrored (fun _ => False) given) :
    (memberType symbols fuel id).Ensures types fun _ after =>
      after.Mirrored (fun _ => False) given ∧ types.Steady (fun _ => False) after := by
  refine ensures_memberType_keeping ?_ ?_ symbols fuel id ⟨mirrored, .refl types⟩
  · rintro now fuel _ base pair ⟨kept, steady⟩ _
    refine (substitute_replaces fuel _ _ now base pair.1 pair.2 kept).weaken ?_
    rintro _ after ⟨keptAfter, sprouts, _⟩
    exact ⟨keptAfter, steady.trans (.of_sprouts sprouts)⟩
  · rintro now id type ⟨kept, steady⟩
    exact ⟨kept.type_member id type, steady.trans (.of_members now _)⟩

end Calls

/-! ## Histories of definitions -/

/-- No instance of a type has been asked for. -/
def Uninstantiated (types : Types) (type : TypeId) : Prop :=
  ∀ other entry, types.entries.get? other = some entry → entry.generic ≠ some type

/-- A definition that may be set up further: it is not complete, or nothing was made from it. -/
def IsOpen (types : Types) (type : TypeId) : Prop :=
  ∀ entry, types.entries.get? type = some entry →
    entry.generic = none ∧ (entry.complete = false ∨ types.Uninstantiated type)

/-- Definitions are set up before they are complete, and only definitions are set up, completed and
instantiated. -/
def Call.InOrder (types : Types) : Call → Prop
  | .bindBuiltin type _ => types.IsDefinition type ∧ types.Uninstantiated type
  | .setParameters type _ | .setRelated type _ | .insertMember type _ _ | .setMember type _ _ =>
    types.IsOpen type
  | .complete _ type | .parameterize _ type _ => types.IsDefinition type
  | _ => True

/-- The member that a call makes for its caller. -/
def Call.makes (types : Types) : Call → List MemberId
  | .createMember _ => [types.members.next]
  | _ => []

/-- States that the built-in types lead to by calls in order, together with the members that callers
made. -/
inductive Orderly : List MemberId → Types → Prop where
  | new : Orderly [] .new
  | call {given : List MemberId} {types after : Types} (call : Call) : Orderly given types →
    call.Admitted types →
      call.InOrder types → call.run types = .ok () after → Orderly (call.makes types ++ given) after

instance (call : Call) : Decidable (call.InOrder types) := by
  apply @Call.casesOn _ call <;> intros <;>
    (dsimp only [Call.InOrder, IsOpen, IsDefinition, Uninstantiated]; infer_instance)

/-- Members that are there after some calls. -/
def made : List Call → Types → List MemberId → List MemberId
  | [], _, given => given
  | call :: rest, types, given => made rest (call.run.final types) (call.makes types ++ given)

theorem Orderly.run (orderly : Orderly given types) (calls : List Call)
    (runs : Runs (fun types call => call.Admitted types ∧ call.InOrder types) calls types) :
    Orderly (made calls types given) (calls.foldl (fun types call => call.run.final types) types) :=
  by
  induction calls generalizing types given with
  | nil => exact orderly
  | cons call rest ih =>
    obtain ⟨⟨admitted, inOrder⟩, returned, later⟩ := runs
    exact ih (orderly.call call admitted inOrder (Action.eq_ok_of_answer? returned)) later

section Setting

variable {given : MemberId → Prop} {types : Types} {type : TypeId} {unfinished : TypeId → Prop}

variable (mirrored : types.Mirrored unfinished given)

include mirrored

/-- A definition without filled instances is set up further. -/
theorem ensures_update_mirrors {change : TypeEntry → TypeEntry}
    (isOpen : types.IsOpen type)
    (keeps : ∀ entry, types.entries.get? type = some entry → entry.Keeps (change entry))
    (symbol : ∀ entry, (change entry).symbol = entry.symbol)
    (waiting : ∀ entry, (change entry).waiting = entry.waiting)
    (complete : ∀ entry, (change entry).complete = entry.complete)
    (distinct : ∀ entry, types.entries.get? type = some entry → entry.members.Distinct →
      (change entry).members.Distinct) :
    (update type change).Ensures types fun _ after => after.Mirrored unfinished given := by
  refine .updateIn fun inside => ?_
  obtain ⟨entry, stored⟩ := Table.exists_get?_of_lt inside
  obtain ⟨plain, free⟩ := isOpen entry stored
  refine mirrored.change stored plain (Table.get?_modify_of_stored stored) rfl rfl
    (keeps entry stored) (waiting entry)
    (.inl (complete entry)) (distinct entry stored (mirrored.distinct type entry stored)) ?_
  intro other filled found original
  refine ⟨?_, symbol entry⟩
  rcases free with incomplete | unused
  · cases done : filled.complete with
    | false => rfl
    | true =>
      rw [mirrored.mature other filled type entry found original stored done] at incomplete
      cases incomplete
  · exact absurd original (unused other filled found)

theorem ensures_bindBuiltin_mirrors (builtin : type.index < 10) (plain : types.IsDefinition type)
    (unused : types.Uninstantiated type)
    (symbol : SymbolId) : (bindBuiltin type symbol).Ensures types fun _ after =>
    after.Mirrored unfinished given := by
  refine .updateIn fun inside => ?_
  obtain ⟨entry, stored⟩ := Table.exists_get?_of_lt inside
  obtain ⟨known, found, noFunction, unapplied⟩ := mirrored.consed.builtin type.index builtin
  obtain rfl : known = entry := Option.some.inj (found.symm.trans stored)
  refine mirrored.change stored (plain known stored) (Table.get?_modify_of_stored stored) rfl rfl
    ⟨rfl, rfl, rfl, fun _ => rfl, ?_⟩ rfl (.inl rfl) (mirrored.distinct type known stored)
    fun other filled found original => absurd original (unused other filled found)
  rintro (isFunction | isInstance)
  · exact absurd isFunction noFunction
  · simp [unapplied] at isInstance

theorem ensures_insertMember_mirrors (isOpen : types.IsOpen type) (name : String)
    (member : MemberId) :
    (insertMember type name member).Ensures types fun _ after =>
    after.Mirrored unfinished given := by
  unfold insertMember
  refine .get ?_
  refine .fetch fun entry stored => ?_
  split
  · exact .pure mirrored
  · rename_i members inserted
    obtain ⟨_, same⟩ := NameTable.eq_set_of_insert inserted
    have written : (update type fun entry => { entry with members }).Ensures types
        fun _ after => after.Mirrored unfinished given := by
      refine ensures_update_mirrors mirrored isOpen (fun _ _ =>
        ⟨rfl, rfl, rfl, fun _ => rfl, fun _ => rfl⟩)
        (fun _ => rfl) (fun _ => rfl) (fun _ => rfl) ?_
      intro again found distinct
      cases stored.symm.trans found
      rw [same]
      exact distinct.set name member
    exact Action.ensures_bind.mpr (written.weaken fun _ _ kept => .pure kept)

end Setting

/-- One call in order keeps the invariant; members that a caller made are known as such. -/
theorem Call.ensures_run_mirrors (call : Call) {types : Types}
    (mirrored : types.Mirrored (fun _ => False) (· ∈ given)) (admitted : call.Admitted types)
    (inOrder : call.InOrder types) :
    call.run.Ensures types fun _ after =>
    after.Mirrored (fun _ => False) (· ∈ call.makes types ++ given) := by
  cases call with
  | createNamed kind symbol =>
    refine Action.ensures_bind.mpr (ensures_push.mpr (.pure ?_))
    exact mirrored.push_plain (mirrored.consed.push_named admitted rfl) rfl rfl rfl rfl
  | bindBuiltin type symbol =>
    exact ensures_bindBuiltin_mirrors mirrored (Nat.lt_succ_of_le admitted.2) inOrder.1 inOrder.2
      symbol
  | setParameters type parameters =>
    exact ensures_update_mirrors mirrored inOrder (fun _ _ =>
      ⟨rfl, rfl, rfl, fun _ => rfl, fun _ => rfl⟩)
      (fun _ => rfl) (fun _ => rfl) (fun _ => rfl) fun _ _ distinct => distinct
  | setRelated type related =>
    exact ensures_update_mirrors mirrored inOrder (fun entry stored =>
      keeps_of_setRelated (admitted entry stored))
      (fun _ => rfl) (fun _ => rfl) (fun _ => rfl) fun _ _ distinct => distinct
  | complete fuel type =>
    exact (ensures_complete_mirrors fuel mirrored inOrder).weaken fun _ _ kept => kept.1
  | createMember member =>
    refine Action.ensures_bind.mpr (ensures_createMember.mpr (.pure ?_))
    have same : (fun id => id ∈ given ∨ id = types.members.next) =
        (· ∈ (Call.createMember member).makes types ++ given) := by
      funext id
      simp [Call.makes, or_comm]
    exact same ▸ mirrored.push_member member
  | insertMember type name member =>
    exact Action.ensures_bind.mpr
      ((ensures_insertMember_mirrors mirrored inOrder name member).weaken
      fun _ _ kept => .pure kept)
  | setMember type name member =>
    exact ensures_update_mirrors mirrored inOrder (fun _ _ =>
      ⟨rfl, rfl, rfl, fun _ => rfl, fun _ => rfl⟩)
      (fun _ => rfl) (fun _ => rfl) (fun _ => rfl) fun _ _ distinct => distinct.set name member
  | memberType symbols fuel member =>
    exact Action.ensures_bind.mpr ((ensures_memberType_mirrors symbols fuel member mirrored).weaken
      fun _ _ kept => .pure kept.1)
  | functionType result arguments =>
    exact Action.ensures_bind.mpr ((ensures_functionType_mirrors mirrored).weaken
      fun _ _ kept => .pure kept.1)
  | parameterize fuel generic arguments =>
    exact Action.ensures_bind.mpr
      ((ensures_parameterizeVia_mirrors (moves_substitute_mirrors fuel) mirrored inOrder).weaken
      fun _ _ kept => .pure kept.1)
  | substitute fuel type parameters arguments =>
    exact Action.ensures_bind.mpr
      ((substitute_replaces fuel _ _ _ type parameters arguments mirrored).weaken
      fun _ _ kept => .pure kept.1)

theorem Orderly.mirrored (orderly : Orderly given types) :
    types.Mirrored (fun _ => False) (· ∈ given) := by
  induction orderly with
  | new =>
    have same : (fun _ => False : MemberId → Prop) = (· ∈ []) := by
      funext id
      simp
    exact same ▸ Mirrored.new
  | call call _ admitted inOrder returned mirrored =>
    exact call.ensures_run_mirrors mirrored admitted inOrder () _ returned

/-- Every instance follows its definition, whether it was asked for before or after the definition
was complete.  The instances of a complete definition are complete and were filled once: they have
its names, each with a member of their own that stands for the member of the definition, and its
bases with type arguments for type parameters.  The instances of an incomplete definition are blank
and wait for it, each of them once. -/
theorem instances_follow_definitions {given : List MemberId} {types : Types}
    (orderly : Orderly given types)
    {type generic : TypeId} {entry : TypeEntry} (stored : types.entries.get? type = some entry)
    (original : entry.generic = some generic) :
    ∃ definition arguments, types.entries.get? generic = some definition ∧
    definition.generic = none ∧
      entry.arguments = some arguments ∧
      (definition.complete = true → entry.complete = true ∧
        (∀ name, (entry.members.find? name).isSome ↔ (definition.members.find? name).isSome) ∧
        (∀ name source, definition.members.find? name = some source →
          ∃ copy, entry.members.find? name = some copy ∧ copy ∉ given ∧
          types.IsCopy type source copy) ∧
        (∀ id member, types.members.get? id = some member → member.instanceType = some type →
          id ∉ given →
          ∃ name, entry.members.find? name = some id ∧ ∀ other, entry.members.find? other =
          some id → other = name) ∧
        ∀ related, types.ReplacedAll definition.parameters arguments definition.related related ↔
          related = entry.related) ∧
      (definition.complete = false → entry.complete = false ∧ entry.members = .empty ∧
        entry.related = [] ∧
        definition.waiting.count type = 1) := by
  have mirrored := orderly.mirrored
  obtain ⟨definition, known, plain, _⟩ := mirrored.definition type entry generic stored original
  have isInstance : entry.generic.isSome := by
    rw [original]
    rfl
  obtain ⟨arguments, applied⟩ :=
    Option.isSome_iff_exists.mp ((mirrored.applied type entry stored).mpr isInstance)
  refine ⟨definition, arguments, known, plain, applied, fun done => ?_, fun undone => ?_⟩
  · have complete : entry.complete = true := by
      have nothing := mirrored.attended generic definition known done
      simpa [nothing] using mirrored.filled type entry generic definition stored original known
    have mirrors := mirrored.mirrors type entry generic definition stored original known complete
    refine ⟨complete, fun name => ⟨fun named => ?_, fun named => ?_⟩, fun name source named =>
      ?_, mirrors.once,
      fun related => ⟨fun replaced => ?_, ?_⟩⟩
    · obtain ⟨copy, bound⟩ := Option.isSome_iff_exists.mp named
      obtain ⟨_, source, defined⟩ := mirrors.names name copy bound
      rw [defined]
      rfl
    · obtain ⟨source, defined⟩ := Option.isSome_iff_exists.mp named
      obtain ⟨copy, bound, _⟩ := mirrors.copies name source defined
      rw [bound]
      rfl
    · obtain ⟨copy, bound, isCopy⟩ := mirrors.copies name source named
      exact ⟨copy, bound, (mirrors.names name copy bound).1, isCopy⟩
    · have bases := mirrors.bases
      rw [applied] at bases
      exact replaced.unique mirrored.consed bases
    · rintro rfl
      have bases := mirrors.bases
      rwa [applied] at bases
  · have incomplete : entry.complete = false := by
      cases done : entry.complete with
      | false => rfl
      | true =>
        rw [mirrored.mature type entry generic definition stored original known done] at undone
        cases undone
    obtain ⟨related, members⟩ := mirrored.blank type entry stored isInstance incomplete
    refine ⟨incomplete, members, related, ?_⟩
    have queued : type ∈ definition.waiting := by
      simpa [incomplete] using mirrored.filled type entry generic definition stored original known
    exact List.count_eq_one_of_mem (mirrored.waiting generic definition known).1 queued

/-- A class `C<T>` has the base `I<T>` and one member, and `C<int>` is asked for before the class is
complete. -/
def basedCalls : List Call :=
  [.createNamed .classType ⟨0⟩, .createNamed .parameter ⟨1⟩, .createNamed .interface ⟨2⟩,
    .setParameters ⟨10⟩ [⟨11⟩],
    .parameterize 1 ⟨12⟩ [⟨11⟩], .setRelated ⟨10⟩ [⟨13⟩], .createMember (.own ⟨3⟩),
      .setMember ⟨10⟩ "first" ⟨0⟩,
    .parameterize 1 ⟨10⟩ [.int], .complete 2 ⟨10⟩]

/-- The instance is filled when the class is complete, and the instance of `I` that this asks for
waits. -/
theorem instances_follow_definitions_class :
    ∃ types filled waiting, Orderly [⟨0⟩] types ∧ types.entries.get? ⟨14⟩ = some filled ∧
      types.entries.get? ⟨15⟩ = some waiting ∧ filled.complete = true ∧
      (filled.members.find? "first").isSome ∧
      types.ReplacedAll [⟨11⟩] [.int] [⟨13⟩] filled.related ∧ waiting.complete = false := by
  have completed : Orderly [⟨0⟩] (afterCalls basedCalls) := Orderly.new.run basedCalls (by decide)
  obtain ⟨_, _, known, _, applied, done, _⟩ := @instances_follow_definitions _ _ completed ⟨14⟩
    ⟨10⟩ _ rfl rfl
  obtain ⟨_, _, defined, _, _, _, undone⟩ := @instances_follow_definitions _ _ completed ⟨15⟩
    ⟨12⟩ _ rfl rfl
  cases known
  cases applied
  cases defined
  obtain ⟨complete, names, _, _, bases⟩ := done rfl
  exact ⟨_, _, _, completed, rfl, rfl, complete, (names "first").mpr rfl, (bases _).mpr rfl,
    (undone rfl).1⟩

/-- Calls in order, except that a built-in type may be bound again when it has instances. -/
def Call.Rebinds (types : Types) : Call → Prop
  | .bindBuiltin type _ => types.IsDefinition type
  | call => call.InOrder types

instance (call : Call) : Decidable (call.Rebinds types) := by
  apply @Call.casesOn _ call <;> intros <;>
    (dsimp only [Call.Rebinds, IsDefinition]; infer_instance)

/-- A class `C<T>` has the base `List<T>`, and there is `List<int>`, when `List` gets another
symbol. -/
def rebasedCalls : List Call :=
  [.createNamed .parameter ⟨2⟩, .createNamed .classType ⟨3⟩, .setParameters ⟨11⟩ [⟨10⟩],
    .bindBuiltin .list ⟨0⟩, .parameterize 1 .list [⟨10⟩], .parameterize 1 .list [.int],
    .setRelated ⟨11⟩ [⟨12⟩], .bindBuiltin .list ⟨1⟩, .complete 1 ⟨11⟩, .parameterize 3 ⟨11⟩ [.int]]

/-- A built-in class has to keep its symbol once it has instances.  If `List` gets another one and
all else is in order, `C<int>` is complete but lacks the base `List<int>`, which is `List<T>` with
`int` for `T`. -/
theorem instances_of_rebound_builtin :
    Runs (fun types call => call.Admitted types ∧ call.Rebinds types) rebasedCalls .new ∧
      ∃ definition filled, (afterCalls rebasedCalls).entries.get? ⟨11⟩ = some definition ∧
        (afterCalls rebasedCalls).entries.get? ⟨14⟩ = some filled ∧ filled.generic = some ⟨11⟩ ∧
        filled.arguments = some [.int] ∧ definition.complete = true ∧ filled.complete = true ∧
        (afterCalls rebasedCalls).ReplacedAll definition.parameters [.int] definition.related
        [⟨13⟩] ∧
        filled.related ≠ [⟨13⟩] := by
  have argument : (afterCalls rebasedCalls).ReplacedAll [⟨10⟩] [.int] [⟨10⟩] [.int] :=
    .cons (.parameter rfl) (.nil _)
  have base : (afterCalls rebasedCalls).ReplacedAll [⟨10⟩] [.int] [⟨12⟩] [⟨13⟩] :=
    .cons (.applied rfl rfl rfl rfl rfl rfl argument.1 argument.2) (.nil _)
  exact ⟨by decide, _, _, rfl, rfl, rfl, rfl, rfl, rfl, base, by decide⟩

end Types
end Resolution
