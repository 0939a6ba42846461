import Resolution.Proofs.Filling
import Resolution.Proofs.MemberChains
import Resolution.Proofs.Substituting

/-!
# Member types over time

Calls build types and members while symbols are settled one by one.  As long as settled symbols keep
their types and definitions with instances keep their type parameters and their symbols, the type of
a member is the type of its symbol with the substitutions of its chain applied, at every time: it
does not matter which members were asked before, and a member that was asked once answers the same
type ever after.
-/

namespace Resolution
namespace Types

variable {types before after : Types} {symbols later : Symbols} {type : TypeId}

/-! ## One call -/

/-- What is remembered stays right where members learn nothing. -/
theorem Remembered.upheld (remembered : before.Remembered symbols) (upholds : before.Upholds after)
    (stand : SymbolsStand symbols later)
    (unlearned : ∀ id member type, after.members.get? id = some member → member.type = some type →
      ∃ earlier, before.members.get? id = some earlier ∧ earlier.type = some type) :
      after.Remembered later := by
  intro id member type stored known
  obtain ⟨earlier, found, learned⟩ := unlearned id member type stored known
  obtain ⟨owner, contexts, symbol, chain, known, settled, through⟩ :=
    computes_iff.mp (remembered id earlier type found learned)
  obtain ⟨now, knownStill, settledStill, sameType⟩ := stand owner symbol known settled
  refine computes_iff.mpr ⟨owner, contexts, now, chain.keep upholds, knownStill, settledStill, ?_⟩
  rw [Symbol.typeOrError, sameType]
  exact through.keep upholds

/-- A definition is set up further: its instances agree with its symbol, and their substitutions
stay. -/
theorem Rooted.change (rooted : types.Rooted) {change : TypeEntry → TypeEntry}
    (keeps : ∀ entry, types.entries.get? type = some entry → entry.Keeps (change entry))
    (agrees : ∀ entry other made, types.entries.get? type = some entry →
      types.entries.get? other = some made →
      made.generic = some type → (change entry).symbol = made.symbol ∧
      (change entry).parameters = entry.parameters) :
    Rooted { types with entries := types.entries.modify type change } ∧
      types.Upholds { types with entries := types.entries.modify type change } := by
  have extended := extends_modify keeps
  have origin : ∀ other now, (types.entries.modify type change).get? other = some now →
      ∃ entry, types.entries.get? other = some entry ∧ entry.Keeps now :=
    fun _ _ => Table.origin_of_modify .refl keeps
  -- The definition of an instance keeps what the instance reads off it.
  have definition : ∀ other made generic original, types.entries.get? other = some made →
    made.generic = some generic →
      types.entries.get? generic = some original → original.symbol = made.symbol →
      ∃ now, (types.entries.modify type change).get? generic = some now ∧ now.symbol = made.symbol ∧
        now.parameters = original.parameters := by
    intro other made generic original stored isMade known same
    by_cases changed : generic = type
    · subst changed
      obtain ⟨symbol, parameters⟩ := agrees original other made known stored isMade
      exact ⟨change original,
        by rw [Table.get?_modify_self, known, Option.map_some], symbol, parameters⟩
    · exact ⟨original, by rw [Table.get?_modify_of_ne _ _ changed, known], same, rfl⟩
  refine ⟨⟨rooted.consed.modify keeps, ?_, ?_, rooted.origin⟩, extended, ?_, fun _ member stored =>
    ⟨member.type, stored⟩⟩
  · intro other now found
    obtain ⟨entry, stored, kept⟩ := origin other now found
    rw [kept.arguments, kept.generic]
    exact rooted.applied other entry stored
  · intro other now generic found isMade
    obtain ⟨made, stored, kept⟩ := origin other now found
    rw [kept.generic] at isMade
    obtain ⟨original, known, same⟩ := rooted.definition other made generic stored isMade
    obtain ⟨definition, knownStill, sameStill, _⟩ :=
      definition other made generic original stored isMade known same
    have isInstance := (rooted.applied other made stored).mpr (by rw [isMade]; rfl)
    exact ⟨definition, knownStill, by rw [sameStill, kept.symbol (.inr isInstance)]⟩
  · intro context pair substitutes
    obtain ⟨made, fetched, rest⟩ := (except_bind_eq_ok_iff ..).mp substitutes
    have stored := (Table.fetch_eq_ok_iff ..).mp fetched
    obtain ⟨now, found, kept⟩ := extended context made stored
    refine (except_bind_eq_ok_iff ..).mpr ⟨now, (Table.fetch_eq_ok_iff ..).mpr found, ?_⟩
    rw [kept.generic, kept.arguments]
    split at rest
    · rename_i generic arguments isMade _
      obtain ⟨original, fetchedAlso, rest⟩ := (except_bind_eq_ok_iff ..).mp rest
      have known := (Table.fetch_eq_ok_iff ..).mp fetchedAlso
      obtain ⟨_, there, same⟩ := rooted.definition context made generic stored isMade
      cases known.symm.trans there
      obtain ⟨definition, knownStill, _, parameters⟩ :=
        definition context made generic original stored isMade known same
      refine (except_bind_eq_ok_iff ..).mpr ⟨definition, (Table.fetch_eq_ok_iff ..).mpr knownStill,
        ?_⟩
      rw [parameters]
      exact rest
    · exact rest

/-- What callers honour for members: they create members without a type, taken from stored members
of the same symbol, definitions with instances keep their type parameters, and types are asked for
with the symbols at hand. -/
def Call.Honours (types : Types) (symbols : Symbols) : Call → Prop
  | .createMember member => member.type = none ∧ ∀ original, member.dependency = some original →
      ∃ source, types.members.get? original = some source ∧ source.symbol = member.symbol
  | .setParameters type parameters => types.Uninstantiated type ∨
      ∀ entry, types.entries.get? type = some entry → entry.parameters = parameters
  | .memberType used _ _ => used = symbols
  | _ => True

/-- What a call leaves: shared types, right memories, and all that was there. -/
structure Leaves (symbols : Symbols) (before after : Types) : Prop where
  rooted : after.Rooted
  remembered : after.Remembered symbols
  upholds : before.Upholds after

theorem Grows.leaves (grows : before.Grows after) (remembered : before.Remembered symbols) :
    Leaves symbols before after :=
  ⟨grows.rooted, remembered.grows grows (.refl symbols), grows.recalls.upholds⟩

theorem ensures_update_leaves (rooted : types.Rooted) (remembered : types.Remembered symbols)
    {change : TypeEntry → TypeEntry} (keeps : ∀ entry, types.entries.get? type = some entry →
      entry.Keeps (change entry))
    (agrees : ∀ entry other made, types.entries.get? type = some entry →
      types.entries.get? other = some made →
      made.generic = some type → (change entry).symbol = made.symbol ∧
      (change entry).parameters = entry.parameters) :
    (update type change).Ensures types fun _ => Leaves symbols types := by
  refine .updateIn fun _ => ?_
  obtain ⟨changed, upholds⟩ := rooted.change keeps agrees
  exact ⟨changed, remembered.upheld upholds (.refl symbols) fun _ member _ stored known =>
    ⟨member, stored, known⟩, upholds⟩

theorem Call.ensures_leaves (call : Call) (rooted : types.Rooted)
    (remembered : types.Remembered symbols)
    (admitted : call.Admitted types) (heeds : call.Heeds types)
    (honours : call.Honours types symbols) :
    call.run.Ensures types fun _ => Leaves symbols types := by
  cases call with
  | createNamed kind symbol =>
    have grows :
      types.Grows { types with entries := types.entries.push { kind, symbol := some symbol } } :=
      rooted.push (rooted.consed.push_named admitted rfl) Iff.rfl nofun
    exact Action.ensures_bind.mpr (ensures_push.mpr (.pure (grows.leaves remembered)))
  | bindBuiltin type symbol =>
    refine ensures_update_leaves rooted remembered
      (rooted.consed.keeps_of_bindBuiltin (Nat.lt_succ_of_le admitted.2) symbol) ?_
    intro entry other made _ stored isMade
    exact ⟨(heeds other made stored isMade).symm, rfl⟩
  | setParameters type parameters =>
    refine ensures_update_leaves rooted remembered (fun _ _ =>
      ⟨rfl, rfl, rfl, fun _ => rfl, fun _ => rfl⟩) ?_
    intro entry other made stored there isMade
    obtain ⟨_, known, same⟩ := rooted.definition other made type there isMade
    cases stored.symm.trans known
    refine ⟨same, ?_⟩
    rcases honours with none | keeps
    · exact absurd isMade (none other made there)
    · exact (keeps entry stored).symm
  | createMember member =>
    refine Action.ensures_bind.mpr (ensures_createMember.mpr (.pure ?_))
    exact (rooted.push_member honours.1 honours.2).leaves remembered
  | memberType used fuel member =>
    obtain rfl : used = symbols := honours
    refine .bind (ensures_memberType_remembers used fuel member rooted remembered) ?_
    rintro _ _ ⟨rootedStill, rememberedStill, recalls, _⟩
    exact .pure ⟨rootedStill, rememberedStill, recalls.upholds⟩
  | setRelated | complete | insertMember | setMember | functionType | parameterize | substitute =>
    exact (Growth.rooted.ensures_call id _ rooted admitted trivial fun _ _ => trivial).weaken
      fun _ _ grows => grows.leaves remembered

/-! ## Histories of calls and symbols -/

/-- Where calls lead while symbols change: a settled symbol stays settled and keeps its type, and
the types of symbols are stored. -/
inductive Unfolds (start : Types) (first : Symbols) : Types → Symbols → Prop where
  | refl : Unfolds start first start first
  | call {types after : Types} {symbols : Symbols} (call : Call) :
    Unfolds start first types symbols →
      call.Admitted types → call.Heeds types → call.Honours types symbols →
        call.run types = .ok () after →
      Unfolds start first after symbols
  | declare {types : Types} {symbols later : Symbols} : Unfolds start first types symbols →
    SymbolsStand symbols later →
      (∀ id symbol type, later.get? id = some symbol → symbol.type = some type →
        types.Stores type) →
      Unfolds start first types later

/-- Types and symbols at any time of a history. -/
structure Trusted (types : Types) (symbols : Symbols) : Prop where
  rooted : types.Rooted
  legible : types.Legible
  remembered : types.Remembered symbols
  typed : ∀ id symbol type, symbols.get? id = some symbol → symbol.type = some type →
    types.Stores type

theorem trusted_new : Trusted .new .empty where
  rooted := rooted_new
  legible := new_legible
  remembered id member type stored := by cases get?_members_new.symm.trans stored
  typed id symbol type known := by
    rw [Table.get?_empty] at known
    cases known

theorem SymbolsStand.trans {first second third : Symbols} (one : SymbolsStand first second)
    (two : SymbolsStand second third) : SymbolsStand first third := by
  intro id symbol known settled
  obtain ⟨middle, between, settledStill, same⟩ := one id symbol known settled
  obtain ⟨last, there, settledLast, sameLast⟩ := two id middle between settledStill
  exact ⟨last, there, settledLast, sameLast.trans same⟩

theorem Unfolds.trusted {start : Types} {first : Symbols}
    (unfolds : Unfolds start first types symbols)
    (trusted : Trusted start first) : Trusted types symbols ∧ start.Upholds types ∧
    SymbolsStand first symbols := by
  induction unfolds with
  | refl => exact ⟨trusted, .refl start, .refl first⟩
  | call call _ admitted heeds honours returned ih =>
    obtain ⟨here, upholds, stand⟩ := ih
    have leaves := call.ensures_leaves here.rooted here.remembered admitted heeds honours
      () _ returned
    refine ⟨⟨leaves.rooted, call.ensures_legible here.legible admitted heeds () _ returned,
      leaves.remembered, ?_⟩,
      upholds.trans leaves.upholds, stand⟩
    intro id symbol type known typed
    exact leaves.upholds.extended.stores (here.typed id symbol type known typed)
  | declare _ stands typed ih =>
    obtain ⟨here, upholds, stand⟩ := ih
    refine ⟨⟨here.rooted, here.legible, ?_, typed⟩, upholds, stand.trans stands⟩
    exact here.remembered.upheld (.refl _) stands fun _ member _ stored known =>
      ⟨member, stored, known⟩

theorem Trusted.stores_typeOrError (trusted : Trusted types symbols) {owner : SymbolId}
    {symbol : Symbol}
    (known : symbols.get? owner = some symbol) : types.Stores symbol.typeOrError := by
  unfold Symbol.typeOrError
  cases typed : symbol.type with
  | some type => exact trusted.typed owner symbol type known typed
  | none =>
    obtain ⟨entry, stored, _⟩ := trusted.legible.consed.builtin 0 (by decide)
    exact stores_of_get? stored

/-! ## Terms along a chain -/

/-- A term inside an instance: the type arguments of the instance replace the type parameters of its
definition. -/
def inside (types : Types) (term : Term) (context : TypeId) : Term :=
  match types.substitutionOf context with
  | .ok (parameters, arguments) =>
    term.replace (parameters.map types.term) (arguments.map types.term)
  | .error _ => term

/-- Instances are stored together with the type parameters of their definitions. -/
def Grounded (types : Types) (contexts : List TypeId) : Prop :=
  ∀ context ∈ contexts, ∃ parameters arguments, types.substitutionOf context =
    .ok (parameters, arguments) ∧
    ∀ parameter ∈ parameters, types.Stores parameter

section Terms

variable {contexts : List TypeId} {base : TypeId}

theorem Grounded.keep (grounded : before.Grounded contexts) (upholds : before.Upholds after) :
    after.Grounded contexts := by
  intro context listed
  obtain ⟨parameters, arguments, substitutes, stored⟩ := grounded context listed
  exact ⟨parameters, arguments, upholds.substitutions context _ substitutes,
    fun parameter given => upholds.extended.stores (stored parameter given)⟩

theorem Grounded.inside_eq (grounded : before.Grounded contexts) (upholds : before.Upholds after)
    (legible : before.Legible) (legibleAfter : after.Legible) (term : Term) {context : TypeId}
    (listed : context ∈ contexts) :
    after.inside term context = before.inside term context := by
  obtain ⟨parameters, arguments, substitutes, stored⟩ := grounded context listed
  unfold inside
  rw [substitutes, upholds.substitutions context _ substitutes]
  change term.replace _ _ = term.replace _ _
  rw [upholds.extended.map_term legible legibleAfter stored,
    upholds.extended.map_term legible legibleAfter
      (Growth.legible.knows_of_substitutionOf legible substitutes)]

/-- Terms along a chain are read the same at every later time. -/
theorem Grounded.foldl_eq (grounded : before.Grounded contexts) (upholds : before.Upholds after)
    (legible : before.Legible) (legibleAfter : after.Legible) (term : Term) :
    contexts.foldl after.inside term = contexts.foldl before.inside term :=
  List.foldl_ext _ _ term fun term _ listed =>
    grounded.inside_eq upholds legible legibleAfter term listed

theorem ensures_substituteAlong_term (fuel : Nat) (rooted : types.Rooted) (legible : types.Legible)
    (grounded : types.Grounded contexts) (stores : types.Stores base) :
    (substituteAlong fuel contexts base).Ensures types fun result after =>
      after.term result = contexts.foldl types.inside (types.term base) := by
  induction contexts generalizing types base with
  | nil => exact .pure rfl
  | cons context rest ih =>
    obtain ⟨parameters, arguments, substitutes, stored⟩ := grounded context List.mem_cons_self
    have others : types.Grounded rest := fun other listed =>
      grounded other (List.mem_cons_of_mem context listed)
    have given := Growth.legible.knows_of_substitutionOf legible substitutes
    unfold substituteAlong
    refine .get ?_
    rw [substitutes]
    refine Action.ensures_bind.mpr (.pure ?_)
    refine .bind ((substitute_grows fuel types base parameters arguments rooted).and
      (substitute_faithful fuel types base parameters arguments legible given)) ?_
    rintro replaced middle ⟨⟨grows, _⟩, replaces⟩
    have upholds := grows.recalls.upholds
    refine (ih grows.rooted replaces.develops.legible (others.keep upholds)
      (replaces.stores stores)).weaken ?_
    intro result after reads
    rw [reads, others.foldl_eq upholds legible replaces.develops.legible,
      replaces.term stored stores, List.foldl_cons,
      inside, substitutes]

theorem Alike.term_eq {one other : Types} (alike : one.Alike other) (type : TypeId) :
    one.term type = other.term type := by
  rw [alike.eq_with]
  have within : ∀ fuel type, one.termWithin fuel type = termWithin
    { one with members := other.members } fuel type := by
    intro fuel
    induction fuel with
    | zero => exact fun _ => rfl
    | succ fuel ih =>
      intro type
      unfold termWithin
      rw [show shapeOf? { one with members := other.members } type = one.shapeOf? type from rfl]
      cases one.shapeOf? type with
      | none => rfl
      | some shape =>
        exact congrArg (Term.built shape.1) (List.map_congr_left fun part _ => ih part)
  exact within _ type

end Terms

/-! ## The type of a member -/

section Member

variable {id : MemberId} {owner : SymbolId} {contexts : List TypeId} {symbol now : Symbol}
  {fuel : Nat} {result : TypeId}

theorem Trusted.memberType_iff (trusted : Trusted types symbols)
    (chain : types.Chain id owner contexts)
    (known : symbols.get? owner = some symbol) (final : Types) :
    (∃ fuel after, memberType symbols fuel id types = .ok result after ∧ after.Alike final) ↔
      ∃ fuel after, substituteAlong fuel contexts symbol.typeOrError types = .ok result after ∧
      after.Alike final := by
  constructor
  · rintro ⟨fuel, after, run, alike⟩
    obtain ⟨_, _, _, also, knownAlso, least, along⟩ :=
      memberType_along trusted.rooted trusted.remembered run
    obtain ⟨rfl, rfl⟩ := chain.unique also
    cases known.symm.trans knownAlso
    obtain ⟨last, returned, same⟩ := along least (Nat.le_refl least) types (.refl types)
    exact ⟨least, last, returned, same.symm.trans alike⟩
  · rintro ⟨fuel, last, run, alike⟩
    obtain ⟨least, returns⟩ := chain.memberType_returns trusted.rooted trusted.remembered known
      (.refl types) run
    obtain ⟨after, returned, same⟩ := returns least (Nat.le_refl least)
    exact ⟨least, after, returned, same.trans alike⟩

theorem Trusted.term_of_memberType (trusted : Trusted types symbols)
    (chain : types.Chain id owner contexts)
    (known : symbols.get? owner = some symbol) (grounded : types.Grounded contexts)
    (run : memberType symbols fuel id types = .ok result after) :
    after.term result = contexts.foldl types.inside (types.term symbol.typeOrError) := by
  obtain ⟨more, final, substituted, alike⟩ :=
    (trusted.memberType_iff chain known after).mp ⟨fuel, after, run, .refl after⟩
  rw [← alike.term_eq]
  exact ensures_substituteAlong_term more trusted.rooted trusted.legible grounded
    (trusted.stores_typeOrError known)
    result final substituted

/-- A type that was worked out once is the answer at every later time, and nothing new is made for
it. -/
theorem Trusted.memberType_again (trusted : Trusted types symbols)
    (chain : types.Chain id owner contexts)
    (known : symbols.get? owner = some symbol) (run : memberType symbols fuel id types =
      .ok result after)
    {next : Types} (trustedNext : Trusted next later) (upholds : after.Upholds next)
    (knownNext : later.get? owner = some now) (same : now.type = symbol.type) :
    ∃ least, ∀ more, least ≤ more → ∃ final, memberType later more id next = .ok result final ∧
    final.Alike next := by
  obtain ⟨more, final, substituted, alike⟩ :=
    (trusted.memberType_iff chain known after).mp ⟨fuel, after, run, .refl after⟩
  obtain ⟨grows, through⟩ := ensures_substituteAlong more contexts trusted.rooted result final
    substituted
  have kept := alike.upholds.trans upholds
  have throughNext : next.Through contexts now.typeOrError result := by
    rw [Symbol.typeOrError, same]
    exact through.keep kept
  obtain ⟨least, stable⟩ := trustedNext.rooted.substituteAlong_stable throughNext
  have chainNext := chain.keep (grows.recalls.upholds.trans kept)
  exact chainNext.memberType_returns trustedNext.rooted trustedNext.remembered knownNext
    (.refl next)
    (stable least (Nat.le_refl least) next.members)

theorem SymbolsStand.type_eq (stand : SymbolsStand symbols later)
    (known : symbols.get? owner = some symbol)
    (knownLater : later.get? owner = some now) (typed : symbol.progress = .settled ∨
      now.type = symbol.type) :
    now.type = symbol.type := by
  rcases typed with settled | same
  · obtain ⟨_, found, _, same⟩ := stand owner symbol known settled
    cases knownLater.symm.trans found
    exact same
  · exact same

/-- In every history where callers heed what is built from what, settled symbols keep their types
and definitions with instances keep their type parameters: the type of a member is what the
substitutions of its chain return, from the type of its symbol outwards, and it is returned whenever
they return.  As a term it is the type of the symbol inside the instances of the chain.  As long as
the symbol has the same type, and in particular once it is settled, the member answers the same type
ever after; and whatever is asked and built before the first answer, that answer reads as the same
term. -/
theorem member_types_compose {types : Types} {symbols : Symbols}
    (unfolds : Unfolds .new .empty types symbols)
    {id : MemberId} {owner : SymbolId} {contexts : List TypeId} {symbol : Symbol}
    (chain : types.Chain id owner contexts) (known : symbols.get? owner = some symbol) :
    (∀ result final,
      (∃ fuel after, memberType symbols fuel id types = .ok result after ∧ after.Alike final) ↔
        ∃ fuel after, substituteAlong fuel contexts symbol.typeOrError types = .ok result after ∧
        after.Alike final) ∧
    ∀ fuel result after, memberType symbols fuel id types = .ok result after →
      (types.Grounded contexts →
        after.term result = contexts.foldl types.inside (types.term symbol.typeOrError)) ∧
      ∀ next later now, later.get? owner = some now → symbol.progress = .settled ∨
      now.type = symbol.type →
        (Unfolds after symbols next later →
          ∃ least, ∀ more, least ≤ more → ∃ final, memberType later more id next =
          .ok result final ∧ final.Alike next) ∧
        (Unfolds types symbols next later → types.Grounded contexts → ∀ more other final,
          memberType later more id next = .ok other final →
          final.term other = after.term result) := by
  obtain ⟨trusted, _, _⟩ := unfolds.trusted trusted_new
  refine ⟨fun result final => trusted.memberType_iff chain known final, fun fuel result after run =>
    ⟨fun grounded =>
    trusted.term_of_memberType chain known grounded run, fun next later now knownNext typed =>
      ⟨fun onwards => ?_,
      fun onwards grounded more other final runNext => ?_⟩⟩⟩
  · have asked : Unfolds .new .empty after symbols :=
      unfolds.call (.memberType symbols fuel id) trivial trivial rfl
        ((Action.bind_eq_ok_iff ..).mpr ⟨result, after, run, rfl⟩)
    obtain ⟨trustedNext, upholds, stand⟩ := onwards.trusted (asked.trusted trusted_new).1
    exact trusted.memberType_again chain known run trustedNext upholds knownNext
      (stand.type_eq known knownNext typed)
  · obtain ⟨trustedNext, upholds, stand⟩ := onwards.trusted trusted
    have same : now.typeOrError = symbol.typeOrError := by
      rw [Symbol.typeOrError, stand.type_eq known knownNext typed]
      rfl
    rw [trustedNext.term_of_memberType (chain.keep upholds) knownNext
      (grounded.keep upholds) runNext,
      trusted.term_of_memberType chain known grounded run,
        grounded.foldl_eq upholds trusted.legible trustedNext.legible,
      same, upholds.extended.term trusted.legible trustedNext.legible
        (trusted.stores_typeOrError known)]

end Member

/-- A variable `f` of type `fn(T) T` is taken over into `Box<U>` and from there into `Derived<int>`.
-/
def inheritedCalls : List Call :=
  [.createNamed .parameter ⟨0⟩, .createNamed .parameter ⟨1⟩, .createNamed .classType ⟨2⟩,
    .createNamed .classType ⟨3⟩,
    .setParameters ⟨12⟩ [⟨10⟩], .setParameters ⟨13⟩ [⟨11⟩], .parameterize 3 ⟨12⟩ [⟨11⟩],
      .parameterize 3 ⟨13⟩ [.int],
    .functionType ⟨10⟩ [⟨10⟩], .createMember (.own ⟨4⟩),
      .createMember (.dependent ⟨4⟩ ⟨0⟩ (some ⟨14⟩)),
    .createMember (.dependent ⟨4⟩ ⟨1⟩ (some ⟨15⟩))]

/-- A settled variable of a type. -/
def variableOf (type : TypeId) : Symbol :=
  { name := "f", kind := .instanceVariable, span := .dummy, progress := .settled,
    type := some type }

/-- The symbols of the classes and of the variable. -/
def inheritedSymbols : Symbols :=
  ⟨#[{ name := "T", kind := .typeParameter, span := .dummy },
    { name := "U", kind := .typeParameter, span := .dummy },
    { name := "Box", kind := .classType, span := .dummy },
      { name := "Derived", kind := .classType, span := .dummy },
    variableOf ⟨16⟩]⟩

theorem uninstantiated_of_generic_eq_none (plain : ∀ entry ∈ types.entries.entries, entry.generic =
    none) (type : TypeId) :
    types.Uninstantiated type := by
  intro other entry stored isMade
  rw [plain entry (Array.mem_of_getElem? stored)] at isMade
  cases isMade

theorem stand_empty (symbols : Symbols) : SymbolsStand .empty symbols := by
  intro id symbol known
  rw [Table.get?_empty] at known
  cases known

theorem type_inherited {id : SymbolId} {symbol : Symbol}
    (known : inheritedSymbols.get? id = some symbol)
    (typed : symbol.type = some type) : type = ⟨16⟩ := by
  have only : ∀ id symbol, inheritedSymbols.get? id = some symbol → ∀ type ∈ symbol.type,
    type = ⟨16⟩ := by decide
  exact only id symbol known type typed

theorem unfolds_inherited : Unfolds .new .empty (afterCalls inheritedCalls) inheritedSymbols := by
  have start : Unfolds .new .empty Types.new .empty := .refl
  have one := start.call (.createNamed .parameter ⟨0⟩) nofun trivial trivial
    (Action.eq_ok_of_answer? rfl)
  have two := one.call (.createNamed .parameter ⟨1⟩) nofun trivial trivial
    (Action.eq_ok_of_answer? rfl)
  have box := two.call (.createNamed .classType ⟨2⟩) nofun trivial trivial
    (Action.eq_ok_of_answer? rfl)
  have derived := box.call (.createNamed .classType ⟨3⟩) nofun trivial trivial
    (Action.eq_ok_of_answer? rfl)
  have generic := derived.call (.setParameters ⟨12⟩ [⟨10⟩]) trivial trivial
    (.inl (uninstantiated_of_generic_eq_none (by decide) _)) (Action.eq_ok_of_answer? rfl)
  have both := generic.call (.setParameters ⟨13⟩ [⟨11⟩]) trivial trivial
    (.inl (uninstantiated_of_generic_eq_none (by decide) _)) (Action.eq_ok_of_answer? rfl)
  have first := both.call (.parameterize 3 ⟨12⟩ [⟨11⟩]) trivial (by unfold Call.Heeds; decide)
    trivial
    (Action.eq_ok_of_answer? rfl)
  have second := first.call (.parameterize 3 ⟨13⟩ [.int]) trivial (by unfold Call.Heeds; decide)
    trivial
    (Action.eq_ok_of_answer? rfl)
  have function := second.call (.functionType ⟨10⟩ [⟨10⟩]) trivial (by unfold Call.Heeds; decide)
    trivial
    (Action.eq_ok_of_answer? rfl)
  have declared := function.declare (stand_empty inheritedSymbols) fun id symbol type known typed =>
    by
    cases type_inherited known typed
    decide
  have own := declared.call (.createMember (.own ⟨4⟩)) trivial trivial ⟨rfl, nofun⟩
    (Action.eq_ok_of_answer? rfl)
  have taken := own.call (.createMember (.dependent ⟨4⟩ ⟨0⟩ (some ⟨14⟩))) trivial trivial
    ⟨rfl, fun _ same => ⟨.own ⟨4⟩, by cases same; rfl, rfl⟩⟩ (Action.eq_ok_of_answer? rfl)
  exact taken.call (.createMember (.dependent ⟨4⟩ ⟨1⟩ (some ⟨15⟩))) trivial trivial
    ⟨rfl, fun _ same => ⟨.dependent ⟨4⟩ ⟨0⟩ (some ⟨14⟩), by cases same; rfl, rfl⟩⟩
      (Action.eq_ok_of_answer? rfl)

theorem chain_inherited : (afterCalls inheritedCalls).Chain ⟨2⟩ ⟨4⟩ [⟨14⟩, ⟨15⟩] := by
  have own : (afterCalls inheritedCalls).members.get? ⟨0⟩ = some (.own ⟨4⟩) := rfl
  have first : (afterCalls inheritedCalls).members.get? ⟨1⟩ =
    some (.dependent ⟨4⟩ ⟨0⟩ (some ⟨14⟩)) := rfl
  have second : (afterCalls inheritedCalls).members.get? ⟨2⟩ =
    some (.dependent ⟨4⟩ ⟨1⟩ (some ⟨15⟩)) := rfl
  have chain := Chain.taken second rfl (.taken first rfl (.own own rfl))
  exact chain

/-- The variable has the type `fn(int) int` in `Derived<int>`, and a second question answers the
same type. -/
theorem member_types_compose_inherited :
    Unfolds .new .empty (afterCalls inheritedCalls) inheritedSymbols ∧
      (afterCalls inheritedCalls).Chain ⟨2⟩ ⟨4⟩ [⟨14⟩, ⟨15⟩] ∧
      ∃ after, memberType inheritedSymbols 9 ⟨2⟩ (afterCalls inheritedCalls) = .ok ⟨18⟩ after ∧
        after.term ⟨18⟩ = .built .function [.leaf .int, .leaf .int] ∧
        after.term ⟨18⟩ = [⟨14⟩, ⟨15⟩].foldl (afterCalls inheritedCalls).inside
        ((afterCalls inheritedCalls).term ⟨16⟩) ∧
        ∃ fuel final, memberType inheritedSymbols fuel ⟨2⟩ after = .ok ⟨18⟩ final := by
  have composes := member_types_compose unfolds_inherited chain_inherited
    (show inheritedSymbols.get? ⟨4⟩ = some (variableOf ⟨16⟩) from rfl)
  have run : memberType inheritedSymbols 9 ⟨2⟩ (afterCalls inheritedCalls) =
      .ok ⟨18⟩ ((memberType inheritedSymbols 9 ⟨2⟩).final (afterCalls inheritedCalls)) :=
        Action.eq_ok_of_answer? rfl
  have grounded : (afterCalls inheritedCalls).Grounded [⟨14⟩, ⟨15⟩] := by
    refine List.forall_mem_cons.mpr ⟨⟨[⟨10⟩], [⟨11⟩], rfl, by decide⟩,
      List.forall_mem_singleton.mpr ?_⟩
    exact ⟨[⟨11⟩], [.int], rfl, by decide⟩
  obtain ⟨reads, onwards⟩ := composes.2 9 ⟨18⟩ _ run
  obtain ⟨least, again⟩ := (onwards _ inheritedSymbols (variableOf ⟨16⟩) rfl (.inl rfl)).1 .refl
  obtain ⟨final, answered, _⟩ := again least (Nat.le_refl least)
  exact ⟨unfolds_inherited, chain_inherited, _, run, rfl, reads grounded, least, final, answered⟩

/-- `List` belongs to a symbol and has the instance `List<T>`, the type of a variable that is taken
over into `Box<U>` twice. -/
def listedCalls : List Call :=
  [.createNamed .parameter ⟨2⟩, .createNamed .parameter ⟨3⟩, .createNamed .classType ⟨4⟩,
    .setParameters ⟨12⟩ [⟨10⟩],
    .bindBuiltin .list ⟨0⟩, .parameterize 3 .list [⟨10⟩], .parameterize 3 ⟨12⟩ [⟨11⟩],
      .createMember (.own ⟨5⟩),
    .createMember (.dependent ⟨5⟩ ⟨0⟩ (some ⟨14⟩)), .createMember (.dependent ⟨5⟩ ⟨0⟩ (some ⟨14⟩))]

/-- Two symbols for `List`, those of the type parameters and the class, and that of the variable. -/
def listedSymbols : Symbols :=
  ⟨#[{ name := "A", kind := .classType, span := .dummy },
    { name := "B", kind := .classType, span := .dummy },
    { name := "T", kind := .typeParameter, span := .dummy },
      { name := "U", kind := .typeParameter, span := .dummy },
    { name := "Box", kind := .classType, span := .dummy }, variableOf ⟨13⟩]⟩

/-- What callers heed and honour is needed.  Where `List` gets another symbol although it has
instances, of two members with one chain the one that was asked before answers another type than the
one that was not.  And a member that is created with a type answers that type, whatever its symbol
has. -/
theorem member_types_of_heedless_callers : (∃ types middle bound after, Reachable types ∧
      types.Chain ⟨1⟩ ⟨5⟩ [⟨14⟩] ∧ types.Chain ⟨2⟩ ⟨5⟩ [⟨14⟩] ∧
      memberType listedSymbols 9 ⟨1⟩ types = .ok ⟨15⟩ middle ∧ bindBuiltin .list ⟨1⟩ middle =
      .ok () bound ∧
      memberType listedSymbols 9 ⟨1⟩ bound = .ok ⟨15⟩ bound ∧ memberType listedSymbols 9 ⟨2⟩ bound =
      .ok ⟨16⟩ after) ∧
    (∃ types, Reachable types ∧ types.Chain ⟨0⟩ ⟨0⟩ [] ∧
      memberType ⟨#[variableOf .string]⟩ 9 ⟨0⟩ types = .ok .int types) := by
  refine ⟨⟨afterCalls listedCalls, _, _, _, ?_, ?_, ?_, Action.eq_ok_of_answer? rfl,
    Action.eq_ok_of_answer? rfl, rfl,
    Action.eq_ok_of_answer? rfl⟩, ?_⟩
  · exact .afterCalls (by decide)
  · have own : (afterCalls listedCalls).members.get? ⟨0⟩ = some (.own ⟨5⟩) := rfl
    have taken : (afterCalls listedCalls).members.get? ⟨1⟩ =
      some (.dependent ⟨5⟩ ⟨0⟩ (some ⟨14⟩)) := rfl
    have chain := Chain.taken taken rfl (.own own rfl)
    exact chain
  · have own : (afterCalls listedCalls).members.get? ⟨0⟩ = some (.own ⟨5⟩) := rfl
    have taken : (afterCalls listedCalls).members.get? ⟨2⟩ =
      some (.dependent ⟨5⟩ ⟨0⟩ (some ⟨14⟩)) := rfl
    have chain := Chain.taken taken rfl (.own own rfl)
    exact chain
  · have created := Reachable.new.call (.createMember { Member.own ⟨0⟩ with type := some .int })
      trivial
      (Action.eq_ok_of_answer? rfl)
    refine ⟨_, created, ?_, rfl⟩
    have own : (afterCalls [.createMember { Member.own ⟨0⟩ with type := some .int }]).members.get?
      ⟨0⟩ =
      some { Member.own ⟨0⟩ with type := some .int } := rfl
    have chain := Chain.own own rfl
    exact chain

end Types
end Resolution
