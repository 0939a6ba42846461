import Resolution.Proofs.Terms

/-!
# Substitution on terms

Substitution walks through a type and rebuilds what changes; rebuilding may fill instances, which
substitutes again.  All the while the table of types grows and stays legible, and stored types keep
their terms.  So what comes out can be said by terms alone: it is the term that went in, with the
parameters replaced all at once.  Sharing then turns equations between terms into equations between
types.
-/

namespace Resolution

namespace Types

variable {types before after : Types} {type : TypeId} {arguments parameters : List TypeId}
  {result : TypeId}

/-! ## Growth of a legible table -/

/-- From a legible table to one that is still legible, where stored types are the same and have
their symbols. -/
structure Develops (before after : Types) : Prop where
  legible : after.Legible
  entries : ∀ type entry, before.entries.get? type = some entry →
    ∃ later, after.entries.get? type = some later ∧ entry.Keeps later ∧ later.symbol = entry.symbol

namespace Develops

theorem refl (legible : types.Legible) : types.Develops types where
  legible := legible
  entries _ entry stored := ⟨entry, stored, .refl entry, rfl⟩

theorem trans {first second third : Types} (earlier : first.Develops second)
    (later : second.Develops third) :
    first.Develops third where
  legible := later.legible
  entries := Table.later_trans earlier.entries later.entries fun _ _ _ one two =>
    ⟨one.1.trans two.1, two.2.trans one.2⟩

theorem extended (develops : before.Develops after) : before.Extends after := by
  intro type entry stored
  obtain ⟨later, found, kept, _⟩ := develops.entries type entry stored
  exact ⟨later, found, kept⟩

end Develops

section

variable (legible : types.Legible)

include legible

/-- Changes that leave alone what is built and which symbols definitions have. -/
theorem Legible.of_entries (consed : after.HashConsed)
    (origin : ∀ other entry, after.entries.get? other = some entry →
      ∃ earlier, types.entries.get? other = some earlier ∧ earlier.Keeps entry)
    (definition : ∀ other entry arguments, after.entries.get? other = some entry →
      entry.arguments = some arguments →
      ∃ generic definition, entry.generic = some generic ∧
      after.entries.get? generic = some definition ∧
        definition.symbol = entry.symbol) : after.Legible where
  consed := consed
  older other former parts built := by
    obtain ⟨entry, found, shape⟩ := exists_get?_of_shapeOf? built
    obtain ⟨earlier, stored, kept⟩ := origin other entry found
    rw [kept.shape?, ← shapeOf?_of_get? stored] at shape
    exact legible.older other former parts shape
  definition := definition

theorem Legible.modify {change : TypeEntry → TypeEntry}
    (keeps : ∀ entry, types.entries.get? type = some entry → entry.Keeps (change entry))
    (declares : ∀ entry, (change entry).symbol = entry.symbol) :
    types.Develops { types with entries := types.entries.modify type change } := by
  let Stays (entry later : TypeEntry) : Prop := entry.Keeps later ∧ later.symbol = entry.symbol
  have refl (entry : TypeEntry) : Stays entry entry := ⟨.refl entry, rfl⟩
  have stays (entry : TypeEntry) (stored : types.entries.get? type = some entry) :
    Stays entry (change entry) :=
    ⟨keeps entry stored, declares entry⟩
  have entries {other : TypeId} {entry : TypeEntry} :=
    @Table.later_of_modify _ _ _ _ _ entry _ Stays refl stays other
  have origin {other : TypeId} {entry : TypeEntry} :=
    @Table.origin_of_modify _ _ _ _ _ entry _ Stays refl stays other
  refine ⟨legible.of_entries (legible.consed.modify keeps) ?_ ?_, fun _ _ => entries⟩
  · intro other entry found
    obtain ⟨earlier, stored, kept, _⟩ := origin found
    exact ⟨earlier, stored, kept⟩
  · intro other entry arguments found applied
    obtain ⟨earlier, stored, kept, declared⟩ := origin found
    obtain ⟨generic, definition, original, known, sameSymbol⟩ :=
      legible.definition other earlier arguments stored (kept.arguments ▸ applied)
    obtain ⟨later, knownStill, _, declaredStill⟩ := entries known
    exact ⟨generic, later, kept.generic.trans original,
      knownStill, by rw [declaredStill, sameSymbol, declared]⟩

/-- A further type joins; it is built from stored types, and its definition is stored. -/
theorem Legible.push {entry : TypeEntry} {interned : List (TypeKey × TypeId)}
    (consed : HashConsed { types with entries := types.entries.push entry, interned })
    (stored : ∀ former parts, entry.shape? = some (former, parts) → ∀ part ∈ parts,
      types.Stores part)
    (original : ∀ arguments, entry.arguments = some arguments →
      ∃ generic definition, entry.generic = some generic ∧
      types.entries.get? generic = some definition ∧
        definition.symbol = entry.symbol) :
    types.Develops { types with entries := types.entries.push entry, interned } where
  legible :=
    { consed
      older := by
        intro other former parts built part listed
        obtain ⟨here, found, shape⟩ := exists_get?_of_shapeOf? built
        obtain ⟨rfl, rfl⟩ | ⟨_, known⟩ := Table.get?_push_cases found
        · exact stored former parts shape part listed
        · exact legible.older other former parts ((shapeOf?_of_get? known).trans shape) part listed
      definition := by
        intro other here arguments found applied
        have known : ∃ generic definition, here.generic = some generic ∧
            types.entries.get? generic = some definition ∧ definition.symbol = here.symbol := by
          obtain ⟨_, rfl⟩ | ⟨_, earlier⟩ := Table.get?_push_cases found
          · exact original arguments applied
          · exact legible.definition other here arguments earlier applied
        obtain ⟨generic, definition, made, there, same⟩ := known
        exact ⟨generic, definition, made, Table.get?_push_of_stored entry there, same⟩ }
  entries other before there := ⟨before, Table.get?_push_of_stored entry there, .refl before, rfl⟩

theorem Legible.members (members : Table MemberId Member) :
    types.Develops { types with members } where
  legible := ⟨(legible.consed.members members).1, legible.older, legible.definition⟩
  entries _ entry stored := ⟨entry, stored, .refl entry, rfl⟩

theorem Legible.stores_replacement {argument : TypeId}
    (given : ∀ argument ∈ arguments, types.Stores argument)
    (replaced : replacement? type parameters arguments = some argument) :
    types.Stores argument := by
  obtain ⟨position, _, rfl⟩ := Option.map_eq_some_iff.mp replaced
  rw [List.getD_eq_getElem?_getD]
  cases found : arguments[position]? with
  | some argument => exact given argument (List.mem_of_getElem? found)
  | none =>
    obtain ⟨entry, stored, _⟩ := legible.consed.builtin 0 (by decide)
    exact stores_of_get? stored

end

/-- Legible tables that grow by types built from stored ones. -/
abbrev Growth.legible : Growth where
  fits := Legible
  leads := Develops
  knows := Stores
  declared := True
  consed := Legible.consed
  refl := .refl
  trans := .trans
  reached := Develops.legible
  extended := Develops.extended
  lasting develops stores := develops.extended.stores stores
  stored _ found := stores_of_get? found
  replaced legible given replaced := legible.stores_replacement given replaced
  signature legible stored isFunction _ listed :=
    legible.stores_part ((shapeOf?_of_get? stored).trans (TypeEntry.shape?_of_function isFunction))
      listed
  applied legible stored noFunction applied _ listed :=
    legible.stores_part
      ((shapeOf?_of_get? stored).trans
        (TypeEntry.shape?_eq_applied_iff.mpr ⟨noFunction, rfl, applied⟩)) listed
  definition _ _ _ _ _ legible := legible.definition _ _ _
  declares _ _ _ type entry later develops stored found := by
    obtain ⟨same, there, _, declared⟩ := develops.entries type entry stored
    obtain rfl : same = later := Option.some.inj (there.symm.trans found)
    exact declared
  modify legible keeps symbol _ _ := legible.modify keeps symbol
  pushFunction legible given fresh := by
    refine legible.push (legible.consed.push_function rfl rfl rfl rfl fresh) ?_ nofun
    rintro _ _ ⟨⟩
    exact given
  pushInstance legible given stored declared noFunction fresh := by
    refine legible.push (legible.consed.push_instance noFunction rfl rfl fresh) ?_
      fun _ _ => ⟨_, _, rfl, stored, declared⟩
    intro former parts built
    cases built.symm.trans (TypeEntry.shape?_eq_applied_iff.mpr ⟨noFunction, rfl, rfl⟩)
    exact given
  pushMember _ legible _ := legible.members _

theorem ensures_functionType_develops (legible : types.Legible)
    (stored : ∀ part ∈ result :: arguments, types.Stores part) :
    (functionType result arguments).Ensures types fun type after =>
      types.Develops after ∧ after.shapeOf? type = some (.function, result :: arguments) := by
  refine (Growth.legible.buildsFunctions types result arguments legible stored).weaken ?_
  rintro type after ⟨develops, entry, found, isFunction, signature⟩
  exact ⟨develops, (shapeOf?_of_get? found).trans
    (TypeEntry.shape?_eq_function_iff.mpr ⟨isFunction, signature⟩)⟩

theorem ensures_memberType_develops (symbols : Symbols) (fuel : Nat) (member : MemberId)
    (legible : types.Legible) :
    (memberType symbols fuel member).Ensures types fun _ => types.Develops :=
  Growth.legible.ensures_memberType (fun _ _ _ legible => legible.members _) symbols fuel member
    legible

/-! ## Substitution -/

/-- What a substitution does: the table develops, and a stored type leads to the stored type whose
term has the parameters replaced. -/
structure Replaces (before : Types) (parameters arguments : List TypeId) (type result : TypeId)
    (after : Types) :
    Prop where
  develops : before.Develops after
  stores : before.Stores type → after.Stores result
  term : (∀ parameter ∈ parameters, before.Stores parameter) → before.Stores type →
    after.term result = (before.term type).replace (parameters.map before.term)
      (arguments.map before.term)

/-- What a substitution does to several types, one after the other. -/
structure ReplacesAll (before : Types) (parameters arguments parts answers : List TypeId)
    (after : Types) : Prop where
  develops : before.Develops after
  length : answers.length = parts.length
  stores : (∀ part ∈ parts, before.Stores part) → ∀ answer ∈ answers, after.Stores answer
  terms : (∀ parameter ∈ parameters, before.Stores parameter) →
    (∀ part ∈ parts, before.Stores part) →
    answers.map after.term = parts.map fun part =>
      (before.term part).replace (parameters.map before.term) (arguments.map before.term)

theorem map_eq_map_of_zip {α β : Type} {first second : List α} {one two : α → β}
    (length : first.length = second.length)
    (alike : ∀ left right, (left, right) ∈ first.zip second → two right = one left) :
    second.map two = first.map one := by
  refine List.ext_getElem (by rw [List.length_map, List.length_map, length])
    fun position inside _ => ?_
  rw [List.length_map] at inside
  rw [List.getElem_map, List.getElem_map]
  refine alike _ _ (List.mem_iff_getElem.mpr ⟨position, ?_, List.getElem_zip⟩)
  rw [List.length_zip, length, Nat.min_self]
  exact inside

theorem Replaced.term (legible : types.Legible)
    (replaced : types.Replaced parameters arguments type result) :
    types.term result = (types.term type).replace (parameters.map types.term)
    (arguments.map types.term) := by
  have reads {type : TypeId} (stays : replacement? type parameters arguments = none) :
      (types.term type).replacement? (parameters.map types.term) (arguments.map types.term) =
        none := by
    rw [legible.replacement?_term, stays, Option.map_none]
  have rebuilt {type result : TypeId} {former : Former} {parts others : List TypeId}
      (stays : replacement? type parameters arguments = none)
        (shape : types.shapeOf? type = some (former, parts))
      (built : types.shapeOf? result = some (former, others))
        (length : parts.length = others.length)
      (alike : ∀ part other, (part, other) ∈ parts.zip others →
        types.term other = (types.term part).replace (parameters.map types.term)
          (arguments.map types.term)) :
      types.term result = (types.term type).replace (parameters.map types.term)
        (arguments.map types.term) := by
    have unreplaced := reads stays
    rw [legible.term_of_shape shape] at unreplaced
    rw [legible.term_of_shape built, legible.term_of_shape shape, Term.replace_built unreplaced,
      List.map_map]
    congr 1
    exact map_eq_map_of_zip length alike
  induction replaced with
  | unparameterized blank =>
    subst blank
    rw [List.map_nil, Term.replace_nil]
  | @parameter type _ replaced =>
    have found := legible.replacement?_term type parameters arguments
    rw [replaced, Option.map_some] at found
    rw [Term.replace_of_replacement? found]
  | function stays stored isFunction found alsoFunction length _ ih =>
    exact rebuilt stays ((shapeOf?_of_get? stored).trans (TypeEntry.shape?_of_function isFunction))
      ((shapeOf?_of_get? found).trans (TypeEntry.shape?_of_function alsoFunction)) length ih
  | applied stays stored applied found sameSymbol alsoApplied length _ ih =>
    -- An instance is no function, so its type arguments are its parts.
    have built {other : TypeId} {made : TypeEntry} {given : List TypeId}
        (there : types.entries.get? other = some made) (isApplied : made.arguments = some given) :
        types.shapeOf? other = some (.applied made.symbol, given) := by
      refine (shapeOf?_of_get? there).trans (TypeEntry.shape?_eq_applied_iff.mpr ⟨fun isFunction =>
        ?_, rfl, isApplied⟩)
      rw [(legible.consed.anonymous other made there isFunction).2.1] at isApplied
      cases isApplied
    exact rebuilt stays (built stored applied) (sameSymbol ▸ built found alsoApplied) length ih
  | plain stays stored noFunction unapplied =>
    have leaf := (shapeOf?_of_get? stored).trans
      (TypeEntry.shape?_eq_none_iff.mpr ⟨noFunction, unapplied⟩)
    have unreplaced := reads stays
    rw [term_of_leaf leaf] at unreplaced ⊢
    rw [Term.replace_leaf unreplaced]

theorem substitute_faithful (fuel : Nat) (types : Types) (type : TypeId)
    (parameters arguments : List TypeId)
    (legible : types.Legible) (given : ∀ argument ∈ arguments, types.Stores argument) :
    (substitute fuel type parameters arguments).Ensures types
    (types.Replaces parameters arguments type) := by
  refine (Growth.legible.moves_substitute fuel types type parameters arguments legible given).weaken
    ?_
  intro result after answers
  refine ⟨answers.leads, answers.known, fun known stored => ?_⟩
  have extended := answers.leads.extended
  have later := answers.leads.legible
  rw [(answers.replaced trivial).term later, extended.term legible later stored,
    extended.map_term legible later known,
    extended.map_term legible later given]

theorem ensures_substituteEach_faithful (fuel : Nat) {parts : List TypeId} (legible : types.Legible)
    (given : ∀ argument ∈ arguments, types.Stores argument) :
    (parts.mapM fun part => substitute fuel part parameters arguments).Ensures types
      (types.ReplacesAll parameters arguments parts) := by
  refine ((Growth.legible.moves_substitute fuel).each legible given).weaken ?_
  intro answers after each
  refine ⟨each.leads, each.length, each.known, fun known stored => ?_⟩
  have extended := each.leads.extended
  have later := each.leads.legible
  obtain ⟨length, replaced⟩ := each.replaced trivial
  refine map_eq_map_of_zip length fun part answer listed => ?_
  rw [(replaced part answer listed).term later, extended.term legible later
    (stored part (List.of_mem_zip listed).1),
    extended.map_term legible later known, extended.map_term legible later given]

/-! ## Histories -/

/-- A built-in class may get a symbol that its instances have already. -/
theorem ensures_bindBuiltin_legible (legible : types.Legible) (builtin : type.index < 10)
    {symbol : SymbolId}
    (agrees : ∀ other entry, types.entries.get? other = some entry → entry.generic = some type →
      entry.symbol = some symbol) :
    (bindBuiltin type symbol).Ensures types fun _ => Legible := by
  have written : (bindBuiltin type symbol).Ensures types fun _ after =>
      after.entries = types.entries.modify type fun entry => { entry with symbol := some symbol } :=
    .updateIn fun _ => rfl
  refine ((ensures_update legible.consed (legible.consed.keeps_of_bindBuiltin builtin symbol)).and
    written).weaken ?_
  rintro _ after ⟨⟨consed, extended⟩, entries⟩
  have origin : ∀ other entry, after.entries.get? other = some entry →
      ∃ earlier, types.entries.get? other = some earlier ∧ earlier.Keeps entry := by
    intro other entry found
    obtain ⟨earlier, stored, _⟩ := Table.get?_modify_cases (entries ▸ found)
    obtain ⟨later, again, kept⟩ := extended other earlier stored
    obtain rfl : later = entry := Option.some.inj (again.symm.trans found)
    exact ⟨earlier, stored, kept⟩
  refine legible.of_entries consed origin ?_
  intro other entry arguments found applied
  obtain ⟨earlier, stored, kept⟩ := origin other entry found
  have wasApplied := kept.arguments.symm.trans applied
  obtain ⟨generic, definition, original, known, same⟩ :=
    legible.definition other earlier arguments stored wasApplied
  have declared : entry.symbol = earlier.symbol := kept.symbol (.inr (by rw [wasApplied]; rfl))
  refine ⟨generic, ?_⟩
  rw [kept.generic, original, declared, entries]
  -- The definition of the instance may be the class that gets the symbol.
  by_cases bound : generic = type
  · subst bound
    refine ⟨_, rfl, by rw [Table.get?_modify_self, known, Option.map_some], ?_⟩
    exact (agrees other earlier stored original).symm
  · exact ⟨definition, rfl, by rw [Table.get?_modify_of_ne _ _ bound, known], same⟩

theorem new_legible : Types.new.Legible := by
  refine ⟨new_hashConsed, ?_, ?_⟩
  · intro type former parts built
    obtain ⟨entry, stored, shape⟩ := exists_get?_of_shapeOf? built
    obtain ⟨_, noFunction, _, _, rfl⟩ := blank_new stored
    rw [TypeEntry.shape?_eq_none_iff.mpr ⟨noFunction, rfl⟩] at shape
    cases shape
  · intro type entry arguments stored applied
    obtain ⟨_, _, _, _, rfl⟩ := blank_new stored
    cases applied

/-- What callers heed beyond what is admitted: types are built from stored types, and a built-in
class keeps its symbol once it has instances. -/
def Call.Heeds (types : Types) : Call → Prop
  | .bindBuiltin type symbol =>
    ∀ other entry, types.entries.get? other = some entry → entry.generic = some type →
      entry.symbol = some symbol
  | .functionType result arguments => ∀ part ∈ result :: arguments, types.Stores part
  | .parameterize _ _ arguments => ∀ argument ∈ arguments, types.Stores argument
  | .substitute _ _ _ arguments => ∀ argument ∈ arguments, types.Stores argument
  | _ => True

instance (call : Call) : Decidable (call.Heeds types) := by
  apply @Call.casesOn _ call <;> intros <;> (dsimp only [Call.Heeds]; infer_instance)

/-- Tables that calls of heeding callers lead to. -/
inductive Leads (start : Types) : Types → Prop where
  | refl : Leads start start
  | call {types after : Types} (call : Call) : Leads start types → call.Admitted types →
    call.Heeds types →
      call.run types = .ok () after → Leads start after

theorem Call.ensures_legible (call : Call) (legible : types.Legible)
    (admitted : call.Admitted types)
    (heeds : call.Heeds types) : call.run.Ensures types fun _ => Legible := by
  cases call with
  | createNamed kind symbol =>
    let entry : TypeEntry := { kind, symbol := some symbol }
    have leaf : entry.shape? = none := TypeEntry.shape?_eq_none_iff.mpr ⟨admitted, rfl⟩
    have joined : types.Develops { types with entries := types.entries.push entry } := by
      refine legible.push (legible.consed.push_named admitted rfl) ?_ nofun
      intro former parts built
      cases leaf.symm.trans built
    exact Action.ensures_bind.mpr (ensures_push.mpr (.pure joined.legible))
  | bindBuiltin type symbol =>
    exact ensures_bindBuiltin_legible legible (Nat.lt_succ_of_le admitted.2) heeds
  | setParameters type parameters =>
    refine .updateIn fun _ => Develops.legible (legible.modify ?_ fun _ => rfl)
    exact fun _ _ => ⟨rfl, rfl, rfl, fun _ => rfl, fun _ => rfl⟩
  | createMember member =>
    exact Action.ensures_bind.mpr (ensures_createMember.mpr (.pure (legible.members _).legible))
  | memberType symbols fuel member =>
    exact .bind (ensures_memberType_develops symbols fuel member legible) fun _ _ develops =>
      .pure develops.legible
  | setRelated | complete | insertMember | setMember =>
    exact (Growth.legible.ensures_call id _ legible admitted trivial nofun).weaken fun _ _ =>
      Develops.legible
  | functionType | parameterize | substitute =>
    exact (Growth.legible.ensures_call id _ legible admitted trivial heeds).weaken fun _ _ =>
      Develops.legible

/-- Calls lead from legible tables to legible tables, and stored types stay. -/
theorem Leads.legible (leads : before.Leads after) (legible : before.Legible) :
    after.Legible ∧ before.Extends after := by
  induction leads with
  | refl => exact ⟨legible, .refl before⟩
  | call call _ admitted heeds returned ih =>
    obtain ⟨here, extended⟩ := ih
    exact ⟨call.ensures_legible here admitted heeds () _ returned,
      extended.trans (call.ensures_run here.consed admitted () _ returned).2⟩

/-! ## Substituting twice -/

/-- Replace in a type, and then in what came out. -/
def substituteTwice (fuel : Nat) (type : TypeId)
    (parameters arguments others replacements : List TypeId) :
    Action Types TypeId := do
  let replaced ← substitute fuel type parameters arguments
  substitute fuel replaced others replacements

/-- Replace in the type arguments, and then in a type. -/
def substituteThrough (fuel : Nat) (type : TypeId)
    (parameters arguments others replacements : List TypeId) :
    Action Types TypeId := do
  let replaced ← substituteAll fuel arguments others replacements
  substitute fuel type parameters replaced

/-- Two substitutions that can be made one: all types are stored, no argument of the first one is
missing, and the second one replaces leaves only, none of them a leaf of the type that the first one
leaves alone. -/
structure Composable (types : Types) (type : TypeId)
    (parameters arguments others replacements : List TypeId) :
    Prop where
  typeStored : types.Stores type
  parametersStored : ∀ parameter ∈ parameters, types.Stores parameter
  argumentsStored : ∀ argument ∈ arguments, types.Stores argument
  othersStored : ∀ other ∈ others, types.Stores other
  replacementsStored : ∀ replacement ∈ replacements, types.Stores replacement
  complete : arguments.length = parameters.length
  plain : ∀ other ∈ others, types.shapeOf? other = none
  covered : ∀ other ∈ others, other ∈ (types.term type).leaves → other ∈ parameters

/-- The term that two substitutions lead to. -/
def termTwice (types : Types) (type : TypeId)
    (parameters arguments others replacements : List TypeId) : Term :=
  ((types.term type).replace (parameters.map types.term) (arguments.map types.term)).replace
    (others.map types.term)
    (replacements.map types.term)

section Composable

variable {parameters arguments others replacements : List TypeId}

theorem Composable.extend
    (composable : before.Composable type parameters arguments others replacements)
    (extended : before.Extends after) (legible : before.Legible) (later : after.Legible) :
    after.Composable type parameters arguments others replacements where
  typeStored := extended.stores composable.typeStored
  parametersStored parameter listed :=
    extended.stores (composable.parametersStored parameter listed)
  argumentsStored argument listed := extended.stores (composable.argumentsStored argument listed)
  othersStored other listed := extended.stores (composable.othersStored other listed)
  replacementsStored replacement listed :=
    extended.stores (composable.replacementsStored replacement listed)
  complete := composable.complete
  plain other listed :=
    (extended.shapeOf? (composable.othersStored other listed)).trans (composable.plain other listed)
  covered other listed := by
    rw [extended.term legible later composable.typeStored]
    exact composable.covered other listed

theorem Composable.termTwice_eq
    (composable : before.Composable type parameters arguments others replacements)
    (extended : before.Extends after) (legible : before.Legible) (later : after.Legible) :
    after.termTwice type parameters arguments others replacements =
      before.termTwice type parameters arguments others replacements := by
  unfold termTwice
  rw [extended.term legible later composable.typeStored,
    extended.map_term legible later composable.parametersStored,
    extended.map_term legible later composable.argumentsStored,
      extended.map_term legible later composable.othersStored,
    extended.map_term legible later composable.replacementsStored]

/-- The answer of two substitutions and its term. -/
def Twice (before : Types) (type : TypeId) (parameters arguments others replacements : List TypeId)
    (answer : TypeId)
    (after : Types) : Prop :=
  before.Develops after ∧ after.Stores answer ∧
    after.term answer = before.termTwice type parameters arguments others replacements

variable (composable : types.Composable type parameters arguments others replacements)

include composable

theorem Composable.ensures_twice (legible : types.Legible) (fuel : Nat) :
    (substituteTwice fuel type parameters arguments others replacements).Ensures types
      (types.Twice type parameters arguments others replacements) := by
  refine Action.ensures_bind.mpr
    ((substitute_faithful fuel types type parameters arguments legible
      composable.argumentsStored).weaken ?_)
  intro replaced middle first
  have grown := first.develops.extended
  have given := fun replacement listed =>
    grown.stores (composable.replacementsStored replacement listed)
  refine (substitute_faithful fuel middle replaced others replacements first.develops.legible
    given).weaken ?_
  intro answer after second
  have there := first.stores composable.typeStored
  refine ⟨first.develops.trans second.develops, second.stores there, ?_⟩
  rw [second.term (fun other listed => grown.stores (composable.othersStored other listed)) there,
    first.term composable.parametersStored composable.typeStored,
    grown.map_term legible first.develops.legible composable.othersStored,
    grown.map_term legible first.develops.legible composable.replacementsStored, termTwice]

theorem Composable.ensures_through (legible : types.Legible) (fuel : Nat) :
    (substituteThrough fuel type parameters arguments others replacements).Ensures types
      (types.Twice type parameters arguments others replacements) := by
  refine Action.ensures_bind.mpr
    ((ensures_substituteEach_faithful fuel legible composable.replacementsStored).weaken ?_)
  intro replaced middle each
  have grown := each.develops.extended
  have given := each.stores composable.argumentsStored
  refine (substitute_faithful fuel middle type parameters replaced each.develops.legible
    given).weaken ?_
  intro answer after second
  have there := grown.stores composable.typeStored
  refine ⟨each.develops.trans second.develops, second.stores there, ?_⟩
  rw [second.term (fun parameter listed =>
    grown.stores (composable.parametersStored parameter listed)) there,
    grown.term legible each.develops.legible composable.typeStored,
    grown.map_term legible each.develops.legible composable.parametersStored,
    each.terms composable.othersStored composable.argumentsStored, termTwice, Term.replace_replace,
      List.map_map]
  · rfl
  · rw [List.length_map, List.length_map, composable.complete]
  · intro other listed
    obtain ⟨source, member, rfl⟩ := List.mem_map.mp listed
    exact ⟨source, term_of_leaf (composable.plain source member)⟩
  · intro leaf inside listed
    obtain ⟨source, member, reads⟩ := List.mem_map.mp listed
    obtain rfl := legible.eq_of_term_leaf reads
    exact reads ▸ List.mem_map_of_mem (composable.covered source member inside)

/-- Both ways of making two substitutions give one type, whichever is gone first and whatever
happens in between. -/
theorem Twice.eq (legible : types.Legible)
    {middle later : Types} {first second : TypeId}
    (earlier : types.Twice type parameters arguments others replacements first middle)
    (leads : middle.Leads later)
    (again : later.Twice type parameters arguments others replacements second after) :
    first = second := by
  obtain ⟨firstDevelops, stored, reads⟩ := earlier
  obtain ⟨secondDevelops, _, readsAgain⟩ := again
  obtain ⟨laterLegible, extended⟩ := leads.legible firstDevelops.legible
  have onwards := extended.trans secondDevelops.extended
  refine secondDevelops.legible.term_injective ?_
  rw [onwards.term firstDevelops.legible secondDevelops.legible stored, reads, readsAgain,
    composable.termTwice_eq (firstDevelops.extended.trans extended) legible laterLegible]

end Composable

/-- Substitution is simultaneous replacement in terms.  Function types read as built from result and
arguments and instances from their type arguments, all else is a leaf, and types that read alike are
one type.  Substitution answers the type whose term is that of the given type with all parameters
replaced at once, where a missing argument is the error type, and stored types keep their terms.  So
two substitutions, one after the other, and one substitution of replaced arguments answer the same
type, also when other calls are made between them. -/
theorem substitution_is_simultaneous {types : Types} (leads : Types.new.Leads types) :
    (∀ type, types.term type =
      match types.shapeOf? type with
      | some (former, parts) => .built former (parts.map types.term)
      | none => .leaf type) ∧
    (∀ first second, types.term first = types.term second → first = second) ∧
    (∀ fuel type parameters arguments result after, types.Stores type →
      (∀ parameter ∈ parameters, types.Stores parameter) →
        (∀ argument ∈ arguments, types.Stores argument) →
      substitute fuel type parameters arguments types = .ok result after →
      after.Stores result ∧
        after.term result = (types.term type).replace (parameters.map types.term)
          (arguments.map types.term) ∧
        ∀ other, types.Stores other → after.term other = types.term other) ∧
    (∀ fuel steps type parameters arguments others replacements left right middle later after,
      types.Composable type parameters arguments others replacements → middle.Leads later →
      (substituteTwice fuel type parameters arguments others replacements types = .ok left middle →
        substituteThrough steps type parameters arguments others replacements later =
          .ok right after →
        left = right) ∧
      (substituteThrough steps type parameters arguments others replacements types =
        .ok right middle →
        substituteTwice fuel type parameters arguments others replacements later = .ok left after →
        left = right)) := by
  have legible := (leads.legible new_legible).1
  refine ⟨?_, fun first second => legible.term_injective, ?_, ?_⟩
  · intro type
    cases built : types.shapeOf? type with
    | none => exact term_of_leaf built
    | some shape => exact legible.term_of_shape built
  · intro fuel type parameters arguments result after stored known given run
    have replaces := substitute_faithful fuel types type parameters arguments legible given result
      after run
    refine ⟨replaces.stores stored, replaces.term known stored, fun other there => ?_⟩
    exact replaces.develops.extended.term legible replaces.develops.legible there
  · intro fuel steps type parameters arguments others replacements left right middle later after
      composable onwards
    constructor
    · intro twice through
      have first := composable.ensures_twice legible fuel left middle twice
      obtain ⟨laterLegible, extended⟩ := onwards.legible first.1.legible
      have still := composable.extend (first.1.extended.trans extended) legible laterLegible
      exact first.eq composable legible onwards
        (still.ensures_through laterLegible steps right after through)
    · intro through twice
      have first := composable.ensures_through legible steps right middle through
      obtain ⟨laterLegible, extended⟩ := onwards.legible first.1.legible
      have still := composable.extend (first.1.extended.trans extended) legible laterLegible
      exact (first.eq composable legible onwards
        (still.ensures_twice laterLegible fuel left after twice)).symm

/-- A class `C<T>` is declared, and there is a function type from `T` to `C<T>`. -/
def classCalls : List Call :=
  [.createNamed .classType ⟨0⟩, .createNamed .parameter ⟨1⟩, .setParameters ⟨10⟩ [⟨11⟩],
    .complete 3 ⟨10⟩,
    .parameterize 3 ⟨10⟩ [⟨11⟩], .functionType ⟨12⟩ [⟨11⟩]]

theorem leads_classCalls : Types.new.Leads (afterCalls classCalls) := by
  have runs : Runs (fun types call => call.Admitted types ∧ call.Heeds types) classCalls .new :=
    by decide
  exact runs.foldl (fun call before allowed => before.call call allowed.1 allowed.2) .refl

/-- In the function type from `T` to `C<T>`, first `C<T>` takes the place of `T`, and then `int`
does. -/
theorem substitution_is_simultaneous_class : Types.new.Leads (afterCalls classCalls) ∧
      (afterCalls classCalls).Composable ⟨13⟩ [⟨11⟩] [⟨12⟩] [⟨11⟩] [.int] ∧
      ∃ left right middle after,
        substituteTwice 9 ⟨13⟩ [⟨11⟩] [⟨12⟩] [⟨11⟩] [.int] (afterCalls classCalls) =
        .ok left middle ∧
        substituteThrough 9 ⟨13⟩ [⟨11⟩] [⟨12⟩] [⟨11⟩] [.int] middle = .ok right after ∧
        left = right := by
  have composable : (afterCalls classCalls).Composable ⟨13⟩ [⟨11⟩] [⟨12⟩] [⟨11⟩] [.int] :=
    { typeStored := by decide
      parametersStored := by decide
      argumentsStored := by decide
      othersStored := by decide
      replacementsStored := by decide
      complete := rfl
      plain := List.forall_mem_singleton.mpr rfl
      covered := fun _ listed _ => listed }
  refine ⟨leads_classCalls, composable, ⟨18⟩, ⟨18⟩, _, _, Action.eq_ok_of_answer? rfl,
    Action.eq_ok_of_answer? rfl, ?_⟩
  exact ((substitution_is_simultaneous leads_classCalls).2.2.2 9 9 _ _ _ _ _ _ _ _ _ _ composable
    .refl).1
    (Action.eq_ok_of_answer? rfl) (Action.eq_ok_of_answer? rfl)

/-- `List` has an instance with a type parameter when it gets another symbol. -/
def reboundCalls : List Call :=
  [.createNamed .parameter ⟨2⟩, .createNamed .parameter ⟨3⟩, .bindBuiltin .list ⟨0⟩,
    .parameterize 3 .list [⟨10⟩],
    .bindBuiltin .list ⟨1⟩]

/-- A type parameter is applied to another one and to a class. -/
def appliedCalls : List Call :=
  [.createNamed .parameter ⟨2⟩, .createNamed .parameter ⟨3⟩, .parameterize 3 ⟨10⟩ [⟨11⟩],
    .parameterize 3 ⟨10⟩ [.int]]

/-- What callers heed is needed.  Where a built-in class has an instance and gets another symbol,
renaming a type parameter there and back gives another instance.  Where a type parameter is applied,
the second substitution may replace what the first one built.  And a function type of a type that is
not stored yet may be its own result. -/
theorem substitution_of_heedless_callers : (∃ types left right middle after, Reachable types ∧
      (∀ parameter ∈ [⟨10⟩, ⟨11⟩], types.kind parameter = .ok .parameter) ∧
      types.term ⟨12⟩ = .built (.applied (some ⟨0⟩)) [.leaf ⟨10⟩] ∧
      substituteTwice 9 ⟨12⟩ [⟨10⟩] [⟨11⟩] [⟨11⟩] [⟨10⟩] types = .ok left middle ∧
      substituteThrough 9 ⟨12⟩ [⟨10⟩] [⟨11⟩] [⟨11⟩] [⟨10⟩] middle = .ok right after ∧
      left ≠ right) ∧
    (∃ types left right middle after, Reachable types ∧
      (∀ parameter ∈ [⟨11⟩, ⟨13⟩], types.kind parameter = .ok .parameter) ∧
      types.term ⟨12⟩ = .built (.applied (some ⟨2⟩)) [.leaf ⟨11⟩] ∧
      substituteTwice 9 ⟨12⟩ [⟨11⟩] [.int] [⟨13⟩] [.bool] types = .ok left middle ∧
      substituteThrough 9 ⟨12⟩ [⟨11⟩] [.int] [⟨13⟩] [.bool] middle = .ok right after ∧
      left ≠ right) ∧
    (∃ types, Reachable types ∧ types.shapeOf? ⟨10⟩ = some (.function, [⟨10⟩])) := by
  refine ⟨?_, ?_, ?_⟩
  · have reachable : Reachable (afterCalls reboundCalls) := .afterCalls (by decide)
    refine ⟨_, ⟨14⟩, ⟨12⟩, _, _, reachable, ?_, rfl, Action.eq_ok_of_answer? rfl,
      Action.eq_ok_of_answer? rfl,
      by decide⟩
    exact List.forall_mem_cons.mpr ⟨rfl, List.forall_mem_singleton.mpr rfl⟩
  · have reachable : Reachable (afterCalls appliedCalls) := .afterCalls (by decide)
    refine ⟨_, .bool, ⟨13⟩, _, _, reachable, ?_, rfl, Action.eq_ok_of_answer? rfl,
      Action.eq_ok_of_answer? rfl,
      by decide⟩
    exact List.forall_mem_cons.mpr ⟨rfl, List.forall_mem_singleton.mpr rfl⟩
  · exact ⟨_, Reachable.new.call (.functionType ⟨10⟩ []) trivial (Action.eq_ok_of_answer? rfl), rfl⟩

end Types
end Resolution
