import Resolution.Proofs.Forgetting

/-!
# Members and where they come from

A member is an own member of a symbol, or it was taken from another member, and so on back to an own
one; some of these steps lead into an instance.  `Chain` names the symbol and the instances on the
way.  `substituteAlong` starts from the type of the symbol and substitutes through these instances,
one after the other, without asking any member.  That is what `memberType` returns, and it returns
whenever the substitutions do, whatever members remember.  So a type that a member remembers can be
worked out again from scratch: with every remembered type forgotten, and given enough steps,
`memberType` returns it.
-/

namespace Resolution
namespace Types

variable {types before after one other : Types} {symbols : Symbols} {id : MemberId}
  {owner : SymbolId}
  {contexts : List TypeId} {base type result : TypeId} {member : Member} {fuel : Nat}
  {symbol : Symbol}

/-! ## Chains -/

/-- The symbol that a member comes from and the instances that it is taken through, the one next to
the definition first. -/
inductive Chain (types : Types) : MemberId → SymbolId → List TypeId → Prop where
  | own {id : MemberId} {member : Member} (stored : types.members.get? id = some member)
      (plain : member.dependency = none) : Chain types id member.symbol member.instanceType.toList
  | taken {id original : MemberId} {member : Member} {owner : SymbolId} {contexts : List TypeId}
      (stored : types.members.get? id = some member) (depends : member.dependency = some original)
      (source : Chain types original owner contexts) :
        Chain types id owner (contexts ++ member.instanceType.toList)

theorem Chain.unique {other : SymbolId} {others : List TypeId} (one : types.Chain id owner contexts)
    (two : types.Chain id other others) : other = owner ∧ others = contexts := by
  induction one generalizing other others with
  | own stored plain =>
    cases two with
    | own also _ =>
      cases stored.symm.trans also
      exact ⟨rfl, rfl⟩
    | taken also depends _ =>
      cases stored.symm.trans also
      cases plain.symm.trans depends
  | taken stored depends _ ih =>
    cases two with
    | own also plain =>
      cases stored.symm.trans also
      cases plain.symm.trans depends
    | taken also dependsAlso source =>
      cases stored.symm.trans also
      cases depends.symm.trans dependsAlso
      obtain ⟨rfl, rfl⟩ := ih source
      exact ⟨rfl, rfl⟩

/-- What a type becomes through instances, one after the other. -/
def Through (types : Types) : List TypeId → TypeId → TypeId → Prop
  | [], base, type => type = base
  | context :: rest, base, type =>
    ∃ middle, types.Applies (some context) base middle ∧ types.Through rest middle type

theorem through_append {first second : List TypeId} :
    types.Through (first ++ second) base type ↔ ∃ middle, types.Through first base middle ∧
    types.Through second middle type := by
  induction first generalizing base with
  | nil => simp [Through]
  | cons context rest ih => simp only [List.cons_append, Through, ih]; grind

theorem through_toList {context : Option TypeId} :
    types.Through context.toList base type ↔ types.Applies context base type := by
  cases context with
  | none => rfl
  | some context => simp [Through, Option.toList]

/-- The calculation of a remembered type goes along the chain of the member. -/
theorem computes_iff : types.Computes symbols id type ↔ ∃ owner contexts symbol,
    types.Chain id owner contexts ∧
    symbols.get? owner = some symbol ∧ symbol.progress = .settled ∧
    types.Through contexts symbol.typeOrError type := by
  constructor
  · intro computes
    induction computes with
    | own stored plain known settled applies =>
      exact ⟨_, _, _, .own stored plain, known, settled, through_toList.mpr applies⟩
    | taken stored depends _ applies ih =>
      obtain ⟨owner, contexts, symbol, chain, known, settled, through⟩ := ih
      exact ⟨owner, _, symbol, .taken stored depends chain, known, settled,
        through_append.mpr ⟨_, through, through_toList.mpr applies⟩⟩
  · rintro ⟨owner, contexts, symbol, chain, known, settled, through⟩
    induction chain generalizing type with
    | own stored plain => exact .own stored plain known settled (through_toList.mp through)
    | taken stored depends _ ih =>
      obtain ⟨middle, through, applies⟩ := through_append.mp through
      exact .taken stored depends (ih known through) (through_toList.mp applies)

/-! ## What later operations leave alone -/

/-- Stored types stay the same, so does what instances substitute, and members stay up to what they
remember. -/
structure Upholds (before after : Types) : Prop where
  extended : before.Extends after
  substitutions : ∀ context pair, before.substitutionOf context = .ok pair →
    after.substitutionOf context = .ok pair
  members : ∀ id member, before.members.get? id = some member →
    ∃ learned, after.members.get? id = some { member with type := learned }

theorem Upholds.refl (types : Types) : types.Upholds types :=
  ⟨.refl types, fun _ _ known => known, fun _ member stored => ⟨member.type, stored⟩⟩

theorem Upholds.trans {first second third : Types} (one : first.Upholds second)
    (two : second.Upholds third) :
    first.Upholds third where
  extended := one.extended.trans two.extended
  substitutions context pair known :=
    two.substitutions context pair (one.substitutions context pair known)
  members id member stored := by
    obtain ⟨learned, between⟩ := one.members id member stored
    have further := two.members id _ between
    exact further

theorem Recalls.upholds (recalls : before.Recalls after) : before.Upholds after where
  extended := recalls.grown
  substitutions _ _ known := substitutionOf_recalls recalls known
  members id member stored := by
    obtain ⟨⟨_, learned, _, _⟩, found, stays⟩ := recalls.members id member stored
    cases stays.symbol
    cases stays.dependency
    cases stays.instanceType
    exact ⟨learned, found⟩

theorem Alike.upholds (alike : one.Alike other) : one.Upholds other where
  extended := by
    intro type entry stored
    exact ⟨entry, alike.entries ▸ stored, .refl entry⟩
  substitutions context pair known := by
    rw [← alike.substitutionOf]
    exact known
  members _ _ stored := alike.member stored

theorem Chain.keep (chain : before.Chain id owner contexts) (upholds : before.Upholds after) :
    after.Chain id owner contexts := by
  induction chain with
  | @own id member stored plain =>
    obtain ⟨learned, found⟩ := upholds.members id member stored
    have kept := Chain.own found plain
    exact kept
  | @taken id _ member _ _ stored depends _ ih =>
    obtain ⟨learned, found⟩ := upholds.members id member stored
    have kept := Chain.taken found depends ih
    exact kept

theorem Through.keep (through : before.Through contexts base type)
    (upholds : before.Upholds after) :
    after.Through contexts base type := by
  induction contexts generalizing base with
  | nil => exact through
  | cons context rest ih =>
    obtain ⟨middle, ⟨parameters, arguments, known, replaced⟩, through⟩ := through
    exact ⟨middle, ⟨parameters, arguments, upholds.substitutions context _ known,
      replaced.keep upholds.extended⟩,
      ih through⟩

/-! ## Substituting along a chain -/

/-- Substitute through instances, one after the other. -/
def substituteAlong (fuel : Nat) : List TypeId → TypeId → Action Types TypeId
  | [], type => pure type
  | context :: rest, type => do
      let (parameters, arguments) ← Action.ofExcept ((← get).substitutionOf context)
      let replaced ← substitute fuel type parameters arguments
      substituteAlong fuel rest replaced

theorem substituteAlong_append (fuel : Nat) (first second : List TypeId) (type : TypeId) :
    substituteAlong fuel (first ++ second) type = substituteAlong fuel first type >>=
    substituteAlong fuel second := by
  induction first generalizing type with
  | nil => rfl
  | cons context rest ih => simp only [List.cons_append, substituteAlong, ih, bind_assoc]

theorem substituteAlong_follows {more : Nat} (enough : fuel ≤ more) (alike : one.Alike other)
    (contexts : List TypeId) (type : TypeId) :
    Follows one other (substituteAlong fuel contexts type) (substituteAlong more contexts type) :=
  by
  induction contexts generalizing type one other with
  | nil => exact .pure alike type
  | cons context rest ih =>
    refine Follows.get ?_
    rw [← alike.substitutionOf]
    refine Follows.ask_same fun pair _ => ?_
    exact Follows.bind (substitute_follows enough type pair.1 pair.2 _ _ alike)
      fun replaced _ _ alike => ih alike replaced

/-- What comes out is what the instances make of the type. -/
theorem ensures_substituteAlong (fuel : Nat) (contexts : List TypeId) (rooted : types.Rooted) :
    (substituteAlong fuel contexts base).Ensures types fun result after =>
      types.Grows after ∧ after.Through contexts base result := by
  induction contexts generalizing base types with
  | nil => exact .pure ⟨.refl rooted, rfl⟩
  | cons context rest ih =>
    unfold substituteAlong
    refine .get ?_
    refine .ask fun pair substitutes => ?_
    refine .bind (substitute_grows fuel _ _ _ _ rooted) ?_
    rintro replaced middle ⟨grows, isReplaced⟩
    refine (ih grows.rooted).weaken ?_
    rintro result after ⟨further, through⟩
    refine ⟨grows.trans further, replaced,
      ⟨pair.1, pair.2, ?_, isReplaced.keep further.recalls.grown⟩, through⟩
    exact substitutionOf_recalls (grows.recalls.trans further.recalls) substitutes

/-- Where everything was substituted before, substituting again gives the same type and nothing new.
-/
theorem Rooted.substituteAlong_stable (rooted : types.Rooted)
    (through : types.Through contexts base type) :
    ∃ least, ∀ fuel, least ≤ fuel → ∀ members,
      substituteAlong fuel contexts base { types with members } = .ok type { types with members } :=
  by
  induction contexts generalizing base with
  | nil =>
    obtain rfl : type = base := through
    exact ⟨0, fun _ _ _ => rfl⟩
  | cons context rest ih =>
    obtain ⟨middle, ⟨parameters, arguments, substitutes, replaced⟩, through⟩ := through
    obtain ⟨least, stable⟩ := rooted.stable replaced
    obtain ⟨more, others⟩ := ih through
    refine ⟨max least more, fun fuel enough members => ?_⟩
    change (Action.ofExcept (Types.substitutionOf { types with members } context) >>= _)
      { types with members } = _
    rw [show Types.substitutionOf { types with members } context = .ok (parameters, arguments) from
      substitutes]
    change (substitute fuel base parameters arguments >>= substituteAlong fuel rest)
      { types with members } = _
    exact (Action.bind_eq_ok_iff ..).mpr ⟨middle, _, stable fuel (by omega) members,
      others fuel (by omega) members⟩

/-! ## One step of the calculation -/

/-- The end of the calculation: the member remembers a type that is final. -/
def noted (symbols : Symbols) (id : MemberId) (owner : SymbolId) (base type : TypeId) :
    Action Types TypeId := do
  let symbol ← Action.ofExcept (symbols.fetch owner)
  if symbol.progress = .settled ∧ base ≠ .error then
    updateMember id fun member => { member with type := some type }
  return type

theorem concluded_eq (symbols : Symbols) (fuel : Nat) (id : MemberId) (owner : SymbolId)
    (context : Option TypeId)
    (base : TypeId) : concluded symbols fuel id owner context base =
      substituteAlong fuel context.toList base >>= noted symbols id owner base := by
  cases context with
  | none => rfl
  | some context =>
    simp only [Option.toList, substituteAlong, bind_assoc]
    rfl

theorem ensures_noted (symbols : Symbols) (id : MemberId) (owner : SymbolId) (base type : TypeId) :
    (noted symbols id owner base type).Ensures types fun result after => result = type ∧
    types.Alike after := by
  unfold noted
  refine .ask fun symbol _ => ?_
  split
  · refine Action.ensures_bind.mpr (.updateIn fun _ => ?_)
    exact .pure ⟨rfl, .learn types id type⟩
  · exact .pure ⟨rfl, .refl types⟩

theorem noted_returns (stored : types.members.get? id = some member)
    (known : symbols.get? owner = some symbol) (base type : TypeId) :
    ∃ after, noted symbols id owner base type types = .ok type after := by
  unfold noted
  rw [(Table.fetch_eq_ok_iff ..).mpr known]
  change ∃ after,
    (if symbol.progress = .settled ∧ base ≠ .error then _ else _ : Action Types TypeId) types = _
  split
  · refine ⟨{ types with
              members := types.members.modify id fun member =>
                { member with type := some type } }, ?_⟩
    refine (Action.bind_eq_ok_iff ..).mpr ⟨(), _, ?_, rfl⟩
    simp only [updateMember, Action.zoom, Table.update, if_pos (Table.lt_size_of_get? stored)]
  · exact ⟨types, rfl⟩

/-- A member answers what it remembers; otherwise it substitutes through its instance in what it
starts from. -/
theorem memberType_step (run : memberType symbols (fuel + 1) id types = .ok result after) :
    ∃ member, types.members.get? id = some member ∧
      (member.type = some result ∧ after = types ∨
        member.type = none ∧ ∃ base middle between, startOf symbols fuel member types =
        .ok base middle ∧
          substituteAlong fuel member.instanceType.toList base middle = .ok result between ∧
          between.Alike after) := by
  have fetches : (memberType symbols (fuel + 1) id).Ensures types fun _ _ =>
    ∃ member, types.members.get? id = some member := by
    unfold memberType
    refine .get (.fetch fun member stored _ _ _ => ⟨member, stored⟩)
  obtain ⟨member, stored⟩ := fetches result after run
  refine ⟨member, stored, ?_⟩
  cases learned : member.type with
  | some type =>
    rw [show memberType symbols (fuel + 1) id types = _ from
      run_memberType_learned stored learned] at run
    cases run
    exact .inl ⟨rfl, rfl⟩
  | none =>
    rw [run_memberType_unlearned stored learned] at run
    obtain ⟨base, middle, starts, concludes⟩ := (Action.bind_eq_ok_iff ..).mp run
    rw [concluded_eq] at concludes
    obtain ⟨type, between, substituted, notes⟩ := (Action.bind_eq_ok_iff ..).mp concludes
    obtain ⟨rfl, alike⟩ := ensures_noted symbols id member.symbol base type result after notes
    exact .inr ⟨rfl, base, middle, between, starts, substituted, alike⟩

theorem memberType_returns {middle between : Types}
    (stored : types.members.get? id = some member) (unlearned : member.type = none)
    (known : symbols.get? member.symbol = some symbol) (starts : startOf symbols fuel member types =
      .ok base middle)
    (kept : types.Upholds middle)
    (substituted : substituteAlong fuel member.instanceType.toList base middle = .ok result between)
    (keptStill : middle.Upholds between) :
    ∃ after, memberType symbols (fuel + 1) id types = .ok result after ∧ between.Alike after := by
  obtain ⟨learned, there⟩ := (kept.trans keptStill).members id member stored
  obtain ⟨after, returned⟩ := noted_returns there known base result
  refine ⟨after, ?_, (ensures_noted symbols id member.symbol base result result after returned).2⟩
  rw [run_memberType_unlearned stored unlearned]
  refine (Action.bind_eq_ok_iff ..).mpr ⟨base, middle, starts, ?_⟩
  rw [concluded_eq]
  exact (Action.bind_eq_ok_iff ..).mpr ⟨result, between, substituted, returned⟩

/-! ## The calculation and the substitutions along the chain -/

theorem Alike.eq_with (alike : one.Alike other) :
    other = { one with members := other.members } := by
  obtain ⟨_, _, _⟩ := other
  cases alike.entries
  cases alike.interned
  rfl

/-- What a member remembers comes out of the substitutions along its chain, without anything new. -/
theorem Remembered.along (remembered : types.Remembered symbols) (rooted : types.Rooted)
    (stored : types.members.get? id = some member) (learned : member.type = some type) :
    ∃ owner contexts symbol, types.Chain id owner contexts ∧ symbols.get? owner = some symbol ∧
      ∃ least, ∀ fuel, least ≤ fuel → ∀ other, types.Alike other →
        substituteAlong fuel contexts symbol.typeOrError other = .ok type other := by
  obtain ⟨owner, contexts, symbol, chain, known, _, through⟩ :=
    computes_iff.mp (remembered id member type stored learned)
  obtain ⟨least, stable⟩ := rooted.substituteAlong_stable through
  refine ⟨owner, contexts, symbol, chain, known, least, fun fuel enough other alike => ?_⟩
  rw [alike.eq_with]
  exact stable fuel enough other.members

theorem memberType_along (rooted : types.Rooted) (remembered : types.Remembered symbols)
    (run : memberType symbols fuel id types = .ok result after) :
    ∃ owner contexts symbol, types.Chain id owner contexts ∧ symbols.get? owner = some symbol ∧
      ∃ least, ∀ more, least ≤ more → ∀ other, types.Alike other →
        ∃ final, substituteAlong more contexts symbol.typeOrError other = .ok result final ∧
        after.Alike final := by
  induction fuel generalizing id result after with
  | zero => cases run
  | succ fuel ih =>
    obtain ⟨member, stored, ⟨learned, rfl⟩ | ⟨_, base, middle, between, starts, substituted,
      alike⟩⟩ :=
      memberType_step run
    · obtain ⟨owner, contexts, symbol, chain, known, least, along⟩ :=
        remembered.along rooted stored learned
      exact ⟨owner, contexts, symbol, chain, known, least, fun more enough other alike =>
        ⟨other, along more enough other alike, alike⟩⟩
    · -- From what the member starts from, the last substitution does the same in every table that
      -- is alike.
      have last : ∀ more, fuel ≤ more → ∀ other, middle.Alike other →
          ∃ final, substituteAlong more member.instanceType.toList base other = .ok result final ∧
            after.Alike final := by
        intro more enough other alikeMiddle
        obtain ⟨final, returned, alikeFinal⟩ :=
          substituteAlong_follows enough alikeMiddle _ base result between substituted
        exact ⟨final, returned, alike.symm.trans alikeFinal⟩
      cases depends : member.dependency with
      | none =>
        rw [startOf, depends] at starts
        cases found : symbols.fetch member.symbol with
        | error fault =>
          rw [found] at starts
          cases starts
        | ok symbol =>
          rw [found] at starts
          cases starts
          exact ⟨member.symbol, _, symbol, .own stored depends, (Table.fetch_eq_ok_iff ..).mp found,
            fuel, last⟩
      | some original =>
        rw [startOf, depends] at starts
        obtain ⟨owner, contexts, symbol, chain, known, least, along⟩ := ih starts
        refine ⟨owner, _, symbol, .taken stored depends chain, known, max least fuel,
          fun more enough other alike => ?_⟩
        obtain ⟨final, returned, alikeMiddle⟩ := along more (by omega) other alike
        obtain ⟨finish, finished, alikeFinish⟩ := last more (by omega) final alikeMiddle
        rw [substituteAlong_append]
        exact ⟨finish, (Action.bind_eq_ok_iff ..).mpr ⟨base, final, returned, finished⟩,
          alikeFinish⟩

theorem Chain.symbol_eq (chain : types.Chain id owner contexts) (rooted : types.Rooted)
    (stored : types.members.get? id = some member) : member.symbol = owner := by
  induction chain generalizing member with
  | own found _ =>
    cases stored.symm.trans found
    rfl
  | taken found depends _ ih =>
    cases stored.symm.trans found
    obtain ⟨source, there, same⟩ := rooted.origin _ _ _ stored depends
    rw [← same, ih there]

section Returning

variable {fuel : Nat} {symbol : Symbol} {other final : Types}

theorem Chain.memberType_learned (chain : types.Chain id owner contexts) (rooted : types.Rooted)
    (remembered : types.Remembered symbols) (known : symbols.get? owner = some symbol)
    (alike : types.Alike other)
    (stored : types.members.get? id = some member) (learned : member.type = some type)
    (run : substituteAlong fuel contexts symbol.typeOrError other = .ok result final) :
    ∃ least, ∀ more, least ≤ more → ∃ after, memberType symbols more id types = .ok result after ∧
    after.Alike final := by
  obtain ⟨_, _, _, also, knownAlso, least, along⟩ := remembered.along rooted stored learned
  obtain ⟨rfl, rfl⟩ := chain.unique also
  cases known.symm.trans knownAlso
  obtain ⟨last, ran, alikeLast⟩ := substituteAlong_follows (Nat.le_max_left fuel least)
    (.refl other) _ _ result final run
  rw [along _ (Nat.le_max_right fuel least) other alike] at ran
  cases ran
  refine ⟨1, fun more enough => ?_⟩
  obtain ⟨fewer, rfl⟩ := Nat.exists_eq_add_of_le' enough
  exact ⟨types, run_memberType_learned stored learned, alike.trans alikeLast.symm⟩

theorem Chain.memberType_returns (chain : types.Chain id owner contexts) (rooted : types.Rooted)
    (remembered : types.Remembered symbols) (known : symbols.get? owner = some symbol)
    (alike : types.Alike other)
    (run : substituteAlong fuel contexts symbol.typeOrError other = .ok result final) :
    ∃ least, ∀ more, least ≤ more → ∃ after, memberType symbols more id types = .ok result after ∧
    after.Alike final := by
  induction chain generalizing result final with
  | @own id member stored plain =>
    cases learned : member.type with
    | some type =>
      exact (Chain.own stored plain).memberType_learned rooted remembered known alike stored learned
        run
    | none =>
      refine ⟨fuel + 1, fun more enough => ?_⟩
      obtain ⟨more, rfl⟩ := Nat.exists_eq_add_of_le' (Nat.one_le_of_lt enough)
      obtain ⟨between, substituted, alikeFinal⟩ :=
        substituteAlong_follows (Nat.le_of_succ_le_succ enough) alike.symm _ _ result final run
      have starts : startOf symbols more member types = .ok symbol.typeOrError types := by
        rw [startOf, plain, (Table.fetch_eq_ok_iff ..).mpr known]
        rfl
      obtain ⟨grows, _⟩ := ensures_substituteAlong more _ rooted result between substituted
      obtain ⟨after, returned, alikeAfter⟩ :=
        Types.memberType_returns stored learned known starts (.refl types) substituted
          grows.recalls.upholds
      exact ⟨after, returned, alikeAfter.symm.trans alikeFinal.symm⟩
  | @taken id original member owner contexts stored depends source ih =>
    have chain : types.Chain id owner (contexts ++ member.instanceType.toList) :=
      .taken stored depends source
    cases learned : member.type with
    | some type => exact chain.memberType_learned rooted remembered known alike stored learned run
    | none =>
      rw [substituteAlong_append] at run
      obtain ⟨base, middle, first, second⟩ := (Action.bind_eq_ok_iff ..).mp run
      obtain ⟨least, returns⟩ := ih known first
      refine ⟨max least fuel + 1, fun more enough => ?_⟩
      obtain ⟨more, rfl⟩ := Nat.exists_eq_add_of_le' (Nat.one_le_of_lt enough)
      obtain ⟨between, starts, alikeMiddle⟩ := returns more (by omega)
      obtain ⟨rootedStill, _, recalls, _⟩ :=
        ensures_memberType_remembers symbols more original rooted remembered base between starts
      obtain ⟨last, substituted, alikeFinal⟩ :=
        substituteAlong_follows (show fuel ≤ more by omega) alikeMiddle.symm _ _ result final second
      have startsThere : startOf symbols more member types = .ok base between := by
        rw [startOf, depends]
        exact starts
      obtain ⟨grows, _⟩ := ensures_substituteAlong more _ rootedStill result last substituted
      have owned : symbols.get? member.symbol = some symbol := by
        rw [chain.symbol_eq rooted stored]
        exact known
      obtain ⟨after, returned, alikeAfter⟩ :=
        Types.memberType_returns stored learned owned startsThere recalls.upholds substituted
          grows.recalls.upholds
      exact ⟨after, returned, alikeAfter.symm.trans alikeFinal.symm⟩

end Returning

/-! ## Forgetting everything -/

theorem alike_forgotten (types : Types) : types.Alike types.forgotten :=
  ⟨rfl, rfl, by simp [forgotten]⟩

theorem Rooted.forget (rooted : types.Rooted) : types.forgotten.Rooted where
  consed := (rooted.consed.members _).1
  applied := rooted.applied
  definition := rooted.definition
  origin id member original stored depends := by
    obtain ⟨_, known⟩ := (alike_forgotten types).symm.member stored
    obtain ⟨source, there, same⟩ := rooted.origin id _ original known depends
    obtain ⟨_, found⟩ := (alike_forgotten types).member there
    exact ⟨_, found, same⟩

/-- What a member remembers is what its type is worked out to be once more, after everything was
forgotten. -/
theorem Computes.recomputed (rooted : types.Rooted) (computes : types.Computes symbols id type) :
    ∃ least, ∀ fuel, least ≤ fuel → ∃ after, memberType symbols fuel id types.forgotten =
    .ok type after := by
  obtain ⟨owner, contexts, symbol, chain, known, _, through⟩ := computes_iff.mp computes
  obtain ⟨enough, stable⟩ := rooted.substituteAlong_stable through
  have remembered : types.forgotten.Remembered symbols := by
    intro id member type stored learned
    rw [Alike.get?_forgotten] at stored
    obtain ⟨_, _, rfl⟩ := Option.map_eq_some_iff.mp stored
    cases learned
  obtain ⟨least, returns⟩ := (chain.keep (alike_forgotten types).upholds).memberType_returns
    rooted.forget
    remembered known (.refl _) (stable enough (Nat.le_refl enough) _)
  refine ⟨least, fun fuel enough => ?_⟩
  obtain ⟨after, run, _⟩ := returns fuel enough
  exact ⟨after, run⟩

end Types
end Resolution
