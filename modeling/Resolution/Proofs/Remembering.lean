import Resolution.Proofs.Mirroring

/-!
# What members remember

The type of a member is worked out from the type of its symbol, through the members it was taken
from and the instances it was taken through, and the member remembers it once its symbol is settled.
`Computes` is this calculation.  It rests on what `Rooted` says of the types, and `Recalls` is what
later operations leave alone.  So a remembered type stays the one that the calculation gives, and
the calculation can be done again at any time.
-/

namespace Resolution

/-- What was read off a type stays: what makes it the same, the symbol that declares it and its type
parameters. -/
structure TypeEntry.Stays (before after : TypeEntry) : Prop extends before.Keeps after where
  declarer : after.symbol = before.symbol
  parameters : after.parameters = before.parameters

theorem TypeEntry.Stays.refl (entry : TypeEntry) : entry.Stays entry := ⟨.refl entry, rfl, rfl⟩

theorem TypeEntry.Stays.trans {first second third : TypeEntry} (one : first.Stays second)
    (two : second.Stays third) :
    first.Stays third :=
  ⟨one.toKeeps.trans two.toKeeps, two.declarer.trans one.declarer,
    two.parameters.trans one.parameters⟩

/-- A member stays the member that it is; it may learn its type and then remembers it. -/
structure Member.Stays (before after : Member) : Prop where
  symbol : after.symbol = before.symbol
  dependency : after.dependency = before.dependency
  instanceType : after.instanceType = before.instanceType
  type : ∀ type, before.type = some type → after.type = some type

theorem Member.Stays.refl (member : Member) :
    member.Stays member := ⟨rfl, rfl, rfl, fun _ known => known⟩

theorem Member.Stays.trans {first second third : Member} (one : first.Stays second)
    (two : second.Stays third) :
    first.Stays third :=
  ⟨two.symbol.trans one.symbol, two.dependency.trans one.dependency,
    two.instanceType.trans one.instanceType,
    fun type known => two.type type (one.type type known)⟩

namespace Types

variable {types before after : Types} {type : TypeId} {symbols : Symbols} {id : MemberId}
  {third : Types} {context : Option TypeId} {base : TypeId} {later : Symbols}

/-- Types and members stay, and members remember their types. -/
structure Recalls (before after : Types) : Prop where
  entries : ∀ type entry, before.entries.get? type = some entry →
    ∃ later, after.entries.get? type = some later ∧ entry.Stays later
  members : ∀ id member, before.members.get? id = some member →
    ∃ later, after.members.get? id = some later ∧ member.Stays later

theorem Recalls.refl (types : Types) : types.Recalls types where
  entries _ entry stored := ⟨entry, stored, .refl entry⟩
  members _ member stored := ⟨member, stored, .refl member⟩

theorem Recalls.trans {first second : Types} (one : first.Recalls second)
    (two : second.Recalls third) :
    first.Recalls third where
  entries := Table.later_trans one.entries two.entries fun _ _ _ => .trans
  members := Table.later_trans one.members two.members fun _ _ _ => .trans

theorem Recalls.grown (recalls : before.Recalls after) : before.Extends after := by
  intro type entry stored
  obtain ⟨later, found, stays⟩ := recalls.entries type entry stored
  exact ⟨later, found, stays.toKeeps⟩

/-- Types are shared, instances lead to their definitions, and members to the members they were
taken from. -/
structure Rooted (types : Types) : Prop where
  consed : types.HashConsed
  applied : ∀ type entry, types.entries.get? type = some entry →
    (entry.arguments.isSome ↔ entry.generic.isSome)
  definition : ∀ type entry generic, types.entries.get? type = some entry →
    entry.generic = some generic →
    ∃ definition, types.entries.get? generic = some definition ∧ definition.symbol = entry.symbol
  origin : ∀ id member original, types.members.get? id = some member →
    member.dependency = some original →
    ∃ source, types.members.get? original = some source ∧ source.symbol = member.symbol

theorem rooted_new : Types.new.Rooted where
  consed := new_hashConsed
  applied _ _ stored := by
    obtain ⟨_, _, _, _, rfl⟩ := blank_new stored
    exact Iff.rfl
  definition _ _ _ stored original := by
    obtain ⟨_, _, _, _, rfl⟩ := blank_new stored
    cases original
  origin _ _ _ stored := by cases get?_members_new.symm.trans stored

/-! ## The calculation -/

/-- What the type of a member becomes through the instance that it is taken through, if there is
one. -/
def Applies (types : Types) (context : Option TypeId) (base type : TypeId) : Prop :=
  match context with
  | none => type = base
  | some context =>
    ∃ parameters arguments, types.substitutionOf context = .ok (parameters, arguments) ∧
      types.Replaced parameters arguments base type

/-- The type of a member, from the type of its settled symbol through the members it was taken from.
-/
inductive Computes (types : Types) (symbols : Symbols) : MemberId → TypeId → Prop where
  | own {id : MemberId} {member : Member} {symbol : Symbol} {type : TypeId}
      (stored : types.members.get? id = some member) (plain : member.dependency = none)
      (known : symbols.get? member.symbol = some symbol) (settled : symbol.progress = .settled)
      (applies : types.Applies member.instanceType symbol.typeOrError type) :
        Computes types symbols id type
  | taken {id original : MemberId} {member : Member} {base type : TypeId}
      (stored : types.members.get? id = some member) (depends : member.dependency = some original)
      (source : Computes types symbols original base)
      (applies : types.Applies member.instanceType base type) :
      Computes types symbols id type

/-- Members remember nothing but what the calculation gives. -/
def Remembered (types : Types) (symbols : Symbols) : Prop :=
  ∀ id member type, types.members.get? id = some member → member.type = some type →
    types.Computes symbols id type

theorem substitutionOf_recalls (recalls : before.Recalls after) {context : TypeId}
    {substitution : List TypeId × List TypeId}
    (known : before.substitutionOf context = .ok substitution) :
    after.substitutionOf context = .ok substitution := by
  unfold substitutionOf at known ⊢
  obtain ⟨entry, fetched, known⟩ := (except_bind_eq_ok_iff ..).mp known
  obtain ⟨later, found, stays⟩ :=
    recalls.entries context entry ((Table.fetch_eq_ok_iff ..).mp fetched)
  refine (except_bind_eq_ok_iff ..).mpr ⟨later, (Table.fetch_eq_ok_iff ..).mpr found, ?_⟩
  rw [stays.generic, stays.arguments]
  split at known
  · rename_i generic arguments _ _
    obtain ⟨definition, fetchedAlso, known⟩ := (except_bind_eq_ok_iff ..).mp known
    obtain ⟨laterAlso, foundAlso, staysAlso⟩ := recalls.entries generic definition
      ((Table.fetch_eq_ok_iff ..).mp fetchedAlso)
    refine (except_bind_eq_ok_iff ..).mpr ⟨laterAlso, (Table.fetch_eq_ok_iff ..).mpr foundAlso, ?_⟩
    rw [staysAlso.parameters]
    exact known
  · exact known

theorem Applies.keep (applies : before.Applies context base type)
    (recalls : before.Recalls after) : after.Applies context base type := by
  cases context with
  | none => exact applies
  | some context =>
    obtain ⟨parameters, arguments, known, replaced⟩ := applies
    exact ⟨parameters, arguments, substitutionOf_recalls recalls known, replaced.keep recalls.grown⟩

theorem Applies.unique (consed : types.HashConsed) {first second : TypeId}
    (one : types.Applies context base first) (two : types.Applies context base second) :
    first = second := by
  cases context with
  | none => exact one.trans two.symm
  | some context =>
    obtain ⟨parameters, arguments, known, replaced⟩ := one
    obtain ⟨_, _, same, replacedAlso⟩ := two
    cases known.symm.trans same
    exact replaced.unique consed replacedAlso

/-- What settled symbols have published stays. -/
def SymbolsStand (before after : Symbols) : Prop :=
  ∀ id symbol, before.get? id = some symbol → symbol.progress = .settled →
    ∃ later, after.get? id = some later ∧ later.progress = .settled ∧ later.type = symbol.type

theorem SymbolsStand.refl (symbols : Symbols) : SymbolsStand symbols symbols :=
  fun _ symbol known settled => ⟨symbol, known, settled, rfl⟩

/-- The calculation gives the same at every later time. -/
theorem Computes.keep (computes : before.Computes symbols id type)
    (recalls : before.Recalls after) (stand : SymbolsStand symbols later) :
    after.Computes later id type := by
  induction computes with
  | own stored plain known settled applies =>
    obtain ⟨member, found, stays⟩ := recalls.members _ _ stored
    obtain ⟨symbol, foundSymbol, settledStill, sameType⟩ := stand _ _ known settled
    refine .own found (stays.dependency.trans plain) (by rw [stays.symbol]; exact foundSymbol)
      settledStill ?_
    rw [stays.instanceType, Symbol.typeOrError, sameType]
    exact applies.keep recalls
  | taken stored depends _ applies ih =>
    obtain ⟨member, found, stays⟩ := recalls.members _ _ stored
    refine .taken found (stays.dependency.trans depends) ih ?_
    rw [stays.instanceType]
    exact applies.keep recalls

theorem Computes.unique (consed : types.HashConsed) {first second : TypeId}
    (one : types.Computes symbols id first) (two : types.Computes symbols id second) :
    first = second := by
  induction one generalizing second with
  | own stored plain known _ applies =>
    cases two with
    | own storedAlso _ knownAlso _ appliesAlso =>
      cases stored.symm.trans storedAlso
      cases known.symm.trans knownAlso
      exact applies.unique consed appliesAlso
    | taken storedAlso depends _ _ =>
      cases stored.symm.trans storedAlso
      cases plain.symm.trans depends
  | taken stored depends _ applies ih =>
    cases two with
    | own storedAlso plain _ _ _ =>
      cases stored.symm.trans storedAlso
      cases plain.symm.trans depends
    | taken storedAlso dependsAlso source appliesAlso =>
      cases stored.symm.trans storedAlso
      cases depends.symm.trans dependsAlso
      obtain rfl := ih source
      exact applies.unique consed appliesAlso

/-! ## Growing types -/

/-- Types and members join, and no member learns its type. -/
structure Grows (before after : Types) : Prop where
  rooted : after.Rooted
  recalls : before.Recalls after
  unlearned : ∀ id member type, after.members.get? id = some member → member.type = some type →
    ∃ earlier, before.members.get? id = some earlier ∧ earlier.type = some type

theorem Grows.refl (rooted : types.Rooted) : types.Grows types where
  rooted := rooted
  recalls := .refl types
  unlearned _ member _ stored known := ⟨member, stored, known⟩

theorem Grows.trans {first second : Types} (one : first.Grows second) (two : second.Grows third) :
    first.Grows third where
  rooted := two.rooted
  recalls := one.recalls.trans two.recalls
  unlearned id member type stored known := by
    obtain ⟨middle, between, learned⟩ := two.unlearned id member type stored known
    exact one.unlearned id middle type between learned

/-- What is remembered stays right while types grow. -/
theorem Remembered.grows (remembered : before.Remembered symbols) (grows : before.Grows after)
    (stand : SymbolsStand symbols later) : after.Remembered later := by
  intro id member type stored known
  obtain ⟨earlier, found, learned⟩ := grows.unlearned id member type stored known
  exact (remembered id earlier type found learned).keep grows.recalls stand

theorem Rooted.modify (rooted : types.Rooted) {change : TypeEntry → TypeEntry}
    (stays : ∀ entry, types.entries.get? type = some entry → entry.Stays (change entry)) :
    types.Grows { types with entries := types.entries.modify type change } := by
  have recalls : types.Recalls { types with entries := types.entries.modify type change } :=
    ⟨fun _ _ => Table.later_of_modify .refl stays, fun _ member stored =>
      ⟨member, stored, .refl member⟩⟩
  have origin : ∀ other later, (types.entries.modify type change).get? other = some later →
      ∃ entry, types.entries.get? other = some entry ∧ entry.Stays later :=
    fun _ _ => Table.origin_of_modify .refl stays
  refine ⟨⟨rooted.consed.modify fun entry stored => (stays entry stored).toKeeps, ?_, ?_,
    rooted.origin⟩, recalls,
    fun _ member _ stored known => ⟨member, stored, known⟩⟩
  · intro other later found
    obtain ⟨entry, stored, stay⟩ := origin other later found
    rw [stay.arguments, stay.generic]
    exact rooted.applied other entry stored
  · intro other later generic found original
    obtain ⟨entry, stored, stay⟩ := origin other later found
    obtain ⟨definition, known, same⟩ := rooted.definition other entry generic stored
      (stay.generic ▸ original)
    obtain ⟨laterDefinition, there, stayAlso⟩ := recalls.entries generic definition known
    exact ⟨laterDefinition, there, by rw [stayAlso.declarer, same, stay.declarer]⟩

/-- A type joins, with or without a key. -/
theorem Rooted.push (rooted : types.Rooted) {entry : TypeEntry} {interned : List (TypeKey × TypeId)}
    (consed : HashConsed { types with entries := types.entries.push entry, interned })
    (applied : entry.arguments.isSome ↔ entry.generic.isSome)
    (definition : ∀ generic, entry.generic = some generic →
      ∃ definition, types.entries.get? generic = some definition ∧
      definition.symbol = entry.symbol) :
    types.Grows { types with entries := types.entries.push entry, interned } := by
  refine ⟨⟨consed, ?_, ?_, rooted.origin⟩,
    ⟨fun _ older stored => ⟨older, Table.get?_push_of_stored entry stored, .refl older⟩,
    fun _ member stored => ⟨member, stored, .refl member⟩⟩, fun _ member _ stored known =>
      ⟨member, stored, known⟩⟩
  · intro type later found
    obtain ⟨_, rfl⟩ | ⟨_, stored⟩ := Table.get?_push_cases found
    · exact applied
    · exact rooted.applied type later stored
  · intro type later generic found original
    obtain ⟨known, stored, same⟩ : ∃ known, types.entries.get? generic = some known ∧
      known.symbol = later.symbol := by
      obtain ⟨_, rfl⟩ | ⟨_, stored⟩ := Table.get?_push_cases found
      · exact definition generic original
      · exact rooted.definition type later generic stored original
    exact ⟨known, Table.get?_push_of_stored entry stored, same⟩

theorem Rooted.push_member (rooted : types.Rooted) {member : Member}
    (unlearned : member.type = none)
    (origin : ∀ original, member.dependency = some original →
      ∃ source, types.members.get? original = some source ∧ source.symbol = member.symbol) :
    types.Grows { types with members := types.members.push member } := by
  refine ⟨⟨(rooted.consed.members _).1, rooted.applied, rooted.definition, ?_⟩,
    ⟨fun _ entry stored => ⟨entry, stored, .refl entry⟩, fun _ older stored =>
      ⟨older, Table.get?_push_of_stored member stored, .refl older⟩⟩, ?_⟩
  · intro id later original found depends
    obtain ⟨source, stored, same⟩ : ∃ source, types.members.get? original = some source ∧
      source.symbol = later.symbol := by
      obtain ⟨_, rfl⟩ | ⟨_, stored⟩ := Table.get?_push_cases found
      · exact origin original depends
      · exact rooted.origin id later original stored depends
    exact ⟨source, Table.get?_push_of_stored member stored, same⟩
  · intro id later type found known
    obtain ⟨_, rfl⟩ | ⟨_, stored⟩ := Table.get?_push_cases found
    · cases unlearned.symm.trans known
    · exact ⟨later, stored, known⟩

/-- Types that grow while members keep what they have learned. -/
abbrev Growth.rooted : Growth where
  fits := Rooted
  leads := Grows
  knows _ _ := True
  declared := True
  consed := Rooted.consed
  refl := .refl
  trans := .trans
  reached := Grows.rooted
  extended grows := grows.recalls.grown
  lasting _ _ := trivial
  stored _ _ := trivial
  replaced _ _ _ := trivial
  signature _ _ _ _ _ := trivial
  applied _ _ _ _ _ _ := trivial
  definition _ _ type entry arguments rooted stored applied := by
    have isInstance := (rooted.applied type entry stored).mp (by rw [applied]; rfl)
    obtain ⟨generic, original⟩ := Option.isSome_iff_exists.mp isInstance
    obtain ⟨definition, known, same⟩ := rooted.definition type entry generic stored original
    exact ⟨generic, definition, original, known, same⟩
  declares _ _ _ type entry later grows stored found := by
    obtain ⟨same, there, stays⟩ := grows.recalls.entries type entry stored
    obtain rfl : same = later := Option.some.inj (there.symm.trans found)
    exact stays.declarer
  modify rooted keeps symbol parameters _ :=
    rooted.modify fun entry stored => ⟨keeps entry stored, symbol entry, parameters entry⟩
  pushFunction rooted _ fresh := rooted.push (rooted.consed.push_function rfl rfl rfl rfl fresh)
    Iff.rfl nofun
  pushInstance rooted _ stored declared noFunction fresh := by
    refine rooted.push (rooted.consed.push_instance noFunction rfl rfl fresh) Iff.rfl ?_
    rintro _ ⟨⟩
    exact ⟨_, stored, declared⟩
  pushMember _ rooted stored := by
    refine rooted.push_member rfl ?_
    rintro _ ⟨⟩
    exact ⟨_, stored, rfl⟩

theorem substitute_grows (fuel : Nat) (types : Types) (type : TypeId)
    (parameters arguments : List TypeId)
    (rooted : types.Rooted) : (substitute fuel type parameters arguments).Ensures types
    fun result after =>
      types.Grows after ∧ after.Replaced parameters arguments type result :=
  (Growth.rooted.moves_substitute fuel types type parameters arguments rooted fun _ _ =>
    trivial).weaken
    fun _ _ answers => ⟨answers.leads, answers.replaced trivial⟩

/-! ## Learning a type -/

theorem Rooted.learn (rooted : types.Rooted) (remembered : types.Remembered symbols)
    (computes : types.Computes symbols id type) :
    let learned :
    Types := { types with
               members := types.members.modify id fun member => { member with type := some type } }
    learned.Rooted ∧ learned.Remembered symbols ∧ types.Recalls learned := by
  have recalls : types.Recalls
      { types with
        members := types.members.modify id fun member => { member with type := some type } } := by
    refine ⟨fun _ entry stored => ⟨entry, stored, .refl entry⟩, fun _ _ =>
      Table.later_of_modify .refl ?_⟩
    refine fun member stored => ⟨rfl, rfl, rfl, fun known remembers => ?_⟩
    rw [(remembered id member known stored remembers).unique rooted.consed computes]
  refine ⟨⟨(rooted.consed.members _).1, rooted.applied, rooted.definition, ?_⟩, ?_, recalls⟩
  · intro other later original found depends
    obtain ⟨source, stored, same⟩ : ∃ source, types.members.get? original = some source ∧
      source.symbol = later.symbol := by
      obtain ⟨member, stored, ⟨rfl, rfl⟩ | ⟨_, rfl⟩⟩ := Table.get?_modify_cases found
      · exact rooted.origin other member original stored depends
      · exact rooted.origin other later original stored depends
    obtain ⟨laterSource, there, stays⟩ := recalls.members original source stored
    exact ⟨laterSource, there, stays.symbol.trans same⟩
  · intro other later known found remembers
    obtain ⟨member, stored, ⟨rfl, rfl⟩ | ⟨_, rfl⟩⟩ := Table.get?_modify_cases found
    · cases remembers
      exact computes.keep recalls (.refl symbols)
    · exact (remembered other later known stored remembers).keep recalls (.refl symbols)

/-- The last part of the calculation: the type of a member from that of its symbol or of the member
it was taken from. -/
def concluded (symbols : Symbols) (fuel : Nat) (id : MemberId) (owner : SymbolId)
    (context : Option TypeId)
    (base : TypeId) : Action Types TypeId := do
  let type ←
    match context with
    | some context =>
      let (parameters, arguments) ← Action.ofExcept ((← get).substitutionOf context)
      substitute fuel base parameters arguments
    | none => pure base
  let symbol ← Action.ofExcept (symbols.fetch owner)
  if symbol.progress = .settled ∧ base ≠ .error then
    updateMember id fun member => { member with type := some type }
  return type

/-- The type comes from the symbol or the member that the calculation started from, and is kept if
the symbol is settled. -/
theorem ensures_concluded_remembers {owner : SymbolId} {context : Option TypeId} {base : TypeId}
    (fuel : Nat)
    (rooted : types.Rooted) (remembered : types.Remembered symbols)
    (computes : ∀ later symbol type, types.Recalls later → symbols.get? owner = some symbol →
      symbol.progress = .settled → later.Applies context base type →
      later.Computes symbols id type) :
    (concluded symbols fuel id owner context base).Ensures types fun type after =>
      after.Rooted ∧ after.Remembered symbols ∧ types.Recalls after ∧ ∀ symbol, symbols.get? owner =
      some symbol →
        symbol.progress = .settled → after.Computes symbols id type := by
  unfold concluded
  extract_lets store
  have stores : ∀ type after, after.Rooted → after.Remembered symbols → types.Recalls after →
      after.Applies context base type → (store type).Ensures after fun type final =>
        final.Rooted ∧ final.Remembered symbols ∧ types.Recalls final ∧
          ∀ symbol, symbols.get? owner = some symbol →
          symbol.progress = .settled → final.Computes symbols id type := by
    intro type after rootedAfter rememberedAfter recalls applies
    unfold store
    refine .fetch fun symbol known => ?_
    split
    · rename_i isFinal
      have right := computes after symbol type recalls known isFinal.1 applies
      obtain ⟨rootedFinal, rememberedFinal, last⟩ := rootedAfter.learn rememberedAfter right
      refine Action.ensures_bind.mpr (.updateIn fun _ => ?_)
      exact .pure ⟨rootedFinal, rememberedFinal, recalls.trans last, fun _ _ _ =>
        right.keep last (.refl symbols)⟩
    · exact .pure ⟨rootedAfter, rememberedAfter, recalls, fun symbol known settled =>
        computes after symbol type recalls known settled applies⟩
  split
  · refine .get ?_
    refine .ask fun pair substitutes => ?_
    refine .bind (substitute_grows fuel _ _ _ _ rooted) ?_
    rintro type after ⟨grows, replaced⟩
    exact stores type after grows.rooted (remembered.grows grows (.refl symbols)) grows.recalls
      ⟨pair.1, pair.2, substitutionOf_recalls grows.recalls substitutes, replaced⟩
  · exact Action.ensures_bind.mpr (.pure (stores base types rooted remembered (.refl types) rfl))

/-- The type of a member is what the calculation gives, provided that its symbol is settled; members
that learn their types on the way learn the right ones. -/
theorem ensures_memberType_remembers (symbols : Symbols) (fuel : Nat) (id : MemberId)
    (rooted : types.Rooted)
    (remembered : types.Remembered symbols) :
    (memberType symbols fuel id).Ensures types fun type after =>
      after.Rooted ∧ after.Remembered symbols ∧ types.Recalls after ∧
        ∀ member symbol, types.members.get? id = some member →
        symbols.get? member.symbol = some symbol →
          symbol.progress = .settled → after.Computes symbols id type := by
  induction fuel generalizing id types with
  | zero => exact .throw
  | succ fuel ih =>
    unfold memberType
    refine .get ?_
    refine .fetch fun member stored => ?_
    split
    · rename_i type known
      exact .pure ⟨rooted, remembered, .refl types, fun _ _ _ _ _ =>
        remembered id member type stored known⟩
    extract_lets finish
    rw [show finish = concluded symbols fuel id member.symbol member.instanceType from rfl]
    split
    · rename_i original depends
      refine .bind (ih original rooted remembered) ?_
      rintro base middle ⟨rootedMiddle, rememberedMiddle, recalls, computes⟩
      refine (ensures_concluded_remembers fuel rootedMiddle rememberedMiddle ?_).weaken ?_
      · intro later symbol type further known settled applies
        obtain ⟨source, there, same⟩ := rooted.origin id member original stored depends
        have base := computes source symbol there (by rw [same, known]) settled
        obtain ⟨laterMember, found, stays⟩ := (recalls.trans further).members id member stored
        refine .taken found (stays.dependency.trans depends) (base.keep further (.refl symbols)) ?_
        rw [stays.instanceType]
        exact applies
      · rintro type after ⟨rootedAfter, rememberedAfter, further, right⟩
        refine ⟨rootedAfter, rememberedAfter, recalls.trans further, fun same symbol again => ?_⟩
        cases stored.symm.trans again
        exact right symbol
    · rename_i plain
      refine .fetch fun owner ownerKnown => ?_
      refine Action.ensures_bind.mpr
        (.pure ((ensures_concluded_remembers fuel rooted remembered ?_).weaken ?_))
      · intro later symbol type recalls known settled applies
        cases known.symm.trans ownerKnown
        obtain ⟨laterMember, there, stays⟩ := recalls.members id member stored
        refine .own there (stays.dependency.trans plain) (by rw [stays.symbol, known]) settled ?_
        rw [stays.instanceType]
        exact applies
      · rintro type after ⟨rootedAfter, rememberedAfter, recalls, right⟩
        refine ⟨rootedAfter, rememberedAfter, recalls, fun same symbol again => ?_⟩
        cases stored.symm.trans again
        exact right symbol

end Types
end Resolution
