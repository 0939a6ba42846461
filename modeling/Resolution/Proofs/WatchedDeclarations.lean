import Resolution.Proofs.ModestSteps
import Resolution.Proofs.Moments
import Resolution.Proofs.RuledDeclarations

/-!
# Watched rules

The rules take the same course under two watches, up to where one of them cuts it off.  Whatever
does not ask the resolver is modest; a symbol writes its own type and value while it is being
settled.
-/

namespace Resolution
namespace Resolve

variable {α : Type} {own : List SymbolId}

instance (fuel : Nat) (member : MemberId) :
    Modest .settling own
    (do let store ← get; onTypes (Types.memberType store.symbols fuel member)) := by
  refine ⟨⟨fun site store ready _ => modest_andThen (modest_run get ready) ?_⟩⟩
  rintro _ _ _ ⟨⟩ _ _ _
  refine modest_zoom inferInstance (fun _ => rfl) (fun _ => rfl) fun _ type learned run sound => ?_
  obtain ⟨rooted, remembered, recalls, _⟩ :=
    Types.ensures_memberType_remembers store.symbols fuel member sound.rooted sound.remembered type
      learned run
  have leads := (Types.Growth.within store.symbols.size).ensures_memberType
    (fun _ id type fits => ⟨fits.1.members _, fits.2.learn id type⟩) store.symbols fuel member
    ⟨sound.rooted.consed, sound.bounded⟩ type learned run
  exact ⟨⟨rooted, fun id symbol known state =>
    (sound.plain id symbol known state).grown recalls.grown, remembered,
    by rintro ⟨⟩,
    fun id symbol known => (sound.descends id symbol known).keep recalls.members_symbol, leads.2⟩,
    fun _ => recalls⟩

theorem modest_of_basic {step : Resolve α} (isBasic : Basic step) : Modest .settling own step := by
  cases isBasic <;> infer_instance

end Resolve

theorem Inheritance.forall_add {holds : MemberId → Prop} {inherited : Inheritance} {name : String}
    {member : MemberId}
    (first : holds member) (others : ∀ entry ∈ inherited, ∀ other ∈ entry.2, holds other) :
    ∀ entry ∈ inherited.add name member, ∀ other ∈ entry.2, holds other := by
  induction inherited with
  | nil => simpa [add] using first
  | cons entry rest ih =>
    obtain ⟨key, members⟩ := entry
    obtain ⟨here, later⟩ := List.forall_mem_cons.mp others
    rw [add]
    split
    · refine List.forall_mem_cons.mpr ⟨fun other listed => ?_, later⟩
      split at listed
      · exact here other listed
      · rcases List.mem_append.mp listed with inside | last
        · exact here other inside
        · exact List.mem_singleton.mp last ▸ first
    · exact List.forall_mem_cons.mpr ⟨here, ih later⟩

/-- Rules take the same course under two watches.  A list says which symbols are being settled. -/
abbrev Manner.watching {early late : Watch} (course : Resolver.Course early late) :
    Manner (List SymbolId) where
  cut := course.cut
  whole := course.whole
  holds own cut whole := Resolve.Watched early late own cut whole
  kept _ _ := True
  lifted _ _ _ := True
  owned own id := id ∈ own
  keep own _ := own
  inner own := own
  outer own := own
  keep_inner _ _ := rfl
  kept_keep _ := trivial
  kept_inner _ := trivial
  kept_outer _ := trivial
  kept_of_lifted _ _ _ := trivial
  lifted_perm _ _ := trivial
  owned_keep owned := owned
  fuel := course.fuel_eq
  expression _ id context _ := (course.watched.expression id context).weaken
  statement _ id _ := (course.watched.statement id).weaken
  settle _ id := (course.watched.settle id).weaken
  looks _ _ := Resolve.watched_of_modest inferInstance
  basic _ isBasic := Resolve.watched_of_modest (Resolve.modest_of_basic isBasic)
  wrap _ _ _ _ _ := Resolve.watched_of_modest inferInstance
  assigns _ owned := Resolve.watched_of_modest (Resolve.modest_setSymbolType owned)
  fixes _ owned := Resolve.watched_of_modest (Resolve.modest_setConstant owned)
  blocks _ _ _ := by
    refine Resolve.watched_bind (Resolve.watched_of_modest inferInstance) fun scope => ?_
    refine Resolve.watched_bind (Resolve.watched_of_modest inferInstance) fun statements => ?_
    refine Resolve.watched_bind ?_ fun _ => Resolve.watched_of_modest inferInstance
    refine Resolve.watched_withContext (fun _ => rfl) (Resolve.watched_forM fun id => ?_)
    exact (course.watched.statement id).weaken
  enter holds := Resolve.watched_bind (Resolve.watched_of_modest inferInstance) fun _ =>
    Resolve.watched_withContext (fun _ => rfl) holds
  inserts _ _ := Resolve.watched_of_modest inferInstance
  bind first rest := Resolve.watched_bind first rest
  surrounded function _ holds := Resolve.watched_withContext function holds
  elsewhere function holds := Resolve.watched_withContext function holds
  contexts looks locates holds := by
    refine ⟨fun site store orderly listed ready => (Resolve.agrees_look orderly ready).bind ?_⟩
    intro context _ middle run _ _
    obtain rfl := looks.unchanged _ _ _ _ _ run False.elim
    refine holds.agrees { site with toContext := context } middle orderly listed fun proper =>
      ⟨(ready proper).1, ?_⟩
    exact locates.houses site middle (ready proper).2 _ _ _ run False.elim
  nested first second := Resolve.watched_deeper first second
  offers _ rest := Resolve.watched_bind (Resolve.watched_of_modest inferInstance) rest
  declares rest := Resolve.watched_bind (Resolve.watched_of_modest inferInstance) rest
  decorates rest := Resolve.watched_bind (Resolve.watched_of_modest inferInstance) rest
  pairs _ rest := Resolve.watched_bind (Resolve.watched_of_modest inferInstance) rest

namespace Resolve

-- Long rules are instances of many parts.
set_option synthInstance.maxSize 2000

variable {early late : Watch} {course : Resolver.Course early late} {own : List SymbolId}
  {id : SymbolId} {settles : Prop} {site : Surroundings} {store : Store}

instance : (Manner.watching course).Free where
  kept _ _ := trivial
  lifted _ _ _ := trivial
  onTree _ _ _ := watched_of_modest inferInstance

instance : (Manner.watching course).Owns [id] id := ⟨List.mem_cons_self⟩

instance (priority := low) {α : Type} {step : Resolve α} [modest : Modest .settling own step] :
    (Manner.watching course).Holds own step step :=
  ⟨watched_of_modest modest⟩

theorem watched_expressionRule (id : NodeId) (context : Option TypeId) :
    (Manner.watching course).Admits own fun _ => expressionRule id context :=
  Manner.holds_expressionRule fun _ _ => Manner.holds_typeApplication fun _ _ _ => inferInstance

/-! ## Enums -/

instance {owner : SymbolId} {values : List SymbolId} :
    (Manner.watching course).Admits [owner] fun _ => generateEnumText owner values := by
  unfold generateEnumText
  infer_instance

instance (id : SymbolId) : (Manner.watching course).Admits [id] fun _ => settleEnum id := by
  unfold settleEnum
  simp only [Manner.Admits, course.fuel_eq]
  infer_instance

/-! ## Objects -/

instance (owner : SymbolId) : (Manner.watching course).Admits [owner] fun _ =>
    generateConstructor owner := by
  unfold generateConstructor
  refine .after fun symbol => .after fun base? => ?_
  dsimp only
  split <;> infer_instance

section Inheritance

variable {holds : MemberId → Prop} {inherited : Inheritance} {types : List TypeId}
  {members names : List (String × MemberId)}

/-- Only members of the bases are taken over. -/
theorem gathers_inheritFrom (taken : ∀ entry ∈ inherited, ∀ member ∈ entry.2, holds member)
    (named : ∀ entry ∈ names, holds entry.2) :
    Returns (inheritFrom members names inherited) site store fun answer after =>
      after.types = store.types ∧ ∀ entry ∈ answer, ∀ member ∈ entry.2, holds member := by
  induction names generalizing inherited store with
  | nil => exact .pure ⟨rfl, taken⟩
  | cons entry rest ih =>
    obtain ⟨name, member⟩ := entry
    obtain ⟨first, others⟩ := List.forall_mem_cons.mp named
    rw [inheritFrom]
    split
    · exact ih taken others
    split
    · refine (looks_memberSymbol _).bind fun symbol => ?_
      have records : Returns (recordOverride symbol member) site store fun _ after =>
        after.types = store.types := by
        unfold recordOverride
        refine (looks_symbolOf symbol).bind fun entry => ?_
        split
        · exact ensures_onSymbols.mpr (Table.ensures_update.mpr fun _ => rfl)
        · exact .pure rfl
      refine records.bind fun _ middle same => (ih taken others).weaken ?_
      exact fun _ _ gathered => ⟨gathered.1.trans same, gathered.2⟩
    · exact ih (Inheritance.forall_add first taken) others

theorem gathers_bases (taken : ∀ entry ∈ inherited, ∀ member ∈ entry.2, holds member)
    (named : ∀ type entry, store.types.entries.get? type = some entry →
      ∀ named ∈ entry.members.entries, holds named.2) :
    Returns (types.foldlM (fun inherited base => do
      inheritFrom members (← askTypes fun types => types.membersOf base) inherited) inherited) site
      store fun answer after =>
        after.types = store.types ∧ ∀ entry ∈ answer, ∀ member ∈ entry.2, holds member := by
  induction types generalizing inherited store with
  | nil => exact .pure ⟨rfl, taken⟩
  | cons base rest ih =>
    rw [List.foldlM_cons]
    refine ensures_bind.mpr (ensures_bind.mpr (ensures_askTypes.mpr fun members fetched => ?_))
    obtain ⟨entry, stored, rfl⟩ := Types.membersOf_eq_ok_iff.mp fetched
    refine (gathers_inheritFrom taken fun entry listed => ?_).weaken ?_
    · exact named base _ stored entry ((NameTable.mem_sorted _ _).mp listed)
    · rintro answer middle ⟨same, gathered⟩
      refine (ih gathered (same ▸ named)).weaken fun _ _ last => ⟨last.1.trans same, last.2⟩

instance {symbol : SymbolId} {type : TypeId} {bases : List TypeId} :
    (Manner.watching course).Admits own fun _ => inheritMembers symbol type bases := by
  refine ⟨⟨fun {settles} site store orderly listed ready => ?_⟩⟩
  unfold inheritMembers
  refine (agrees_look orderly ready).bind fun members _ same run _ _ => ?_
  obtain rfl := Looks.unchanged _ _ _ _ _ run False.elim
  have gathers : (Manner.watching course).Admits own fun _ => bases.foldlM (fun inherited base => do
      inheritFrom members (← askTypes fun types => types.membersOf base) inherited)
        ([] : Inheritance) := inferInstance
  refine (gathers.holds.agrees site same orderly listed ready).bind
    fun inherited _ middle run orderly lasts => ?_
  refine agrees_of_ending (modest_inheritAll (lasts.ready ready) type fun proper => ?_) orderly
    (lasts.ready ready)
  obtain ⟨unchanged, stored⟩ : middle.types = same.types ∧ ∀ entry ∈ inherited, ∀ member ∈ entry.2,
      member.index < same.types.members.size :=
    gathers_bases (List.forall_mem_nil _) (ready proper).1.bounded.named _ _ _ run False.elim
  rwa [unchanged]

end Inheritance

/-- The bases of an object may be written to its type, which is no function. -/
theorem agrees_settleObject {store : Store} (orderly : store.Orderly site.active)
    (isActive : id ∈ site.active)
    (ready : store.Ready settles .settling site)
    (plain : settles → ∀ symbol, store.symbols.get? id = some symbol →
      store.types.Plain symbol.typeOrError) :
    Agrees settles early late site.active store (@settleObject course.cut id site store)
      (@settleObject course.whole id site store) := by
  unfold settleObject
  simp only [course.fuel_eq]
  refine (agrees_look orderly ready).bind fun _ _ middle run _ _ => ?_
  obtain rfl := Looks.unchanged _ _ _ _ _ run False.elim
  refine (agrees_look orderly ready).bind fun symbol _ same run _ _ => ?_
  obtain ⟨rfl, known⟩ := symbolOf_eq_ok run
  have resolves : (Manner.watching course).Admits [] fun _ =>
    objectBases id (symbol.kind == .classType) := inferInstance
  refine (resolves.holds.agrees site same orderly (List.nil_subset _) ready).bind
    fun bases _ here _ orderly lasts => ?_
  have ready := lasts.ready ready
  refine (agrees_onTypes orderly lasts.sound fun holds => ?_).bind fun _ _ last _ orderly lasts =>
    ?_
  · have noFunction : ∀ entry, here.types.entries.get? symbol.typeOrError = some entry →
      entry.kind ≠ .function := by
      intro entry stored
      obtain ⟨_, found, noFunction⟩ := (plain holds symbol known).grown (lasts.recalls holds).grown
      cases stored.symm.trans found
      exact noFunction
    exact Types.ensures_steps (lasts.sound holds).rooted fun growth _ fits =>
      growth.ensures_setRelated fits bases noFunction
  refine (?_ : (Manner.watching course).Holds [id] _ _).holds.agrees site last orderly
    (by simpa using isActive)
    (lasts.ready ready)
  refine .after fun _ => ?_
  split <;> infer_instance

/-! ## Merged names -/

/-- What the candidates stand for is older than the name that they are merged to. -/
theorem returns_inheritedMembers {candidates : List MemberId} (orderly : store.Orderly site.active)
    (ready : store.Ready settles .settling site) (older : settles → ∀ candidate ∈ candidates,
      ∃ member, store.types.members.get? candidate = some member ∧ member.symbol.index < id.index) :
    Returns (candidates.mapM (@inheritedMember course.whole)) site store fun found _ =>
      settles → ∀ entry ∈ found, entry.1.index < id.index := by
  induction candidates generalizing store with
  | nil => exact .pure fun _ => List.forall_mem_nil _
  | cons candidate rest ih =>
    have asks : (Manner.watching course).Admits [] fun _ => memberType candidate := inferInstance
    rw [List.mapM_cons]
    refine ensures_bind.mpr
      ((asks.holds.agrees site store orderly (List.nil_subset _) ready).returns.bind ?_)
    rintro type middle ⟨kept, lasts⟩
    have lasting : settles → ∀ other ∈ candidate :: rest,
        ∃ member, middle.types.members.get? other = some member ∧
          member.symbol.index < id.index := by
      intro holds other listed
      obtain ⟨member, stored, small⟩ := older holds other listed
      obtain ⟨later, found, same⟩ := (lasts.recalls holds).members_symbol other member stored
      exact ⟨later, found, same ▸ small⟩
    unfold memberTarget
    refine ensures_bind.mpr (ensures_bind.mpr (ensures_memberSymbol.mpr fun member stored =>
      ensures_ask.mpr ?_))
    refine fun target leads => .pure ((ih kept (lasts.ready ready) fun holds =>
      (List.forall_mem_cons.mp (lasting holds)).2).bind fun found _ others => .pure fun holds => ?_)
    refine List.forall_mem_cons.mpr ⟨?_, others holds⟩
    have sound := lasts.sound holds
    obtain ⟨_, reached, least⟩ := sound.exists_target (sound.bounded.symbol candidate member stored)
    cases leads.symm.trans reached
    obtain ⟨_, again, small⟩ := lasting holds candidate List.mem_cons_self
    cases stored.symm.trans again
    exact Nat.lt_of_le_of_lt least small

theorem agrees_settleUnmerged (orderly : store.Orderly site.active) (isActive : id ∈ site.active)
    (ready : store.Ready settles .settling site) :
    Agrees settles early late site.active store (@settleUnmerged course.cut id site store)
      (@settleUnmerged course.whole id site store) := by
  unfold settleUnmerged
  refine (agrees_look orderly ready).bind fun symbol _ same run _ _ => ?_
  obtain ⟨rfl, known⟩ := symbolOf_eq_ok run
  have finds : (Manner.watching course).Admits [] fun _ => symbol.candidates.mapM inheritedMember :=
    inferInstance
  refine (finds.holds.agrees site same orderly (List.nil_subset _) ready).bind
    fun found _ here run kept lasts => ?_
  have older := returns_inheritedMembers orderly ready
    (fun holds => ((ready holds).1.descends id symbol known).2.2) _ _ _ run False.elim
  have ready := lasts.ready ready
  refine (agrees_look kept ready).bind fun candidates _ there run _ _ => ?_
  obtain ⟨rfl, small⟩ : there = here ∧ ∀ candidate ∈ candidates, settles →
    candidate.target.index < id.index := by
    refine returns_mapM_reading (fun entry listed => ?_) _ _ _ run False.elim
    exact (looks_symbolOf entry.1).bind fun _ => .pure ⟨rfl, fun holds => older holds entry listed⟩
  cases candidates with
  | nil => exact agrees_look kept ready
  | cons first rest =>
    refine agrees_of_ending (modest_applyMerge ready (kept.isOpen isActive .settling) ?_ _) kept
      ready
    intro holds target type merged
    have leads : first.target = target := by
      unfold Merge.classify at merged
      dsimp only at merged
      split at merged
      · cases merged
        rfl
      · split at merged
        · split at merged <;> cases merged
        · split at merged <;> cases merged
    exact leads ▸ small first List.mem_cons_self holds

/-- The rule for every sort; an object has a type of its own. -/
theorem agrees_settleByKind {kind : SymbolKind} (orderly : store.Orderly site.active)
    (isActive : id ∈ site.active)
    (ready : store.Ready settles .settling site)
    (plain : settles → kind.isObject = true → ∀ symbol, store.symbols.get? id = some symbol →
      store.types.Plain symbol.typeOrError) :
    Agrees settles early late site.active store (@settleByKind course.cut id kind site store)
      (@settleByKind course.whole id kind site store) := by
  have other {cut whole : Resolve Unit} [watched : (Manner.watching course).Holds [id] cut whole] :
      Agrees settles early late site.active store (cut site store) (whole site store) :=
    watched.holds.agrees site store orderly (by simpa using isActive) ready
  unfold settleByKind
  split
  all_goals first
    | exact other
    | exact agrees_settleUnmerged orderly isActive ready
    | exact agrees_settleObject orderly isActive ready fun holds => plain holds rfl

end Resolve
end Resolution
