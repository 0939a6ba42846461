import Resolution.Proofs.Building

/-!
# Bases and inherited names

A written base is kept if it is of a fitting sort and its definition is complete, which it is after
it was settled without closing a cycle.  The names of the bases then join the names of the object,
constructors apart.
-/

namespace Resolution

variable {kind : TypeKind} {isClass : Bool} {position : Nat}

theorem TypeKind.isLegalBase_of_le {earlier : Nat}
    (legal : kind.isLegalBase isClass position = true) (before : earlier ≤ position) :
    kind.isLegalBase isClass earlier = true := by
  cases kind <;> simp_all [TypeKind.isLegalBase]

theorem TypeKind.isObject_of_isLegalBase {position : Nat}
    (legal : kind.isLegalBase isClass position = true) : kind.isObject = true := by
  cases kind <;> simp_all [TypeKind.isLegalBase, TypeKind.isObject]

theorem SymbolKind.beq_classType_of_typeKind? {kind : SymbolKind} {sort : TypeKind}
    (sorted : kind.typeKind? = some sort) :
    (kind == .classType) = (sort == .classType) := by
  cases kind <;> cases sorted <;> rfl

namespace Types

variable {types : Types} {isClass : Bool} {position : Nat} {base : TypeId} {bases : List TypeId}

/-- An object may have the type as its base at a position. -/
def FitsAt (types : Types) (isClass : Bool) (position : Nat) (base : TypeId) : Prop :=
  types.IsBase base ∧
    ∃ entry, types.entries.get? base = some entry ∧ entry.kind.isLegalBase isClass position = true

/-- The bases fit the positions from the given one on. -/
def FitFrom (types : Types) (isClass : Bool) (position : Nat) (bases : List TypeId) : Prop :=
  ∀ offset base, bases[offset]? = some base → types.FitsAt isClass (position + offset) base

theorem FitsAt.earlier {earlier : Nat}
    (fits : types.FitsAt isClass position base) (before : earlier ≤ position) :
    types.FitsAt isClass earlier base := by
  obtain ⟨isBase, entry, stored, legal⟩ := fits
  exact ⟨isBase, entry, stored, TypeKind.isLegalBase_of_le legal before⟩

theorem FitFrom.isBase {bases : List TypeId}
    (fit : types.FitFrom isClass position bases) : ∀ base ∈ bases, types.IsBase base := by
  intro base listed
  obtain ⟨offset, found⟩ := List.mem_iff_getElem?.mp listed
  exact (fit offset base found).1

theorem FitFrom.legalBases {kind : TypeKind}
    (fit : types.FitFrom (kind == .classType) 0 bases) : types.LegalBases kind bases := by
  intro position base entry found stored
  obtain ⟨_, same, again, legal⟩ := fit position base found
  cases stored.symm.trans again
  rwa [Nat.zero_add] at legal

theorem Mirrored.find?_of_isBase {given : MemberId → Prop}
    (mirrored : types.Mirrored (fun _ => False) given) {origin : TypeId} {entry source : TypeEntry}
    (isBase : types.IsBase base) (stored : types.entries.get? base = some entry)
    (known : types.DefinitionOf base origin)
    (found : types.entries.get? origin = some source) {name : String}
    (named : (source.members.find? name).isSome) :
    (entry.members.find? name).isSome := by
  obtain ⟨definition, there, _, complete, _⟩ := mirrored.definition_of_isBase isBase known
  cases found.symm.trans there
  obtain ⟨same, again, behind⟩ := known
  cases stored.symm.trans again
  cases original : entry.generic with
  | none =>
    rw [original, Option.getD_none] at behind
    rw [← behind, stored] at found
    cases found
    exact named
  | some generic =>
    rw [original, Option.getD_some] at behind
    subst behind
    have filled : entry.complete = true := by
      rcases mirrored.filled base entry generic source stored original found with
        filled | nowhere | waits
      · exact filled
      · exact nowhere.elim
      · rw [mirrored.attended generic source found complete] at waits
        cases waits
    obtain ⟨member, has⟩ := Option.isSome_iff_exists.mp named
    obtain ⟨copy, copied, _⟩ := (mirrored.mirrors base entry generic source stored original found
      filled).copies name member has
    rw [copied]
    rfl

end Types

def Inheritance.names (inherited : Inheritance) : List String := inherited.map Prod.fst

theorem Inheritance.mem_names_add (name other : String) (member : MemberId)
    (inherited : Inheritance) :
    other ∈ (inherited.add name member).names ↔ other = name ∨ other ∈ inherited.names := by
  unfold names
  induction inherited with
  | nil => simp [add]
  | cons entry rest ih =>
    obtain ⟨key, members⟩ := entry
    rw [add]
    split
    · rename_i same
      subst same
      simp
    · rw [List.map_cons, List.mem_cons, ih, List.map_cons, List.mem_cons]
      exact or_left_comm

namespace Store.Follows

variable {active : List SymbolId} {first second : Store}

theorem symbol (follows : first.Follows active second) (inherits : first.types.Inherits)
    {type : TypeId}
    {entry : TypeEntry} {base : SymbolId} (stored : first.types.entries.get? type = some entry)
    (declares : entry.symbol = some base) :
    ∃ later, second.types.entries.get? type = some later ∧ later.kind = entry.kind ∧
    later.symbol = some base := by
  obtain ⟨later, found, kept⟩ := follows.types type entry stored
  refine ⟨later, found, kept.kind, ?_⟩
  obtain ⟨given, mirrored⟩ := inherits.mirrored
  cases original : entry.generic with
  | none =>
    obtain ⟨same, again, _, symbol⟩ := follows.declares base type entry ⟨stored, original, declares⟩
    cases found.symm.trans again
    exact symbol
  | some generic =>
    have applied := (mirrored.applied type entry stored).mpr (by rw [original]; rfl)
    rw [kept.symbol (.inr applied), declares]

theorem fitsAt (follows : first.Follows active second) (inherits : first.types.Inherits)
    {isClass : Bool}
    {position : Nat} {base : TypeId} (fits : first.types.FitsAt isClass position base) :
    second.types.FitsAt isClass position base := by
  obtain ⟨isBase, entry, stored, legal⟩ := fits
  obtain ⟨later, found, kept⟩ := follows.types base entry stored
  exact ⟨follows.isBase inherits isBase, later, found, kept.kind ▸ legal⟩

end Store.Follows

theorem Store.Consistent.isBase {active : List SymbolId} {store : Store}
    (consistent : store.Consistent active)
    {base : SymbolId} {type : TypeId} {entry : TypeEntry} (settled : store.Settled base)
    (stored : store.types.entries.get? type = some entry) (symbol : entry.symbol = some base)
    (isObject : entry.kind.isObject = true) : store.types.IsBase type := by
  obtain ⟨declared, known, done⟩ := settled
  have isBuilt := TypeKind.isBuilt_of_isObject isObject
  refine ⟨⟨entry, stored, ?_⟩, entry, stored, isObject⟩
  cases original : entry.generic with
  | none =>
    exact consistent.settled base declared type entry known done ⟨stored, original, symbol⟩ isBuilt
  | some generic =>
    obtain ⟨given, mirrored⟩ := consistent.inherits.mirrored
    obtain ⟨definition, found, plain, sameKind, sameSymbol⟩ :=
      mirrored.definition type entry generic stored original
    refine ⟨definition, found, ?_⟩
    exact consistent.settled base declared generic definition known done
      ⟨found, plain, sameSymbol.trans symbol⟩
      (sameKind ▸ isBuilt)

namespace Resolve

section Bases

variable [Resolver] [careful : Resolver.Careful] {site : Surroundings} {store : Store}
  {id : SymbolId}
  {isClass : Bool} {scope : ScopeId} {position : Nat}

variable (consistent : store.Consistent site.active)

include consistent

/-- A base that is kept fits, unless the object turned out to be on a cycle. -/
theorem returns_baseType? {node : NodeId} (here : site.active.head? = some id) :
    Returns (baseType? id isClass scope position node) site store fun answer after =>
    store.Evolves site.active after ∧
        ∀ base, answer = some base → after.types.FitsAt isClass position base := by
  unfold baseType?
  refine Runs.bind (Safe.returns inferInstance consistent) ?_
  rintro type named ⟨keptNamed, one⟩
  split
  · exact .pure ⟨⟨keptNamed, one⟩, nofun⟩
  refine ensures_bind.mpr (ensures_askTypes.mpr fun entry fetched => ?_)
  have stored := Types.entry_eq_ok_iff.mp fetched
  split
  · exact (looks_reportInvalidBase _ _ _ _).bind fun _ => .pure ⟨⟨keptNamed, one⟩, nofun⟩
  rename_i legal
  rw [Bool.not_eq_true', Bool.not_eq_false] at legal
  split
  · exact .pure ⟨⟨keptNamed, one⟩, nofun⟩
  rename_i base symbol
  refine (looks_symbolOf base).bind fun declared => ?_
  split
  · exact (looks_reportFinalBase _ _ _).bind fun _ => .pure ⟨⟨keptNamed, one⟩, nofun⟩
  refine (careful.settle base site named keptNamed).bind ?_
  rintro _ after ⟨kept, two, done⟩
  have follows := one.trans two
  refine ensures_bind.mpr (ensures_get.mpr ?_)
  refine (looks_symbolOf base).bind fun again => ?_
  split
  · exact .pure ⟨⟨kept, follows⟩, nofun⟩
  rename_i acyclic
  refine .pure ⟨⟨kept, follows⟩, ?_⟩
  rintro _ ⟨⟩
  have settled : after.Settled base := by
    refine done.resolve_right ?_
    rintro ⟨inner, isInner, cyclic⟩
    cases here.symm.trans isInner
    simp [cyclic] at acyclic
  obtain ⟨later, found, sameKind, sameSymbol⟩ := two.symbol keptNamed.inherits stored symbol
  rw [← sameKind] at legal
  exact ⟨kept.isBase settled found sameSymbol (TypeKind.isObject_of_isLegalBase legal), later,
    found, legal⟩

theorem returns_baseTypes {nodes : List NodeId}
    (here : site.active.head? = some id) :
    Returns (baseTypes id isClass scope position nodes) site store fun bases after =>
      store.Evolves site.active after ∧
        after.types.FitFrom isClass position bases := by
  induction nodes generalizing position store with
  | nil => exact .pure ⟨⟨consistent, .refl _ _⟩, fun offset base found => by cases found⟩
  | cons node rest ih =>
    rw [baseTypes]
    refine (returns_baseType? consistent here).bind ?_
    rintro type? middle ⟨⟨keptMiddle, one⟩, fits⟩
    refine (ih keptMiddle).bind ?_
    rintro others after ⟨⟨kept, two⟩, fit⟩
    refine .pure ⟨⟨kept, one.trans two⟩, fun offset base found => ?_⟩
    cases type? with
    | none => exact (fit offset base found).earlier (by omega)
    | some type =>
      cases offset with
      | zero =>
        obtain rfl : type = base := Option.some.inj found
        exact two.fitsAt keptMiddle.inherits (fits type rfl)
      | succ offset =>
        have next := fit offset base found
        rwa [Nat.add_right_comm, Nat.add_assoc] at next

theorem returns_objectBases (here : site.active.head? = some id) :
    Returns (objectBases id isClass) site store fun bases after => store.Evolves site.active after ∧
        after.types.FitFrom isClass 0 bases := by
  have none : Returns (pure []) site store fun bases after => store.Evolves site.active after ∧
        after.types.FitFrom isClass 0 bases :=
    .pure ⟨⟨consistent, .refl _ _⟩, fun offset base found => by cases found⟩
  unfold objectBases
  refine (looks_symbolOf id).bind fun symbol => ?_
  split
  · exact none
  refine (looks_kindOf _).bind fun kind => ?_
  dsimp only
  split
  · split
    · exact Looks.bind inferInstance fun around? => returns_baseTypes consistent here
    · exact (looks_pure _).bind fun around? => returns_baseTypes consistent here
  · exact none

end Bases

section Names

variable {site : Surroundings} {store : Store} {id : SymbolId} {active : List SymbolId}
  {type : TypeId}
  {bases : List TypeId} {names : String → Prop} {inherited : Inheritance}
  {own : List (String × MemberId)}

/-- A name of a base is declared by the object itself or inherited. -/
theorem returns_inheritFrom {members : List (String × MemberId)} :
    Returns (inheritFrom own members inherited) site store fun answer _ => ∀ name,
      (name ∈ inherited.names → name ∈ answer.names) ∧
        (name ≠ "new" → name ∈ members.map Prod.fst → name ∈ own.map Prod.fst ∨
          name ∈ answer.names) := by
  induction members generalizing inherited store with
  | nil => exact .pure fun name => ⟨id, fun _ listed => by cases listed⟩
  | cons entry rest ih =>
    obtain ⟨key, member⟩ := entry
    rw [inheritFrom]
    split
    · rename_i isNew
      refine ih.weaken fun answer _ holds name => ⟨(holds name).1, fun notNew listed => ?_⟩
      rcases List.mem_cons.mp listed with rfl | later
      · exact absurd isNew notNew
      · exact (holds name).2 notNew later
    · split
      · rename_i other ownMember found
        have declared : key ∈ own.map Prod.fst :=
          List.mem_map.mpr ⟨_, List.mem_of_find?_eq_some
            found, by simpa using List.find?_some found⟩
        refine ensures_bind.mpr fun _ _ _ _ _ => ensures_bind.mpr fun _ _ _ _ _ => ?_
        refine ih.weaken fun answer _ holds name => ⟨(holds name).1, fun notNew listed => ?_⟩
        rcases List.mem_cons.mp listed with rfl | later
        · exact .inl declared
        · exact (holds name).2 notNew later
      · refine ih.weaken fun answer _ holds name => ⟨fun listed => ?_, fun notNew listed => ?_⟩
        · exact (holds name).1 ((Inheritance.mem_names_add ..).mpr (.inr listed))
        · rcases List.mem_cons.mp listed with rfl | later
          · exact .inr ((holds _).1 ((Inheritance.mem_names_add ..).mpr (.inl rfl)))
          · exact (holds name).2 notNew later

variable [Resolver] [Resolver.Careful]

/-- Every name of a base is declared by the object itself or inherited, constructors apart. -/
theorem returns_gather (consistent : store.Consistent site.active)
    (based : ∀ base ∈ bases, store.types.IsBase base) :
    Returns (bases.foldlM (fun inherited base => do
        inheritFrom own (← askTypes fun types => types.membersOf base) inherited) inherited) site
        store
      fun answer after => store.Evolves site.active after ∧
        (∀ name ∈ inherited.names, name ∈ answer.names) ∧
        after.types.Covers bases fun name => name ∈ own.map Prod.fst ∨ name ∈ answer.names := by
  induction bases generalizing inherited store with
  | nil => exact .pure ⟨⟨consistent, .refl _ _⟩, fun _ => id, fun base listed => by cases listed⟩
  | cons base rest ih =>
    rw [List.foldlM_cons]
    refine ensures_bind.mpr (ensures_bind.mpr (ensures_askTypes.mpr fun members fetched => ?_))
    obtain ⟨entry, stored, rfl⟩ := Types.membersOf_eq_ok_iff.mp fetched
    refine ((Safe.returns inferInstance consistent).and returns_inheritFrom).weaken ?_
    rintro gathered middle ⟨⟨keptMiddle, one⟩, names⟩
    have isBase := based base List.mem_cons_self
    have others : ∀ base ∈ rest, middle.types.IsBase base := fun other listed =>
      one.isBase consistent.inherits (based other (List.mem_cons_of_mem base listed))
    refine (ih keptMiddle others).weaken ?_
    rintro answer after ⟨⟨kept, two⟩, stays, covers⟩
    refine ⟨⟨kept, one.trans two⟩, fun name listed => stays name ((names name).1 listed), ?_⟩
    have here : store.types.Covers [base] fun name => name ∈ own.map Prod.fst ∨
      name ∈ answer.names := by
      intro other listed origin source known found name notNew named
      obtain rfl := List.mem_singleton.mp listed
      obtain ⟨given, mirrored⟩ := consistent.inherits.mirrored
      obtain ⟨member, has⟩ :=
        Option.isSome_iff_exists.mp (mirrored.find?_of_isBase isBase stored known found named)
      have listed : name ∈ entry.members.sorted.map Prod.fst := by
        refine List.mem_map.mpr ⟨(name, member), (NameTable.mem_sorted _ _).mpr ?_, rfl⟩
        exact ((mirrored.distinct other entry stored).find?_eq_some_iff name member).mp has
      exact ((names name).2 notNew listed).imp_right (stays name)
    have later := (one.trans two).covers consistent.inherits (fun other listed => by
      rw [List.mem_singleton.mp listed]; exact isBase) here
    intro other listed
    rcases List.mem_cons.mp listed with rfl | further
    · exact later other List.mem_cons_self
    · exact covers other further

omit [Resolver] [Resolver.Careful] in
theorem returns_addInherited (here : site.active = id :: active) (idle : id ∉ active)
    (builds : store.Builds (id :: active) id type bases names) :
    Returns (inherited.forM fun entry => do
        let member ← onTypes (Types.createMember (← inheritedEntry id entry.1 entry.2))
        onTypes (Types.setMember type entry.1 member)) site store fun _ after =>
      after.Builds (id :: active) id type bases (fun name => names name ∨ name ∈ inherited.names) ∧
        store.Follows active after := by
  induction inherited generalizing store names with
  | nil =>
    refine .pure ⟨?_, .refl _ _⟩
    simpa [Inheritance.names] using builds
  | cons entry rest ih =>
    obtain ⟨name, candidates⟩ := entry
    have entered : Erects id active (inheritedEntry id name candidates) := inferInstance
    refine ensures_bind.mpr ((entered.keeps site store type bases names here idle builds).bind ?_)
    rintro entry middle ⟨building, one⟩
    have made : Erects id active (onTypes (Types.createMember entry)) := inferInstance
    refine (made.keeps site middle type bases names here idle building).bind ?_
    rintro member created ⟨buildingCreated, two⟩
    refine (returns_setMember buildingCreated idle).weaken ?_
    rintro _ joined ⟨buildingJoined, three, _⟩
    refine (ih buildingJoined).weaken ?_
    rintro _ after ⟨done, four⟩
    refine ⟨⟨done.consistent, ?_⟩, ((one.trans two).trans three).trans four⟩
    obtain ⟨last, declares, isBuilt, incomplete, related, named⟩ := done.built
    refine ⟨last, declares, isBuilt, incomplete, related, fun other known => named other ?_⟩
    rcases known with known | listed
    · exact .inl (.inl known)
    · rcases List.mem_cons.mp listed with rfl | later
      · exact .inl (.inr rfl)
      · exact .inr later

/-- An object has the names of its bases, constructors apart. -/
theorem returns_inheritMembers (here : site.active = id :: active) (idle : id ∉ active)
    (builds : store.Builds (id :: active) id type bases names) (based : ∀ base ∈ bases,
      store.types.IsBase base) :
    Returns (inheritMembers id type bases) site store fun _ after =>
      store.Follows active after ∧ ∃ names, after.Builds (id :: active) id type bases names ∧
        after.types.Covers bases names := by
  unfold inheritMembers
  refine ensures_bind.mpr (ensures_askTypes.mpr fun own fetched => ?_)
  obtain ⟨entry, stored, rfl⟩ := Types.membersOf_eq_ok_iff.mp fetched
  have consistent : store.Consistent site.active := here ▸ builds.consistent
  refine (returns_gather consistent based).bind ?_
  rintro inherited middle ⟨⟨kept, one⟩, _, covers⟩
  rw [here] at kept one
  have owned : store.Builds (id :: active) id type bases fun name =>
    name ∈ entry.members.sorted.map Prod.fst := by
    obtain ⟨same, ⟨again, plain, declares⟩, isBuilt, incomplete, related, _⟩ := builds.built
    cases stored.symm.trans again
    refine ⟨builds.consistent, entry, ⟨stored, plain, declares⟩, isBuilt, incomplete, related, ?_⟩
    rintro name listed
    obtain ⟨⟨_, member⟩, inside, rfl⟩ := List.mem_map.mp listed
    obtain ⟨given, mirrored⟩ := builds.consistent.inherits.mirrored
    rw [((mirrored.distinct type entry stored).find?_eq_some_iff _ member).mpr
      ((NameTable.mem_sorted _ _).mp inside)]
    rfl
  refine (returns_addInherited here idle (owned.follow kept one)).weaken ?_
  rintro _ after ⟨done, two⟩
  refine ⟨(one.weaken (List.subset_cons_self id active)).trans two, _, done, ?_⟩
  exact two.covers kept.inherits (fun base listed => one.isBase builds.consistent.inherits
    (based base listed)) covers

end Names

section Objects

variable {site : Surroundings} {store : Store} {id : SymbolId} {active : List SymbolId}
  {type : TypeId}
  {bases : List TypeId} {names : String → Prop} {fuel : Nat} {step : Resolve Unit} {symbol : Symbol}

theorem returns_completed (safe : Safe False [] step) (here : site.active = id :: active)
    (idle : id ∉ active)
    (builds : store.Builds (id :: active) id type bases names)
    (covers : ∀ entry, store.types.entries.get? type = some entry → entry.kind.isObject = true →
      store.types.Covers bases names) :
    Returns (do onTypes (Types.complete fuel type); step) site store fun _ after =>
      store.Completes active id type after := by
  refine (returns_complete builds idle covers).bind ?_
  rintro _ middle ⟨kept, one, entry, ⟨stored, plain, declares⟩, isBuilt, complete⟩
  refine (safe.returns (here ▸ kept)).weaken ?_
  rintro _ after ⟨keptAfter, two⟩
  obtain ⟨waiting, found⟩ := two.frozen type entry stored plain (.inl ⟨isBuilt, complete⟩)
  rw [here] at keptAfter two
  exact ⟨⟨keptAfter, one.trans (two.weaken (List.subset_cons_self id active))⟩, _,
    ⟨found, plain, declares⟩, complete⟩

theorem returns_generated {wanted : Prop} [Decidable wanted] {name : String}
    {generate : Resolve Unit}
    (erects : Erects id active generate) (safe : Safe False [] step)
    (here : site.active = id :: active)
    (idle : id ∉ active) (builds : store.Builds (id :: active) id type bases names)
    (covers : ∀ entry, store.types.entries.get? type = some entry → entry.kind.isObject = true →
      store.types.Covers bases names) :
    Returns (do
        if wanted then
          if (← askTypes fun types => types.findMember? type name).isNone then
            generate
        onTypes (Types.complete fuel type)
        step) site store fun _ after => store.Completes active id type after := by
  have rest := @returns_completed _ _ _ _ _ _ _ fuel _ safe here idle builds covers
  split
  · refine (looks_askTypes _).bind fun member? => ?_
    split
    · refine (erects.keeps site store type bases names here idle builds).bind ?_
      rintro _ middle ⟨building, one⟩
      refine (returns_completed safe here idle building fun later found isObject => ?_).weaken ?_
      · obtain ⟨entry, ⟨stored, _⟩, _⟩ := builds.built
        obtain ⟨same, again, kept⟩ := one.types type entry stored
        cases found.symm.trans again
        rw [kept.kind] at isObject
        exact one.covers builds.consistent.inherits
          (extendable_of_builds builds entry stored isObject).2
          (covers entry stored isObject)
      · rintro _ after ⟨⟨kept, two⟩, done⟩
        exact ⟨⟨kept, one.trans two⟩, done⟩
    · exact rest
  · exact rest

variable [Resolver] [careful : Resolver.Careful]

theorem returns_settleObject (here : site.active = id :: active) (idle : id ∉ active)
    (builds : store.Builds (id :: active) id type bases names)
    (known : store.symbols.get? id = some symbol)
    (typed : symbol.type = some type) : Returns (settleObject id) site store fun _ after =>
      store.Completes active id type after := by
  have consistent := builds.consistent
  unfold settleObject
  refine (looks_checkModifiers id).bind fun _ => ?_
  refine ensures_bind.mpr (ensures_symbolOf.mpr fun same again => ?_)
  cases known.symm.trans again
  dsimp only
  rw [Symbol.typeOrError, typed]
  dsimp only [Option.getD_some]
  refine (returns_objectBases (here ▸ consistent) (by rw [here]; rfl)).bind ?_
  rintro bases resolved ⟨⟨kept, one⟩, fit⟩
  rw [here] at kept one
  have sort : ∀ later, resolved.types.entries.get? type = some later →
      (symbol.kind == .classType) = (later.kind == .classType) := by
    intro later found
    obtain ⟨entry, declares, _⟩ := builds.built
    obtain ⟨same, again, sorted⟩ := consistent.named id type entry declares
    cases known.symm.trans again
    obtain ⟨_, there, keeps⟩ := one.types type entry declares.1
    cases found.symm.trans there
    rw [keeps.kind, SymbolKind.beq_classType_of_typeKind? sorted]
  refine (returns_setRelated (builds.follow kept one) idle ?_).bind ?_
  · intro later found isObject
    rw [sort later found] at fit
    exact ⟨fit.legalBases, fit.isBase⟩
  rintro _ based ⟨building, two, _⟩
  refine (returns_inheritMembers here idle building fun base listed =>
    two.isBase kept.inherits (fit.isBase base listed)).bind ?_
  rintro _ joined ⟨three, names, builds, covers⟩
  have follows := ((one.weaken (List.subset_cons_self id active)).trans two).trans three
  refine (returns_generated inferInstance inferInstance here idle builds fun _ _ _ =>
    covers).weaken ?_
  rintro _ after ⟨⟨keptAfter, four⟩, done⟩
  exact ⟨⟨keptAfter, follows.trans four⟩, done⟩

theorem returns_settleEnum {entry : TypeEntry} (here : site.active = id :: active)
    (idle : id ∉ active) (builds : store.Builds (id :: active) id type bases names)
    (known : store.symbols.get? id = some symbol) (typed : symbol.type = some type)
    (stored : store.types.entries.get? type = some entry) (isEnum : entry.kind.isObject = false) :
    Returns (settleEnum id) site store fun _ after => store.Completes active id type after := by
  unfold settleEnum
  refine (looks_checkModifiers id).bind fun _ => ?_
  refine ensures_bind.mpr (ensures_symbolOf.mpr fun same again => ?_)
  cases known.symm.trans again
  dsimp only
  rw [Symbol.typeOrError, typed]
  dsimp only [Option.getD_some]
  refine (looks_enumValues id).bind fun values => ?_
  have settled : Erects id active (values.forM Resolver.settle) := inferInstance
  refine (settled.keeps site store type bases names here idle builds).bind ?_
  rintro _ middle ⟨building, one⟩
  refine (returns_generated inferInstance inferInstance here idle building
    fun later found isObject => ?_).weaken ?_
  · obtain ⟨same, again, kept⟩ := one.types type entry stored
    cases found.symm.trans again
    rw [kept.kind, isEnum] at isObject
    cases isObject
  · rintro _ after ⟨⟨kept, two⟩, done⟩
    exact ⟨⟨kept, one.trans two⟩, done⟩

end Objects

end Resolve
end Resolution
