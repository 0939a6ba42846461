import Resolution.Declaration.Settle
import Resolution.Program
import Resolution.Proofs.Extending

/-!
# Every resolver is careful

A symbol is started, settled by the rule for its sort while it is active, and finished with a
complete type.  A symbol that is needed while it is active is not settled then, but the innermost
active symbol is on the cycle that it closes.  With this the rules of one level keep the contract
that the rules of the level above rely on.
-/

namespace Resolution
/-- The state that a rule for an active symbol leads to, where the type of the symbol is complete if
it is built. -/
def Store.LeavesComplete (active : List SymbolId) (id : SymbolId) (store after : Store) : Prop :=
  (after.Consistent (id :: active) ∧ store.Follows active after) ∧
    ∀ type entry, after.Declares id type entry → entry.kind.isBuilt = true → entry.complete = true

namespace Resolve

variable {site : Surroundings} {store : Store} {id : SymbolId} {active : List SymbolId}

/-! ## Merging -/

/-- An active symbol without a type of its own gets another sort. -/
theorem returns_resort {change : Symbol → Symbol} (consistent : store.Consistent site.active)
    (typeless : store.Typeless id) (isActive : id ∈ site.active)
    (progress : ∀ symbol, (change symbol).progress = symbol.progress)
    (kind : ∀ symbol, (change symbol).kind = symbol.kind ∨
      (change symbol).kind ≠ .placeholder ∧ (change symbol).kind.typeKind? = none)
    (ownScope : ∀ symbol, (change symbol).ownScope = symbol.ownScope) :
    Returns (updateSymbol id change) site store fun _ after => store.Evolves site.active after := by
  refine ensures_onSymbols.mpr (Table.ensures_update.mpr fun _ =>
    consistent.update_symbol fun symbol stored => ?_)
  obtain ⟨same, again, untyped, _⟩ := typeless
  cases stored.symm.trans again
  refine ⟨progress symbol, (kind symbol).imp_right ?_, fun untouched _ =>
    ?_, .inl (ownScope symbol)⟩
  · rintro ⟨known, none⟩
    exact ⟨untyped, known, .inl none⟩
  · rw [(consistent.started id symbol stored).mpr isActive] at untouched
    cases untouched

theorem returns_applyMerge {candidates : List Inherited} {merge : Merge}
    (consistent : store.Consistent site.active) (typeless : store.Typeless id)
    (isActive : id ∈ site.active) :
    Returns (applyMerge id candidates merge) site store fun _ after =>
    store.Evolves site.active after := by
  have resort (change : Symbol → Symbol) :=
    @returns_resort site store id change consistent typeless isActive
  unfold applyMerge
  refine (looks_symbolOf id).bind fun symbol => ?_
  split
  · exact resort _ (fun _ => rfl) (fun _ => .inr ⟨by rintro ⟨⟩, rfl⟩) fun _ => rfl
  · exact resort _ (fun _ => rfl) (fun _ => .inr ⟨by rintro ⟨⟩, rfl⟩) fun _ => rfl
  · refine Looks.bind inferInstance fun spans => (looks_report _).bind fun _ => ?_
    exact resort _ (fun _ => rfl) (fun _ => .inl rfl) fun _ => rfl
  · refine Looks.bind inferInstance fun listed => (looks_report _).bind fun _ => ?_
    exact resort _ (fun _ => rfl) (fun _ => .inl rfl) fun _ => rfl
  · dsimp only
    split
    · refine (looks_report _).bind fun _ => ?_
      exact resort _ (fun _ => rfl) (fun _ => .inr ⟨by rintro ⟨⟩, rfl⟩) fun _ => rfl
    · exact resort _ (fun _ => rfl) (fun _ => .inr ⟨by rintro ⟨⟩, rfl⟩) fun _ => rfl

section Rules

variable [Resolver] [careful : Resolver.Careful]

theorem returns_settleUnmerged (consistent : store.Consistent site.active)
    (typeless : store.Typeless id)
    (isActive : id ∈ site.active) : Returns (settleUnmerged id) site store fun _ after =>
      store.Evolves site.active after := by
  unfold settleUnmerged
  refine (looks_symbolOf id).bind fun symbol => ?_
  refine Runs.bind (Safe.returns inferInstance consistent) ?_
  rintro found middle ⟨kept, one⟩
  refine Looks.bind inferInstance fun candidates => ?_
  split
  · exact .pure ⟨kept, one⟩
  · refine (returns_applyMerge kept (one.typeless typeless) isActive).weaken ?_
    rintro _ after ⟨keptAfter, two⟩
    exact ⟨keptAfter, one.trans two⟩

/-! ## Rules by sort -/

/-- After the rule for its sort, the type of a class, interface or enum is complete. -/
theorem returns_settleByKind {symbol : Symbol} (here : site.active = id :: active)
    (idle : id ∉ active)
    (consistent : store.Consistent (id :: active)) (known : store.symbols.get? id = some symbol)
    (declares : symbol.kind.isBuilt = true →
      ∃ type entry, symbol.type = some type ∧ store.Declares id type entry ∧
      entry.complete = false) :
    Returns (settleByKind id symbol.kind) site store fun _ after =>
    store.LeavesComplete active id after := by
  have listed : [id] ⊆ site.active := by simp [here]
  have unbuilt {step : Resolve Unit} (plain : symbol.kind.isBuilt = false)
      (keeps : Returns step site store fun _ after => store.Evolves site.active after) :
      Returns step site store fun _ after => store.LeavesComplete active id after := by
    refine keeps.weaken ?_
    rintro _ after ⟨kept, follows⟩
    rw [here] at kept follows
    refine ⟨⟨kept, follows.weaken (List.subset_cons_self id active)⟩,
      fun type entry declared isBuilt => ?_⟩
    obtain ⟨last, found, sort⟩ := kept.named id type entry declared
    obtain ⟨later, there, becomes, _⟩ := follows.symbols id symbol known
    cases found.symm.trans there
    rw [SymbolKind.isBuilt_of_typeKind? sort] at isBuilt
    rw [becomes.eq_of_isBuilt (.inl isBuilt), plain] at isBuilt
    cases isBuilt
  have safe {step : Resolve Unit} (plain : symbol.kind.isBuilt = false)
    (keeps : Safe False [id] step) :=
    unbuilt plain (keeps.keeps site store (here ▸ consistent) False.elim listed)
  have built {step : Resolve Unit} {type : TypeId}
      (keeps : Returns step site store fun _ after => store.Completes active id type after) :
      Returns step site store fun _ after => store.LeavesComplete active id after := by
    refine keeps.weaken ?_
    rintro _ after ⟨⟨kept, follows⟩, later, done, complete⟩
    refine ⟨⟨kept, follows⟩, fun type entry declared _ => ?_⟩
    rw [(kept.declares_unique declared done).2, complete]
  have opens (isBuilt : symbol.kind.isBuilt = true) : ∃ type entry, symbol.type = some type ∧
      store.types.entries.get? type = some entry ∧ symbol.kind.typeKind? = some entry.kind ∧
        store.Builds (id :: active) id type entry.related fun _ => False := by
    obtain ⟨type, entry, typed, declared, incomplete⟩ := declares isBuilt
    obtain ⟨same, again, sort⟩ := consistent.named id type entry declared
    cases known.symm.trans again
    refine ⟨type, entry, typed, declared.1, sort, consistent, entry, declared, ?_, incomplete, rfl,
      fun _ => False.elim⟩
    rw [SymbolKind.isBuilt_of_typeKind? sort, isBuilt]
  unfold settleByKind
  split <;> rename_i kind
  case h_3 | h_4 =>
    obtain ⟨type, entry, typed, stored, sort, builds⟩ := opens (by rw [kind]; rfl)
    rw [kind] at sort
    refine built (returns_settleEnum here idle builds known typed stored ?_)
    rw [← Option.some.inj sort]
    rfl
  case h_5 | h_6 =>
    obtain ⟨type, entry, typed, stored, sort, builds⟩ := opens (by rw [kind]; rfl)
    exact built (returns_settleObject here idle builds known typed)
  case h_18 =>
    refine unbuilt (by rw [kind]; rfl)
      (returns_settleUnmerged (here ▸ consistent) ⟨symbol, known, ?_⟩ (listed List.mem_cons_self))
    rw [kind]
    exact ⟨rfl, nofun⟩
  all_goals exact safe (by rw [kind]; rfl) inferInstance

end Rules

/-! ## Cycles -/

theorem returns_reportCyclic {path : String} {member : SymbolId} :
    Returns (reportCyclic path member) site store fun _ after =>
      member ∈ after.cyclic ∧ store.cyclic ⊆ after.cyclic := by
  unfold reportCyclic
  refine ensures_bind.mpr (ensures_get.mpr ?_)
  split
  · rename_i listed
    exact .pure ⟨by simpa using listed, List.Subset.refl _⟩
  · refine ensures_bind.mpr (ensures_modify.mpr ?_)
    refine (looks_symbolOf member).bind fun symbol => runs_report.mpr fun _ => ?_
    exact ⟨List.mem_cons_self, List.subset_cons_self _ _⟩

theorem returns_reportAll {path : String} {members : List SymbolId} :
    Returns (members.forM (reportCyclic path)) site store fun _ after =>
      members ⊆ after.cyclic ∧ store.cyclic ⊆ after.cyclic := by
  induction members generalizing store with
  | nil => exact .pure ⟨List.nil_subset _, List.Subset.refl _⟩
  | cons member rest ih =>
    refine returns_reportCyclic.bind ?_
    rintro _ middle ⟨here, one⟩
    refine ih.weaken ?_
    rintro _ after ⟨others, two⟩
    exact ⟨List.cons_subset.mpr ⟨two here, others⟩, List.Subset.trans one two⟩

theorem head_mem_cycleMembers {inner : SymbolId} (isActive : id ∈ active)
    (isInner : active.head? = some inner) :
    inner ∈ cycleMembers active id := by
  obtain ⟨rest, rfl⟩ : ∃ rest, active = inner :: rest := by
    cases active with
    | nil => cases isInner
    | cons first rest => exact ⟨rest, by rw [Option.some.inj isInner]⟩
  unfold cycleMembers
  rw [if_pos (by simpa using isActive)]
  by_cases same : inner = id
  · simp [same]
  · simp [same]

/-- The innermost active symbol is on every cycle that is closed. -/
theorem returns_reportCycle (consistent : store.Consistent site.active)
    (isActive : id ∈ site.active) :
    Returns (reportCycle id) site store fun _ after =>
      after.Consistent site.active ∧ store.Follows site.active after ∧
        ∃ inner, site.active.head? = some inner ∧ inner ∈ after.cyclic := by
  obtain ⟨inner, isInner⟩ : ∃ inner, site.active.head? = some inner := by
    cases listed : site.active with
    | nil => rw [listed] at isActive; cases isActive
    | cons inner rest => exact ⟨inner, rfl⟩
  have onCycle := head_mem_cycleMembers isActive isInner
  unfold reportCycle
  refine ensures_bind.mpr (ensures_read.mpr ?_)
  dsimp only
  split
  · rename_i none
    rw [List.isEmpty_iff.mp none] at onCycle
    cases onCycle
  refine Looks.bind inferInstance fun names => (looks_nameOf id).bind fun closing => ?_
  refine Runs.bind ((Safe.returns inferInstance consistent).and returns_reportAll) ?_
  rintro _ middle ⟨⟨kept, one⟩, reported, _⟩
  have typed : Returns (setSymbolType id .error) site middle fun _ after =>
    after.cyclic = middle.cyclic :=
    ensures_onSymbols.mpr (Table.ensures_update.mpr fun _ => rfl)
  refine ((safe_setOwnType.keeps site middle kept False.elim (by simpa using isActive)).and
    typed).weaken ?_
  rintro _ after ⟨⟨keptAfter, two⟩, same⟩
  exact ⟨keptAfter, one.trans two, inner, isInner, same ▸ reported onCycle⟩

/-! ## Settling -/

theorem ensures_start {symbols : Symbols} {post : Unit → Symbols → Prop}
    (holds : post () (symbols.modify id fun symbol => { symbol with progress := .active })) :
    (Symbols.start id).Ensures symbols post := by
  unfold Symbols.start
  refine .get ?_
  refine .ask fun symbol _ => ?_
  split
  · exact Table.ensures_update.mpr fun _ => holds
  · exact .throw

theorem ensures_finish {symbols : Symbols} {post : Unit → Symbols → Prop}
    (holds : post () (symbols.modify id fun symbol => { symbol with progress := .settled })) :
    (Symbols.finish id).Ensures symbols post := by
  unfold Symbols.finish
  refine .get ?_
  refine .ask fun symbol _ => ?_
  split
  · exact Table.ensures_update.mpr fun _ => holds
  · exact .throw

theorem returns_finish (consistent : store.Consistent (id :: active)) (idle : id ∉ active)
    (complete : ∀ type entry, store.Declares id type entry → entry.kind.isBuilt = true →
      entry.complete = true) :
    Returns (finish id) site store fun _ after =>
      after.Consistent active ∧ store.Follows active after ∧ after.Settled id := by
  have finished : ∀ middle, middle.Consistent (id :: active) → store.Follows active middle →
      middle.types = store.types →
      Returns (onSymbols (Symbols.finish id)) site middle fun _ after =>
        after.Consistent active ∧ store.Follows active after ∧ after.Settled id := by
    intro middle kept one same
    refine ensures_onSymbols.mpr (ensures_finish ?_)
    obtain ⟨keptAfter, two⟩ := kept.finish idle
      (by unfold Store.Declares; rw [same]; exact complete)
    obtain ⟨symbol, known⟩ := kept.begun id List.mem_cons_self
    exact ⟨keptAfter, one.trans two, { symbol with progress := .settled }, by simp [known], rfl⟩
  unfold finish
  refine ensures_bind.mpr (ensures_get.mpr ((looks_symbolOf id).bind fun symbol => ?_))
  dsimp only
  split
  · refine .updateSymbol fun _ => ?_
    have develops : ∀ symbol, store.symbols.get? id = some symbol →
        symbol.Develops store { symbol with type := some .error } := by
      intro symbol known
      refine ⟨rfl, .refl _, fun untouched _ => ?_, .inl rfl⟩
      rw [(consistent.started id symbol known).mpr List.mem_cons_self] at untouched
      cases untouched
    obtain ⟨kept, one⟩ := consistent.update_symbol develops
    exact finished _ kept (one.weaken (List.subset_cons_self id active)) rfl
  · exact finished store consistent (.refl _ _) rfl

section Settling

variable [Resolver] [careful : Resolver.Careful]

theorem returns_settleUntouched {symbol : Symbol} (consistent : store.Consistent site.active)
    (known : store.symbols.get? id = some symbol) (untouched : symbol.progress = .untouched) :
    Returns (settleUntouched id) site store fun _ after =>
      after.Consistent site.active ∧ store.Follows site.active after ∧ after.Settled id := by
  have idle : id ∉ site.active := by
    intro isActive
    rw [(consistent.started id symbol known).mpr isActive] at untouched
    cases untouched
  unfold settleUntouched
  refine ensures_bind.mpr (ensures_symbolOf.mpr fun same again => ?_)
  cases known.symm.trans again
  dsimp only
  refine ensures_bind.mpr (ensures_onSymbols.mpr (ensures_start ?_))
  obtain ⟨started, one⟩ := consistent.start known untouched
  refine (looks_declarationContext id).bind fun context => ?_
  have active : (store.symbols.modify id fun symbol => { symbol with progress := .active }).get?
    id =
      some { symbol with progress := .active } := by simp [known]
  have declares (isBuilt : symbol.kind.isBuilt = true) :=
    consistent.untouched id symbol known untouched isBuilt
  refine ensures_bind.mpr (ensures_whileActive.mpr
    ((returns_settleByKind rfl idle started active declares).weaken ?_))
  rintro _ settled ⟨⟨kept, two⟩, complete⟩
  refine (returns_finish kept idle complete).bind ?_
  rintro _ finished ⟨keptFinished, three, done⟩
  refine (Safe.returns inferInstance keptFinished).weaken ?_
  rintro _ after ⟨keptAfter, four⟩
  exact ⟨keptAfter, ((one.trans two).trans three).trans four, four.isSettled done⟩

/-- A symbol is settled, or it closes a cycle with the innermost active symbol on it. -/
theorem returns_settleRule (consistent : store.Consistent site.active) :
    Returns (settleRule id) site store fun _ after =>
      after.Consistent site.active ∧ store.Follows site.active after ∧
        (after.Settled id ∨ ∃ inner, site.active.head? = some inner ∧ inner ∈ after.cyclic) := by
  unfold settleRule
  refine ensures_bind.mpr (ensures_symbolOf.mpr fun symbol known => ?_)
  split
  · rename_i done
    exact .pure ⟨consistent, .refl _ _, .inl ⟨symbol, known, done⟩⟩
  · rename_i isActive
    refine (returns_reportCycle consistent
      ((consistent.started id symbol known).mp isActive)).weaken ?_
    rintro _ after ⟨kept, follows, cyclic⟩
    exact ⟨kept, follows, .inr cyclic⟩
  · rename_i untouched
    refine (returns_settleUntouched consistent known untouched).weaken ?_
    rintro _ after ⟨kept, follows, settled⟩
    exact ⟨kept, follows, .inl settled⟩

end Settling

end Resolve

/-- The rules of every level keep their contract. -/
theorem Resolver.careful_within (fuel : Nat) : @Resolver.Careful (Resolver.within fuel) := by
  induction fuel with
  | zero =>
    let := Resolver.within 0
    exact ⟨fun _ _ _ _ => ⟨fun _ _ _ _ _ => Resolve.ensures_throw⟩, fun _ _ =>
      ⟨fun _ _ _ _ _ => Resolve.ensures_throw⟩,
      fun _ _ _ _ => Resolve.ensures_throw⟩
  | succ fuel ih =>
    let := Resolver.within fuel
    exact @Resolver.Careful.mk (Resolver.within (fuel + 1)) (fun id context _ _ =>
      Resolve.safe_expressionRule id context)
      (fun id _ => Resolve.safe_statementRule id) fun _ _ _ consistent =>
        Resolve.returns_settleRule consistent

end Resolution
