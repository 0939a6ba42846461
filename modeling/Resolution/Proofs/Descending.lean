import Resolution.Proofs.Publication

/-!
# Links between symbols

A name that several bases hand down may come to stand for another symbol, and symbols lie inside of
others.  Both links lead to symbols that were made earlier: what lies inside is made after what is
around it, and a name that waits to be merged is made after the symbols of its candidates.  So no
order in which names are merged closes a circle of links, and whoever follows them comes to an end.
-/

namespace Resolution

/-- A chain that leads to lower and lower handles is listed in this order. -/
theorem Chain.exists_toList {κ : Type} {next : κ → Except Fault (Option κ)} {rank : κ → Nat}
    {bound fuel : Nat} {here : κ}
    (falls : ∀ here, rank here < bound → ∃ link, next here = .ok link ∧ ∀ there ∈ link,
      rank there < rank here)
    (inside : rank here < bound) (enough : rank here < fuel) :
    ∃ rest, toList next fuel here = .ok (here :: rest) ∧ (here :: rest).Pairwise fun one other =>
    rank other < rank one := by
  induction fuel generalizing here with
  | zero => exact absurd enough (Nat.not_lt_zero _)
  | succ fuel ih =>
    obtain ⟨link, leads, lower⟩ := falls here inside
    rw [toList, leads]
    cases link with
    | none => exact ⟨[], rfl, List.pairwise_singleton _ _⟩
    | some there =>
      have below := lower there rfl
      obtain ⟨rest, listed, falling⟩ := ih (Nat.lt_trans below inside) (by omega)
      refine ⟨there :: rest, ?_, List.pairwise_cons.mpr
        ⟨List.forall_mem_cons.mpr ⟨below, fun other later => ?_⟩, falling⟩⟩
      · change (do return here :: (← toList next fuel there)) = _
        rw [listed]
        rfl
      · exact Nat.lt_trans (List.rel_of_pairwise_cons falling later) below

/-- The links of every symbol lead to earlier symbols, and following them ends. -/
structure Store.WellLinked (store : Store) : Prop where
  forwarded : ∀ id symbol, store.symbols.get? id = some symbol → ∀ target ∈ symbol.forwardedTo,
    target.index < id.index
  enclosed : ∀ id symbol, store.symbols.get? id = some symbol → ∀ around ∈ symbol.enclosing,
    around.index < id.index
  target : ∀ id symbol, store.symbols.get? id = some symbol →
    ∃ target, store.symbols.target id = .ok target ∧ target.index ≤ id.index
  /-- No symbol is met twice on the way out. -/
  outwards : ∀ id symbol, store.symbols.get? id = some symbol →
    ∃ around, store.symbols.enclosingChain id = .ok around ∧
    (id :: around).Pairwise fun inner outer => outer.index < inner.index

theorem Store.Sound.wellLinked {phase : Phase} {store : Store} (sound : store.Sound phase) :
    store.WellLinked where
  forwarded id symbol known := (sound.descends id symbol known).2.1
  enclosed id symbol known := (sound.descends id symbol known).1
  target _ _ known := sound.exists_target (Table.lt_size_of_get? known)
  outwards id symbol known := by
    have links (here : SymbolId) (within : here.index < store.symbols.size) :
        ∃ link, store.symbols.enclosingOf here = .ok link ∧ ∀ there ∈ link,
          there.index < here.index := by
      obtain ⟨entry, stored⟩ := Table.exists_get?_of_lt (show Handle.index here < _ from within)
      have fetched : store.symbols.fetch here = .ok entry :=
        (Table.fetch_eq_ok_iff _ _ _).mpr stored
      exact ⟨entry.enclosing,
        by rw [Symbols.enclosingOf, fetched]; rfl, (sound.descends here entry stored).1⟩
    have inside : id.index < store.symbols.size := Table.lt_size_of_get? known
    obtain ⟨rest, listed, falling⟩ :=
      Chain.exists_toList links inside (Nat.lt_succ_of_lt (Nat.lt_succ_of_lt inside))
    -- The list of the whole chain starts with the symbol itself.
    refine ⟨rest, ?_, falling⟩
    unfold Symbols.enclosingChain Chain.after
    rw [Chain.toList] at listed
    obtain ⟨link, leads, _⟩ := links id inside
    rw [leads] at listed ⊢
    cases link with
    | none =>
      cases listed
      rfl
    | some there =>
      change (do return id :: (← Chain.toList _ _ there)) = _ at listed
      obtain ⟨others, further, same⟩ := (except_bind_eq_ok_iff _ _ _).mp listed
      cases same
      exact further

/-- Links end.  At every moment of a run and where it returns, each symbol stands for and lies
inside of earlier symbols only, so that the symbol that does the work is found, and so are all
symbols around. -/
theorem links_lead_to_earlier_symbols (fuel : Nat) (options : Options) (source : Source)
    (root : NodeId) :
    (∀ moment : Moment, moment.Occurs fuel options source root → moment.store.WellLinked) ∧
      ∀ outcome, resolve fuel options source root = .ok outcome → outcome.toStore.WellLinked := by
  have sound {watch : Watch} {store : Store}
    (stops : (runUnder watch fuel options source root).Stops store) :
      store.Sound .settling := (lasts_runUnder (fun _ looked => looked) stops stops).sound trivial
  refine ⟨fun moment occurs => (sound (.inr occurs.cuts.2.1)).wellLinked,
    fun outcome resolved => ?_⟩
  obtain ⟨reports, run⟩ := resolve_eq_ok resolved
  exact (sound (.inl ⟨_, run⟩)).wellLinked

end Resolution
