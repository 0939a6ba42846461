import Resolution.Program
import Resolution.Proofs.WatchedDeclarations

/-!
# Watched runs

A symbol is on the stack of active symbols exactly while it is active: it is pushed where it is
started, and it is finished where it is popped.  An active symbol that is asked for is therefore on
the stack, and every symbol from it to the innermost one is reported unless it was reported before.
With this a whole run is in order wherever it is cut off.
-/

namespace Resolution

variable {settles : Prop} {early late : Watch} {active : List SymbolId} {site : Surroundings}
  {store : Store} {id : SymbolId}

/-! ## Cycles -/

theorem self_mem_cycleMembers (isActive : id ∈ active) : id ∈ cycleMembers active id := by
  unfold cycleMembers
  rw [if_pos (by simpa using isActive)]
  exact List.mem_cons_self

theorem cycleMembers_subset : cycleMembers active id ⊆ active := by
  unfold cycleMembers
  split
  · rename_i isActive
    refine List.cons_subset.mpr ⟨by simpa using isActive, fun other listed => ?_⟩
    exact (List.takeWhile_subset _) (List.mem_reverse.mp listed)
  · exact List.nil_subset _

/-- On a stack without repetitions, the cycle is what lies between the symbol and the innermost one.
-/
theorem cycleMembers_append {inner outer : List SymbolId}
    (distinct : (inner ++ id :: outer).Nodup) :
    cycleMembers (inner ++ id :: outer) id = id :: inner.reverse := by
  have others : ∀ other ∈ inner, decide (other ≠ id) = true := by
    intro other listed
    exact decide_eq_true ((List.nodup_append.mp distinct).2.2 other listed id List.mem_cons_self)
  unfold cycleMembers
  rw [if_pos (by simp), List.takeWhile_append_of_pos others]
  simp

/-- Take note that a symbol is on a cycle. -/
def Store.foundCyclic (store : Store) (id : SymbolId) :
    Store := { store with cyclic := id :: store.cyclic }

/-- Give a symbol a type. -/
def Store.typed (store : Store) (id : SymbolId) (type : TypeId) : Store :=
  { store with symbols := store.symbols.modify id fun entry => { entry with type := some type } }

/-- Let a symbol make progress. -/
def Store.progressed (store : Store) (id : SymbolId) (progress : Progress) : Store :=
  { store with symbols := store.symbols.modify id fun symbol => { symbol with progress } }

section Progress

variable {symbol : Symbol} {progress : Progress} {other : SymbolId}

theorem Store.get?_progressed (known : store.symbols.get? id = some symbol) :
    (store.progressed id progress).symbols.get? id = some { symbol with progress } := by
  simp [Store.progressed, known]

theorem Store.get?_progressed_of_ne (different : other ≠ id) :
    (store.progressed id progress).symbols.get? other = store.symbols.get? other := by
  simp [Store.progressed, Table.get?_modify_of_ne _ _ different]

/-- A symbol that is not settled yet makes progress; on a cycle it has to stay marked. -/
theorem Store.advances_progressed (known : store.symbols.get? id = some symbol)
    (further : symbol.progress.stage ≤ progress.stage) (unsettled : symbol.progress ≠ .settled)
    (marks : id ∈ store.cyclic → store.Marked id → (store.progressed id progress).Marked id) :
    store.Advances (store.progressed id progress) where
  symbol other found stored := by
    by_cases same : other = id
    · subst same
      cases known.symm.trans stored
      exact ⟨_, get?_progressed known, rfl, rfl, further, fun settled => absurd settled unsettled⟩
    · exact ⟨found, (get?_progressed_of_ne same).trans stored, .refl found⟩
  cyclic := List.suffix_rfl
  marks _ listed := .inl listed
  closes other listed marked := by
    by_cases same : other = id
    · subst same
      exact marks listed marked
    · obtain ⟨found, stored, state⟩ := marked
      exact ⟨found, (get?_progressed_of_ne same).trans stored, state⟩

theorem Store.lasts_progressed (advances : store.Advances (store.progressed id progress))
    (sound : settles → store.Sound .settling) (known : store.symbols.get? id = some symbol)
    (touched : progress ≠ .untouched) : store.Lasts settles (store.progressed id progress) := by
  refine ⟨advances, fun holds =>
    (sound holds).symbols rfl (Nat.le_of_eq (Table.size_modify ..).symm) (fun other later found =>
    ?_)
    advances.stand fun other later found state => ?_, fun _ => .refl _⟩
  · obtain ⟨symbol, known, links⟩ := Table.origin_of_modify (R := fun before after =>
      after.links = before.links)
      (fun _ => rfl) (fun _ _ => rfl) found
    exact ((sound holds).descends other symbol known).relink links
  by_cases same : other = id
  · subst same
    rw [get?_progressed known] at found
    cases found
    rcases state with scanning | ⟨untouched, _⟩
    · cases scanning
    · exact absurd untouched touched
  · rw [get?_progressed_of_ne same] at found
    exact (sound holds).plain other later found state

theorem Store.isActive_progressed (known : store.symbols.get? id = some symbol) :
    (store.progressed id progress).IsActive other ↔
      if other = id then progress = .active else store.IsActive other := by
  unfold IsActive
  split
  · rename_i same
    subst same
    simp [get?_progressed known]
  · rename_i different
    rw [get?_progressed_of_ne different]

end Progress

namespace Resolve

variable {symbol : Symbol} {ids : List SymbolId} {step : Resolve Unit} {path : String}

/-! ### Running single steps -/

theorem run_get : (get : Resolve Store) site store = .ok (store, []) store := rfl

theorem run_read : (read : Resolve Surroundings) site store = .ok (site, []) store := rfl

theorem run_symbolOf (known : store.symbols.get? id = some symbol) :
    symbolOf id site store = .ok (symbol, []) store := by
  have fetched : store.symbols.fetch id = .ok symbol := (Table.fetch_eq_ok_iff _ _ _).mpr known
  simp only [symbolOf, ask, act, Reporting.silent, fetched]

theorem run_nameOf (known : store.symbols.get? id = some symbol) :
    nameOf id site store = .ok (symbol.name, []) store := by
  unfold nameOf
  rw [bind_of_ok (run_symbolOf known)]
  rfl

theorem run_names (orderly : store.Orderly active) (listed : ids ⊆ active) :
    ∃ names, ids.mapM nameOf site store = .ok (names, []) store := by
  induction ids with
  | nil => exact ⟨[], rfl⟩
  | cons id rest ih =>
    obtain ⟨names, run⟩ := ih (List.Subset.trans (List.subset_cons_self _ _) listed)
    obtain ⟨symbol, known, _⟩ := (orderly.mem_iff id).mp (listed List.mem_cons_self)
    refine ⟨symbol.name :: names, ?_⟩
    rw [List.mapM_cons, bind_of_ok (run_nameOf known), bind_of_ok run]
    rfl

theorem run_update {change : Symbol → Symbol} (known : store.symbols.get? id = some symbol) :
    updateSymbol id change site store =
      .ok ((), []) { store with symbols := store.symbols.modify id change } := by
  simp only [updateSymbol, onSymbols, act, Reporting.silent, Action.zoom, Table.update,
    if_pos (Table.lt_size_of_get? known)]

/-! ### Reporting -/

/-- The step returns in order, with an account of all cycles, and has found the given symbols on
one. -/
def Closes (settles : Prop) (active ids : List SymbolId) (step : Resolve Unit) (site : Surroundings)
    (store : Store) : Prop :=
  ∃ reports final, step site store = .ok ((), reports) final ∧ final.Orderly active ∧
    store.Lasts settles final ∧ store.Accounts reports final ∧ ids ⊆ final.cyclic

theorem Closes.agrees (closes : Closes settles active ids step site store) :
    Agrees settles early late active store (step site store) (step site store) := by
  obtain ⟨reports, final, run, orderly, lasts, accounts, _⟩ := closes
  rw [run]
  exact .of_fine ⟨orderly, lasts, accounts⟩

theorem Closes.bind {first second : List SymbolId} {next : Resolve Unit}
    (one : Closes settles active first step site store)
    (two : ∀ middle : Store, middle.Orderly active → (settles → middle.Sound .settling) →
      Closes settles active second next site middle) :
    Closes settles active (first ++ second) (step >>= fun _ => next) site store := by
  obtain ⟨reports, middle, run, orderly, lasts, accounts, found⟩ := one
  obtain ⟨more, final, runOn, orderlyOn, lastsOn, accountsOn, foundOn⟩ :=
    two middle orderly lasts.sound
  refine ⟨reports ++ more, final, ?_, orderlyOn, lasts.trans lastsOn,
    accounts.trans accountsOn lastsOn.toAdvances, ?_⟩
  · rw [bind_of_ok run, runOn]
    rfl
  · exact List.append_subset.mpr ⟨List.Subset.trans found lastsOn.cyclic.subset, foundOn⟩

theorem run_reportCyclic (path : String) (site : Surroundings)
    (known : store.symbols.get? id = some symbol) (isNew : id ∉ store.cyclic) :
    reportCyclic path id site store =
      .ok ((), [((Diagnostic.error .cycle s!"`{symbol.name}` depends on itself").label symbol.span
        "part of a dependency cycle").note path]) (store.foundCyclic id) := by
  have noted : (modify fun store => store.foundCyclic id : Resolve PUnit) site store =
      .ok (⟨⟩, []) (store.foundCyclic id) := rfl
  have fetched : symbolOf id site (store.foundCyclic id) = .ok (symbol, [])
    (store.foundCyclic id) :=
    run_symbolOf known
  unfold reportCyclic
  rw [bind_of_ok run_get, if_neg (by simpa using isNew)]
  refine (congrArg _ (bind_of_ok noted)).trans ?_
  rw [bind_of_ok fetched]
  rfl

/-- An active symbol is reported, unless it was reported before. -/
theorem closes_reportCyclic (orderly : store.Orderly active) (sound : settles →
    store.Sound .settling)
    (isActive : id ∈ active) : Closes settles active [id] (reportCyclic path id) site store := by
  obtain ⟨symbol, known, state⟩ := (orderly.mem_iff id).mp isActive
  by_cases reported : id ∈ store.cyclic
  · refine ⟨[], store, ?_, orderly, .refl sound,
      .of_ordinary rfl (List.forall_mem_nil _), by simpa using reported⟩
    unfold reportCyclic
    rw [bind_of_ok run_get, if_pos (by simpa using reported)]
    rfl
  refine ⟨_, _, run_reportCyclic path site known reported, ⟨orderly.nodup, orderly.mem_iff⟩, ?_, ?_,
    by simp [Store.foundCyclic]⟩
  · refine ⟨⟨fun other found stored => ⟨found, stored, .refl found⟩, List.suffix_cons _ _,
      fun other listed => ?_,
      fun other _ marked => marked⟩, fun holds => (sound holds).of_eq rfl rfl, fun _ => .refl _⟩
    rcases List.mem_cons.mp listed with rfl | known
    · exact .inr ⟨symbol, ‹_›, .inl state⟩
    · exact .inl known
  · refine ⟨[id], rfl, by simp, by simpa using reported, ?_⟩
    exact .cons ⟨symbol, known, rfl, rfl⟩ .nil

theorem closes_reportAll (orderly : store.Orderly active)
    (sound : settles → store.Sound .settling) (listed : ids ⊆ active) :
    Closes settles active ids (ids.forM (reportCyclic path)) site store := by
  induction ids generalizing store with
  | nil =>
    exact ⟨[], store, rfl, orderly, .refl sound, .of_ordinary rfl (List.forall_mem_nil _),
      List.nil_subset _⟩
  | cons id rest ih =>
    obtain ⟨here, others⟩ := List.cons_subset.mp listed
    exact (closes_reportCyclic orderly sound here).bind fun middle kept sound =>
      ih kept sound others

theorem closes_setSymbolType (orderly : store.Orderly active) (sound : settles →
    store.Sound .settling)
    (isActive : id ∈ active) : Closes settles active [] (setSymbolType id .error) site store := by
  obtain ⟨symbol, known, _⟩ := (orderly.mem_iff id).mp isActive
  have isOpen := orderly.isOpen isActive .settling
  have keeps : store.Keeps .settling (store.typed id .error) :=
    Store.keeps_modify (fun _ => ⟨rfl, rfl, rfl⟩) (fun _ _ noObject => noObject) (.inl isOpen)
  have sustains : store.Sustains .settling (store.typed id .error) :=
    Store.sustains_modify keeps (.inl isOpen) (by rintro ⟨⟩) fun sound => sound.descends id
  refine ⟨[], _, run_update known, orderly.keeps keeps,
    ⟨keeps.advances, fun holds => ?_, fun holds => ?_⟩,
    .of_ordinary rfl (List.forall_mem_nil _), List.nil_subset _⟩
  · exact (sustains (sound holds)).1
  · exact (sustains (sound holds)).2 rfl

/-- An active symbol closes a cycle: every symbol from it to the innermost one is found on it. -/
theorem closes_reportCycle (orderly : store.Orderly site.active) (sound : settles →
    store.Sound .settling)
    (isActive : id ∈ site.active) :
    Closes settles site.active (cycleMembers site.active id) (reportCycle id) site store := by
  obtain ⟨symbol, known, _⟩ := (orderly.mem_iff id).mp isActive
  obtain ⟨names, named⟩ : ∃ names, (cycleMembers site.active id).mapM nameOf site store =
      .ok (names, []) store := run_names orderly cycleMembers_subset
  have nonempty : ¬(cycleMembers site.active id).isEmpty = true := by
    rw [List.isEmpty_iff]
    exact List.ne_nil_of_mem (self_mem_cycleMembers isActive)
  obtain ⟨reports, final, run, rest⟩ :=
    (closes_reportAll orderly sound cycleMembers_subset).bind fun middle kept sound =>
    closes_setSymbolType kept sound isActive
  refine ⟨reports, final, ?_, by rwa [List.append_nil] at rest⟩
  unfold reportCycle
  rw [bind_of_ok run_read]
  dsimp only
  rw [if_neg nonempty, bind_of_ok named, bind_of_ok (run_nameOf known), run]
  rfl

/-! ## Settling -/

theorem run_advance {advance : Action Symbols Unit} {now next : Progress} {fault : Fault}
    (advances : advance = do
      let symbol ← Action.ofExcept ((← get).fetch id)
      if symbol.progress = now then Table.update id fun symbol =>
      { symbol with progress := next } else throw fault)
    (known : store.symbols.get? id = some symbol) (here : symbol.progress = now) :
    onSymbols advance site store = .ok ((), []) (store.progressed id next) := by
  have fetched : store.symbols.fetch id = .ok symbol := (Table.fetch_eq_ok_iff _ _ _).mpr known
  have run : advance store.symbols =
      .ok () (store.symbols.modify id fun symbol => { symbol with progress := next }) := by
    rw [advances]
    change (Action.ofExcept (store.symbols.fetch id) >>= _) store.symbols = _
    rw [fetched]
    change (if symbol.progress = _ then Table.update id _ else _) store.symbols = _
    rw [if_pos here, Table.update, if_pos (Table.lt_size_of_get? known)]
  simp only [onSymbols, act, Reporting.silent, Action.zoom, run]
  rfl

theorem run_start (known : store.symbols.get? id = some symbol)
    (untouched : symbol.progress = .untouched) :
    onSymbols (Symbols.start id) site store = .ok ((), []) (store.progressed id .active) :=
  run_advance rfl known untouched

theorem run_finish (known : store.symbols.get? id = some symbol)
    (isActive : symbol.progress = .active) :
    onSymbols (Symbols.finish id) site store = .ok ((), []) (store.progressed id .settled) :=
  run_advance rfl known isActive

theorem agrees_start (orderly : store.Orderly active) (sound : settles → store.Sound .settling)
    (known : store.symbols.get? id = some symbol) (untouched : symbol.progress = .untouched) :
    Agrees settles early late (id :: active) store (onSymbols (Symbols.start id) site store)
      (onSymbols (Symbols.start id) site store) := by
  have idle : ¬store.IsActive id := by
    rintro ⟨stored, found, isActive⟩
    cases known.symm.trans found
    cases untouched.symm.trans isActive
  rw [run_start known untouched]
  refine .of_fine ⟨⟨List.nodup_cons.mpr ⟨mt (orderly.mem_iff id).mp idle, orderly.nodup⟩,
    fun other => ?_⟩, ?_,
    .of_ordinary rfl (List.forall_mem_nil _)⟩
  · rw [Store.isActive_progressed known, List.mem_cons]
    split
    · rename_i same
      exact iff_of_true (.inl same) rfl
    · rename_i different
      rw [orderly.mem_iff]
      exact or_iff_right different
  · refine Store.lasts_progressed (Store.advances_progressed known (by rw [untouched]; decide)
      (by rw [untouched]; rintro ⟨⟩) fun _ _ => ?_) sound known (by rintro ⟨⟩)
    exact ⟨_, Store.get?_progressed known, .inl rfl⟩

theorem agrees_finished (orderly : store.Orderly (id :: active)) (sound : settles →
    store.Sound .settling)
    (known : store.symbols.get? id = some symbol) (typed : id ∈ store.cyclic →
      symbol.type = some .error) :
    Agrees settles early late active store (onSymbols (Symbols.finish id) site store)
      (onSymbols (Symbols.finish id) site store) := by
  obtain ⟨idle, distinct⟩ := List.nodup_cons.mp orderly.nodup
  have isActive : symbol.progress = .active := by
    obtain ⟨stored, found, state⟩ := (orderly.mem_iff id).mp List.mem_cons_self
    cases known.symm.trans found
    exact state
  rw [run_finish known isActive]
  refine .of_fine ⟨⟨distinct, fun other => ?_⟩, ?_, .of_ordinary rfl (List.forall_mem_nil _)⟩
  · rw [Store.isActive_progressed known]
    split
    · rename_i same
      subst same
      exact iff_of_false idle (by rintro ⟨⟩)
    · rename_i different
      rw [← orderly.mem_iff, List.mem_cons]
      exact (or_iff_right different).symm
  · refine Store.lasts_progressed (Store.advances_progressed known (by rw [isActive]; decide)
      (by rw [isActive]; rintro ⟨⟩) fun listed _ => ?_) sound known (by rintro ⟨⟩)
    exact ⟨_, Store.get?_progressed known, .inr ⟨rfl, typed listed⟩⟩

/-- On a cycle or without a type, an active symbol is finished with the error type. -/
theorem agrees_finish (orderly : store.Orderly (id :: active)) (sound : settles →
    store.Sound .settling) :
    Agrees settles early late active store (finish id site store) (finish id site store) := by
  obtain ⟨symbol, known, _⟩ := (orderly.mem_iff id).mp List.mem_cons_self
  unfold finish
  rw [bind_of_ok run_get, bind_of_ok (run_symbolOf known), Ending.reporting_nil,
    Ending.reporting_nil]
  split
  · refine (closes_setSymbolType orderly sound List.mem_cons_self).agrees.bind
      fun _ _ middle run kept lasts => ?_
    rw [setSymbolType, run_update known] at run
    cases run
    have typed : (store.symbols.modify id fun entry => { entry with type := some .error }).get? id =
        some { symbol with type := some .error } := by
      rw [Table.get?_modify_self, known, Option.map_some]
    exact agrees_finished kept lasts.sound typed fun _ => rfl
  · rename_i fine
    refine agrees_finished orderly sound known fun listed => absurd ?_ fine
    simp [listed]

section Rules

variable {course : Resolver.Course early late}

theorem agrees_settleUntouched (orderly : store.Orderly site.active)
    (ready : store.Ready settles .settling site) (known : store.symbols.get? id = some symbol)
    (untouched : symbol.progress = .untouched) :
    Agrees settles early late site.active store (@settleUntouched course.cut id site store)
      (@settleUntouched course.whole id site store) := by
  unfold settleUntouched
  rw [bind_of_ok (run_symbolOf known), bind_of_ok (run_symbolOf known)]
  simp only [Ending.reporting_nil]
  refine (agrees_start orderly (fun holds => (ready holds).1) known untouched).bind
    fun _ _ started run orderly lasts => ?_
  rw [run_start known untouched] at run
  cases run
  have begun := lasts.ready ready
  refine (agrees_look orderly begun).bind fun context _ middle run orderly lasts => ?_
  obtain rfl := Looks.unchanged _ _ _ _ _ run False.elim
  have located : Locates (declarationContext id) := inferInstance
  let within : Surroundings := { site with toContext := context, active := id :: site.active }
  -- An object that was untouched still has the type that it was declared with.
  have plain : settles → symbol.kind.isObject = true →
    ∀ started, (store.progressed id .active).symbols.get? id = some started →
      store.types.Plain started.typeOrError := by
    intro holds isObject started found
    rw [Store.get?_progressed known] at found
    cases found
    exact (ready holds).1.plain id symbol known (.inr ⟨untouched, isObject⟩)
  have settled : Agrees settles early late within.active (store.progressed id .active)
      (@settleByKind course.cut id symbol.kind within (store.progressed id .active))
      (@settleByKind course.whole id symbol.kind within (store.progressed id .active)) :=
    agrees_settleByKind orderly (by simp [within]) (fun holds => ⟨(begun holds).1,
      located.houses site _ (begun holds).2 _ _ _ run False.elim⟩) plain
  refine Agrees.bind settled fun _ _ settled _ orderly lasts => ?_
  have done := lasts.ready begun
  refine (agrees_finish orderly lasts.sound).bind fun _ _ finished _ orderly lasts => ?_
  have decorates : (Manner.watching course).Admits [] fun _ => applyDecorations id := inferInstance
  exact decorates.holds.agrees site finished orderly (List.nil_subset _) (lasts.ready done)

theorem cycleMembers_subset_of_settleRule {resolver : Resolver} {answer : Unit × List Diagnostic}
    {final : Store}
    (orderly : store.Orderly site.active) (isActive : store.IsActive id)
    (run : @settleRule resolver id site store = .ok answer final) :
    cycleMembers site.active id ⊆ final.cyclic := by
  obtain ⟨reports, closed, reported, _, _, _, found⟩ : Closes False site.active _ _ _ _ :=
    closes_reportCycle orderly False.elim ((orderly.mem_iff id).mpr isActive)
  obtain ⟨symbol, known, state⟩ := isActive
  unfold settleRule at run
  rw [bind_of_ok (run_symbolOf known), Ending.reporting_nil, state] at run
  cases reported.symm.trans run
  exact found

instance watched_settleRule (id : SymbolId) :
    Watched early late [] (@settleRule course.cut id) (@settleRule course.whole id) := by
  refine ⟨fun site store orderly _ ready => ?_⟩
  unfold settleRule
  refine (agrees_look orderly ready).bind fun symbol _ middle run _ _ => ?_
  obtain ⟨rfl, known⟩ := symbolOf_eq_ok run
  cases state : symbol.progress with
  | settled => exact agrees_look orderly ready
  | active =>
    exact (closes_reportCycle orderly (fun holds => (ready holds).1)
      ((orderly.mem_iff id).mpr ⟨symbol, known, state⟩)).agrees
  | untouched => exact agrees_settleUntouched orderly ready known state

end Rules

end Resolve

open Resolve

/-! ## The tower of resolvers -/

section

variable (less : ∀ moment, late moment = true → early moment = true)

include less

theorem watched_guard {α : Type} {cut whole : Resolve α} {request : Request}
    (watched : Resolve.Watched early late [] cut whole)
    (closes : ∀ (site : Surroundings) (store : Store) id, request = .settle id →
      store.Orderly site.active → store.IsActive id → ∀ answer final,
        whole site store = .ok answer final → cycleMembers site.active id ⊆ final.cyclic) :
    Resolve.Watched early late [] (early.guard request cut) (late.guard request whole) := by
  refine ⟨fun site store orderly listed ready =>
    .guard less orderly ready (watched.agrees site store orderly listed ready) ?_⟩
  intro id answer final asked isActive run
  exact closes site store id asked orderly isActive answer final run

theorem Resolver.Course.above (course : Resolver.Course early late) (fuel : Nat) :
    Resolver.Watched early late (above early fuel course.cut) (above late fuel course.whole) where
  fuel := rfl
  expression id context := watched_guard less (watched_expressionRule id context).holds
    fun _ _ _ asked => nomatch asked
  statement id := by
    have rule := @Manner.holds_statementRule _ (Manner.watching course) [] id inferInstance
    exact watched_guard less rule.holds fun _ _ _ asked => nomatch asked
  settle id := by
    refine watched_guard less (watched_settleRule id) ?_
    rintro site store id ⟨⟩ orderly isActive answer final run
    exact cycleMembers_subset_of_settleRule orderly isActive run

/-- At every level, the requests are the same under an earlier watch, up to where it cuts them off.
-/
theorem Resolver.watched_watched (fuel : Nat) :
    Resolver.Watched early late (watched early fuel) (watched late fuel) := by
  induction fuel with
  | zero =>
    have gives_up {α : Type} (request : Request) : Resolve.Watched early late []
        (early.guard request (throw .outOfFuel : Resolve α))
          (late.guard request (throw .outOfFuel)) :=
      watched_guard less (watched_of_modest inferInstance) fun _ _ _ _ _ _ _ _ run => nomatch run
    exact ⟨rfl, fun id context => gives_up _, fun id => gives_up _, fun id => gives_up _⟩
  | succ fuel ih => exact Resolver.Course.above less ⟨_, _, ih⟩ fuel

end

namespace Resolve

section Program

variable {course : Resolver.Course early late}

theorem watched_forEachSymbol {cut whole : SymbolId → Resolve Unit}
    (each : ∀ id, Watched early late [] (cut id) (whole id))
    (fuel position : Nat) :
    Watched early late [] (forEachSymbol cut fuel position) (forEachSymbol whole fuel position) :=
  by
  induction fuel generalizing position with
  | zero =>
    exact watched_of_modest (inferInstanceAs
      (Modest .settling [] (throw .outOfFuel : Resolve Unit)))
  | succ fuel ih =>
    refine watched_bind (watched_of_modest inferInstance) fun store => ?_
    split
    · exact watched_bind (each _) fun _ => ih _
    · exact watched_of_modest inferInstance

theorem watched_outerBody (symbol : SymbolId) : (Manner.watching course).Admits [] fun _ =>
    outerBody symbol := by
  unfold outerBody
  refine .after fun entry => ?_
  split <;> infer_instance

theorem watched_settleAll : Watched early late [] (@settleAll course.cut)
    (@settleAll course.whole) := by
  unfold settleAll
  simp only [course.fuel_eq]
  refine watched_bind (watched_forEachSymbol course.watched.settle _ _) fun _ => ?_
  exact watched_forEachSymbol (fun id => (watched_outerBody id).holds) _ _

/-- Declare everything, and answer the file of the built-in declarations and the type that raises
numbers to powers. -/
def declareProgram (root : NodeId) : Resolve (NodeId × Option TypeId) := do
  let prelude ← addPrelude root
  scan (← fileBlocks root)
  return (prelude, ← mathType?)

def settleProgram [Resolver] (requireEntryPoint : Bool) (root : NodeId)
    (declared : NodeId × Option TypeId) :
    Resolve NodeId := do
  withMath declared.2 settleAll
  checkEntryPoint requireEntryPoint root
  return declared.1

theorem program_eq [Resolver] (requireEntryPoint : Bool) (root : NodeId) :
    program requireEntryPoint root = declareProgram root >>= settleProgram requireEntryPoint root :=
  by
  simp only [program, declareProgram, settleProgram, bind_assoc, pure_bind]

theorem modest_declareProgram (root : NodeId) : Modest .scanning [] (declareProgram root) := by
  unfold declareProgram
  infer_instance

instance watched_settleProgram (requireEntryPoint : Bool) (root : NodeId)
    (declared : NodeId × Option TypeId) :
    Watched early late [] (@settleProgram course.cut requireEntryPoint root declared)
      (@settleProgram course.whole requireEntryPoint root declared) := by
  unfold settleProgram
  refine watched_bind (watched_withMath watched_settleAll) fun _ => ?_
  exact watched_bind (watched_of_modest inferInstance) fun _ => watched_of_modest inferInstance

theorem accords_program {requireEntryPoint : Bool} {root : NodeId}
    (orderly : store.Orderly site.active) :
    Accords early late site.active store (@program course.cut requireEntryPoint root site store)
      (@program course.whole requireEntryPoint root site store) := by
  rw [@program_eq course.cut, @program_eq course.whole]
  have declares := (modest_declareProgram root).drafts.ends site store False.elim
    (List.forall_mem_nil _)
  refine (Agrees.of_fine (fine_of_modest declares orderly False.elim)).bind
    fun declared _ middle _ orderly _ => ?_
  exact (watched_settleProgram requireEntryPoint root declared).agrees site middle orderly
    (List.nil_subset _) False.elim

end Program

end Resolve
end Resolution
