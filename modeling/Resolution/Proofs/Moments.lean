import Mathlib.Data.List.Forall2
import Resolution.Proofs.Drafting

/-!
# Moments of a run

A run answers requests for expressions, statements and symbols, one inside the other.  The moments
at which a request is taken up or has been answered are made visible by a watch, which cuts the run
off at the first moment that it looks for.  A run under a watch is the whole run, or it ended at
such a moment and the whole run goes on from there; so what holds wherever a run can be cut off
holds throughout the run.
-/

namespace Resolution

variable {α : Type} {settles : Prop}

/-- What a rule asks the resolver for. -/
inductive Request where
  | expression (id : NodeId) (context : Option TypeId)
  | statement (id : NodeId)
  | settle (id : SymbolId)

/-- A request is taken up, or it has been answered. -/
structure Moment where
  request : Request
  isEntry : Bool
  surroundings : Surroundings
  store : Store

/-- Moments that a run is to be cut off at. -/
abbrev Watch := Moment → Bool

/-- The watch that looks for nothing. -/
def Watch.never : Watch := fun _ => false

/-- Cut a run off at its end if the watch looks for that moment. -/
def Watch.atExit (watch : Watch) (request : Request) (site : Surroundings) : Ending α → Ending α
  | .ok answer final =>
    if watch ⟨request, false, site, final⟩ then .error .unmatchedExit final else .ok answer final
  | .error fault final => .error fault final

/-- Answer a request by a step, and cut the run off if the watch looks for its entry or exit. -/
def Watch.guard (watch : Watch) (request : Request) (step : Resolve α) : Resolve α where
  run session :=
    if watch ⟨request, true, session.site, session.store⟩ then .error .unmatchedExit session
    else
      match step.run session with
      | .ok answer later =>
        if watch ⟨request, false, session.site, later.store⟩ then .error .unmatchedExit later
          else .ok answer later
      | .error fault later => .error fault later
  view site store :=
    if watch ⟨request, true, site, store⟩ then .error .unmatchedExit store
    else watch.atExit request site (step site store)
  follows session := by
    have follows := step.follows session
    generalize step.view session.site session.store = effect, step.run session = ran at follows ⊢
    split
    · exact .error .unmatchedExit session
    · cases follows with
      | error fault later => exact .error fault later
      | ok reaches =>
        simp only [atExit, reaches.store]
        split
        · exact reaches.store ▸ .error .unmatchedExit _
        · exact .ok reaches

theorem Watch.never_guard (request : Request) (step : Resolve α) :
    never.guard request step = step := by
  refine Resolve.ext (funext fun session => ?_) (funext fun site => funext fun store => ?_)
  · change (match step.run session with | .ok answer later => _ | .error fault later => _) = _
    cases step.run session with
    | ok answer later => rfl
    | error fault later => rfl
  · change never.atExit request site (step site store) = _
    cases step site store with
    | ok answer final => rfl
    | error fault final => rfl

/-- The rules over a resolver, with a watch over every request. -/
@[reducible] def Resolver.above (watch : Watch) (fuel : Nat) (resolver : Resolver) : Resolver where
  fuel := fuel
  expression id context := watch.guard (.expression id context) (Resolve.expressionRule id context)
  statement id := watch.guard (.statement id) (Resolve.statementRule id)
  settle id := watch.guard (.settle id) (Resolve.settleRule id)

/-- The rules, tied together for a number of levels, with a watch over every request. -/
@[reducible] def Resolver.watched (watch : Watch) : Nat → Resolver
  | 0 =>
    { fuel := 0
      expression := fun id context => watch.guard (.expression id context) (throw .outOfFuel)
      statement := fun id => watch.guard (.statement id) (throw .outOfFuel)
      settle := fun id => watch.guard (.settle id) (throw .outOfFuel) }
  | fuel + 1 => above watch fuel (watched watch fuel)

theorem Resolver.watched_never (fuel : Nat) : watched .never fuel = within fuel := by
  induction fuel with
  | zero => simp only [watched, within, Watch.never_guard]
  | succ fuel ih =>
    rw [watched, ih, within, above]
    simp only [Watch.never_guard]

/-! ## Order -/

/-- The symbol is being settled. -/
def Store.IsActive (store : Store) (id : SymbolId) : Prop :=
  ∃ symbol, store.symbols.get? id = some symbol ∧ symbol.progress = .active

/-- The active symbols are those of a list, which has none of them twice. -/
structure Store.Orderly (store : Store) (active : List SymbolId) : Prop where
  nodup : active.Nodup
  mem_iff : ∀ id, id ∈ active ↔ store.IsActive id

/-- The symbols that are being settled are the active ones, each once. -/
def Moment.Orderly (moment : Moment) : Prop := moment.store.Orderly moment.surroundings.active

/-- A symbol is asked for while it is active. -/
def Moment.Meets (moment : Moment) (id : SymbolId) : Prop :=
  moment.isEntry = true ∧ moment.request = .settle id ∧ moment.store.IsActive id

/-- A diagnostic says of a symbol that it is on a cycle. -/
def Store.Blames (store : Store) (diagnostic : Diagnostic) (id : SymbolId) : Prop :=
  ∃ symbol, store.symbols.get? id = some symbol ∧
    diagnostic.message = s!"`{symbol.name}` depends on itself" ∧
    diagnostic.primarySpan? = some symbol.span

/-- Each symbol that was found on a cycle was not known to be on one, and was reported once. -/
def Store.Accounts (before : Store) (reports : List Diagnostic) (after : Store) : Prop :=
  ∃ added, after.cyclic = added ++ before.cyclic ∧ added.Nodup ∧
    (∀ id ∈ added, id ∉ before.cyclic) ∧
    List.Forall₂ after.Blames (reports.filter fun diagnostic => diagnostic.code.isCycle)
      added.reverse

section Order

variable {before middle after : Store} {active : List SymbolId} {id : SymbolId}
  {reports : List Diagnostic}

theorem Store.Orderly.keeps {phase : Phase} (orderly : before.Orderly active)
    (keeps : before.Keeps phase after) :
    after.Orderly active where
  nodup := orderly.nodup
  mem_iff id := by
    rw [orderly.mem_iff]
    constructor
    · rintro ⟨symbol, known, isActive⟩
      obtain ⟨later, found, kept⟩ := keeps.symbol id symbol known
      exact ⟨later, found, kept.progress.trans isActive⟩
    · rintro ⟨later, found, isActive⟩
      cases known : before.symbols.get? id with
      | none =>
        rw [keeps.fresh id later found known] at isActive
        cases isActive
      | some symbol =>
        obtain ⟨same, again, kept⟩ := keeps.symbol id symbol known
        cases found.symm.trans again
        exact ⟨symbol, known, kept.progress.symm.trans isActive⟩

theorem Store.Orderly.isOpen (orderly : before.Orderly active) (isActive : id ∈ active)
    (phase : Phase) :
    before.Open phase id := by
  obtain ⟨symbol, known, state⟩ := (orderly.mem_iff id).mp isActive
  refine ⟨symbol, known, by rw [state]; exact nofun, fun _ untouched => ?_⟩
  cases state.symm.trans untouched

theorem Store.Blames.advances {diagnostic : Diagnostic} (blames : before.Blames diagnostic id)
    (advances : before.Advances after) : after.Blames diagnostic id := by
  obtain ⟨symbol, known, message, place⟩ := blames
  obtain ⟨later, found, advanced⟩ := advances.symbol id symbol known
  exact ⟨later, found, advanced.name ▸ message, advanced.span ▸ place⟩

theorem Store.Accounts.of_ordinary (same : after.cyclic = before.cyclic)
    (ordinary : ∀ diagnostic ∈ reports, diagnostic.Ordinary) : before.Accounts reports after := by
  refine ⟨[], same, List.nodup_nil, nofun, ?_⟩
  rw [List.filter_eq_nil_iff.mpr fun diagnostic listed =>
    by rw [(ordinary diagnostic listed).not_cycle]; exact nofun]
  exact .nil

theorem Store.Accounts.trans {more : List Diagnostic} (one : before.Accounts reports middle)
    (two : middle.Accounts more after) (advances : middle.Advances after) :
    before.Accounts (reports ++ more) after := by
  obtain ⟨first, grown, distinct, new, blamed⟩ := one
  obtain ⟨second, grownOn, distinctOn, newOn, blamedOn⟩ := two
  refine ⟨second ++ first, by rw [grownOn, grown, List.append_assoc], ?_, ?_, ?_⟩
  · refine List.nodup_append.mpr ⟨distinctOn, distinct, ?_⟩
    rintro id listed _ known rfl
    exact newOn id listed (grown ▸ List.mem_append_left _ known)
  · intro id listed
    rcases List.mem_append.mp listed with listed | listed
    · exact fun known => newOn id listed (grown ▸ List.mem_append_right _ known)
    · exact new id listed
  · rw [List.filter_append, List.reverse_append]
    exact List.rel_append (blamed.imp fun _ _ blames => blames.advances advances) blamedOn

end Order

/-- Symbols advance; if the run `settles` what was soundly declared, the store is sound and types
are only added to. -/
structure Store.Lasts (settles : Prop) (before after : Store) :
    Prop extends before.Advances after where
  sound : settles → after.Sound .settling
  recalls : settles → before.types.Recalls after.types

theorem Store.Lasts.refl {store : Store} (sound : settles → store.Sound .settling) :
    store.Lasts settles store :=
  ⟨.refl store, sound, fun _ => .refl _⟩

theorem Store.Lasts.trans {before middle after : Store} (one : before.Lasts settles middle)
    (two : middle.Lasts settles after) : before.Lasts settles after where
  toAdvances := one.toAdvances.trans two.toAdvances
  sound := two.sound
  recalls holds := (one.recalls holds).trans (two.recalls holds)

theorem Store.Lasts.ready {before after : Store} {site : Surroundings}
    (lasts : before.Lasts settles after)
    (ready : before.Ready settles .settling site) : after.Ready settles .settling site :=
  fun holds => ⟨lasts.sound holds, lasts.toAdvances.houses (ready holds).2⟩

/-! ## Runs under two watches -/

section Watches

variable {α β : Type} {settles : Prop} {early late : Watch} {active inner : List SymbolId}
  {store : Store}
  {whole : Ending α} {site : Surroundings} {moment : Moment} {request : Request}
  {reports : List Diagnostic} {middle : Store} {cut : Resolve α}

/-- The run ended well: an answer leaves order behind and has an account of all cycles; a fault is
none of the bookkeeping, unless the run was cut off at an orderly moment. -/
def Ending.Fine (settles : Prop) (late : Watch) (active : List SymbolId) (store : Store) :
    Ending α → Prop
  | .ok (_, reports) final =>
    final.Orderly active ∧ store.Lasts settles final ∧ store.Accounts reports final
  | .error fault final =>
    store.Advances final ∧ (fault.isBookkeeping = true →
      ∃ moment, late moment = true ∧ moment.Orderly ∧ fault = .unmatchedExit ∧
        final = moment.store ∧
        store.Lasts settles final)

/-- How the whole run goes on from a moment: symbols advance, and if a symbol was met on a cycle,
every symbol from it to the innermost one is found on a cycle. -/
def Moment.LeadsTo (settles : Prop) (moment : Moment) : Ending α → Prop
  | .ok _ final => moment.store.Lasts settles final ∧
      ∀ id, moment.Meets id → cycleMembers moment.surroundings.active id ⊆ final.cyclic
  | .error fault final => moment.store.Advances final ∧
      (fault.isBookkeeping = true → moment.store.Lasts settles final)

/-- The run under the earlier watch is the run under the later one, or it was cut off at an orderly
moment from which the other one goes on. -/
def Agrees (settles : Prop) (early late : Watch) (active : List SymbolId) (store : Store)
    (cut whole : Ending α) : Prop :=
  whole.Fine settles late active store ∧
    (cut = whole ∨ ∃ moment, early moment = true ∧ moment.Orderly ∧
      cut = .error .unmatchedExit moment.store ∧
      moment.LeadsTo settles whole)

/-- The runs agree, whatever they start from. -/
abbrev Accords (early late : Watch) (active : List SymbolId) (store : Store)
    (cut whole : Ending α) : Prop :=
  Agrees False early late active store cut whole

theorem Agrees.returns {step : Resolve α} {cut : Ending α}
    (agrees : Agrees settles early late active store cut (step site store)) :
    Resolve.Returns step site store fun _ after => after.Orderly active ∧
    store.Lasts settles after := by
  intro answer reports final run _
  obtain ⟨fine, _⟩ := agrees
  rw [run] at fine
  exact ⟨fine.1, fine.2.1⟩

theorem Agrees.of_fine (fine : whole.Fine settles late active store) :
    Agrees settles early late active store whole whole :=
  ⟨fine, .inl rfl⟩

theorem Moment.LeadsTo.advances (leads : moment.LeadsTo settles whole) :
    moment.store.Advances whole.final := by
  cases whole with
  | ok answer final => exact leads.1.toAdvances
  | error fault final => exact leads.1

theorem Moment.LeadsTo.reporting
    (leads : moment.LeadsTo settles whole) : moment.LeadsTo settles (whole.reporting reports) := by
  cases whole with
  | ok answer final => exact leads
  | error fault final => exact leads

/-- A moment before a fine run leads to where the run leads. -/
theorem Moment.LeadsTo.after (lasts : moment.store.Lasts settles middle)
    (met : ∀ id, moment.Meets id → cycleMembers moment.surroundings.active id ⊆ middle.cyclic)
    (fine : whole.Fine settles late active middle) : moment.LeadsTo settles whole := by
  cases whole with
  | ok answer final =>
    obtain ⟨_, further, _⟩ := fine
    exact ⟨lasts.trans further, fun id meets =>
      List.Subset.trans (met id meets) further.cyclic.subset⟩
  | error fault final =>
    refine ⟨lasts.toAdvances.trans fine.1, fun bookkeeping => ?_⟩
    obtain ⟨_, _, _, _, _, further⟩ := fine.2 bookkeeping
    exact lasts.trans further

/-- What comes first advances the store for what comes next. -/
theorem Ending.Fine.after {reports : List Diagnostic}
    (lasts : store.Lasts settles middle) (accounts : store.Accounts reports middle)
    (fine : whole.Fine settles late active middle) :
    (whole.reporting reports).Fine settles late active store := by
  cases whole with
  | ok answer final =>
    obtain ⟨orderly, further, accountsOn⟩ := fine
    exact ⟨orderly, lasts.trans further, accounts.trans accountsOn further.toAdvances⟩
  | error fault final =>
    obtain ⟨further, bookkeeping⟩ := fine
    refine ⟨lasts.toAdvances.trans further, fun isBookkeeping => ?_⟩
    obtain ⟨moment, looked, orderly, cut, same, lastsOn⟩ := bookkeeping isBookkeeping
    exact ⟨moment, looked, orderly, cut, same, lasts.trans lastsOn⟩

/-- Runs agree if their first parts do and, wherever those return, their last parts. -/
theorem Agrees.bind {whole : Resolve α} {cutNext wholeNext : α → Resolve β}
    (first : Agrees settles early late inner store (cut site store) (whole site store))
    (rest : ∀ value reports middle, whole site store = .ok (value, reports) middle →
      middle.Orderly inner →
      store.Lasts settles middle → Agrees settles early late active middle
      (cutNext value site middle)
          (wholeNext value site middle)) :
    Agrees settles early late active store ((cut >>= cutNext) site store)
      ((whole >>= wholeNext) site store) := by
  obtain ⟨fine, continued⟩ := first
  cases run : whole site store with
  | error fault final =>
    rw [run] at fine continued
    rw [Resolve.bind_of_error run]
    refine ⟨fine, ?_⟩
    rcases continued with same | ⟨moment, looked, orderly, ended, leads⟩
    · exact .inl (Resolve.bind_of_error same)
    · exact .inr ⟨moment, looked, orderly, Resolve.bind_of_error ended, leads⟩
  | ok answer middle =>
    obtain ⟨value, reports⟩ := answer
    rw [run] at fine continued
    obtain ⟨orderly, advances, accounts⟩ := fine
    obtain ⟨fineRest, continuedRest⟩ := rest value reports middle run orderly advances
    rw [Resolve.bind_of_ok run]
    refine ⟨fineRest.after advances accounts, ?_⟩
    rcases continued with same | ⟨moment, looked, isOrderly, ended, leads, met⟩
    · rw [Resolve.bind_of_ok same]
      rcases continuedRest with sameRest | ⟨moment, looked, isOrderly, ended, leads⟩
      · exact .inl (by rw [sameRest])
      · exact .inr ⟨moment, looked, isOrderly, by rw [ended]; rfl, leads.reporting⟩
    · exact .inr ⟨moment, looked, isOrderly, Resolve.bind_of_error ended,
        .reporting (.after leads met fineRest)⟩

theorem Ending.Fine.atExit (fine : whole.Fine settles late site.active store) :
    (late.atExit request site whole).Fine settles late site.active store := by
  cases whole with
  | error fault final => exact fine
  | ok answer final =>
    unfold Watch.atExit
    dsimp only
    split
    · rename_i looked
      exact ⟨fine.2.1.toAdvances, fun _ => ⟨_, looked, fine.1, rfl, rfl, fine.2.1⟩⟩
    · exact fine

theorem Moment.LeadsTo.atExit
    (leads : moment.LeadsTo settles whole) :
    moment.LeadsTo settles (late.atExit request site whole) := by
  cases whole with
  | error fault final => exact leads
  | ok answer final =>
    unfold Watch.atExit
    dsimp only
    split
    · exact ⟨leads.1.toAdvances, fun _ => leads.1⟩
    · exact leads

/-- At the exit of a request, the earlier watch may cut off what the later one lets go on. -/
theorem Agrees.atExit {cut : Ending α} (less : ∀ moment, late moment = true → early moment = true)
    (agrees : Agrees settles early late site.active store cut whole) :
    Agrees settles early late site.active store (early.atExit request site cut)
      (late.atExit request site whole) := by
  obtain ⟨fine, same | ⟨moment, looked, isOrderly, ended, leads⟩⟩ := agrees
  · refine ⟨fine.atExit, ?_⟩
    rw [same]
    cases whole with
    | error fault final => exact .inl rfl
    | ok answer final =>
      unfold Watch.atExit
      dsimp only
      by_cases later : late ⟨request, false, site, final⟩ = true
      · exact .inl (by rw [if_pos later, if_pos (less _ later)])
      rw [if_neg later]
      split
      · rename_i looked
        refine .inr ⟨_, looked, fine.1, rfl, .refl fine.2.1.sound, ?_⟩
        rintro id ⟨atEntry, _⟩
        cases atEntry
      · exact .inl rfl
  · exact ⟨fine.atExit, .inr ⟨moment, looked, isOrderly, by rw [ended]; rfl, leads.atExit⟩⟩

/-- Requests that are answered alike are alike under watches that look for them, if the later watch
looks for less, and if every symbol on a cycle is found where one is met. -/
theorem Agrees.guard {whole : Resolve α}
    (less : ∀ moment, late moment = true → early moment = true)
    (orderly : store.Orderly site.active)
    (ready : store.Ready settles .settling site)
    (agrees : Agrees settles early late site.active store (cut site store) (whole site store))
    (closes : ∀ id answer final, request = .settle id → store.IsActive id →
      whole site store = .ok answer final →
      cycleMembers site.active id ⊆ final.cyclic) :
    Agrees settles early late site.active store (early.guard request cut site store)
      (late.guard request whole site store) := by
  have entry : Moment.Orderly ⟨request, true, site, store⟩ := orderly
  unfold Watch.guard
  dsimp only
  by_cases later : late ⟨request, true, site, store⟩ = true
  · rw [if_pos later, if_pos (less _ later)]
    exact .of_fine ⟨.refl store, fun _ => ⟨_, later, entry, rfl, rfl, .refl fun holds =>
      (ready holds).1⟩⟩
  rw [if_neg later]
  split
  · rename_i looked
    obtain ⟨fine, _⟩ := agrees
    refine ⟨fine.atExit, .inr ⟨_, looked, entry, rfl, .atExit ?_⟩⟩
    cases run : whole site store with
    | error fault final =>
      rw [run] at fine
      refine ⟨fine.1, fun bookkeeping => ?_⟩
      obtain ⟨_, _, _, _, _, lasts⟩ := fine.2 bookkeeping
      exact lasts
    | ok answer final =>
      rw [run] at fine
      refine ⟨fine.2.1, ?_⟩
      rintro id ⟨_, asked, isActive⟩
      exact closes id answer final asked isActive run
  · exact agrees.atExit less

end Watches

/-! ## Watched steps -/

/-- The step of a rule under the later watch, and the same step under the earlier one; the symbols
of `own` are being settled. -/
class Resolve.Watched {α : Type} (early late : Watch) (own : List SymbolId)
    (cut whole : Resolve α) : Prop where
  agrees : ∀ {settles : Prop} site store, store.Orderly site.active → own ⊆ site.active →
    store.Ready settles .settling site →
      Agrees settles early late site.active store (cut site store) (whole site store)

/-- The requests of one resolver are those of another one under an earlier watch. -/
structure Resolver.Watched (early late : Watch) (cut whole : Resolver) : Prop where
  fuel : cut.fuel = whole.fuel
  expression : ∀ id context, Resolve.Watched early late [] (cut.expression id context)
    (whole.expression id context)
  statement : ∀ id, Resolve.Watched early late [] (cut.statement id) (whole.statement id)
  settle : ∀ id, Resolve.Watched early late [] (cut.settle id) (whole.settle id)

/-- Two resolvers that take the same course, up to where the earlier watch cuts it off. -/
structure Resolver.Course (early late : Watch) where
  cut : Resolver
  whole : Resolver
  /-- The requests are the same. -/
  watched : Resolver.Watched early late cut whole

theorem Resolver.Course.fuel_eq {early late : Watch} (course : Resolver.Course early late) :
    course.cut.fuel = course.whole.fuel :=
  course.watched.fuel

namespace Resolve

variable {α β : Type} {settles : Prop} {early late : Watch} {own active : List SymbolId}
  {store : Store}
  {site : Surroundings} {cut whole step : Resolve α}

theorem Watched.weaken (watched : Watched early late [] cut whole) :
    Watched early late own cut whole :=
  ⟨fun site store orderly _ => watched.agrees site store orderly (List.nil_subset _)⟩

theorem fine_of_modest {phase : Phase} {ending : Ending α}
    (modest : ending.Modest settles phase (fun _ => []) store) (orderly : store.Orderly active)
    (sound : settles → phase = .settling ∧ store.Sound .settling) :
    ending.Fine settles late active store := by
  cases ending with
  | ok answer final =>
    obtain ⟨keeps, sustains, _, ordinary⟩ := modest
    refine ⟨orderly.keeps keeps, ⟨keeps.advances, fun holds => ?_, fun holds => ?_⟩,
      .of_ordinary keeps.cyclic ordinary⟩
    · obtain ⟨rfl, isSound⟩ := sound holds
      exact (sustains holds isSound).1
    · obtain ⟨rfl, isSound⟩ := sound holds
      exact (sustains holds isSound).2 rfl
  | error fault final =>
    obtain ⟨keeps, isMild⟩ := modest
    refine ⟨keeps.advances, fun bookkeeping => ?_⟩
    cases isMild.symm.trans bookkeeping

theorem agrees_of_ending (modest : Ending.Modest settles .settling (fun _ => []) store
    (step site store))
    (orderly : store.Orderly active) (ready : store.Ready settles .settling site) :
    Agrees settles early late active store (step site store) (step site store) :=
  .of_fine (fine_of_modest modest orderly fun holds => ⟨rfl, (ready holds).1⟩)

/-- A modest step runs the same under all watches. -/
theorem agrees_of_modest (modest : Modest .settling own step) (orderly : store.Orderly active)
    (listed : own ⊆ active)
    (ready : store.Ready settles .settling site) :
    Agrees settles early late active store (step site store) (step site store) := by
  refine agrees_of_ending (modest.drafts.ends site store ready fun id inside => ?_) orderly ready
  exact orderly.isOpen (listed inside) .settling

theorem agrees_look [looks : Looks step] (orderly : store.Orderly active)
    (ready : store.Ready settles .settling site) :
    Agrees settles early late active store (step site store) (step site store) :=
  agrees_of_modest (show Modest .settling [] step from inferInstance) orderly
    (List.nil_subset _) ready

/-- A change of types that is a step of settling, if the run settles what was soundly declared. -/
theorem agrees_onTypes {action : Action Types α} [mild : action.Mild]
    (orderly : store.Orderly active)
    (sound : settles → store.Sound .settling)
    (steps : settles → action.Ensures store.types fun _ =>
      store.types.Steps .settling store.symbols.size) :
    Agrees settles early late active store (onTypes action site store)
    (onTypes action site store) := by
  have keeps (types : Types) : store.Keeps .settling { store with types } := .of_eq rfl rfl
  refine .of_fine ?_
  cases run : action store.types with
  | ok value changed =>
    simp only [onTypes, act, Reporting.silent, Action.zoom, run]
    refine ⟨orderly.keeps (keeps changed), ⟨(keeps changed).advances, fun holds => ?_, fun holds =>
      ?_⟩,
      .of_ordinary rfl (List.forall_mem_nil _)⟩
    · exact (sound holds).types rfl (steps holds value changed run)
    · exact ((steps holds value changed run).grows rfl).recalls
  | error fault changed =>
    simp only [onTypes, act, Reporting.silent, Action.zoom, run]
    refine ⟨(keeps changed).advances, fun bookkeeping => ?_⟩
    rw [mild.mild _ _ _ run] at bookkeeping
    cases bookkeeping

theorem watched_of_modest (modest : Modest .settling own step) : Watched early late own step step :=
  ⟨fun _ _ orderly listed ready => agrees_of_modest modest orderly listed ready⟩

theorem watched_bind {cutNext wholeNext : α → Resolve β} (first : Watched early late own cut whole)
    (rest : ∀ value, Watched early late own (cutNext value) (wholeNext value)) :
    Watched early late own (cut >>= cutNext) (whole >>= wholeNext) :=
  ⟨fun site store orderly listed ready =>
    (first.agrees site store orderly listed ready).bind fun value _ middle _ kept lasts =>
      (rest value).agrees site middle kept listed (lasts.ready ready)⟩

theorem watched_forM {cut whole : α → Resolve PUnit} {items : List α}
    (each : ∀ item, Watched early late own (cut item) (whole item)) :
    Watched early late own (items.forM cut) (items.forM whole) := by
  induction items with
  | nil => exact watched_of_modest (inferInstanceAs (Modest .settling own (pure PUnit.unit)))
  | cons item rest ih => exact watched_bind (each item) fun _ => ih

/-- Another context does not matter as long as the function around is the same. -/
theorem watched_withContext {change : Context → Context}
    (function : ∀ context, (change context).function = context.function)
    (watched : Watched early late own cut whole) :
    Watched early late own (withContext change cut) (withContext change whole) := by
  refine ⟨fun {settles} site store orderly listed ready => ?_⟩
  have agrees := @watched.agrees settles { site with toContext := change site.toContext } store
  rw [Store.Ready, function] at agrees
  exact agrees orderly listed ready

theorem watched_withMath {math : Option TypeId} (watched : Watched early late own cut whole) :
    Watched early late own (withMath math cut) (withMath math whole) :=
  ⟨fun site store => watched.agrees { site with math } store⟩

theorem watched_deeper {cutRefused wholeRefused : Resolve α}
    (first : Watched early late own cutRefused wholeRefused)
    (second : Watched early late own cut whole) :
    Watched early late own (deeper cutRefused cut) (deeper wholeRefused whole) := by
  refine ⟨fun site store orderly listed sound => ?_⟩
  unfold deeper
  dsimp only
  split
  · exact second.agrees { site with depth := site.depth + 1 } store orderly listed sound
  · exact first.agrees site store orderly listed sound

end Resolve
end Resolution
