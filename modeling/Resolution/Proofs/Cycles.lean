import Resolution.Proofs.Completion
import Resolution.Proofs.WatchedRun

/-!
# Order and cycles

Wherever a request is taken up or has been answered, the active symbols are on the stack, each once;
symbols only make progress, and the checks that guard this never fail.  Where an active symbol is
asked for, every symbol from it to the innermost one is on a cycle; each of them is reported once
and ends with the error type.
-/

namespace Resolution

variable {fault : Fault} {moment : Moment}

/-- The resolution of a program under a watch. -/
def runUnder (watch : Watch) (fuel : Nat) (options : Options) (source : Source) (root : NodeId) :
    Ending NodeId :=
  @Resolve.program (Resolver.watched watch fuel) options.requireEntryPoint root
    { maxDepth := options.maxDepth, folds := options.folds } (.initial source)

open Classical in
/-- The watch that looks for a single moment. -/
noncomputable def Watch.only (moment : Moment) : Watch := fun other => decide (other = moment)

/-- A moment occurs in the resolution of a program: a watch for it makes a difference. -/
def Moment.Occurs (moment : Moment) (fuel : Nat) (options : Options) (source : Source)
    (root : NodeId) : Prop :=
  runUnder (.only moment) fuel options source root ≠ runUnder .never fuel options source root

variable {fuel : Nat} {options : Options} {source : Source} {root : NodeId} {early late : Watch}

theorem Watch.never_less (watch : Watch) : ∀ moment, Watch.never moment = true →
    watch moment = true := by
  intro moment looked
  cases looked

theorem Store.orderly_initial (source : Source) : (Store.initial source).Orderly [] where
  nodup := List.nodup_nil
  mem_iff id := by
    refine iff_of_false nofun ?_
    rintro ⟨symbol, known, _⟩
    cases known

/-- The run under an earlier watch is the run under a later one, up to where it is cut off. -/
theorem accords_runUnder (fuel : Nat) (options : Options) (source : Source) (root : NodeId)
    (less : ∀ moment, late moment = true → early moment = true) :
    Accords early late [] (.initial source) (runUnder early fuel options source root)
      (runUnder late fuel options source root) := by
  let course : Resolver.Course early late := ⟨_, _, Resolver.watched_watched less fuel⟩
  let site : Surroundings := { maxDepth := options.maxDepth, folds := options.folds }
  have orderly : (Store.initial source).Orderly site.active := Store.orderly_initial source
  have agrees : Accords early late site.active (.initial source)
      (@Resolve.program course.cut options.requireEntryPoint root site (.initial source))
      (@Resolve.program course.whole options.requireEntryPoint root site (.initial source)) :=
    Resolve.accords_program orderly
  exact agrees

theorem runUnder_never (fuel : Nat) (options : Options) (source : Source) (root : NodeId) :
    runUnder .never fuel options source root = effectOf fuel options source root := by
  unfold runUnder
  rw [Resolver.watched_never]
  rfl

theorem resolve_eq_ok {outcome : Outcome} (resolved : resolve fuel options source root =
    .ok outcome) :
    ∃ reports, runUnder .never fuel options source root = .ok (outcome.prelude, reports)
    outcome.toStore := by
  obtain ⟨reports, run, -⟩ := resolve_eq_ok_iff.mp resolved
  exact ⟨reports, (runUnder_never ..).trans run⟩

theorem resolve_eq_error (resolved : resolve fuel options source root = .error fault) :
    ∃ final, runUnder .never fuel options source root = .error fault final := by
  obtain ⟨final, run⟩ := resolve_eq_error_iff.mp resolved
  exact ⟨final, (runUnder_never ..).trans run⟩

/-- A watch for a moment that occurs cuts the run off there, and the whole run goes on from it. -/
theorem Moment.Occurs.cuts (occurs : moment.Occurs fuel options source root) :
    moment.Orderly ∧
      runUnder (.only moment) fuel options source root = .error .unmatchedExit moment.store ∧
      moment.LeadsTo False (runUnder .never fuel options source root) := by
  obtain ⟨_, same | ⟨other, looked, orderly, ended, leads⟩⟩ :
    Accords (.only moment) .never [] (.initial source) _ _ :=
    accords_runUnder fuel options source root (Watch.never_less _)
  · exact absurd same occurs
  · obtain rfl : other = moment := by simpa [Watch.only] using looked
    exact ⟨orderly, ended, leads⟩

/-- A symbol that is met is on the stack. -/
theorem Moment.Meets.mem_active {id : SymbolId} (meets : moment.Meets id)
    (orderly : moment.Orderly) :
    id ∈ moment.surroundings.active :=
  (orderly.mem_iff id).mpr meets.2.2

/-- A run that is cut off earlier has brought every symbol at most as far. -/
theorem stage_runUnder_le (less : ∀ moment, late moment = true → early moment = true)
    (id : SymbolId) :
    (runUnder early fuel options source root).final.stage id ≤
      (runUnder late fuel options source root).final.stage id := by
  obtain ⟨_, same | ⟨moment, _, _, ended, leads⟩⟩ := accords_runUnder fuel options source root less
  · rw [same]
  · rw [ended]
    exact leads.advances.stage_le id

/-- The checks of the bookkeeping do not fail. -/
theorem not_isBookkeeping_of_resolve (resolved : resolve fuel options source root = .error fault) :
    fault.isBookkeeping = false := by
  obtain ⟨final, run⟩ := resolve_eq_error resolved
  obtain ⟨fine, _⟩ : Accords .never .never [] (.initial source) _ _ :=
    accords_runUnder fuel options source root (Watch.never_less _)
  rw [run] at fine
  refine Bool.eq_false_iff.mpr fun bookkeeping => ?_
  obtain ⟨_, looked, _⟩ := fine.2 bookkeeping
  cases looked

/-! ## Moments of the session -/

/-- The session is cut off at the moment: the watch, which looks at the place and the store of the
session itself, ends its run. -/
def Moment.Interrupts (moment : Moment) (fuel : Nat) (options : Options) (source : Source)
    (root : NodeId) : Prop :=
  ∃ later, (@Resolve.program (Resolver.watched (.only moment) fuel) options.requireEntryPoint
    root).run (options.session source) = .error .unmatchedExit later ∧ later.store = moment.store

/-- The moments that occur are those at which the session can be cut off. -/
theorem Moment.occurs_iff_interrupts :
    moment.Occurs fuel options source root ↔ moment.Interrupts fuel options source root := by
  let step := @Resolve.program (Resolver.watched (.only moment) fuel) options.requireEntryPoint root
  have follows : (options.session source).Follows
      (runUnder (.only moment) fuel options source root) (step.run (options.session source)) :=
    step.follows _
  constructor
  · intro occurs
    obtain ⟨_, ended, _⟩ := occurs.cuts
    unfold Interrupts
    rw [ended] at follows
    generalize Resolve.run _ _ = ran at follows ⊢
    generalize moment.store = store at follows ⊢
    cases follows with
    | error fault later => exact ⟨later, rfl, rfl⟩
  · rintro ⟨later, ran, _⟩ same
    rw [ran, same, runUnder_never] at follows
    generalize effect : effectOf fuel options source root = ended at follows
    cases follows with
    | error fault later =>
      cases not_isBookkeeping_of_resolve (resolve_eq_error_iff.mpr ⟨_, effect⟩)

/-! ## Restored surroundings -/

/-- Where a step returns, the session has its stack, context and depth back, and the symbols on the
stack are the active ones again. -/
def Resolve.Restores {α : Type} (step : Resolve α) : Prop :=
  ∀ (session : Session) (answer : α) (later : Session), session.store.Orderly session.site.active →
    step.run session = .ok answer later → later.site = session.site ∧
      later.store.Orderly later.site.active

theorem Resolve.Watched.restores {α : Type} {step : Resolve α}
    (watched : Watched .never .never [] step step) :
    Restores step := by
  intro session answer later orderly run
  have follows := step.follows session
  rw [run] at follows
  generalize effect : step session.site session.store = ended at follows
  cases follows with
  | ok reached =>
    obtain ⟨fine, _⟩ : Accords .never .never session.site.active session.store _ _ :=
      watched.agrees session.site session.store orderly (List.nil_subset _) False.elim
    rw [effect] at fine
    rw [reached.store, reached.site]
    exact ⟨rfl, fine.1⟩

/-- The resolver of a level, with nothing to look for. -/
def Resolver.Course.within (fuel : Nat) : Resolver.Course .never .never where
  cut := Resolver.within fuel
  whole := Resolver.within fuel
  watched := Resolver.watched_never fuel ▸ Resolver.watched_watched (Watch.never_less _) fuel

theorem restores_functionBody (fuel : Nat) (function : SymbolId) :
    Resolve.Restores (@Resolve.functionBody (Resolver.within fuel) function) := by
  have watched : (Manner.watching (.within fuel)).Admits [] fun _ =>
    Resolve.functionBody function := inferInstance
  exact watched.holds.restores

/-! ## Settling -/

/-- Settling is orderly.  At every moment at which the session can be cut off the stack holds the
active symbols, each once, so that an active symbol that is asked for is found on it; symbols only
make progress; the checks that guard this do not fail; and every answer leaves the stack, the
context and the depth of the session as they were. -/
theorem settling_is_orderly (fuel : Nat) (options : Options) (source : Source) (root : NodeId) :
    (∀ moment : Moment,
      (moment.Occurs fuel options source root ↔ moment.Interrupts fuel options source root) ∧
      (moment.Occurs fuel options source root → moment.Orderly ∧
        ∀ id, moment.Meets id → id ∈ cycleMembers moment.surroundings.active id)) ∧
    (∀ early late : Watch, (∀ moment, late moment = true → early moment = true) → ∀ id,
      (runUnder early fuel options source root).final.stage id ≤
        (runUnder late fuel options source root).final.stage id) ∧
    (∀ fault, resolve fuel options source root = .error fault → fault.isBookkeeping = false) ∧
    (∀ id, Resolve.Restores ((Resolver.within fuel).settle id)) ∧
    (∀ id context, Resolve.Restores ((Resolver.within fuel).expression id context)) ∧
    (∀ id, Resolve.Restores ((Resolver.within fuel).statement id)) ∧
    ∀ function, Resolve.Restores (@Resolve.functionBody (Resolver.within fuel) function) := by
  have watched := (Resolver.Course.within fuel).watched
  refine ⟨fun moment => ⟨Moment.occurs_iff_interrupts, fun occurs => ?_⟩,
    fun early late less => stage_runUnder_le less, fun fault => not_isBookkeeping_of_resolve,
    fun id => (watched.settle id).restores,
    fun id context => (watched.expression id context).restores,
    fun id => (watched.statement id).restores, restores_functionBody fuel⟩
  obtain ⟨orderly, _⟩ := occurs.cuts
  exact ⟨orderly, fun id meets => self_mem_cycleMembers (meets.mem_active orderly)⟩

/-- Where an active symbol is asked for, it and every symbol inside of it are on a cycle; every
symbol on a cycle is reported once, and it ends settled, with the error type. -/
theorem cycles_are_reported {outcome : Outcome} (resolved : resolve fuel options source root =
    .ok outcome) :
    ∃ reports, runUnder .never fuel options source root = .ok (outcome.prelude, reports)
    outcome.toStore ∧
      (∀ (moment : Moment) (id : SymbolId), moment.Occurs fuel options source root →
        moment.Meets id →
        ∃ inner outer, moment.surroundings.active = inner ++ id :: outer ∧ ∀ other ∈ id :: inner,
        other ∈ outcome.cyclic) ∧
      outcome.cyclic.Nodup ∧
      List.Forall₂ outcome.Blames (reports.filter fun diagnostic => diagnostic.code.isCycle)
      outcome.cyclic.reverse ∧
      ∀ id ∈ outcome.cyclic, ∃ symbol, outcome.symbols.get? id = some symbol ∧
      symbol.progress = .settled ∧
        symbol.type = some .error := by
  obtain ⟨reports, run⟩ := resolve_eq_ok resolved
  obtain ⟨⟨orderly, advances, added, grown, distinct, _, blamed⟩, _⟩ :
    Accords .never .never [] (.initial source) _ _ :=
    run ▸ accords_runUnder fuel options source root (Watch.never_less _)
  obtain rfl : outcome.cyclic = added := by simpa [Store.initial] using grown
  refine ⟨reports, run, fun moment id occurs meets => ?_, distinct, blamed, fun id listed => ?_⟩
  · obtain ⟨isOrderly, _, leads⟩ := occurs.cuts
    rw [run] at leads
    obtain ⟨inner, outer, split⟩ := List.append_of_mem (meets.mem_active isOrderly)
    refine ⟨inner, outer, split, fun other listed => leads.2 id meets ?_⟩
    rw [split, cycleMembers_append (split ▸ isOrderly.nodup)]
    simpa using listed
  · rcases advances.marks id listed with before | ⟨symbol, known, isActive | settled⟩
    · cases before
    · exact absurd ((orderly.mem_iff id).mpr ⟨symbol, known, isActive⟩) List.not_mem_nil
    · exact ⟨symbol, known, settled⟩

theorem cycles_of_sample : ∃ outcome reports, resolve 60 {} Sample.program.1 Sample.program.2 =
    .ok outcome ∧
    runUnder .never 60 {} Sample.program.1 Sample.program.2 = .ok (outcome.prelude, reports)
    outcome.toStore ∧
      outcome.cyclic = [⟨11⟩, ⟨10⟩] ∧
      (reports.filter fun diagnostic => diagnostic.code.isCycle).length = 2 ∧
      ∃ symbol, outcome.symbols.get? ⟨10⟩ = some symbol ∧ symbol.progress = .settled ∧
      symbol.type = some .error := by
  obtain ⟨outcome, resolved, described⟩ := Sample.resolved
  have cyclic : outcome.cyclic = [⟨11⟩, ⟨10⟩] := by
    simp only [Sample.describes, Bool.and_eq_true, beq_iff_eq] at described
    exact described.2
  obtain ⟨reports, run, _, _, blamed, settled⟩ := cycles_are_reported resolved
  refine ⟨outcome, reports, resolved, run, cyclic, ?_, settled ⟨10⟩ (by simp [cyclic])⟩
  rw [blamed.length_eq, List.length_reverse, cyclic]
  rfl

end Resolution
