import Resolution.Proofs.Completion

/-!
# Reports leave the resolution alone

The queue and the option to warn about unused values are part of the session, and every report is
pushed at the moment it is made.  Each step was shown to have an effect on the store that neither of
them enters (`Resolve.follows`), so two runs that differ in them do the same to the store and make
the same reports, and what is left is how two queues differ that are given the same reports.
-/

namespace Resolution

/-- Diagnostics without those about unused values. -/
def withoutUnused (diagnostics : List Diagnostic) : List Diagnostic :=
  diagnostics.filter fun diagnostic => diagnostic.code != .unusedValue

/-! ## Queues without an error limit -/

namespace Queue

theorem push_of_unlimited {queue : Queue} (unlimited : queue.config.errorLimit = 0)
    (diagnostic : Diagnostic) :
    (queue.push diagnostic).2 =
      if (queue.config.filterFollowOn && isFollowOn diagnostic) ||
          (queue.config.deduplicate && queue.kept.any (repeats diagnostic)) then queue
      else queue.keep diagnostic := by
  have below : queue.limitReached = false := by simp [limitReached, unlimited]
  unfold push
  rw [below, Bool.and_false, if_neg Bool.false_ne_true]
  cases queue.config.filterFollowOn && isFollowOn diagnostic with
  | true => rfl
  | false => cases queue.config.deduplicate && queue.kept.any (repeats diagnostic) <;> rfl

/-- Repetitions have one code, so those about unused values repeat nothing else. -/
theorem any_repeats_withoutUnused {diagnostic : Diagnostic} (other : diagnostic.code ≠ .unusedValue)
    (kept : List Diagnostic) : (withoutUnused kept).any (repeats diagnostic) = kept.any
    (repeats diagnostic) := by
  rw [withoutUnused, List.any_filter]
  congr 1
  funext earlier
  cases same : repeats diagnostic earlier with
  | false => simp
  | true =>
    simp only [repeats, Bool.and_eq_true, beq_iff_eq] at same
    simp [same.1.1, other]

/-- Queues without an error limit that differ in diagnostics about unused values only. -/
structure Alike (first second : Queue) : Prop where
  config : second.config = first.config
  unlimited : first.config.errorLimit = 0
  kept : withoutUnused second.kept = withoutUnused first.kept

section Alike

variable {first second : Queue} {diagnostic : Diagnostic}

theorem Alike.push_unused (alike : Alike first second) (unused : diagnostic.code = .unusedValue) :
    Alike (first.push diagnostic).2 second := by
  rw [push_of_unlimited alike.unlimited]
  split
  · exact alike
  · refine ⟨alike.config, alike.unlimited, ?_⟩
    rw [alike.kept]
    simp [withoutUnused, keep, unused]

theorem Alike.push (alike : Alike first second) (other : diagnostic.code ≠ .unusedValue) :
    Alike (first.push diagnostic).2 (second.push diagnostic).2 := by
  have unlimitedAlso : second.config.errorLimit = 0 := alike.config ▸ alike.unlimited
  have sameRepeats : second.kept.any (repeats diagnostic) = first.kept.any
    (repeats diagnostic) := by
    rw [← any_repeats_withoutUnused other, alike.kept, any_repeats_withoutUnused other]
  rw [push_of_unlimited alike.unlimited, push_of_unlimited unlimitedAlso, sameRepeats, alike.config]
  split
  · exact alike
  · refine ⟨alike.config, alike.unlimited, ?_⟩
    have kept := alike.kept
    simp only [withoutUnused, keep, List.filter_append] at kept ⊢
    rw [kept]

/-- Leaving out diagnostics about unused values changes nothing about the others. -/
theorem Alike.pushAll (alike : Alike first second) (diagnostics : List Diagnostic) :
    Alike (first.pushAll diagnostics) (second.pushAll (withoutUnused diagnostics)) := by
  induction diagnostics generalizing first second with
  | nil => exact alike
  | cons diagnostic rest ih =>
    by_cases unused : diagnostic.code = .unusedValue
    · rw [show withoutUnused (diagnostic :: rest) =
        withoutUnused rest by simp [withoutUnused, unused]]
      exact ih (alike.push_unused unused)
    · rw [show withoutUnused (diagnostic :: rest) = diagnostic ::
        withoutUnused rest by simp [withoutUnused, unused]]
      exact ih (alike.push unused)

end Alike

/-- What else is kept does not depend on whether unused values are reported. -/
theorem withoutUnused_pushAll_wanted (config : QueueConfig) (unlimited : config.errorLimit = 0)
    (warns : Bool)
    (reports : List Diagnostic) :
    withoutUnused ((new config).pushAll (Session.wanted warns reports)).kept =
      withoutUnused ((new config).pushAll (withoutUnused reports)).kept := by
  cases warns with
  | true =>
    rw [show Session.wanted true reports = reports by simp [Session.wanted]]
    exact (Alike.pushAll ⟨rfl, unlimited, rfl⟩ reports).kept.symm
  | false =>
    rw [show Session.wanted false reports =
      withoutUnused reports by simp [Session.wanted, withoutUnused]]

end Queue

/-! ## Runs that differ in their reports -/

/-- Which reports are kept, and whether unused values are reported, has no influence on a
resolution.  Two runs of one program whose options differ in nothing else end in the same fault, or
they leave the same tree, names, symbols, types, scopes and entry point.  Where both queues are set
up alike and without an error limit, they keep the same diagnostics in the same order, apart from
those about unused values. -/
theorem resolution_ignores_reporting (fuel : Nat) (options : Options) (queue : QueueConfig)
    (warnUnused : Bool)
    (source : Source) (root : NodeId) : (∀ fault, resolve fuel options source root = .error fault ↔
      resolve fuel { options with queue, warnUnused } source root = .error fault) ∧
    (∀ outcome, resolve fuel options source root = .ok outcome →
      ∃ other, resolve fuel { options with queue, warnUnused } source root = .ok other ∧
        other.toStore = outcome.toStore ∧ other.prelude = outcome.prelude ∧
        (options.queue = queue → queue.errorLimit = 0 →
          withoutUnused other.diagnostics.kept = withoutUnused outcome.diagnostics.kept)) := by
  constructor
  · intro fault
    rw [resolve_eq_error_iff, resolve_eq_error_iff]
    rfl
  · intro outcome resolved
    obtain ⟨reports, run, filled⟩ := resolve_eq_ok_iff.mp resolved
    let diagnostics := (Queue.new queue).pushAll (Session.wanted warnUnused reports)
    refine ⟨{ outcome with diagnostics }, resolve_eq_ok_iff.mpr ⟨reports, run, rfl⟩, rfl, rfl, ?_⟩
    rintro rfl unlimited
    rw [filled]
    exact (Queue.withoutUnused_pushAll_wanted _ unlimited _ reports).trans
      (Queue.withoutUnused_pushAll_wanted _ unlimited _ reports).symm

theorem sample_ignores_reporting : ∃ outcome other,
      resolve 60 { queue := .unlimited } Sample.program.1 Sample.program.2 = .ok outcome ∧
      resolve 60 { queue := .unlimited, warnUnused := false } Sample.program.1 Sample.program.2 =
      .ok other ∧
      other.toStore = outcome.toStore ∧ other.prelude = outcome.prelude ∧
      withoutUnused other.diagnostics.kept = withoutUnused outcome.diagnostics.kept := by
  obtain ⟨first, resolved, _⟩ := Sample.resolved
  obtain ⟨outcome, run, -⟩ :=
    (resolution_ignores_reporting 60 {} .unlimited true Sample.program.1 Sample.program.2).2
      first resolved
  obtain ⟨other, otherRun, store, prelude, kept⟩ :=
    (resolution_ignores_reporting 60 { queue := .unlimited } .unlimited false _ _).2 outcome run
  exact ⟨outcome, other, run, otherRun, store, prelude, kept rfl rfl⟩

end Resolution
