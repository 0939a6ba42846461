import Mathlib.Data.List.Infix
import Resolution.Diagnostic.Queue

/-!
# What a queue keeps

A queue drops a diagnostic for one of three reasons, each of which can be read off the diagnostics
kept before it.  `survivors` removes what is dropped from the pushed diagnostics, in order, without
counters and flags.  The contents of a queue are the survivors, with one notice where the first
error arrived past the limit.
-/

namespace Resolution

theorem occursIn_iff (pattern text : List Char) : occursIn pattern text = true ↔
    pattern <:+: text := by
  induction text with
  | nil => simp [occursIn]
  | cons first rest ih =>
    rw [occursIn, Bool.or_eq_true, ih, List.isPrefixOf_iff_prefix, List.infix_cons_iff]

namespace Queue

/-! ## Reasons to drop a diagnostic -/

/-- An error after as many errors as the limit allows. -/
def PastLimit (config : QueueConfig) (kept : List Diagnostic) (diagnostic : Diagnostic) : Prop :=
  diagnostic.isError ∧ 0 < config.errorLimit ∧ config.errorLimit ≤ kept.countP Diagnostic.isError

/-- An error whose message mentions a failed type. -/
def FollowsOn (config : QueueConfig) (diagnostic : Diagnostic) : Prop :=
  config.filterFollowOn ∧ diagnostic.isError ∧ "<error>".toList <:+: diagnostic.message.toList

/-- A diagnostic equal in code, position and message to a kept one. -/
def Repeated (config : QueueConfig) (kept : List Diagnostic) (diagnostic : Diagnostic) : Prop :=
  config.deduplicate ∧ ∃ earlier ∈ kept, earlier.code = diagnostic.code ∧
    earlier.primarySpan? = diagnostic.primarySpan? ∧ earlier.message = diagnostic.message

instance (config : QueueConfig) (kept : List Diagnostic) (diagnostic : Diagnostic) :
    Decidable (PastLimit config kept diagnostic) :=
  inferInstanceAs (Decidable (_ ∧ _ ∧ _))

instance (config : QueueConfig) (diagnostic : Diagnostic) :
    Decidable (FollowsOn config diagnostic) :=
  inferInstanceAs (Decidable (_ ∧ _ ∧ _))

instance (config : QueueConfig) (kept : List Diagnostic) (diagnostic : Diagnostic) :
    Decidable (Repeated config kept diagnostic) :=
  inferInstanceAs (Decidable (_ ∧ _))

/-- A diagnostic that is not kept after the kept ones. -/
def Dropped (config : QueueConfig) (kept : List Diagnostic) (diagnostic : Diagnostic) : Prop :=
  PastLimit config kept diagnostic ∨ FollowsOn config diagnostic ∨ Repeated config kept diagnostic

instance (config : QueueConfig) (kept : List Diagnostic) (diagnostic : Diagnostic) :
    Decidable (Dropped config kept diagnostic) :=
  inferInstanceAs (Decidable (_ ∨ _ ∨ _))

/-- Pushed diagnostics without those that are dropped, in order. -/
def survivors (config : QueueConfig) (pushed : List Diagnostic) : List Diagnostic :=
  pushed.foldl (fun kept diagnostic => if Dropped config kept diagnostic then kept else kept ++
    [diagnostic]) []

/-- An error was pushed past the limit. -/
def Tripped (config : QueueConfig) (pushed : List Diagnostic) : Prop :=
  ∃ earlier late later, pushed = earlier ++ late :: later ∧
    PastLimit config (survivors config earlier) late

section Survivors

variable {config : QueueConfig} {pushed : List Diagnostic} {diagnostic : Diagnostic}

theorem survivors_concat (config : QueueConfig) (pushed : List Diagnostic)
    (diagnostic : Diagnostic) :
    survivors config (pushed ++ [diagnostic]) =
      if Dropped config (survivors config pushed) diagnostic then survivors config pushed
      else survivors config pushed ++ [diagnostic] := by
  rw [survivors, List.foldl_append]
  rfl

theorem survivors_sublist (config : QueueConfig) (pushed : List Diagnostic) :
    (survivors config pushed).Sublist pushed := by
  induction pushed using List.reverseRecOn with
  | nil => exact List.Sublist.refl []
  | append_singleton pushed diagnostic ih =>
    rw [survivors_concat]
    split
    · exact ih.trans (List.sublist_append_left pushed _)
    · exact ih.append (List.Sublist.refl _)

theorem countP_survivors_le (config : QueueConfig) (limited : 0 < config.errorLimit)
    (pushed : List Diagnostic) :
    (survivors config pushed).countP Diagnostic.isError ≤ config.errorLimit := by
  induction pushed using List.reverseRecOn with
  | nil => exact Nat.zero_le _
  | append_singleton pushed diagnostic ih =>
    rw [survivors_concat]
    split
    · exact ih
    · rename_i stays
      cases isError : diagnostic.isError with
      | false => simpa [isError] using ih
      | true =>
        have below : ¬config.errorLimit ≤ (survivors config pushed).countP Diagnostic.isError :=
          fun reached => stays (.inl ⟨isError, limited, reached⟩)
        rw [List.countP_append, List.countP_singleton, if_pos isError]
        omega

/-- The last diagnostic, or one before it. -/
theorem concat_eq_append_cons {earlier later : List Diagnostic} {late : Diagnostic} :
    pushed ++ [diagnostic] = earlier ++ late :: later ↔
      later = [] ∧ earlier = pushed ∧ late = diagnostic ∨
      ∃ between, later = between ++ [diagnostic] ∧ pushed = earlier ++ late :: between := by
  constructor
  · intro same
    rcases List.eq_nil_or_concat' later with rfl | ⟨between, last, rfl⟩
    · obtain ⟨rfl, rfl⟩ := List.append_singleton_inj.mp same
      exact .inl ⟨rfl, rfl, rfl⟩
    · rw [← List.cons_append, ← List.append_assoc] at same
      obtain ⟨rfl, rfl⟩ := List.append_singleton_inj.mp same
      exact .inr ⟨between, rfl, rfl⟩
  · rintro (⟨rfl, rfl, rfl⟩ | ⟨between, rfl, rfl⟩)
    · rfl
    · simp

theorem tripped_concat : Tripped config (pushed ++ [diagnostic]) ↔
      Tripped config pushed ∨ PastLimit config (survivors config pushed) diagnostic := by
  constructor
  · rintro ⟨earlier, late, later, split, past⟩
    rcases concat_eq_append_cons.mp split with ⟨rfl, rfl, rfl⟩ | ⟨between, rfl, before⟩
    · exact .inr past
    · exact .inl ⟨earlier, late, between, before, past⟩
  · rintro (⟨earlier, late, later, rfl, past⟩ | past)
    · exact ⟨earlier, late, later ++ [diagnostic], by simp, past⟩
    · exact ⟨pushed, diagnostic, [], rfl, past⟩

end Survivors

/-! ## One push -/

/-- What a queue holds after pushes: the survivors, and a notice where the first error arrived past
the limit. -/
structure Holds (config : QueueConfig) (pushed : List Diagnostic) (queue : Queue) : Prop where
  setting : queue.config = config
  errors : queue.errorCount = (survivors config pushed).countP Diagnostic.isError
  reported : queue.limitReported = true ↔ Tripped config pushed
  untripped : ¬Tripped config pushed → queue.kept = survivors config pushed
  noticed : ∀ earlier late later, pushed = earlier ++ late :: later →
    PastLimit config (survivors config earlier) late → ¬Tripped config earlier →
    ∃ rest, survivors config pushed = survivors config earlier ++ rest ∧
      queue.kept = survivors config earlier ++ limitNotice config.errorLimit late.position :: rest

theorem holds_new (config : QueueConfig) : Holds config [] (new config) := by
  have calm : ¬Tripped config [] := by
    rintro ⟨earlier, late, later, split, _⟩
    simp at split
  refine ⟨rfl, rfl, ⟨nofun, fun tripped => absurd tripped calm⟩, fun _ => rfl, ?_⟩
  intro earlier late later split
  simp at split

section Step

variable {config : QueueConfig} {pushed : List Diagnostic} {queue : Queue} {diagnostic : Diagnostic}

theorem Tripped.first (tripped : Tripped config pushed) :
    ∃ earlier late later, pushed = earlier ++ late :: later ∧
    PastLimit config (survivors config earlier) late ∧
      ¬Tripped config earlier := by
  induction pushed using List.reverseRecOn with
  | nil =>
    obtain ⟨earlier, late, later, split, _⟩ := tripped
    simp at split
  | append_singleton pushed diagnostic ih =>
    by_cases before : Tripped config pushed
    · obtain ⟨earlier, late, later, rfl, past, first⟩ := ih before
      exact ⟨earlier, late, later ++ [diagnostic], by simp, past, first⟩
    · exact ⟨pushed, diagnostic, [], rfl, (tripped_concat.mp tripped).resolve_left before, before⟩

variable (holds : Holds config pushed queue)

include holds

variable (foreign : ∀ diagnostic ∈ pushed, diagnostic.code ≠ .tooManyErrors)

include foreign

/-- A queue holds the survivors and nothing else but the notice. -/
theorem Holds.filter_kept :
    (queue.kept.filter fun kept => kept.code != .tooManyErrors) = survivors config pushed := by
  have all : ((survivors config pushed).filter fun kept => kept.code != .tooManyErrors) =
    survivors config pushed := by
    refine List.filter_eq_self.mpr fun kept listed => ?_
    simpa using foreign kept ((survivors_sublist config pushed).subset listed)
  by_cases tripped : Tripped config pushed
  · obtain ⟨earlier, late, later, split, past, first⟩ := tripped.first
    obtain ⟨rest, parts, kept⟩ := holds.noticed earlier late later split past first
    rw [parts, List.filter_append] at all
    have notice : (limitNotice config.errorLimit late.position).code = .tooManyErrors := by
      simp [limitNotice, Diagnostic.error, Diagnostic.label]
    rw [kept, parts, List.filter_append, List.filter_cons_of_neg (by simp [notice])]
    exact all
  · rw [holds.untripped tripped, all]

omit foreign in
theorem Holds.pastLimit_iff :
    (diagnostic.isError && queue.limitReached) = true ↔
    PastLimit config (survivors config pushed) diagnostic := by
  simp [limitReached, PastLimit, holds.setting, holds.errors]

omit foreign in
theorem Holds.followsOn_iff :
    (queue.config.filterFollowOn && isFollowOn diagnostic) = true ↔
    FollowsOn config diagnostic := by
  simp only [isFollowOn, FollowsOn, holds.setting, Bool.and_eq_true, occursIn_iff]

/-- The notice is no repetition of anything else. -/
theorem Holds.repeated_iff (other : diagnostic.code ≠ .tooManyErrors) :
    (queue.config.deduplicate && queue.kept.any (repeats diagnostic)) = true ↔
      Repeated config (survivors config pushed) diagnostic := by
  rw [Repeated, ← holds.filter_kept foreign, Bool.and_eq_true, holds.setting, List.any_eq_true]
  refine and_congr_right fun _ => ⟨?_, ?_⟩
  · rintro ⟨earlier, listed, same⟩
    simp only [repeats, Bool.and_eq_true, beq_iff_eq] at same
    exact ⟨earlier, List.mem_filter.mpr ⟨listed, by simpa [same.1.1] using other⟩, same.1.1,
      same.1.2, same.2⟩
  · rintro ⟨earlier, listed, code, span, message⟩
    exact ⟨earlier, (List.mem_filter.mp listed).1, by simp [repeats, code, span, message]⟩

theorem Holds.push_eq (other : diagnostic.code ≠ .tooManyErrors) :
    queue.push diagnostic =
      if PastLimit config (survivors config pushed) diagnostic then
      (false, queue.reportLimit diagnostic)
      else if Dropped config (survivors config pushed) diagnostic then (false, queue)
      else (true, queue.keep diagnostic) := by
  unfold push
  simp only [holds.pastLimit_iff, holds.followsOn_iff, holds.repeated_iff foreign other]
  by_cases past : PastLimit config (survivors config pushed) diagnostic
  · rw [if_pos past, if_pos past]
  rw [if_neg past, if_neg past]
  by_cases follows : FollowsOn config diagnostic
  · have dropped : Dropped config (survivors config pushed) diagnostic := .inr (.inl follows)
    rw [if_pos follows, if_pos dropped]
  rw [if_neg follows]
  by_cases again : Repeated config (survivors config pushed) diagnostic
  · have dropped : Dropped config (survivors config pushed) diagnostic := .inr (.inr again)
    rw [if_pos again, if_pos dropped]
  · have stays : ¬Dropped config (survivors config pushed) diagnostic := by
      rintro (isPast | isFollowOn | isAgain)
      · exact past isPast
      · exact follows isFollowOn
      · exact again isAgain
    rw [if_neg again, if_neg stays]

omit foreign in
/-- The first error past the limit leaves a notice, later ones leave nothing. -/
theorem Holds.reportLimit (past : PastLimit config (survivors config pushed) diagnostic) :
    Holds config (pushed ++ [diagnostic]) (queue.reportLimit diagnostic) := by
  have same : survivors config (pushed ++ [diagnostic]) = survivors config pushed := by
    rw [survivors_concat, if_pos (.inl past)]
  have trips : Tripped config (pushed ++ [diagnostic]) := tripped_concat.mpr (.inr past)
  unfold Queue.reportLimit
  cases reported : queue.limitReported with
  | true =>
    have tripped := holds.reported.mp reported
    refine ⟨holds.setting,
      by rw [same]; exact holds.errors, by simp [reported, trips], absurd trips, ?_⟩
    intro earlier late later split pastEarlier first
    rw [same]
    rcases concat_eq_append_cons.mp split with ⟨rfl, rfl, rfl⟩ | ⟨between, rfl, before⟩
    · exact absurd tripped first
    · exact holds.noticed earlier late between before pastEarlier first
  | false =>
    have calm : ¬Tripped config pushed :=
      fun tripped => by simp [holds.reported.mpr tripped] at reported
    refine ⟨holds.setting, by rw [same]; exact holds.errors, by simp [trips], absurd trips, ?_⟩
    intro earlier late later split pastEarlier first
    rw [same]
    rcases concat_eq_append_cons.mp split with ⟨rfl, rfl, rfl⟩ | ⟨between, rfl, before⟩
    · exact ⟨[], by simp, by simp [holds.untripped calm, holds.setting]⟩
    · exact absurd ⟨earlier, late, between, before, pastEarlier⟩ calm

omit foreign in
/-- A diagnostic that is dropped for another reason leaves nothing. -/
theorem Holds.drop (within : ¬PastLimit config (survivors config pushed) diagnostic)
    (dropped : Dropped config (survivors config pushed) diagnostic) :
    Holds config (pushed ++ [diagnostic]) queue := by
  have same : survivors config (pushed ++ [diagnostic]) = survivors config pushed := by
    rw [survivors_concat, if_pos dropped]
  have trips : Tripped config (pushed ++ [diagnostic]) ↔ Tripped config pushed := by
    rw [tripped_concat, or_iff_left within]
  refine ⟨holds.setting,
    by rw [same]; exact holds.errors, by rw [trips]; exact holds.reported, ?_, ?_⟩
  · rw [trips, same]
    exact holds.untripped
  · intro earlier late later split past first
    rw [same]
    rcases concat_eq_append_cons.mp split with ⟨rfl, rfl, rfl⟩ | ⟨between, rfl, before⟩
    · exact absurd past within
    · exact holds.noticed earlier late between before past first

omit foreign in
theorem Holds.keep (stays : ¬Dropped config (survivors config pushed) diagnostic) :
    Holds config (pushed ++ [diagnostic]) (queue.keep diagnostic) := by
  have grows : survivors config (pushed ++ [diagnostic]) = survivors config pushed ++
    [diagnostic] := by
    rw [survivors_concat, if_neg stays]
  have within : ¬PastLimit config (survivors config pushed) diagnostic := fun past =>
    stays (.inl past)
  have trips : Tripped config (pushed ++ [diagnostic]) ↔ Tripped config pushed := by
    rw [tripped_concat, or_iff_left within]
  refine ⟨holds.setting, ?_, by rw [trips]; exact holds.reported, fun calm => ?_, ?_⟩
  · rw [grows, List.countP_append, ← holds.errors]
    cases isError : diagnostic.isError <;> simp [Queue.keep, isError]
  · rw [grows, ← holds.untripped (trips.not.mp calm)]
    rfl
  · intro earlier late later split past first
    rcases concat_eq_append_cons.mp split with ⟨rfl, rfl, rfl⟩ | ⟨between, rfl, before⟩
    · exact absurd past within
    · obtain ⟨rest, parts, kept⟩ := holds.noticed earlier late between before past first
      exact ⟨rest ++ [diagnostic], by
        rw [grows, parts, List.append_assoc], by simp [Queue.keep, kept]⟩

theorem Holds.push (other : diagnostic.code ≠ .tooManyErrors) :
    Holds config (pushed ++ [diagnostic]) (queue.push diagnostic).2 := by
  rw [holds.push_eq foreign other]
  split
  · rename_i past
    exact holds.reportLimit past
  split
  · rename_i within dropped
    exact holds.drop within dropped
  · rename_i stays
    exact holds.keep stays

theorem Holds.push_answer (other : diagnostic.code ≠ .tooManyErrors) :
    (queue.push diagnostic).1 = true ↔ ¬Dropped config (survivors config pushed) diagnostic := by
  rw [holds.push_eq foreign other]
  split
  · rename_i past
    simp [Dropped, past]
  · split <;> simp_all

end Step

/-! ## All pushes -/

theorem pushAll_concat (queue : Queue) (pushed : List Diagnostic) (diagnostic : Diagnostic) :
    queue.pushAll (pushed ++ [diagnostic]) = ((queue.pushAll pushed).push diagnostic).2 := by
  simp [pushAll, List.foldl_append]

theorem holds_pushAll (config : QueueConfig) (pushed : List Diagnostic)
    (foreign : ∀ diagnostic ∈ pushed, diagnostic.code ≠ .tooManyErrors) :
    Holds config pushed ((new config).pushAll pushed) := by
  induction pushed using List.reverseRecOn with
  | nil => exact holds_new config
  | append_singleton pushed diagnostic ih =>
    have earlier : ∀ diagnostic ∈ pushed, diagnostic.code ≠ .tooManyErrors := fun other listed =>
      foreign other (List.mem_append_left _ listed)
    rw [pushAll_concat]
    exact (ih earlier).push earlier (foreign diagnostic (by simp))

/-- The contents of a queue after any pushes of diagnostics other than the notice.  They are the
pushed diagnostics without those that are dropped, and one notice at the place of the first error
past the limit, if there is such an error.  A push answers whether its diagnostic is kept, other
diagnostics than errors are dropped as repetitions only, and the counts tell of the kept errors. -/
theorem queue_keeps_survivors (config : QueueConfig) (pushed : List Diagnostic)
    (foreign : ∀ diagnostic ∈ pushed, diagnostic.code ≠ .tooManyErrors) :
    (¬Tripped config pushed → ((new config).pushAll pushed).kept = survivors config pushed) ∧
    (Tripped config pushed → ∃ earlier late later rest, pushed = earlier ++ late :: later ∧
      PastLimit config (survivors config earlier) late ∧ ¬Tripped config earlier ∧
      survivors config pushed = survivors config earlier ++ rest ∧
      ((new config).pushAll pushed).kept =
        survivors config earlier ++ limitNotice config.errorLimit late.position :: rest) ∧
    (∀ earlier diagnostic later, pushed = earlier ++ diagnostic :: later →
      ((((new config).pushAll earlier).push diagnostic).1 = true ↔
        ¬Dropped config (survivors config earlier) diagnostic) ∧
      (diagnostic.isError = false → (((new config).pushAll earlier).push diagnostic).1 = false →
        Repeated config (survivors config earlier) diagnostic)) ∧
    ((new config).pushAll pushed).errorCount = (survivors config pushed).countP Diagnostic.isError ∧
    (0 < config.errorLimit → ((new config).pushAll pushed).errorCount ≤ config.errorLimit) ∧
    (((new config).pushAll pushed).hasErrors?.isSome ↔ ∃ kept ∈ survivors config pushed,
      kept.isError) := by
  have holds := holds_pushAll config pushed foreign
  refine ⟨holds.untripped, fun tripped => ?_, fun earlier diagnostic later split =>
    ?_, holds.errors,
    fun limited => ?_, ?_⟩
  · obtain ⟨earlier, late, later, split, past, first⟩ := tripped.first
    obtain ⟨rest, parts, kept⟩ := holds.noticed earlier late later split past first
    exact ⟨earlier, late, later, rest, split, past, first, parts, kept⟩
  · subst split
    have before : ∀ other ∈ earlier, other.code ≠ .tooManyErrors := fun other listed =>
      foreign other (List.mem_append_left _ listed)
    have answer := (holds_pushAll config earlier before).push_answer before
      (foreign diagnostic (by simp))
    refine ⟨answer, fun noError refused => ?_⟩
    have dropped : Dropped config (survivors config earlier) diagnostic := by
      by_contra stays
      simp [answer.mpr stays] at refused
    rcases dropped with past | follows | again
    · exact absurd past.1 (by simp [noError])
    · exact absurd follows.2.1 (by simp [noError])
    · exact again
  · rw [holds.errors]
    exact countP_survivors_le config limited pushed
  · rw [hasErrors?, holds.errors, ErrorProof.ofCount?, ← List.countP_pos_iff]
    split <;> simp_all

/-- With room for one error, a second error leaves the notice, and a repeated warning leaves
nothing. -/
theorem queue_keeps_survivors_past_limit :
    let config : QueueConfig := { errorLimit := 1 }
    let pushed : List Diagnostic :=
      [.error .undeclared "x", .warning .unusedValue "y", .error .mismatch "z",
        .warning .unusedValue "y"]
    (∀ diagnostic ∈ pushed, diagnostic.code ≠ .tooManyErrors) ∧ Tripped config pushed ∧
    ((new config).pushAll pushed).kept =
      [.error .undeclared "x", .warning .unusedValue "y", limitNotice 1 .dummy] ∧
    ∃ earlier late later rest, pushed = earlier ++ late :: later ∧
      PastLimit config (survivors config earlier) late ∧ ¬Tripped config earlier ∧
      survivors config pushed = survivors config earlier ++ rest ∧
      ((new config).pushAll pushed).kept =
        survivors config earlier ++ limitNotice config.errorLimit late.position :: rest := by
  intro config pushed
  have foreign : ∀ diagnostic ∈ pushed, diagnostic.code ≠ .tooManyErrors := by decide
  have tripped : Tripped config pushed :=
    ⟨[.error .undeclared "x", .warning .unusedValue "y"], .error .mismatch "z",
      [.warning .unusedValue "y"], rfl,
      by decide⟩
  exact ⟨foreign, tripped, by decide, (queue_keeps_survivors config pushed foreign).2.1 tripped⟩

end Queue
end Resolution
