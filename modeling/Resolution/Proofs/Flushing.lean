import Resolution.Proofs.Queueing

/-!
# Flushing a queue

A flush hands out what a queue keeps in order of position, where diagnostics of one position stay in
order of arrival.  Afterwards nothing of the past can be seen: requests are served as by a queue
that was just made.

An emitted error may be dropped like any other.  The last result tells when its evidence stands for
no error at all.
-/

namespace Resolution

/-- A span is not behind another one: by file, then by start, then by end. -/
def Span.Precedes (first second : Span) : Prop :=
  first.file < second.file ∨ first.file = second.file ∧
    (first.start < second.start ∨ first.start = second.start ∧ first.stop ≤ second.stop)

namespace Span

theorem compare_isLE_iff (first second : Span) : (first.compare second).isLE = true ↔
    first.Precedes second := by
  simp only [compare, Precedes, Ordering.isLE_then_iff_or, Std.compare_eq_lt, Std.compare_eq_iff_eq,
    Std.isLE_compare]

theorem Precedes.total (first second : Span) : first.Precedes second ∨ second.Precedes first := by
  unfold Precedes
  grind

theorem Precedes.trans {first second third : Span} (one : first.Precedes second)
    (two : second.Precedes third) :
    first.Precedes third := by
  unfold Precedes at *
  grind

end Span

namespace Queue

/-! ## Order -/

theorem precedes_iff (first second : Diagnostic) :
    precedes first second = true ↔ first.position.Precedes second.position :=
  Span.compare_isLE_iff ..

theorem pairwise_flush (queue : Queue) :
    queue.flush.1.Pairwise fun first second => first.position.Precedes second.position := by
  simp only [← precedes_iff]
  refine sortBy_pairwise (fun first second => ?_) (fun first second third => ?_) queue.kept
  · simpa only [precedes_iff] using Span.Precedes.total ..
  · simpa only [precedes_iff] using Span.Precedes.trans

/-- Diagnostics of one position stay in order of arrival. -/
theorem filter_flush (queue : Queue) (span : Span) :
    (queue.flush.1.filter fun kept => kept.position = span) = queue.kept.filter fun kept =>
    kept.position = span := by
  refine filter_sortBy (fun first second here there => ?_) queue.kept
  rw [precedes_iff, of_decide_eq_true here, of_decide_eq_true there]
  exact (Span.Precedes.total span span).elim id id

/-! ## Requests -/

/-- What a queue can be asked for. -/
inductive Request where
  | push (diagnostic : Diagnostic)
  | emit (diagnostic : Diagnostic)
  | flush

/-- What a queue answers. -/
inductive Reply where
  | pushed (isKept : Bool)
  | emitted (evidence : Except Fault ErrorProof)
  | flushed (diagnostics : List Diagnostic)

/-- Answer a request. -/
def serve (queue : Queue) : Request → Reply × Queue
  | .push diagnostic => (.pushed (queue.push diagnostic).1, (queue.push diagnostic).2)
  | .emit diagnostic =>
    match Queue.emit diagnostic queue with
    | .ok evidence after => (.emitted (.ok evidence), after)
    | .error fault after => (.emitted (.error fault), after)
  | .flush => (.flushed queue.flush.1, queue.flush.2)

/-- The replies to requests in order, each with the queue that it leaves. -/
def serveAll (queue : Queue) : List Request → List (Reply × Queue)
  | [] => []
  | request :: rest => queue.serve request :: (queue.serve request).2.serveAll rest

/-- The queue that requests leave. -/
def afterAll (queue : Queue) (requests : List Request) : Queue :=
  requests.foldl (fun queue request => (queue.serve request).2) queue

/-- An error is emitted by pushing it, and nothing else can be emitted. -/
theorem emit_eq (queue : Queue) (diagnostic : Diagnostic) : Queue.emit diagnostic queue =
      if diagnostic.isError then .ok ⟨⟩ (queue.push diagnostic).2 else .error .emittedNonError
      queue := by
  cases isError : diagnostic.isError <;> simp [Queue.emit, isError] <;> rfl

theorem config_push (queue : Queue) (diagnostic : Diagnostic) :
    (queue.push diagnostic).2.config = queue.config := by
  unfold push reportLimit keep
  grind

theorem config_serve (queue : Queue) (request : Request) :
    (queue.serve request).2.config = queue.config := by
  cases request with
  | push diagnostic => exact queue.config_push diagnostic
  | emit diagnostic =>
    cases isError : diagnostic.isError with
    | true => simp [serve, emit_eq, isError, config_push]
    | false => simp [serve, emit_eq, isError]
  | flush => rfl

theorem config_afterAll (queue : Queue) (requests : List Request) :
    (queue.afterAll requests).config = queue.config := by
  induction requests generalizing queue with
  | nil => rfl
  | cons request rest ih => exact (ih _).trans (queue.config_serve request)

/-- Whatever a queue was asked for, a flush hands out what it keeps in order of position, the
diagnostics of one position in order of arrival, and then every request is served as by a new queue.
-/
theorem flush_sorts_and_resets (config : QueueConfig) (history : List Request) :
    let queue := (new config).afterAll history
    queue.flush.1.Perm queue.kept ∧
    (queue.flush.1.Pairwise fun first second => first.position.Precedes second.position) ∧
    (∀ span, (queue.flush.1.filter fun kept => kept.position = span) =
      queue.kept.filter fun kept => kept.position = span) ∧
    ∀ later, queue.flush.2.serveAll later = (new config).serveAll later := by
  intro queue
  refine ⟨sortBy_perm _ queue.kept, queue.pairwise_flush, queue.filter_flush, fun later => ?_⟩
  have fresh : queue.flush.2 = new config := congrArg new ((new config).config_afterAll history)
  rw [fresh]

/-! ## Evidence -/

theorem followsOn_iff (config : QueueConfig) (diagnostic : Diagnostic) :
    (config.filterFollowOn && isFollowOn diagnostic) = true ↔ FollowsOn config diagnostic := by
  simp only [isFollowOn, FollowsOn, Bool.and_eq_true, occursIn_iff]

theorem repeated_iff (config : QueueConfig) (kept : List Diagnostic) (diagnostic : Diagnostic) :
    (config.deduplicate && kept.any (repeats diagnostic)) = true ↔
    Repeated config kept diagnostic := by
  simp [repeats, Repeated, and_assoc]

/-- The evidence for an emitted error stands for no error exactly if none was kept before and the
error follows from an earlier one by its message or repeats what is kept, which then is no error.
The limit never takes evidence away. -/
theorem emit_without_errors_iff (queue : Queue) {diagnostic : Diagnostic}
    (isError : diagnostic.isError = true) :
    ∃ after, Queue.emit diagnostic queue = .ok ⟨⟩ after ∧ (after.hasErrors? = none ↔
      queue.errorCount = 0 ∧ (FollowsOn queue.config diagnostic ∨
        Repeated queue.config queue.kept diagnostic)) := by
  refine ⟨(queue.push diagnostic).2, by rw [emit_eq, if_pos isError], ?_⟩
  have none_iff (after : Queue) : after.hasErrors? = none ↔ after.errorCount = 0 := by
    unfold hasErrors? ErrorProof.ofCount?
    grind
  rw [none_iff, ← followsOn_iff, ← repeated_iff]
  unfold push
  split
  · rename_i past
    have counted : (queue.reportLimit diagnostic).errorCount = queue.errorCount := by
      unfold reportLimit
      split <;> rfl
    have some : queue.errorCount ≠ 0 := by
      simp only [limitReached, Bool.and_eq_true, decide_eq_true_eq] at past
      omega
    simp [counted, some]
  split
  · rename_i follows
    simp [follows]
  split
  · rename_i again
    simp [again]
  · rename_i follows again
    simp [keep, isError, follows, again]

end Queue
end Resolution
