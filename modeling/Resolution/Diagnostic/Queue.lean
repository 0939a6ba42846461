import Resolution.Fault
import Resolution.Order
import Resolution.Diagnostic.Basic

/-!
# The diagnostic queue

The queue keeps diagnostics in order of arrival.  It drops errors past a limit, with one notice at
the first of them, errors that only follow from an earlier one, and repetitions.  Flushing sorts
what was kept by position and starts afresh.
-/

namespace Resolution

/-- What a queue drops. -/
structure QueueConfig where
  /-- Number of errors that are kept; zero keeps all. -/
  errorLimit : Nat := 100
  /-- Drop errors whose message mentions a failed type. -/
  filterFollowOn : Bool := true
  /-- Drop a diagnostic equal in code, position and message to a kept one. -/
  deduplicate : Bool := true
  deriving DecidableEq, Repr

/-- The configuration that drops nothing. -/
def QueueConfig.unlimited : QueueConfig :=
  { errorLimit := 0, filterFollowOn := false, deduplicate := false }

/-- Diagnostics kept so far. -/
structure Queue where
  config : QueueConfig
  kept : List Diagnostic := []
  errorCount : Nat := 0
  warningCount : Nat := 0
  limitReported : Bool := false
  deriving DecidableEq, Repr

/-- Evidence that a queue received an error. -/
structure ErrorProof where
  deriving DecidableEq, Repr

def ErrorProof.text (_ : ErrorProof) : String := "error(s) emitted"

/-- Evidence drawn from a number of errors. -/
def ErrorProof.ofCount? (count : Nat) : Option ErrorProof := if 0 < count then some ⟨⟩ else none

def occursIn (pattern : List Char) : List Char → Bool
  | [] => pattern.isEmpty
  | first :: rest => pattern.isPrefixOf (first :: rest) || occursIn pattern rest

namespace Queue

/-- The queue without diagnostics. -/
def new (config : QueueConfig) : Queue := { config }

/-- Whether no further error is kept. -/
def limitReached (queue : Queue) : Bool :=
  decide (0 < queue.config.errorLimit) && decide (queue.config.errorLimit ≤ queue.errorCount)

/-- The notice in place of the first error past the limit. -/
def limitNotice (limit : Nat) (span : Span) : Diagnostic :=
  (Diagnostic.error .tooManyErrors s!"aborting due to {limit} previous errors").label span
    "error limit reached here"

/-- Whether an error only follows from an earlier one. -/
def isFollowOn (diagnostic : Diagnostic) : Bool :=
  diagnostic.isError && occursIn "<error>".toList diagnostic.message.toList

def repeats (diagnostic earlier : Diagnostic) : Bool :=
  earlier.code == diagnostic.code && earlier.primarySpan? == diagnostic.primarySpan? &&
    earlier.message == diagnostic.message

/-- Append a diagnostic and count it. -/
def keep (queue : Queue) (diagnostic : Diagnostic) : Queue :=
  { queue with
    kept := queue.kept ++ [diagnostic]
    errorCount := if diagnostic.isError then queue.errorCount + 1 else queue.errorCount
    warningCount :=
      if !diagnostic.isError && diagnostic.code.isWarning then queue.warningCount + 1
      else queue.warningCount }

/-- Give the notice about the limit, once. -/
def reportLimit (queue : Queue) (diagnostic : Diagnostic) : Queue :=
  if queue.limitReported then queue
  else
    { queue with
      kept := queue.kept ++ [limitNotice queue.config.errorLimit diagnostic.position]
      limitReported := true }

/-- Add a diagnostic; the answer tells whether it was kept. -/
def push (queue : Queue) (diagnostic : Diagnostic) : Bool × Queue :=
  if diagnostic.isError && queue.limitReached then
    (false, queue.reportLimit diagnostic)
  else if queue.config.filterFollowOn && isFollowOn diagnostic then
    (false, queue)
  else if queue.config.deduplicate && queue.kept.any (repeats diagnostic) then
    (false, queue)
  else
    (true, queue.keep diagnostic)

/-- Add diagnostics in order. -/
def pushAll (queue : Queue) (diagnostics : List Diagnostic) : Queue :=
  diagnostics.foldl (fun queue diagnostic => (queue.push diagnostic).2) queue

/-- Add an error and receive evidence for it. -/
def emit (diagnostic : Diagnostic) : Action Queue ErrorProof := do
  if !diagnostic.isError then
    throw .emittedNonError
  modify fun queue => (queue.push diagnostic).2
  return ⟨⟩

/-- Evidence of an error, if one was kept. -/
def hasErrors? (queue : Queue) : Option ErrorProof := ErrorProof.ofCount? queue.errorCount

/-- Whether a kept diagnostic has the code. -/
def hasCode (queue : Queue) (code : Code) : Bool := queue.kept.any fun kept => kept.code == code

/-- Whether one position may precede another. -/
def precedes (first second : Diagnostic) : Bool :=
  (first.position.compare second.position).isLE

/-- Take the kept diagnostics in order of position and start afresh. -/
def flush (queue : Queue) : List Diagnostic × Queue :=
  (sortBy precedes queue.kept, new queue.config)

end Queue

end Resolution
