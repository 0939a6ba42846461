/-!
# Spans

A span is a half-open range of byte offsets in one file.  Offsets are 32-bit words; one file number
is reserved for the declarations every program sees.
-/

namespace Resolution

/-- Range of byte offsets in a file. -/
structure Span where
  file : UInt32
  start : UInt32
  /-- Offset after the last one. -/
  stop : UInt32
  deriving DecidableEq, Repr, Inhabited

/-- Why a range of wide offsets is no span. -/
inductive Span.RangeError where
  | startTooLarge (offset : Nat)
  | endTooLarge (offset : Nat)
  deriving DecidableEq, Repr

namespace Span

/-- Wording of a rejected range. -/
def RangeError.message : RangeError → String
  | .startTooLarge offset => s!"span start {offset} exceeds u32::MAX"
  | .endTooLarge offset => s!"span end {offset} exceeds u32::MAX"

/-- Position of generated code. -/
def dummy : Span := ⟨0, 0, 0⟩

/-- File number of the declarations every program sees. -/
def preludeFile : UInt32 := 4294967295

def word? (offset : Nat) : Option UInt32 :=
  if offset < UInt32.size then some offset.toUInt32 else none

/-- Span of a range of wide offsets; the start is checked first. -/
def ofRange (file : UInt32) (start stop : Nat) : Except RangeError Span :=
  match word? start, word? stop with
  | none, _ => .error (.startTooLarge start)
  | some _, none => .error (.endTooLarge stop)
  | some first, some last => .ok ⟨file, first, last⟩

/-- Number of bytes, for a span that does not end before it starts. -/
def length? (span : Span) : Option Nat :=
  if span.start ≤ span.stop then some (span.stop.toNat - span.start.toNat) else none

/-- Whether the span covers nothing. -/
def isEmpty (span : Span) : Bool := span.start == span.stop

/-- Whether the span lies in the declarations every program sees. -/
def isPrelude (span : Span) : Bool := span.file == preludeFile

/-- Smallest span over two spans of one file. -/
def merge? (first second : Span) : Option Span :=
  if first.file = second.file then
    some ⟨first.file, min first.start second.start, max first.stop second.stop⟩
  else
    none

/-- Order by file, then start, then end. -/
def compare (first second : Span) : Ordering :=
  (Ord.compare first.file second.file).then
    ((Ord.compare first.start second.start).then (Ord.compare first.stop second.stop))

/-- Text of a span, such as `0:4..8`. -/
def text (span : Span) : String :=
  let range := s!"{span.start}..{span.stop}"
  if span.isPrelude then s!"<prelude>:{range}" else s!"{span.file}:{range}"

theorem merge?_isSome_iff (first second : Span) :
    (first.merge? second).isSome ↔ first.file = second.file := by
  by_cases same : first.file = second.file <;> simp [merge?, same]

theorem length?_isSome_iff (span : Span) : span.length?.isSome ↔ span.start ≤ span.stop := by
  by_cases ordered : span.start ≤ span.stop <;> simp [length?, ordered]

end Span

end Resolution
