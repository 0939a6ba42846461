import Resolution.Span
import Resolution.Diagnostic.Code

/-!
# Diagnostics

A diagnostic has a code, a severity, a message, labelled spans and notes.  The first primary label
is its position; secondary labels point at related code.
-/

namespace Resolution

/-- How serious a diagnostic is. -/
inductive Severity where
  | error
  | warning
  | note
  deriving DecidableEq, Repr

def Severity.text : Severity → String
  | .error => "error"
  | .warning => "warning"
  | .note => "note"

/-- A span with a message. -/
structure Label where
  span : Span
  message : String
  /-- Whether the label gives the position of its diagnostic. -/
  isPrimary : Bool
  deriving DecidableEq, Repr

def Label.text (label : Label) : String :=
  let marker := if label.isPrimary then "-->" else "   "
  s!"\n  {marker} {label.span.text}: {label.message}"

/-- One reported problem. -/
structure Diagnostic where
  code : Code
  severity : Severity
  message : String
  labels : List Label
  notes : List String
  deriving DecidableEq, Repr

namespace Diagnostic

/-- An error without labels and notes. -/
def error (code : Code) (message : String) : Diagnostic :=
  { code, severity := .error, message, labels := [], notes := [] }

/-- A warning without labels and notes. -/
def warning (code : Code) (message : String) : Diagnostic :=
  { code, severity := .warning, message, labels := [], notes := [] }

/-- Add a primary label. -/
def label (diagnostic : Diagnostic) (span : Span) (message : String) : Diagnostic :=
  { diagnostic with labels := diagnostic.labels ++ [⟨span, message, true⟩] }

/-- Add a label at related code. -/
def related (diagnostic : Diagnostic) (span : Span) (message : String) : Diagnostic :=
  { diagnostic with labels := diagnostic.labels ++ [⟨span, message, false⟩] }

theorem code_foldl_related (spans : List Span) (diagnostic : Diagnostic) (message : String) :
    (spans.foldl (fun diagnostic span => diagnostic.related span message) diagnostic).code =
    diagnostic.code := by
  induction spans generalizing diagnostic with
  | nil => rfl
  | cons span rest ih => exact ih _

def note (diagnostic : Diagnostic) (remark : String) : Diagnostic :=
  { diagnostic with notes := diagnostic.notes ++ [remark] }

def primarySpan? (diagnostic : Diagnostic) : Option Span :=
  (diagnostic.labels.find? Label.isPrimary).map Label.span

def position (diagnostic : Diagnostic) : Span := diagnostic.primarySpan?.getD .dummy

/-- Spans of the secondary labels. -/
def relatedSpans (diagnostic : Diagnostic) : List Span :=
  (diagnostic.labels.filter fun label => !label.isPrimary).map Label.span

def isError (diagnostic : Diagnostic) : Bool := diagnostic.severity == .error

/-- Printed form: a headline, one line per label, one line per note. -/
def text (diagnostic : Diagnostic) : String :=
  let headline := s!"{diagnostic.severity.text} [{diagnostic.code.text}]: {diagnostic.message}"
  let labels := String.join (diagnostic.labels.map Label.text)
  let notes := String.join (diagnostic.notes.map fun remark => s!"\n  = note: {remark}")
  headline ++ labels ++ notes

/-- A value of one type where another is expected. -/
def mismatch (span : Span) (expected found : String) : Diagnostic :=
  (error .mismatch s!"cannot convert from `{found}` to `{expected}` implicitly").label span
    s!"expected `{expected}`"

/-- A name that no scope declares. -/
def undeclared (span : Span) (name : String) : Diagnostic :=
  (error .undeclared s!"`{name}` is not declared").label span "not found in this scope"

end Diagnostic

end Resolution
