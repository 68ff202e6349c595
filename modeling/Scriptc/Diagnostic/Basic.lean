import Scriptc.Source.Range
import Scriptc.Text.Bytes

/-!
# Diagnostics

What a compilation reports about a source, and the order in which reports are shown.
-/

namespace Scriptc

/-- How grave a diagnostic is, the gravest first. -/
inductive Severity where
  | error
  | warning
  | note
deriving DecidableEq, Repr, Inhabited

namespace Severity

def word : Severity → String
  | error => "error"
  | warning => "warning"
  | note => "note"

def rank : Severity → Nat
  | error => 0
  | warning => 1
  | note => 2

end Severity

/-- A second place that a diagnostic points at. -/
structure Pointer where
  span : Span
  message : String
deriving DecidableEq, Repr

/-- A report about a place in a source. -/
structure Diagnostic where
  severity : Severity
  code : String
  message : String
  span : Span
  pointers : List Pointer
  notes : List String
deriving DecidableEq, Repr

namespace Diagnostic

def isError (d : Diagnostic) : Bool :=
  d.severity = .error

def compareKeys (a b : Diagnostic) : Ordering :=
  (compare a.span.file b.span.file).then <|
  (compare a.span.range.start b.span.range.start).then <|
  (compare a.span.range.stop b.span.range.stop).then <|
  (compare a.severity.rank b.severity.rank).then <|
  (Text.compareBytes (Text.bytes a.code) (Text.bytes b.code)).then <|
  Text.compareBytes (Text.bytes a.message) (Text.bytes b.message)

def sort (diagnostics : List Diagnostic) : List Diagnostic :=
  diagnostics.mergeSort fun a b => (compareKeys a b).isLE

end Diagnostic
end Scriptc
