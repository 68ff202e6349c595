import Scriptc.Diagnostic.Basic

/-!
# Log of diagnostics

The diagnostics of one source file in the order in which they were reported. Reporting never stops
the pass that reports.
-/

namespace Scriptc

namespace Severity

def code : Severity → String
  | error => "JSC0001"
  | warning => "JSC0002"
  | note => "JSC0003"

end Severity

/-- The diagnostics of a file, in reporting order. -/
structure Log where
  file : Nat
  entries : Array Diagnostic

namespace Log

def empty (file : Nat) : Log :=
  { file, entries := #[] }

variable (log : Log)

def report (severity : Severity) (range : TextRange) (message : String) : Log :=
  let entry : Diagnostic :=
    { severity, code := severity.code, message, span := { file := log.file, range },
      pointers := [], notes := [] }
  { log with entries := log.entries.push entry }

def amendLast (change : Diagnostic → Diagnostic) : Log :=
  { log with entries := log.entries.modify (log.entries.size - 1) change }

def strictReport (strict : Bool) (range : TextRange) (message : String) : Log :=
  if strict then log.report .error range message
  else (log.report .warning range message).amendLast fun d =>
    { d with notes := d.notes ++ ["this is an error in strict mode code"] }

def pointLast (range : TextRange) (message : String) : Log :=
  log.amendLast fun d =>
    { d with pointers := d.pointers ++ [{ span := { file := log.file, range }, message }] }

def errorCount : Nat :=
  log.entries.countP Diagnostic.isError

def toList (log : Log) : List Diagnostic :=
  log.entries.toList

def sorted : List Diagnostic :=
  Diagnostic.sort log.toList

end Log
end Scriptc
