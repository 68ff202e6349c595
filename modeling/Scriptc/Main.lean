import Scriptc.Command.Run

/-!
# The command

Runs the command on the files of the system.
-/

namespace Scriptc
namespace Disk

def errorCode (code : UInt32) : Nat :=
  min code.toNat (-code).toNat

def fileError (e : IO.Error) : FileError :=
  match e with
  | .noFileOrDirectory _ _ _ => .notFound
  | .inappropriateType _ code details => .ofCode (errorCode code) details
  | .permissionDenied _ code details => .ofCode (errorCode code) details
  | .resourceExhausted _ code details => .ofCode (errorCode code) details
  | .invalidArgument _ code details => .ofCode (errorCode code) details
  | e => { details := e.toString, code := 5 }

def attempt {α : Type} (action : IO α) : IO (Except FileError α) := do
  try return .ok (← action)
  catch e => return .error (fileError e)

def files : FileAccess IO where
  read path := attempt (IO.FS.readFile path)
  isFile path := return (← attempt (IO.FS.readBinFile path)).isOk
  write path contents := attempt (IO.FS.writeFile path contents)

end Disk
end Scriptc

def main (words : List String) : IO UInt32 := do
  let onTerminal ← (← IO.getStderr).isTty
  let outcome ← Scriptc.Command.run Scriptc.Disk.files onTerminal words
  IO.eprint outcome.reports
  IO.print outcome.output
  return UInt32.ofNat outcome.code
