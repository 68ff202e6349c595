import Scriptc.Diagnostic.Log
import Scriptc.Scope.Basic
import Scriptc.Storage.Layout
import Scriptc.Syntax.Location

/-!
# State of lowering

Lowering turns syntax into routines. It goes on after an error, so that one run reports everything;
only a fault stops it.
-/

namespace Scriptc

/-- A statement that a break or continue can leave. -/
structure JumpTarget where
  names : List String
  breakLabel : Label
  /-- Where a continue goes, if the statement is a loop. -/
  continueLabel : Option Label
  /-- Whether a break without a label leaves the statement. -/
  breakable : Bool
  /-- The number of protected regions around the statement. -/
  tryDepth : Nat

/-- What is known about the routine that is being lowered. -/
structure Frame where
  routine : RoutineId
  root : ScopeId
  scope : ScopeId
  strict : Bool
  /-- The statements around the code, innermost first. -/
  targets : List JumpTarget
  /-- The protected regions around the code, innermost first. -/
  tries : List Nat
  /-- The bindings that stand in for declarations of names that cannot be declared. -/
  shadows : List (String × BindingId)

namespace Frame

def new (routine : RoutineId) (root : ScopeId) (strict : Bool) : Frame :=
  { routine, root, scope := root, strict, targets := [], tries := [], shadows := [] }

def isTop (f : Frame) : Bool :=
  f.routine == 0

end Frame

structure Lowering where
  unit : CodeUnit
  scopes : ScopeTree
  log : Log
  frame : Frame
  topScope : ScopeId

abbrev Lower := EStateM Fault Lowering

namespace Lowering

def inUnit {α : Type} (edit : CodeUnit.Edit α) : Lower α := fun s =>
  match edit.run s.unit with
  | .ok a unit => .ok a { s with unit }
  | .error fault unit => .error fault { s with unit }

def inCode {α : Type} (edit : Routine.Edit α) : Lower α := do
  inUnit (CodeUnit.inRoutine (← get).frame.routine edit)

def inScopes {α : Type} (edit : ScopeTree.Edit α) : Lower α := fun s =>
  match edit.run s.scopes with
  | .ok a scopes => .ok a { s with scopes }
  | .error fault scopes => .error fault { s with scopes }

def askScopes {α : Type} (question : ScopeTree → Except Fault α) : Lower α :=
  inScopes (ScopeTree.ask question)

def modifyFrame (change : Frame → Frame) : Lower PUnit :=
  modify fun s => { s with frame := change s.frame }

def inFrame {α : Type} (frame : Frame) (action : Lower α) : Lower α := do
  let outer := (← get).frame
  modifyFrame fun _ => frame
  let a ← action
  modifyFrame fun _ => outer
  pure a

def modifyLog (change : Log → Log) : Lower PUnit :=
  modify fun s => { s with log := change s.log }

def error (loc : Location) (message : String) : Lower PUnit :=
  modifyLog (·.report .error loc.range message)

def warn (loc : Location) (message : String) : Lower PUnit :=
  modifyLog (·.report .warning loc.range message)

def strictError (loc : Location) (message : String) : Lower PUnit := do
  let strict := (← get).frame.strict
  modifyLog (·.strictReport strict loc.range message)

def notSupported (loc : Location) (what : String) : Lower PUnit :=
  error loc (what ++ " is not supported")

def release (a : Operand) : Lower PUnit :=
  inCode (Routine.release a)

def push (i : Instruction) : Lower PUnit :=
  inCode (Routine.push i)

def newLabel : Lower Label :=
  inCode Routine.newLabel

def place (label : Label) : Lower PUnit :=
  inCode (Routine.place label)

def goto (label : Label) : Lower PUnit :=
  inCode (Routine.goto label)

def allocTemp : Lower Operand :=
  inCode Routine.allocTemp

def assign (dest source : Operand) : Lower PUnit :=
  inCode (Routine.assign dest source)

end Lowering
end Scriptc
