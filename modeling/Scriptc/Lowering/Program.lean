import Scriptc.Lowering.Tree
import Scriptc.Storage.Environment

/-!
# Lowering of programs

A program becomes a unit whose first routine is the top level. Its names are declared first, then
its code is lowered.
-/

namespace Scriptc
namespace Lowering

def builtInConstants : List (String × Constant) :=
  [("undefined", .undefined), ("NaN", .number (0.0 / 0.0)), ("Infinity", .number (1.0 / 0.0))]

def declareConstants (scope : ScopeId) : List (String × Constant) → ScopeTree.Edit PUnit
  | [] => pure ()
  | (name, value) :: rest => do
    let _ ← ScopeTree.declareConstant scope name value
    declareConstants scope rest

def start (log : Log) (strict : Bool) : Lowering :=
  { unit := .empty, scopes := .empty, log, frame := .new 0 0 strict, topScope := 0 }

variable (p : Program)

def isStrict (strict : Bool) : Bool :=
  strict || Stmt.startStrict p.body

def declareProgram (name : String) : Lower (List Hoisted) := do
  let strict := (← get).frame.strict
  let routine ← inUnit (CodeUnit.newRoutine none (some name) strict)
  let top ← inScopes (ScopeTree.newScope none routine true)
  inScopes (declareConstants top builtInConstants)
  hoist (declarationsOf p.body)

def lowerCode (hoisted : List Hoisted) : Lower PUnit := do
  instantiate (hoisted.zip (functionCodes p.body))
  stmtsCode p.body
  finishRoutine

def complete (s : Lowering) : Except Fault CodeUnit := do
  return (← s.unit.finalize).internConstants

/-- What is known once the names of a program are declared. -/
structure Declared where
  hoisted : List Hoisted
  state : Lowering

def declare (name : String) (strict : Bool) (log : Log) : Except Fault Declared :=
  match (declareProgram p name).run (start log (isStrict p strict)) with
  | .ok hoisted state => .ok { hoisted, state }
  | .error fault _ => .error fault

def Declared.lower (d : Declared) (p : Program) : Except Fault Lowering :=
  match (lowerCode p d.hoisted).run d.state with
  | .ok _ state => .ok state
  | .error fault _ => .error fault

end Lowering
end Scriptc
