import Scriptc.Emission.CodeUnit
import Scriptc.Lowering.Program
import Scriptc.Module.Request

/-!
# Compilation

From a program to the text of a native unit: module requests are answered, names declared, code
lowered, and the unit written. Errors stop it before the next step.
-/

namespace Scriptc

structure CompileOptions where
  strict : Bool
  /-- The name of the top level and of the exported entry point. -/
  moduleName : String
  runtimeHeader : String
  emitMain : Bool

namespace CompileOptions

def standard : CompileOptions :=
  { strict := false, moduleName := "main", runtimeHeader := "jsc-runtime.h", emitMain := true }

def unitOptions (o : CompileOptions) : UnitOptions :=
  { moduleName := o.moduleName, runtimeHeader := o.runtimeHeader, emitMain := o.emitMain }

end CompileOptions

/-- What is known about a program before its unit is written. -/
structure Analysis where
  unit : Option CodeUnit
  dependencies : List Dependency
  log : Log

/-- The result of a compilation without errors. -/
structure Compiled where
  text : String
  diagnostics : List Diagnostic
  dependencies : List Dependency

namespace Program

def lower (p : Program) (options : CompileOptions) (log : Log) :
    Except Fault (Option CodeUnit × Log) := do
  let declared ← Lowering.declare p options.moduleName options.strict log
  if 0 < declared.state.log.errorCount then return (none, declared.state.log)
  let lowered ← declared.lower p
  if 0 < lowered.log.errorCount then return (none, lowered.log)
  return (some (← lowered.complete), lowered.log)

def analyze (p : Program) (options : CompileOptions) (answers : Requests.Answers) (file : Nat) :
    Except Fault Analysis := do
  let (p, requests) := p.answerRequests answers
  let (unit, log) ← p.lower options (requests.report (Log.empty file))
  return { unit, dependencies := requests.dependencies.toList, log }

def compile (p : Program) (options : CompileOptions) (answers : Requests.Answers) (file : Nat) :
    Except Fault (Except (List Diagnostic) Compiled) := do
  let analysis ← p.analyze options answers file
  match analysis.unit with
  | none => return .error analysis.log.sorted
  | some unit =>
    let text ← unit.emit options.unitOptions
    return .ok { text, diagnostics := analysis.log.sorted, dependencies := analysis.dependencies }

end Program
end Scriptc
