import Scriptc.Lowering.Calls
import Scriptc.Lowering.Hoisting
import Scriptc.Syntax.Names

/-!
# Functions in lowering

A function becomes a nested routine. It is complete, with its storage laid out, before the code
around it goes on.
-/

namespace Scriptc

abbrev FunctionCode := Option String → Location → ScopeId → Lower RoutineId

/-- The code of a body: its declarations, the functions it declares in the same order, and its
statements. -/
structure BodyCode where
  declarations : List Declaration
  functions : List FunctionCode
  statements : Lower PUnit

namespace Lowering

def publish (b : Binding) : Lower PUnit := do
  match b.storedIn with
  | none => pure ()
  | some id =>
    inUnit <| CodeUnit.modifyVariable id fun v =>
      { v with
        accessed := b.accessed
        escapes := b.escapes
        routineRef := if b.assigned then none else b.routineRef }

def publishAll : List Binding → Lower PUnit
  | [] => pure ()
  | b :: rest => do
    publish b
    publishAll rest

def finishRoutine : Lower PUnit := do
  let s ← get
  let routine := s.frame.routine
  inCode Routine.finish
  publishAll (s.scopes.bindings.toList.filter (·.owner == routine))
  inUnit (CodeUnit.layOut routine)

def instantiate : List (Hoisted × FunctionCode) → Lower PUnit
  | [] => pure ()
  | (hoisted, lower) :: rest => do
    let routine ← lower (some hoisted.name) hoisted.loc (← get).frame.root
    let dest ← variableOf hoisted.binding
    access hoisted.binding
    modifyBinding hoisted.binding fun b => { b with routineRef := some routine }
    push (.closure dest routine)
    instantiate rest

def lowerBody (body : BodyCode) : Lower PUnit := do
  let hoisted ← hoist body.declarations
  instantiate (hoisted.zip body.functions)
  body.statements

def bindParams (root : ScopeId) : List Pattern → Lower PUnit
  | [] => pure ()
  | p :: rest => do
    match p.name? with
    | none =>
      notSupported p.loc "destructuring parameter"
      let param ← inCode Routine.addParam
      let _ ← newAnonymous root "" (some param)
    | some name =>
      if (← askScopes (·.lookupLocal root name)).isSome then
        strictError p.loc ("duplicate parameter '" ++ name ++ "'")
      let param ← inCode Routine.addParam
      let id ← newVariable root name (some param)
      modifyBinding id fun b => { b with declared := true, initialized := true }
    bindParams root rest

def lowerFunction (func : Func) (body : BodyCode) : FunctionCode := fun name loc scope => do
  let outer := (← get).frame
  let strict := outer.strict || Stmt.startStrict func.body
  if func.isGenerator then notSupported loc "generator function"
  if func.isAsync then notSupported loc "async function"
  let routine ← inUnit (CodeUnit.newRoutine (some outer.routine) name strict)
  let root ← inScopes (ScopeTree.newScope (some scope) routine true)
  inFrame (.new routine root strict) do
    bindParams root func.params
    lowerBody body
    finishRoutine
  pure routine

/-- Lowers a function whose code uses its own name. The name is bound in a routine of its own that
returns a closure, so that each evaluation of the expression has its own binding. -/
def lowerNamed (name : String) (loc : Location) (lower : FunctionCode) : Lower RoutineId := do
  let outer := (← get).frame
  let routine ← inUnit (CodeUnit.newRoutine (some outer.routine) none outer.strict)
  let root ← inScopes (ScopeTree.newScope (some outer.scope) routine true)
  inFrame (.new routine root outer.strict) do
    let id ← newVariable root name none
    modifyBinding id fun b => { b with readOnly := true, declared := true, initialized := true }
    let inner ← lower (some name) loc root
    modifyBinding id fun b => { b with routineRef := some inner }
    let dest ← readBinding id
    push (.closure dest inner)
    inCode (Routine.ret dest)
    finishRoutine
  pure routine

def closureOf (routine : RoutineId) : Lower Operand := do
  let dest ← allocTemp
  push (.closure dest routine)
  pure dest

def functionValue (func : Func) (loc : Location) (lower : FunctionCode) : Lower Operand := do
  let name := func.name?.map (·.name)
  match name.filter func.mentionsInside with
  | none => closureOf (← lower name loc (← get).frame.scope)
  | some own =>
    let wrapper ← lowerNamed own loc lower
    let closure ← closureOf wrapper
    emitCall (.direct wrapper closure) closure .undefined [] true

end Lowering
end Scriptc
