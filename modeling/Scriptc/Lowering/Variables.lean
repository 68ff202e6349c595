import Scriptc.Lowering.State

/-!
# Variables in lowering

How names are bound to variables of routines, and what reading and writing a name amounts to.
-/

namespace Scriptc
namespace Lowering

def binding (id : BindingId) : Lower Binding :=
  askScopes (·.binding id)

def modifyBinding (id : BindingId) (change : Binding → Binding) : Lower PUnit :=
  inScopes (ScopeTree.modifyBinding id change)

variable (id : BindingId)

def attachVariable (scope : ScopeId) (name : String) (param : Option ParamId) :
    Lower PUnit := do
  let owner := (← askScopes (·.scope scope)).owner
  let v ← inUnit (CodeUnit.inRoutine owner do
    if (← get).closed then throw .ownerFinished
    Routine.newVariable name param)
  modifyBinding id fun b => { b with storedIn := some v }

def newVariable (scope : ScopeId) (name : String) (param : Option ParamId) : Lower BindingId := do
  let id ← inScopes (ScopeTree.declare scope name)
  attachVariable id scope name param
  pure id

def newAnonymous (scope : ScopeId) (name : String) (param : Option ParamId) :
    Lower BindingId := do
  let id ← inScopes (ScopeTree.declareAnonymous scope name)
  attachVariable id scope name param
  pure id

def variableOf : Lower Operand := do
  let b ← binding id
  match b.storedIn with
  | some v => pure (.var v)
  | none => throw (.noStorage b.name)

def argumentsName : String := "arguments"

/-- What a name is bound to in a scope or those around it that belong to the same routine, at most
`steps` of them. -/
def lookupOwn (name : String) (routine : RoutineId) : Nat → ScopeId → Lower (Option BindingId)
  | 0, _ => pure none
  | steps + 1, id => do
    let s ← askScopes (·.scope id)
    if s.owner ≠ routine then return none
    match s.names.lookup name, s.parent with
    | some b, _ => pure (some b)
    | none, some parent => lookupOwn name routine steps parent
    | none, none => pure none

def argumentsBinding : Lower BindingId := do
  let s ← get
  let routine := s.frame.routine
  match ← lookupOwn argumentsName routine s.scopes.scopes.size s.frame.scope with
  | some id => pure id
  | none =>
    let id ← newVariable s.frame.root argumentsName none
    modifyBinding id fun b => { b with declared := true, initialized := true }
    inCode (Routine.pushPrologue (.newArguments (← variableOf id)))
    modifyBinding id (·.access routine)
    pure id

def resolve (name : String) (loc : Location) : Lower BindingId := do
  let s ← get
  if name = argumentsName ∧ ¬ s.frame.isTop then argumentsBinding
  else
    match ← askScopes (·.lookup s.frame.scope name) with
    | some id => pure id
    | none =>
      if s.frame.strict then error loc ("undeclared identifier '" ++ name ++ "'")
      else warn loc ("undeclared identifier '" ++ name ++ "', assuming a global")
      let id ← newVariable s.topScope name none
      modifyBinding id fun b => { b with declared := true }
      pure id

def access (id : BindingId) : Lower PUnit := do
  let user := (← get).frame.routine
  modifyBinding id (·.access user)

def readBinding : Lower Operand := do
  match (← binding id).constant with
  | some value => pure (.constant value)
  | none =>
    access id
    variableOf id

def writeBinding (loc : Location) : Lower (Option Operand) := do
  let b ← binding id
  if b.readOnly then
    strictError loc ("cannot assign to read-only '" ++ b.name ++ "'")
    pure none
  else
    access id
    modifyBinding id fun b => { b with assigned := true }
    return some (← variableOf id)

def declaredBinding (name : String) (loc : Location) : Lower BindingId := do
  match (← get).frame.shadows.lookup name with
  | some id => pure id
  | none => resolve name loc

end Lowering
end Scriptc
