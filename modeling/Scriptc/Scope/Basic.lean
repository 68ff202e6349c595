import Scriptc.Code.Fault
import Scriptc.Source.Range

/-!
# Scopes and bindings

Source names are bound in a tree of scopes, each of which belongs to the code of one routine. A name
means its last binding in the innermost scope that has one.
-/

namespace Scriptc

abbrev ScopeId := Nat

abbrev BindingId := Nat

structure Scope where
  parent : Option ScopeId
  level : Nat
  /-- The nearest scope of a whole routine, where variable declarations land. -/
  varScope : ScopeId
  owner : RoutineId
  /-- Names and their bindings, the last declared first. -/
  names : List (String × BindingId)
deriving Inhabited

namespace Scope

def bindings (s : Scope) : List BindingId :=
  (s.names.map (·.2)).reverse

end Scope

/-- What a source name is bound to. -/
structure Binding where
  name : String
  owner : RoutineId
  readOnly : Bool
  /-- The value of a name that the compiler provides. -/
  constant : Option Constant
  declared : Bool
  /-- Where the name was first declared by a variable or function declaration. -/
  declaredAt : Option TextRange
  initialized : Bool
  assigned : Bool
  accessed : Bool
  /-- Whether the code of another routine uses the binding. -/
  escapes : Bool
  isFunction : Bool
  /-- The routine whose closure the binding is initialized with. -/
  routineRef : Option RoutineId
  storedIn : Option VariableId
deriving Inhabited

namespace Binding

def new (name : String) (owner : RoutineId) : Binding :=
  { name, owner, readOnly := false, constant := none, declared := false, declaredAt := none,
    initialized := false, assigned := false, accessed := false, escapes := false,
    isFunction := false, routineRef := none, storedIn := none }

def access (b : Binding) (user : RoutineId) : Binding :=
  { b with accessed := true, escapes := b.escapes || user != b.owner }

def declareAt (b : Binding) (place : TextRange) : Binding :=
  { b with declared := true, declaredAt := b.declaredAt <|> some place }

end Binding

/-- All scopes and bindings of a compilation. -/
structure ScopeTree where
  scopes : Array Scope
  bindings : Array Binding
deriving Inhabited

namespace ScopeTree

def empty : ScopeTree :=
  { scopes := #[], bindings := #[] }

abbrev Edit := EStateM Fault ScopeTree

variable (t : ScopeTree)

def scope (id : ScopeId) : Except Fault Scope :=
  match t.scopes[id]? with
  | some s => .ok s
  | none => .error .outOfRange

def binding (id : BindingId) : Except Fault Binding :=
  match t.bindings[id]? with
  | some b => .ok b
  | none => .error .outOfRange

def lookupLocal (id : ScopeId) (name : String) :
    Except Fault (Option BindingId) := do
  return (← t.scope id).names.lookup name

def lookupWithin (t : ScopeTree) (name : String) : Nat → ScopeId →
    Except Fault (Option BindingId)
  | 0, _ => .ok none
  | steps + 1, id => do
    let s ← t.scope id
    match s.names.lookup name, s.parent with
    | some b, _ => .ok (some b)
    | none, some parent => t.lookupWithin name steps parent
    | none, none => .ok none

/-- What a name means in a scope. A parent has a smaller number than its scope, so as many steps as
there are scopes are enough. -/
def lookup (id : ScopeId) (name : String) : Except Fault (Option BindingId) :=
  t.lookupWithin name (max t.scopes.size 1) id

def ask {α : Type} (question : ScopeTree → Except Fault α) : Edit α := fun t =>
  match question t with
  | .ok a => .ok a t
  | .error fault => .error fault t

def newScope (parent : Option ScopeId) (owner : RoutineId) (wholeRoutine : Bool) :
    Edit ScopeId := do
  let id := (← get).scopes.size
  let s : Scope ←
    match parent with
    | some p =>
      let outer ← ask (·.scope p)
      let varScope := if wholeRoutine then id else outer.varScope
      pure { parent, level := outer.level + 1, varScope, owner, names := [] }
    | none => pure { parent, level := 0, varScope := id, owner, names := [] }
  modify fun t => { t with scopes := t.scopes.push s }
  pure id

def declareAnonymous (scope : ScopeId) (name : String) : Edit BindingId := do
  let owner := (← ask (·.scope scope)).owner
  modifyGet fun t =>
    (t.bindings.size, { t with bindings := t.bindings.push (Binding.new name owner) })

def declare (scope : ScopeId) (name : String) : Edit BindingId := do
  let id ← declareAnonymous scope name
  modify fun t =>
    { t with scopes := t.scopes.modify scope fun s => { s with names := (name, id) :: s.names } }
  pure id

def modifyBinding (id : BindingId) (change : Binding → Binding) : Edit PUnit := do
  let _ ← ask (·.binding id)
  modify fun t => { t with bindings := t.bindings.modify id change }

def declareConstant (scope : ScopeId) (name : String) (value : Constant) : Edit BindingId := do
  let id ← declare scope name
  modifyBinding id fun b =>
    { b with readOnly := true, constant := some value, declared := true, initialized := true }
  pure id

end ScopeTree
end Scriptc
