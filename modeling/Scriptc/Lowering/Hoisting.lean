import Scriptc.Lowering.Variables
import Scriptc.Syntax.Declarations

/-!
# Hoisting

All names that a body declares are bound in the scope of the whole routine before any of its code
is lowered.
-/

namespace Scriptc

/-- A declared function that waits for its closure. -/
structure Hoisted where
  binding : BindingId
  name : String
  loc : Location

namespace Lowering

def pointAtDeclaration (b : Binding) : Lower PUnit := do
  match b.declaredAt with
  | some range => modifyLog (·.pointLast range "previous declaration")
  | none => pure ()

def varScope : Lower ScopeId := do
  return (← askScopes (·.scope (← get).frame.scope)).varScope

def shadow (scope : ScopeId) (name : String) : Lower BindingId := do
  let id ← newAnonymous scope name none
  modifyFrame fun f => { f with shadows := (name, id) :: f.shadows }
  pure id

def redeclaredMessage (name : String) : String :=
  "cannot redeclare read-only '" ++ name ++ "'"

def functionBinding (ident : Ident) : Lower BindingId := do
  let scope ← varScope
  match ← askScopes (·.lookupLocal scope ident.name) with
  | some id =>
    let b ← binding id
    if b.readOnly then
      strictError ident.loc (redeclaredMessage ident.name)
      shadow scope ident.name
    else
      if b.isFunction then
        warn ident.loc ("function '" ++ ident.name ++ "' hides an earlier declaration")
        pointAtDeclaration b
      pure id
  | none => newVariable scope ident.name none

def declareFunction (loc : Location) (func : Func) : Lower (Option Hoisted) := do
  match func.name? with
  | none =>
    error loc "function declaration without a name"
    pure none
  | some ident =>
    let id ← functionBinding ident
    modifyBinding id fun b =>
      { b.declareAt ident.loc.range with
        isFunction := true, initialized := true, assigned := b.assigned || b.initialized }
    pure (some { binding := id, name := ident.name, loc })

def declareVariable (name : String) (loc : Location) : Lower PUnit := do
  let scope ← varScope
  match ← askScopes (·.lookupLocal scope name) with
  | some id =>
    let b ← binding id
    if b.readOnly then
      strictError loc (redeclaredMessage name)
      if ((← get).frame.shadows.lookup name).isNone then
        let id ← shadow scope name
        modifyBinding id fun b => { b with declared := true }
    else
      if b.isFunction then
        warn loc ("variable '" ++ name ++ "' redeclares a function")
        pointAtDeclaration b
      modifyBinding id (·.declareAt loc.range)
  | none =>
    let id ← newVariable scope name none
    modifyBinding id (·.declareAt loc.range)

def declareAll : List Declarator → Lower PUnit
  | [] => pure ()
  | .mk loc target _ :: rest => do
    if let some name := target.name? then declareVariable name loc
    declareAll rest

def hoist : List Declaration → Lower (List Hoisted)
  | [] => pure []
  | .function loc func :: rest => do
    let hoisted ← declareFunction loc func
    return hoisted.toList ++ (← hoist rest)
  | .varDecl loc kind declarators :: rest => do
    if kind ≠ .var then
      error loc "block-scoped declarations are not supported, compiling as 'var'"
    declareAll declarators
    hoist rest

end Lowering
end Scriptc
