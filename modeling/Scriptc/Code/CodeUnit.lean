import Scriptc.Code.Routine

/-!
# Code units

All routines of one program, with the strings and headers they share.
-/

namespace Scriptc

/-- The routines of a program; the first one is the top level. -/
structure CodeUnit where
  routines : Array Routine
  strings : Array String
  /-- Fragments of native code that stand before everything else. -/
  headers : Array String
  distinct : strings.toList.Nodup

namespace CodeUnit

def empty : CodeUnit :=
  { routines := #[], strings := #[], headers := #[], distinct := .nil }

instance : Inhabited CodeUnit := ⟨empty⟩

abbrev Edit := EStateM Fault CodeUnit

variable (u : CodeUnit)

def routine (id : RoutineId) : Except Fault Routine :=
  match u.routines[id]? with
  | some r => .ok r
  | none => .error .outOfRange

def getVariable (id : VariableId) : Except Fault Variable := do
  let r ← u.routine id.routine
  if r.id ≠ id.routine then throw .foreignVariable
  match r.vars[id.index]? with
  | some v => .ok v
  | none => .error .outOfRange

def inRoutine {α : Type} (id : RoutineId) (edit : Routine.Edit α) : Edit α := fun u =>
  match u.routines[id]? with
  | none => .error .outOfRange u
  | some r =>
    match edit.run r with
    | .ok a r => .ok a { u with routines := u.routines.setIfInBounds id r }
    | .error fault r => .error fault { u with routines := u.routines.setIfInBounds id r }

def modifyVariable (id : VariableId) (change : Variable → Variable) : Edit PUnit := do
  match (← get).getVariable id with
  | .error fault => throw fault
  | .ok _ =>
    inRoutine id.routine <| modify fun r =>
      { r with vars := r.vars.modify id.index change }

def newRoutine (parent : Option RoutineId) (name : Option String) (strict : Bool) :
    Edit RoutineId := do
  let id := (← get).routines.size
  match parent with
  | some outer =>
    let level ← inRoutine outer <| modifyGet fun r =>
      (r.level, { r with closures := r.closures.push id })
    modify fun u => { u with routines := u.routines.push (.new id parent (level + 1) name strict) }
  | none =>
    if id ≠ 0 then throw .secondTopLevel
    modify fun u => { u with routines := u.routines.push (.new id none 0 name strict) }
  pure id

def stringId? (s : String) : Option Nat :=
  u.strings.idxOf? s

def withString (s : String) : CodeUnit :=
  if known : u.strings.contains s then u
  else { u with strings := u.strings.push s, distinct := by grind [u.distinct] }

def intern (s : String) : Edit Nat :=
  modifyGet fun u =>
    match u.stringId? s with
    | some id => (id, u)
    | none => (u.strings.size, u.withString s)

def usedStrings : List String :=
  u.routines.toList.flatMap fun r => r.constants.filterMap fun
    | .text s => some s
    | _ => none

def internConstants : CodeUnit :=
  u.usedStrings.foldl withString u

def addHeader (text : String) : CodeUnit :=
  if u.headers.contains text then u else { u with headers := u.headers.push text }

end CodeUnit
end Scriptc
