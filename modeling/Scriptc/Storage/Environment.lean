import Scriptc.Storage.Layout

/-!
# Environments and direct calls

What is decided once all routines of a unit are laid out: the chain of environments each routine
can reach, and which calls go to a known routine.
-/

namespace Scriptc
namespace CodeUnit

/-- The routines from `id` outwards that have an environment. A parent has a smaller number than
its routine, so as many steps as there are routines are enough. -/
def chainFrom (u : CodeUnit) : Nat → Option RoutineId → List RoutineId
  | 0, _ => []
  | _, none => []
  | steps + 1, some id =>
    match u.routines[id]? with
    | none => []
    | some r =>
      let outer := u.chainFrom steps r.parent
      match r.layout with
      | some layout => if 0 < layout.envSize then id :: outer else outer
      | none => outer

variable (u : CodeUnit)

def withChain (r : Routine) : Routine :=
  { r with layout := r.layout.map fun layout =>
      { layout with envChain := u.chainFrom u.routines.size (some r.id) } }

def knownRoutine? (id : VariableId) : Option RoutineId := do
  (← (← u.routines[id.routine]?).vars[id.index]?).routineRef

def resolveCallee : Callee → Callee
  | .indirect (.var id) =>
    match u.knownRoutine? id with
    | some routine => .direct routine (.var id)
    | none => .indirect (.var id)
  | .pinned id copy =>
    match u.knownRoutine? id with
    | some routine => .direct routine copy
    | none => .indirect copy
  | callee => callee

def finalize : Except Fault CodeUnit := do
  match u.routines.find? (·.layout.isNone) with
  | some r => .error (.notLaidOut r.id)
  | none =>
    .ok { u with routines := u.routines.map fun r =>
      (u.withChain r).mapCallees u.resolveCallee }

/-- The number of links from the environment a routine was created with to that of `owner`. -/
def hops (inner owner : RoutineId) : Except Fault Nat := do
  let layout ← (← u.routine inner).getLayout
  let outer :=
    match layout.envChain with
    | first :: rest => if first = inner then rest else first :: rest
    | [] => []
  match outer.idxOf? owner with
  | some links => .ok links
  | none => .error (.notAncestor owner inner)

end CodeUnit
end Scriptc
