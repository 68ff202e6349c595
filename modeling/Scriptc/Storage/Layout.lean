import Scriptc.Code.CodeUnit

/-!
# Storage of variables

Once a routine and all routines nested in it are complete, each of its variables gets a place. The
locals that follow those of the code are the argument slots, then the variables and then the
parameters that no nested routine uses. The others are numbered in an environment of their own. A
variable that is never accessed has no place, except that a parameter stays where it was passed.
-/

namespace Scriptc

namespace Variable

def inEnvironment (v : Variable) : Bool :=
  v.accessed && v.escapes

def isPlainLocal (v : Variable) : Bool :=
  v.accessed && !v.escapes && v.param.isNone

def isParamLocal (v : Variable) : Bool :=
  v.accessed && !v.escapes && v.param.isSome

end Variable

structure FreePlaces where
  plainLocal : Nat
  paramLocal : Nat
  environment : Nat

namespace FreePlaces

def take (free : FreePlaces) (v : Variable) : Option Storage × FreePlaces :=
  if v.inEnvironment then
    (some (.environment free.environment), { free with environment := free.environment + 1 })
  else if v.isPlainLocal then
    (some (.cell free.plainLocal), { free with plainLocal := free.plainLocal + 1 })
  else if v.isParamLocal then
    (some (.cell free.paramLocal), { free with paramLocal := free.paramLocal + 1 })
  else (v.param.map .param, free)

def assign (free : FreePlaces) : List Variable → List Variable
  | [] => []
  | v :: rest =>
    let (storage, free) := free.take v
    { v with storage } :: free.assign rest

end FreePlaces

namespace Routine

def paramCopies (id : RoutineId) (index : Nat) : List Variable → List Instruction
  | [] => []
  | v :: rest =>
    let copies := paramCopies id (index + 1) rest
    match v.param with
    | some param =>
      if v.accessed then .assign (.var { routine := id, index }) (.param param) :: copies
      else copies
    | none => copies

def layOut (r : Routine) : Routine :=
  let vars := r.vars.toList
  let argSlotBase := r.localCount
  let plainBase := argSlotBase + r.argSlotCount
  let paramBase := plainBase + vars.countP Variable.isPlainLocal
  let localCount := paramBase + vars.countP Variable.isParamLocal
  let free : FreePlaces := { plainLocal := plainBase, paramLocal := paramBase, environment := 0 }
  let copies := paramCopies r.id 0 vars
  { r with
    vars := (free.assign vars).toArray
    isTemp := r.isTemp ++ Array.replicate (localCount - argSlotBase) false
    blocks := r.blocks.modify entry fun b => { b with body := b.body ++ copies.toArray }
    layout := some
      { envSize := vars.countP Variable.inEnvironment, argSlotBase, localCount,
        envChain := [] } }

def getLayout (r : Routine) : Except Fault Layout :=
  match r.layout with
  | some layout => .ok layout
  | none => .error (.notLaidOut r.id)

end Routine

namespace CodeUnit

def layOut (id : RoutineId) : Edit PUnit :=
  inRoutine id (modify Routine.layOut)

end CodeUnit
end Scriptc
