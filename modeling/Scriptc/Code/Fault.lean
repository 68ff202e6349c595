import Scriptc.Code.Opcode
import Scriptc.Code.Operand

/-!
# Faults

Broken rules of code generation. A program never causes one, except by an empty sequence of
expressions.
-/

namespace Scriptc

/-- A broken rule of code generation. -/
inductive Fault where
  | outOfRange
  | tooLarge
  | notBinary (op : Opcode)
  | notUnary (op : Opcode)
  | noBranchForm (op : Opcode)
  | notRelationalBranch (op : Opcode)
  | pushToClosedBlock (block : BlockId)
  | blockClosedTwice (block : BlockId)
  | pushToFinished (routine : RoutineId)
  | labelPlacedTwice (label : Label)
  | unplacedLabel (label : Label)
  | releasedTwice (id : LocalId)
  | notTemporary (operand : Operand)
  | notFree (id : LocalId)
  | notFinished (routine : RoutineId)
  | secondTopLevel
  | notLaidOut (routine : RoutineId)
  | notAncestor (owner inner : RoutineId)
  | noTerminator (block : BlockId)
  | unreachableStorage (name : String) (owner user : RoutineId) (storage : Option Storage)
  | notInterned (text : String)
  | wrongBranch (op : Opcode)
  | noStorage (name : String)
  /-- A variable is looked up in another routine than its own. -/
  | foreignVariable
  /-- A variable is added to a routine that is complete. -/
  | ownerFinished
  | labelInsideBlock
  | emptySequence
deriving Repr

namespace Fault

def message? : Fault → Option String
  | outOfRange | tooLarge | labelInsideBlock => none
  | notBinary op => some (op.name ++ " is not a binary opcode")
  | notUnary op => some (op.name ++ " is not a unary opcode")
  | noBranchForm op => some (op.name ++ " has no conditional branch form")
  | notRelationalBranch op => some (op.name ++ " is not a relational branch")
  | pushToClosedBlock block => some ("push to closed block " ++ BlockId.faultText block)
  | blockClosedTwice block => some ("block " ++ BlockId.faultText block ++ " closed twice")
  | pushToFinished routine => some ("push to finished function " ++ RoutineId.faultText routine)
  | labelPlacedTwice label => some ("label " ++ Label.faultText label ++ " placed twice")
  | unplacedLabel label => some ("jump to unplaced label " ++ Label.faultText label)
  | releasedTwice id => some ("temporary " ++ LocalId.faultText id ++ " released twice")
  | notTemporary operand => some (operand.faultText ++ " is not a temporary")
  | notFree id => some ("temporary " ++ LocalId.faultText id ++ " is not free")
  | notFinished routine => some ("function " ++ RoutineId.faultText routine ++ " was not finished")
  | secondTopLevel => some "only the top-level function has no parent"
  | notLaidOut routine => some ("function " ++ RoutineId.faultText routine ++ " was not laid out")
  | notAncestor owner inner =>
    some (RoutineId.faultText owner ++ " is not an ancestor environment of " ++
      RoutineId.faultText inner)
  | noTerminator block =>
    some ("reachable block " ++ BlockId.faultText block ++ " has no terminator")
  | unreachableStorage name owner user storage =>
    let place :=
      match storage with
      | none => "None"
      | some s => "Some(" ++ s.faultText ++ ")"
    some ("variable " ++ name ++ " of " ++ RoutineId.faultText owner ++ " used from " ++
      RoutineId.faultText user ++ " with storage " ++ place)
  | notInterned text => some ("string " ++ Text.quoted text ++ " was not interned")
  | wrongBranch op => some (op.name ++ " in a relational branch")
  | noStorage name => some ("variable '" ++ name ++ "' has no storage")
  | foreignVariable => some "variable of another function"
  | ownerFinished => some "variable owner is not being compiled"
  | emptySequence => some "empty sequence expression"

end Fault

namespace Opcode

def branch (op : Opcode) : Except Fault Opcode :=
  match op.branch? with
  | some branch => .ok branch
  | none => .error (.noBranchForm op)

def comparison (op : Opcode) : Except Fault Opcode :=
  match op.comparison? with
  | some comparison => .ok comparison
  | none => .error (.notRelationalBranch op)

end Opcode
end Scriptc
