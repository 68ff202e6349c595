import Scriptc.Constant.Basic

/-!
# Operands

What instructions read and write: variables, locals, parameters, the slots in which the arguments of
a call are staged, and constants.
-/

namespace Scriptc

abbrev RoutineId := Nat

abbrev BlockId := Nat

abbrev Label := Nat

abbrev LocalId := Nat

abbrev ParamId := Nat

abbrev SlotId := Nat

/-- A variable of a routine. Nested routines name the variables of outer ones this way. -/
structure VariableId where
  routine : RoutineId
  index : Nat
deriving DecidableEq, Repr, Inhabited

/-- What an instruction reads or writes. -/
inductive Operand where
  | var (id : VariableId)
  | cell (id : LocalId)
  | param (id : ParamId)
  | slot (id : SlotId)
  | constant (value : Constant)
deriving BEq, Repr, Inhabited

def RoutineId.faultText (id : RoutineId) : String :=
  "FuncId(" ++ toString (id : Nat) ++ ")"

def BlockId.faultText (id : BlockId) : String :=
  "BlockId(" ++ toString (id : Nat) ++ ")"

def Label.faultText (label : Label) : String :=
  "Label(" ++ toString (label : Nat) ++ ")"

def LocalId.faultText (id : LocalId) : String :=
  "LocalId(" ++ toString (id : Nat) ++ ")"

def ParamId.faultText (id : ParamId) : String :=
  "ParamId(" ++ toString (id : Nat) ++ ")"

def SlotId.faultText (id : SlotId) : String :=
  "ArgSlotId(" ++ toString (id : Nat) ++ ")"

def VariableId.faultText (id : VariableId) : String :=
  "VarId \x7b func: " ++ RoutineId.faultText id.routine ++ ", index: " ++
    toString id.index ++ " \x7d"

namespace Operand

def undefined : Operand :=
  .constant .undefined

def ofNumber (x : Float) : Operand :=
  .constant (.number x)

def ofText (s : String) : Operand :=
  .constant (.text s)

def constant? : Operand → Option Constant
  | .constant value => some value
  | _ => none

def isConstant (a : Operand) : Bool :=
  a.constant?.isSome

def display : Operand → String
  | .var id => "var" ++ toString id.routine ++ "." ++ toString id.index
  | .cell id => "loc" ++ toString id
  | .param id => "par" ++ toString id
  | .slot id => "arg" ++ toString id
  | .constant value => value.display

def faultText : Operand → String
  | .var id => "Var(" ++ id.faultText ++ ")"
  | .cell id => "Local(" ++ LocalId.faultText id ++ ")"
  | .param id => "Param(" ++ ParamId.faultText id ++ ")"
  | .slot id => "ArgSlot(" ++ SlotId.faultText id ++ ")"
  | .constant value => "Imm(" ++ value.faultText ++ ")"

end Operand

/-- Where a variable lives once its routine is laid out. -/
inductive Storage where
  | cell (id : LocalId)
  | param (id : ParamId)
  | environment (index : Nat)
deriving DecidableEq, Repr

namespace Storage

def faultText : Storage → String
  | .cell id => "Local(" ++ LocalId.faultText id ++ ")"
  | .param id => "Param(" ++ ParamId.faultText id ++ ")"
  | .environment index => "Env(" ++ toString index ++ ")"

end Storage
end Scriptc
