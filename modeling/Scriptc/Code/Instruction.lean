import Scriptc.Code.Opcode
import Scriptc.Code.Operand

/-!
# Instructions and jumps

What blocks are made of: straight-line instructions and the jump that ends a block.
-/

namespace Scriptc

/-- A piece of spliced native code: text, or a place for one of the splice's operands. -/
inductive SplicePart where
  | text (s : String)
  | binding (index : Nat)
deriving DecidableEq, Repr

inductive Callee where
  | indirect (value : Operand)
  /-- A variable of which `copy` was taken before the arguments were evaluated. It becomes a direct
  or an indirect call once the whole unit is known. -/
  | pinned (id : VariableId) (copy : Operand)
  /-- A known routine; the closure is kept for the environment it captured. -/
  | direct (routine : RoutineId) (closure : Operand)
  | construct (value : Operand)
deriving BEq, Repr

inductive Instruction where
  | closure (dest : Operand) (routine : RoutineId)
  | newObject (dest : Operand)
  | newArray (dest : Operand) (length : Nat)
  | newArguments (dest : Operand)
  /-- Takes the value that was thrown into the current handler. -/
  | loadThrown (dest : Operand)
  | endTry (index : Nat)
  /-- Native code; the operands it writes come first among the bindings. -/
  | splice (bindings : List Operand) (resultCount : Nat) (parts : List SplicePart)
  | assign (dest source : Operand)
  | binary (op : Opcode) (dest left right : Operand)
  | unary (op : Opcode) (dest argument : Operand)
  | get (dest object key : Operand)
  | put (object key value : Operand)
  /-- A call whose receiver and arguments are in the first `argc` slots. -/
  | call (dest : Option Operand) (callee : Callee) (argc : Nat)
deriving BEq, Repr

inductive Jump where
  | ret (value : Operand)
  | throw (value : Operand)
  | goto (label : Label)
  | beginTry (index : Nat) (onCatch onBody : Label)
  | switch (value : Operand) (cases : List (Int × Label)) (default : Label)
  | ifTrue (value : Operand) (onTrue onFalse : Label)
  | ifCompare (op : Opcode) (left right : Operand) (onTrue onFalse : Label)
deriving BEq, Repr

namespace Callee

def operand : Callee → Operand
  | indirect value => value
  | pinned _ copy => copy
  | direct _ closure => closure
  | construct value => value

end Callee

namespace Instruction

def operands : Instruction → List Operand
  | closure dest _ => [dest]
  | newObject dest => [dest]
  | newArray dest _ => [dest]
  | newArguments dest => [dest]
  | loadThrown dest => [dest]
  | endTry _ => []
  | splice bindings _ _ => bindings
  | assign dest source => [dest, source]
  | binary _ dest left right => [dest, left, right]
  | unary _ dest argument => [dest, argument]
  | get dest object key => [dest, object, key]
  | put object key value => [object, key, value]
  | call dest callee _ => dest.toList ++ [callee.operand]

def mapCallee (change : Callee → Callee) : Instruction → Instruction
  | call dest callee argc => call dest (change callee) argc
  | i => i

end Instruction

namespace Jump

def targets : Jump → List Label
  | ret _ => []
  | throw _ => []
  | goto label => [label]
  | beginTry _ onCatch onBody => [onBody, onCatch]
  | switch _ cases default => cases.map (·.2) ++ [default]
  | ifTrue _ onTrue onFalse => [onTrue, onFalse]
  | ifCompare _ _ _ onTrue onFalse => [onTrue, onFalse]

def operands : Jump → List Operand
  | ret value => [value]
  | throw value => [value]
  | goto _ => []
  | beginTry _ _ _ => []
  | switch value _ _ => [value]
  | ifTrue value _ _ => [value]
  | ifCompare _ left right _ _ => [left, right]

end Jump
end Scriptc
