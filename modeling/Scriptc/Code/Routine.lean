import Scriptc.Code.Instruction
import Scriptc.Constant.Folding

/-!
# Routines

A routine is a graph of blocks under construction. Code is appended to the current block; a label
names a block that may not exist yet. Temporaries are locals that are handed out and taken back
while the code of an expression is built. An operation that breaks a rule stops with a fault, and
what it changed before that stays changed.
-/

namespace Scriptc

/-- A block: instructions and, once it is closed, a jump with its targets noted beside it. -/
structure Block where
  body : Array Instruction
  jump : Option Jump
  successors : List Label := []
deriving Inhabited

namespace Block

def empty : Block :=
  { body := #[], jump := none }

def isClosed (b : Block) : Bool :=
  b.jump.isSome

def isEmpty (b : Block) : Bool :=
  b.body.isEmpty && b.jump.isNone

end Block

structure Variable where
  name : String
  level : Nat
  /-- The parameter that the variable is bound to at entry. -/
  param : Option ParamId
  accessed : Bool
  escapes : Bool
  /-- The routine that the variable always holds a closure of. -/
  routineRef : Option RoutineId
  storage : Option Storage
deriving Repr, Inhabited

/-- Where the variables of a finished routine live. -/
structure Layout where
  /-- The number of variables in the routine's own environment. -/
  envSize : Nat
  /-- The first of the locals in which arguments are staged. -/
  argSlotBase : Nat
  localCount : Nat
  /-- The routine and those around it that have an environment, innermost first. -/
  envChain : List RoutineId
deriving Repr, Inhabited

/-- A routine under construction. Block zero is the entry, which holds the prologue only; label zero
is the exit and local zero the returned value. -/
structure Routine where
  id : RoutineId
  parent : Option RoutineId
  name : Option String
  level : Nat
  strict : Bool
  paramCount : Nat
  vars : Array Variable
  isTemp : Array Bool
  /-- The temporaries that are free, the last one freed first. -/
  freeTemps : List LocalId
  /-- The number of slots that the largest call needs. -/
  argSlotCount : Nat
  blocks : Array Block
  labels : Array (Option BlockId)
  current : BlockId
  closures : Array RoutineId
  tryCount : Nat
  layout : Option Layout
  closed : Bool
deriving Inhabited

namespace Routine

def entry : BlockId := 0

def exitLabel : Label := 0

def result : Operand := .cell 0

def receiver : Operand := .param 0

def new (id : RoutineId) (parent : Option RoutineId) (level : Nat) (name : Option String)
    (strict : Bool) : Routine :=
  { id, parent, name, level, strict, paramCount := 1, vars := #[], isTemp := #[false],
    freeTemps := [], argSlotCount := 0,
    blocks := #[{ body := #[], jump := some (.goto 1), successors := [1] }, Block.empty],
    labels := #[none, some 1], current := 1, closures := #[], tryCount := 0, layout := none,
    closed := false }

variable (r : Routine)

def localCount : Nat :=
  r.isTemp.size

def currentBlock : Block :=
  r.blocks[r.current]?.getD Block.empty

def isReachable : Bool :=
  !r.currentBlock.isClosed

def labelBlock (label : Label) : Except Fault (Option BlockId) :=
  match r.labels[label]? with
  | some block => .ok block
  | none => .error .outOfRange

def target (label : Label) : Except Fault BlockId := do
  match ← r.labelBlock label with
  | some block => .ok block
  | none => .error (.unplacedLabel label)

def exitBlock : Except Fault BlockId := do
  match ← r.labelBlock exitLabel with
  | some block => .ok block
  | none => .error (.notFinished r.id)

def holdsTemp : Operand → Except Fault Bool
  | .cell id =>
    match r.isTemp[id]? with
    | some temp => .ok temp
    | none => .error .outOfRange
  | _ => .ok false

abbrev Edit := EStateM Fault Routine

def ask {α : Type} (question : Routine → Except Fault α) : Edit α := fun r =>
  match question r with
  | .ok a => .ok a r
  | .error fault => .error fault r

def addParam : Edit ParamId :=
  modifyGet fun r => (r.paramCount, { r with paramCount := r.paramCount + 1 })

def newVariable (name : String) (param : Option ParamId) : Edit VariableId :=
  modifyGet fun r =>
    let v : Variable :=
      { name, level := r.level, param, accessed := false, escapes := false, routineRef := none,
        storage := none }
    ({ routine := r.id, index := r.vars.size }, { r with vars := r.vars.push v })

def newLabel : Edit Label :=
  modifyGet fun r => (r.labels.size, { r with labels := r.labels.push none })

def openBlock : Edit PUnit :=
  modify fun r => { r with blocks := r.blocks.push Block.empty, current := r.blocks.size }

def pushTo (block : BlockId) (i : Instruction) : Edit PUnit := do
  match (← get).blocks[block]? with
  | none => throw .outOfRange
  | some b =>
    if b.isClosed then throw (.pushToClosedBlock block)
    modify fun r =>
      { r with blocks := r.blocks.modify block fun b => { b with body := b.body.push i } }

def close (block : BlockId) (jump : Jump) : Edit PUnit := do
  match (← get).blocks[block]? with
  | none => throw .outOfRange
  | some b =>
    if b.isClosed then throw (.blockClosedTwice block)
    modify fun r =>
      { r with blocks := r.blocks.modify block fun b =>
          { b with jump := some jump, successors := jump.targets } }

/-- Opens a block if the current one is closed. Code that cannot run still gets a block, so that it
is checked like any other. -/
def ensureOpen : Edit PUnit := do
  if (← get).currentBlock.isClosed then openBlock

def push (i : Instruction) : Edit PUnit := do
  let r ← get
  if r.closed then throw (.pushToFinished r.id)
  ensureOpen
  pushTo (← get).current i

def setJump (jump : Jump) : Edit PUnit := do
  ensureOpen
  close (← get).current jump

def goto (label : Label) : Edit PUnit :=
  setJump (.goto label)

def place (label : Label) : Edit PUnit := do
  match ← ask (·.labelBlock label) with
  | some _ => throw (.labelPlacedTwice label)
  | none =>
    let block := (← get).currentBlock
    if block.isClosed then openBlock
    else if !block.isEmpty then
      goto label
      openBlock
    if !(← get).currentBlock.isEmpty then throw .labelInsideBlock
    modify fun r => { r with labels := r.labels.setIfInBounds label (some r.current) }

def pushPrologue (i : Instruction) : Edit PUnit :=
  modify fun r =>
    { r with blocks := r.blocks.modify entry fun b => { b with body := b.body.push i } }

def newLocal (temp : Bool) : Edit LocalId :=
  modifyGet fun r => (r.isTemp.size, { r with isTemp := r.isTemp.push temp })

def allocTemp : Edit Operand := do
  match (← get).freeTemps with
  | id :: rest =>
    modify fun r => { r with freeTemps := rest }
    pure (.cell id)
  | [] => return .cell (← newLocal true)

def release (a : Operand) : Edit PUnit := do
  if ← ask (·.holdsTemp a) then
    if let .cell id := a then
      if (← get).freeTemps.contains id then throw (.releasedTwice id)
      modify fun r => { r with freeTemps := id :: r.freeTemps }

def allocSpecific (a : Operand) : Edit PUnit := do
  match a with
  | .cell id =>
    if !(← get).freeTemps.contains id then throw (.notFree id)
    modify fun r => { r with freeTemps := r.freeTemps.erase id }
  | _ => throw (.notTemporary a)

def assign (dest source : Operand) : Edit PUnit := do
  if dest != source then push (.assign dest source)

def foldBinary (op : Opcode) (left right : Operand) : Except Fault (Option Operand) :=
  match left.constant?, right.constant? with
  | some a, some b => (·.map .constant) <$> Constant.foldBinary op a b
  | _, _ => .ok none

def foldUnary (op : Opcode) (argument : Operand) : Except Fault (Option Operand) :=
  match argument.constant? with
  | some a => (·.map .constant) <$> Constant.foldUnary op a
  | none => .ok none

/-- Computes a binary operator. Constants are folded; the operands of a commutative operator are
swapped to have a constant second or the destination first. -/
def binary (op : Opcode) (dest left right : Operand) : Edit PUnit := do
  if !op.isBinary then throw (.notBinary op)
  match ← ask fun _ => foldBinary op left right with
  | some value => assign dest value
  | none =>
    if op.isCommutative &&
        ((left.isConstant && !right.isConstant) || (right == dest && left != dest)) then
      push (.binary op dest right left)
    else push (.binary op dest left right)

def unary (op : Opcode) (dest argument : Operand) : Edit PUnit := do
  if !op.isUnary then throw (.notUnary op)
  match ← ask fun _ => foldUnary op argument with
  | some value => assign dest value
  | none => push (.unary op dest argument)

def branchTaken (taken : Bool) (onTrue onFalse : Label) : Edit (Option Bool) := do
  goto (if taken then onTrue else onFalse)
  pure (some taken)

def branchCompare (op : Opcode) (left right : Operand) (onTrue onFalse : Label) :
    Edit (Option Bool) := do
  match ← ask fun _ => foldBinary op left right with
  | some (.constant value) => branchTaken value.toBoolean onTrue onFalse
  | _ =>
    let branch ← ask fun _ => op.branch
    if op.isCommutative && left.isConstant && !right.isConstant then
      setJump (.ifCompare branch right left onTrue onFalse)
    else setJump (.ifCompare branch left right onTrue onFalse)
    pure none

def branchTrue (value : Operand) (onTrue onFalse : Label) : Edit (Option Bool) := do
  match value.constant? with
  | some c => branchTaken c.toBoolean onTrue onFalse
  | none =>
    setJump (.ifTrue value onTrue onFalse)
    pure none

def stage (slot : SlotId) : List Operand → Edit PUnit
  | [] => pure ()
  | a :: rest => do
    push (.assign (.slot slot) a)
    stage (slot + 1) rest

def call (dest : Option Operand) (callee : Callee) (receiver : Operand) (args : List Operand) :
    Edit PUnit := do
  let argc := args.length + 1
  modify fun r => { r with argSlotCount := max r.argSlotCount argc }
  stage 0 (receiver :: args)
  push (.call dest callee argc)

def ret (value : Operand) : Edit PUnit := do
  assign result value
  goto exitLabel

def newTryIndex : Edit Nat :=
  modifyGet fun r => (r.tryCount, { r with tryCount := r.tryCount + 1 })

def finish : Edit PUnit := do
  place exitLabel
  setJump (.ret result)
  modify fun r => { r with closed := true }

def constants : List Constant :=
  r.blocks.toList.flatMap fun b =>
    (b.body.toList.flatMap Instruction.operands ++
      match b.jump with
      | some jump => jump.operands
      | none => []).filterMap Operand.constant?

def mapCallees (change : Callee → Callee) (r : Routine) : Routine :=
  { r with blocks := r.blocks.map fun b =>
      { b with body := b.body.map (Instruction.mapCallee change) } }

end Routine
end Scriptc
