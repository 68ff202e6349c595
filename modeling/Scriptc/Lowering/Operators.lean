import Scriptc.Lowering.Values

/-!
# Operators in lowering

The code of unary, binary, logical and conditional expressions from the code of their parts.
-/

namespace Scriptc

/-- How a binary operator is computed. -/
structure BinaryPlan where
  op : Opcode
  swapped : Bool
  /-- Whether the operands are turned into numbers first. -/
  numeric : Bool
deriving DecidableEq, Repr

namespace BinaryPlan

def plain (op : Opcode) : BinaryPlan :=
  { op, swapped := false, numeric := false }

def reversed (op : Opcode) : BinaryPlan :=
  { op, swapped := true, numeric := false }

def onNumbers (op : Opcode) : BinaryPlan :=
  { op, swapped := false, numeric := true }

end BinaryPlan

namespace BinaryOp

def plan? : BinaryOp → Option BinaryPlan
  | looseEq => some (.plain .looseEq)
  | looseNe => some (.plain .looseNe)
  | strictEq => some (.plain .strictEq)
  | strictNe => some (.plain .strictNe)
  | lt => some (.plain .lt)
  | le => some (.plain .le)
  | gt => some (.reversed .lt)
  | ge => some (.reversed .le)
  | add => some (.plain .add)
  | isIn => some (.plain .isIn)
  | instanceOf => some (.plain .instanceOf)
  | subtract => some (.onNumbers .subtract)
  | multiply => some (.onNumbers .multiply)
  | divide => some (.onNumbers .divide)
  | remainder => some (.onNumbers .remainder)
  | bitOr => some (.onNumbers .bitOr)
  | bitXor => some (.onNumbers .bitXor)
  | bitAnd => some (.onNumbers .bitAnd)
  | shiftLeft => some (.onNumbers .shiftLeft)
  | shiftRightSigned => some (.onNumbers .shiftRightSigned)
  | shiftRight => some (.onNumbers .shiftRight)
  | power => none

def isLooseEquality : BinaryOp → Bool
  | looseEq | looseNe => true
  | _ => false

end BinaryOp

namespace Lowering

def applyPlan (plan : BinaryPlan) (left right : Operand) (loc : Location) :
    Demand → Lower Operand
  | .branch onTrue onFalse => do
    if plan.op.isRelational then
      let taken ← inCode (Routine.branchCompare plan.op left right onTrue onFalse)
      release left
      release right
      reportDecided (some loc) taken
      pure .undefined
    else
      let value ← binaryValue plan.op left right
      settle (some loc) value (.branch onTrue onFalse)
  | _ => binaryValue plan.op left right

def applyBinary (op : BinaryOp) (left right : Operand) (loc : Location) (demand : Demand) :
    Lower Operand := do
  match op.plan? with
  | none =>
    release left
    release right
    notSupported loc "exponentiation operator"
    settle (some loc) .undefined demand
  | some plan =>
    if op.isLooseEquality then warn loc ("loose equality '" ++ op.spelling ++ "'")
    if plan.numeric then
      let left ← toNumber left
      let right ← toNumber right
      applyPlan plan left right loc demand
    else if plan.swapped then applyPlan plan right left loc demand
    else applyPlan plan left right loc demand

variable (loc : Location)

def binaryCode (op : BinaryOp) (left right : Lowered) (demand : Demand) :
    Lower Operand := do
  let a ← pinIf (!right.isSimple) (← left.value)
  let b ← right.value
  applyBinary op a b loc demand

def settleUnary (value : Operand) : Demand → Lower Operand
  | .effect => do
    release value
    pure .undefined
  | demand => settle (some loc) value demand

variable (argument : Lowered)

def notCode (demand : Demand) : Lower Operand := do
  match demand with
  | .branch onTrue onFalse => argument.code (.branch onFalse onTrue)
  | _ => settleUnary loc (← unaryValue .logicalNot (← argument.value)) demand

def unaryCode (op : Opcode) (numeric : Bool) (argument : Lowered)
    (demand : Demand) : Lower Operand := do
  let a ← argument.value
  let a ← if numeric then toNumber a else pure a
  settleUnary loc (← unaryValue op a) demand

def plusCode (demand : Demand) : Lower Operand := do
  settleUnary loc (← toNumber (← argument.value)) demand

def voidCode (demand : Demand) : Lower Operand := do
  argument.discard
  settleUnary loc .undefined demand

variable (op : LogicalOp)

def testLeft (value : Operand) (rhs done : Label) : Lower PUnit := do
  let _ ← inCode <|
    match op with
    | .and => Routine.branchTrue value rhs done
    | .or => Routine.branchTrue value done rhs
    | .nullish => Routine.branchCompare .looseEq value (.constant .null) rhs done

/-- Writes the value of the second way to a place into the released temporary of the first, and
takes the temporary back. -/
def joinInto (dest value : Operand) : Lower PUnit := do
  if value != dest then
    inCode (Routine.allocSpecific dest)
    assign dest value
    release value

def logicalValue (left right : Lowered) : Lower Operand := do
  let a ← left.value
  release a
  let dest ← allocTemp
  assign dest a
  let rhs ← newLabel
  let done ← newLabel
  testLeft op dest rhs done
  place rhs
  release dest
  joinInto dest (← right.value)
  place done
  pure dest

def logicalEffect (left right : Lowered) : Lower PUnit := do
  let rhs ← newLabel
  let done ← newLabel
  match op with
  | .and => left.jump rhs done
  | .or => left.jump done rhs
  | .nullish =>
    let a ← left.value
    testLeft .nullish a rhs done
    release a
  place rhs
  right.discard
  place done

def logicalJump (left right : Lowered)
    (onTrue onFalse : Label) : Lower PUnit := do
  let rhs ← newLabel
  match op with
  | .and =>
    left.jump rhs onFalse
    place rhs
    right.jump onTrue onFalse
  | .or =>
    left.jump onTrue rhs
    place rhs
    right.jump onTrue onFalse
  | .nullish => branchOn (some loc) (← logicalValue .nullish left right) onTrue onFalse

def logicalCode (left right : Lowered) :
    Demand → Lower Operand
  | .value => logicalValue op left right
  | .effect => do
    logicalEffect op left right
    pure .undefined
  | .branch onTrue onFalse => do
    logicalJump loc op left right onTrue onFalse
    pure .undefined

def inTemp (value : Operand) : Lower Operand := do
  if ← inCode (Routine.ask (·.holdsTemp value)) then pure value
  else
    let copy ← allocTemp
    assign copy value
    pure copy

def conditionalCode (test whenTrue whenFalse : Lowered) (demand : Demand) : Lower Operand := do
  let first ← newLabel
  let second ← newLabel
  let done ← newLabel
  test.jump first second
  place first
  match demand with
  | .branch onTrue onFalse =>
    whenTrue.jump onTrue onFalse
    place second
    whenFalse.jump onTrue onFalse
    pure .undefined
  | .effect =>
    whenTrue.discard
    goto done
    place second
    whenFalse.discard
    place done
    pure .undefined
  | .value =>
    let dest ← inTemp (← whenTrue.value)
    goto done
    release dest
    place second
    joinInto dest (← whenFalse.value)
    place done
    pure dest

def sequenceCode : List Lowered → Demand → Lower Operand
  | [], _ => throw .emptySequence
  | [last], demand => last.code demand
  | e :: rest, demand => do
    e.discard
    sequenceCode rest demand

end Lowering
end Scriptc
