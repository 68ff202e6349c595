import Scriptc.Lowering.Variables
import Scriptc.Syntax.Tree

/-!
# Values in lowering

What the code of an expression leaves. A value in a temporary belongs to whoever receives it, who
releases it or passes it on.
-/

namespace Scriptc

/-- What is wanted from an expression. -/
inductive Demand where
  | value
  /-- Its effects; what is returned is only there to be released. -/
  | effect
  /-- A jump by its truth; what is returned means nothing. -/
  | branch (onTrue onFalse : Label)
deriving DecidableEq, Repr

abbrev ExprCode := Demand → Lower Operand

/-- An expression with its code. -/
structure Lowered where
  expr : Expr
  code : ExprCode

namespace Lowered

def value (e : Lowered) : Lower Operand :=
  e.code .value

def discard (e : Lowered) : Lower PUnit := do
  Lowering.release (← e.code .effect)

def jump (e : Lowered) (onTrue onFalse : Label) : Lower PUnit := do
  let _ ← e.code (.branch onTrue onFalse)

def loc (e : Lowered) : Location :=
  e.expr.loc

def isSimple (e : Lowered) : Bool :=
  e.expr.isSimple

end Lowered

namespace Lowering

def discardOption : Option Lowered → Lower PUnit
  | none => pure ()
  | some e => e.discard

def discardAll : List Lowered → Lower PUnit
  | [] => pure ()
  | e :: rest => do
    e.discard
    discardAll rest

def refuse (loc : Location) (what : String) : Lower Operand := do
  notSupported loc what
  pure .undefined

variable (warnAt : Option Location)

/-- Reports the outcome of a branch that is already decided; `warnAt` is nothing for a condition
that is constant on purpose. -/
def reportDecided (taken : Option Bool) : Lower PUnit := do
  match warnAt, taken with
  | some loc, some taken => warn loc ("condition is always " ++ toString taken)
  | _, _ => pure ()

def branchOn (value : Operand) (onTrue onFalse : Label) :
    Lower PUnit := do
  let taken ← inCode (Routine.branchTrue value onTrue onFalse)
  release value
  reportDecided warnAt taken

def settle (value : Operand) : Demand → Lower Operand
  | .branch onTrue onFalse => do
    branchOn warnAt value onTrue onFalse
    pure .undefined
  | _ => pure value

def pin (value : Operand) : Lower Operand := do
  match value with
  | .var _ =>
    let copy ← allocTemp
    assign copy value
    pure copy
  | _ => pure value

def pinIf (keep : Bool) (value : Operand) : Lower Operand :=
  if keep then pin value else pure value

def firstTemp? : List Operand → Routine.Edit (Option Operand)
  | [] => pure none
  | a :: rest => do
    if ← Routine.ask (·.holdsTemp a) then return some a
    firstTemp? rest

def releaseOthers (kept : Operand) : List Operand → Routine.Edit PUnit
  | [] => pure ()
  | a :: rest => do
    if a != kept then Routine.release a
    releaseOthers kept rest

/-- A temporary for a result that is computed from operands: the first one among them, or a new
one. The others are released. -/
def resultTemp (operands : List Operand) : Lower Operand := inCode do
  let dest ←
    match ← firstTemp? operands with
    | some a => pure a
    | none => Routine.allocTemp
  releaseOthers dest operands
  pure dest

def unaryValue (op : Opcode) (argument : Operand) : Lower Operand := do
  match ← inCode (Routine.ask fun _ => Routine.foldUnary op argument) with
  | some value => pure value
  | none =>
    let dest ← resultTemp [argument]
    inCode (Routine.unary op dest argument)
    pure dest

def toNumber (argument : Operand) : Lower Operand :=
  unaryValue .toNumber argument

def binaryValue (op : Opcode) (left right : Operand) : Lower Operand := do
  match ← inCode (Routine.ask fun _ => Routine.foldBinary op left right) with
  | some value =>
    release left
    release right
    pure value
  | none =>
    let dest ← resultTemp [left, right]
    inCode (Routine.binary op dest left right)
    pure dest

def literalValue (loc : Location) (lit : LiteralSyntax) : Lower Operand :=
  if lit.isRegex then refuse loc "regular expression literal"
  else if lit.isBigint then refuse loc "bigint literal"
  else
    match lit.value with
    | .null => pure (.constant .null)
    | .boolean b => pure (.constant (.boolean b))
    | .number x => pure (.ofNumber x)
    | .text s => pure (.ofText s)
    | .other => refuse loc "literal"

end Lowering
end Scriptc
