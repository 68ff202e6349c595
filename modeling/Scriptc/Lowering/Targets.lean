import Scriptc.Lowering.Operators

/-!
# Places in lowering

Expressions that name a place: what can be assigned, deleted or called as a method.
-/

namespace Scriptc

/-- A member access with the code of its parts. -/
structure MemberCode where
  object : Lowered
  property : Lowered
  computed : Bool
  isOptional : Bool

/-- What kind of place an expression names. -/
inductive Reference where
  | name (name : String)
  | member (m : MemberCode)
  | pattern
  | other

/-- An expression that may name a place. -/
structure Place where
  whole : Lowered
  reference : Reference

inductive Target where
  | stored (v : Operand)
  | readOnly (v : Operand)
  | member (object key : Operand)
  | invalid

namespace MemberCode

def evalObject (m : MemberCode) (keep : Bool) : Lower Operand := do
  let object ← m.object.value
  Lowering.pinIf (keep || (m.computed && !m.property.isSimple)) object

def evalKey (m : MemberCode) : Lower Operand := do
  if m.computed then m.property.value
  else
    match m.property.expr.name? with
    | some name => pure (.ofText name)
    | none =>
      Lowering.error m.property.loc "invalid member name"
      pure .undefined

def read (m : MemberCode) (loc : Location) : Lower Operand := do
  if m.isOptional then Lowering.notSupported loc "optional chaining"
  let object ← m.evalObject false
  let key ← m.evalKey
  let dest ← Lowering.resultTemp [object, key]
  Lowering.push (.get dest object key)
  pure dest

def delete (m : MemberCode) : Lower Operand := do
  let object ← m.evalObject false
  let key ← m.evalKey
  let dest ← Lowering.resultTemp [object, key]
  Lowering.push (.binary .delete dest object key)
  pure dest

end MemberCode

namespace Place

def evaluate (p : Place) (stable : Bool) : Lower Target := do
  let loc := p.whole.loc
  match p.reference with
  | .name name =>
    let id ← Lowering.resolve name loc
    match ← Lowering.writeBinding id loc with
    | some v => pure (.stored v)
    | none => return .readOnly (← Lowering.readBinding id)
  | .member m =>
    if m.isOptional then
      Lowering.error loc "optional chain is not a valid assignment target"
    let object ← m.evalObject stable
    let key ← Lowering.pinIf stable (← m.evalKey)
    pure (.member object key)
  | .pattern =>
    Lowering.notSupported loc "destructuring assignment"
    pure .invalid
  | .other =>
    Lowering.error loc "invalid assignment target"
    p.whole.discard
    pure .invalid

def delete (p : Place) : Lower Operand := do
  match p.reference with
  | .member m => m.delete
  | .name name =>
    Lowering.strictError p.whole.loc
      ("cannot delete unqualified identifier '" ++ name ++ "'")
    pure (.constant (.boolean false))
  | .pattern | .other =>
    p.whole.discard
    pure (.constant (.boolean true))

end Place

namespace Target

def read : Target → Lower Operand
  | .stored v | .readOnly v => pure v
  | .member object key => do
    let dest ← Lowering.allocTemp
    Lowering.push (.get dest object key)
    pure dest
  | .invalid => pure .undefined

def write (t : Target) (value : Operand) : Lower PUnit :=
  match t with
  | .stored v => Lowering.assign v value
  | .member object key => Lowering.push (.put object key value)
  | .readOnly _ | .invalid => pure ()

def release : Target → Lower PUnit
  | .member object key => do
    Lowering.release object
    Lowering.release key
  | .stored v | .readOnly v => Lowering.release v
  | .invalid => pure ()

/-- The value of an assignment whose value has been written. It is read from the variable again
rather than kept in a temporary. -/
def assignedValue (t : Target) (value : Operand) (needed : Bool) : Lower Operand := do
  let result ←
    if !needed then
      Lowering.release value
      pure .undefined
    else if value.isConstant then pure value
    else
      match t with
      | .stored v =>
        Lowering.release value
        pure v
      | _ => pure value
  t.release
  pure result

end Target

namespace Demand

def needsValue (demand : Demand) : Bool :=
  demand != .effect

end Demand

namespace Lowering

def assignPlain (left : Place) (right : Lowered) (needed : Bool) : Lower Operand := do
  let target ← left.evaluate (!right.isSimple)
  let value ← right.value
  target.write value
  target.assignedValue value needed

def assignCombined (loc : Location) (op : BinaryOp) (left : Place) (right : Lowered)
    (needed : Bool) : Lower Operand := do
  let target ← left.evaluate true
  let old ← pinIf (!right.isSimple) (← target.read)
  let value ← right.value
  let value ← applyBinary op old value loc .value
  target.write value
  target.assignedValue value needed

def assignLogical (op : LogicalOp) (left : Place) (right : Lowered) (needed : Bool) :
    Lower Operand := do
  let target ← left.evaluate true
  let old ← target.read
  release old
  let dest ← allocTemp
  assign dest old
  let rhs ← newLabel
  let done ← newLabel
  testLeft op dest rhs done
  place rhs
  let value ← right.value
  target.write value
  assign dest value
  release value
  place done
  target.release
  if needed then pure dest
  else
    release dest
    pure .undefined

end Lowering

/-- What an assignment operator does with the old value. -/
inductive AssignPlan where
  | plain
  | combined (op : BinaryOp)
  | logical (op : LogicalOp)

namespace AssignOp

def plan (op : AssignOp) : AssignPlan :=
  match op with
  | and => .logical .and
  | or => .logical .or
  | nullish => .logical .nullish
  | op =>
    match op.binary? with
    | some binary => .combined binary
    | none => .plain

end AssignOp

namespace Lowering

def assignCode (loc : Location) (op : AssignOp) (left : Place) (right : Lowered)
    (demand : Demand) : Lower Operand := do
  let value ←
    match op.plan with
    | .plain => assignPlain left right demand.needsValue
    | .combined op => assignCombined loc op left right demand.needsValue
    | .logical op => assignLogical op left right demand.needsValue
  settle (some loc) value demand

def countApart (op : Opcode) (old : Operand) : Lower Operand := do
  match ← inCode (Routine.ask fun _ => Routine.foldBinary op old (.ofNumber 1.0)) with
  | some value => pure value
  | none =>
    let dest ← allocTemp
    inCode (Routine.binary op dest old (.ofNumber 1.0))
    pure dest

end Lowering

namespace UpdateOp

def opcode : UpdateOp → Opcode
  | increment => .addNumbers
  | decrement => .subtract

end UpdateOp

namespace Lowering

/-- An increment or decrement. The old value is turned into a number first, and is the value of the
expression if the sign comes last. -/
def updateCode (loc : Location) (op : UpdateOp) (keepsOld : Bool) (argument : Place)
    (demand : Demand) : Lower Operand := do
  let target ← argument.evaluate false
  let old ← toNumber (← target.read)
  let value ←
    if keepsOld && demand.needsValue then
      let value ← countApart op.opcode old
      target.write value
      target.release
      if value != old then release value
      pure old
    else
      let value ← binaryValue op.opcode old (.ofNumber 1.0)
      target.write value
      target.release
      if demand.needsValue then pure value
      else
        release value
        pure .undefined
  settle (some loc) value demand

def deleteCode (loc : Location) (argument : Place) (demand : Demand) : Lower Operand := do
  settleUnary loc (← argument.delete) demand

end Lowering
end Scriptc
