import Mathlib.Logic.Function.Basic
import Scriptc.Code.Instruction
import Scriptc.Constant.Folding
import Scriptc.Proofs.Double.Commute

/-!
# Values at run time

The run time is a parameter: any values with operators that agree with the folding of constants, and
any behaviour of objects, called functions and native code. What they are asked for is an event of a
trace, and its outcome may depend on all events before it.
-/

namespace Scriptc

/-- What code asks the run time for. -/
inductive Event (V : Type) where
  | newObject
  | newArray (length : Nat)
  | get (object key : V)
  | put (object key value : V)
  | delete (object key : V)
  | call (constructs : Bool) (function : V) (operands : List V)
  | native (parts : List SplicePart) (resultCount : Nat) (inputs : List V)

/-- How an event ends: with results, or with a value that is thrown. -/
inductive Reply (V : Type) where
  /-- The results by number; only native code may have another number of them than one. -/
  | results (value : Nat → V)
  | thrown (v : V)

/-- Values, the operators on them, and how events end. -/
structure Runtime (V : Type) where
  ofConstant : Constant → V
  truthy : V → Bool
  nullish : V → Bool
  binary : Opcode → V → V → V
  unary : Opcode → V → V
  /-- Whether a value is the number of an entry of a jump table. -/
  hasKey : V → Int → Bool
  /-- Whether native code reads a binding that is no result of it. It may change one that it does
  not read. -/
  reads : List SplicePart → Nat → Bool
  reply : List (Event V) → Event V → Reply V
  binary_constant : ∀ {op : Opcode} {a b c : Constant}, Constant.foldBinary op a b = .ok (some c) →
      binary op (ofConstant a) (ofConstant b) = ofConstant c
  unary_constant : ∀ {op : Opcode} {a c : Constant},
    Constant.foldUnary op a = .ok (some c) → unary op (ofConstant a) = ofConstant c
  truthy_constant : ∀ c, truthy (ofConstant c) = c.toBoolean
  /-- The operands of a commutative operator can be swapped. -/
  binary_comm : ∀ {op : Opcode}, op.isCommutative = true → ∀ x y, binary op x y = binary op y x
  /-- A negation is true exactly if its operand is not. -/
  truthy_not : ∀ x, truthy (unary .logicalNot x) = !truthy x
  /-- Exactly the undefined and null values are loosely equal to null. -/
  truthy_looseEq_null : ∀ x, truthy (binary .looseEq x (ofConstant .null)) = nullish x

/-- What code can change outside its routine: the variables, and the trace of events. -/
structure World (V : Type) where
  vars : VariableId → V
  trace : List (Event V)

namespace World

variable {V : Type}

def assign (w : World V) (id : VariableId) (v : V) : World V :=
  { w with vars := Function.update w.vars id v }

def after (w : World V) (event : Event V) : World V := { w with trace := w.trace ++ [event] }

end World

/-! ## A run time of constants -/

namespace Constant

lemma strictlyEqual_comm (a b : Constant) : strictlyEqual a b = strictlyEqual b a := by
  cases a <;> cases b <;> simp only [strictlyEqual, Double.beq_comm, Bool.beq_comm]

lemma looselyEqual_comm (a b : Constant) : looselyEqual a b = looselyEqual b a := by
  simp only [looselyEqual, Bool.or_comm b.isNullish, Bool.and_comm b.isNullish]
  split
  next => rfl
  next => cases a <;> cases b <;> simp only [Double.beq_comm, strictlyEqual_comm]

lemma foldBinary_comm {op : Opcode} (commutes : op.isCommutative = true) (a b : Constant) :
    foldBinary op a b = foldBinary op b a := by
  cases op with
  | strictEq | strictNe => simp only [foldBinary, strictlyEqual_comm a]
  | looseEq | looseNe => simp only [foldBinary, looselyEqual_comm a]
  | addNumbers => simp only [foldBinary, Double.add_comm a.toNumber]
  | multiply => simp only [foldBinary, Double.mul_comm a.toNumber]
  | bitOr => simp only [foldBinary, UInt32.or_comm a.word]
  | bitXor => simp only [foldBinary, UInt32.xor_comm a.word]
  | bitAnd => simp only [foldBinary, UInt32.and_comm a.word]
  | _ => cases commutes

def foldedOr (value : Except Fault (Option Constant)) : Constant :=
  match value with
  | .ok (some c) => c
  | _ => .undefined

end Constant

namespace Runtime

def constants : Runtime Constant where
  ofConstant := id
  truthy := Constant.toBoolean
  nullish := Constant.isNullish
  binary op x y := Constant.foldedOr (Constant.foldBinary op x y)
  unary op x := Constant.foldedOr (Constant.foldUnary op x)
  hasKey x key :=
    match x with
    | .number n => Double.isIntegral n && Double.truncate n == key
    | _ => false
  reads _ _ := true
  reply _ _ := .results fun _ => .undefined
  binary_constant folded := by rw [id, id, folded]; rfl
  unary_constant folded := by rw [id, folded]; rfl
  truthy_constant _ := rfl
  binary_comm commutes x y := by rw [Constant.foldBinary_comm commutes]
  truthy_not _ := rfl
  truthy_looseEq_null x := by
    cases x <;> rfl

end Runtime

end Scriptc
