import Scriptc.Code.Fault
import Scriptc.Constant.Coercion
import Scriptc.Text.Units

/-!
# Evaluating operators on constants

The value of an operator whose operands are constants. Operators that may throw or allocate are
left for run time.
-/

namespace Scriptc

namespace Constant

/-- The order of two constants: of strings by 16-bit units, otherwise of their numbers, which
not-a-number does not have. -/
def order? : Constant → Constant → Option Ordering
  | text a, text b => some (Text.compareByUnits a b)
  | a, b => Double.order? a.toNumber b.toNumber

def strictlyEqual : Constant → Constant → Bool
  | undefined, undefined => true
  | null, null => true
  | boolean a, boolean b => a == b
  | number a, number b => a == b
  | text a, text b => a == b
  | _, _ => false

def isNullish : Constant → Bool
  | undefined => true
  | null => true
  | _ => false

def looselyEqual (a b : Constant) : Bool :=
  if a.isNullish || b.isNullish then a.isNullish && b.isNullish
  else
    match a, b with
    | number _, text _ => a.toNumber == b.toNumber
    | text _, number _ => a.toNumber == b.toNumber
    | boolean _, _ => a.toNumber == b.toNumber
    | _, boolean _ => a.toNumber == b.toNumber
    | _, _ => strictlyEqual a b

def word (a : Constant) : UInt32 :=
  Double.toUInt32 a.toNumber

def ofSignedWord (w : UInt32) : Constant :=
  number (Float.ofInt w.toBitVec.toInt)

def shiftCount (b : Constant) : Nat :=
  b.word.toNat % 32

def sum : Constant → Constant → Constant
  | text a, b => text (a ++ b.toText)
  | a, text b => text (a.toText ++ b)
  | a, b => number (a.toNumber + b.toNumber)

def foldBinary (op : Opcode) (a b : Constant) : Except Fault (Option Constant) :=
  match op with
  | .strictEq => .ok (some (boolean (strictlyEqual a b)))
  | .strictNe => .ok (some (boolean (!strictlyEqual a b)))
  | .looseEq => .ok (some (boolean (looselyEqual a b)))
  | .looseNe => .ok (some (boolean (!looselyEqual a b)))
  | .lt => .ok (some (boolean (order? a b == some .lt)))
  | .le => .ok (some (boolean (order? a b == some .lt || order? a b == some .eq)))
  | .shiftLeft => .ok (some (ofSignedWord (a.word <<< UInt32.ofNat (shiftCount b))))
  | .shiftRight => .ok (some (number (Float.ofNat (a.word.toNat >>> shiftCount b))))
  | .shiftRightSigned =>
    .ok (some (number (Float.ofInt (Double.toInt32 a.toNumber >>> shiftCount b))))
  | .add => .ok (some (sum a b))
  | .addNumbers => .ok (some (number (a.toNumber + b.toNumber)))
  | .subtract => .ok (some (number (a.toNumber - b.toNumber)))
  | .multiply => .ok (some (number (a.toNumber * b.toNumber)))
  | .divide => .ok (some (number (a.toNumber / b.toNumber)))
  | .remainder => .ok (some (number (Double.remainder a.toNumber b.toNumber)))
  | .bitOr => .ok (some (ofSignedWord (a.word ||| b.word)))
  | .bitXor => .ok (some (ofSignedWord (a.word ^^^ b.word)))
  | .bitAnd => .ok (some (ofSignedWord (a.word &&& b.word)))
  | .isIn => .ok none
  | .instanceOf => .ok none
  | .delete => .ok none
  | op => .error (.notBinary op)

def foldUnary (op : Opcode) (a : Constant) : Except Fault (Option Constant) :=
  match op with
  | .negate => .ok (some (number (-a.toNumber)))
  | .logicalNot => .ok (some (boolean (!a.toBoolean)))
  | .bitNot => .ok (some (ofSignedWord (~~~a.word)))
  | .typeOf => .ok (some (text a.typeName))
  | .toNumber => .ok (some (number a.toNumber))
  | .toText => .ok (some (text a.toText))
  | .toObject => .ok none
  | op => .error (.notUnary op)

end Constant
end Scriptc
