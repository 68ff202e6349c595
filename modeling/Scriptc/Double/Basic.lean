/-!
# Doubles as exact numbers

A finite 64-bit float is a sign and a magnitude `mantissa * 2 ^ exponent`, read off the bits, so
that truncation and remainder are integer arithmetic.
-/

namespace Scriptc
namespace Double

/-- The size of a finite number: `mantissa * 2 ^ exponent`. -/
structure Magnitude where
  mantissa : Nat
  /-- The weight of the last significant bit, at least `-1074`. -/
  exponent : Int
deriving DecidableEq, Repr

variable (x : Float)

def isNegative : Bool :=
  x.toBits >>> 63 == 1

def exponentField : Nat :=
  ((x.toBits >>> 52) &&& 0x7ff).toNat

def fractionField : Nat :=
  (x.toBits &&& 0xfffffffffffff).toNat

def magnitude : Magnitude :=
  if exponentField x = 0 then
    { mantissa := fractionField x, exponent := -1074 }
  else
    { mantissa := fractionField x + 0x10000000000000, exponent := (exponentField x : Int) - 1075 }

def Magnitude.floor (m : Magnitude) : Nat :=
  if 0 ≤ m.exponent then m.mantissa <<< m.exponent.toNat
  else m.mantissa >>> (-m.exponent).toNat

def Magnitude.isIntegral (m : Magnitude) : Bool :=
  0 ≤ m.exponent || m.mantissa % (1 <<< (-m.exponent).toNat) == 0

def truncate : Int :=
  let size : Int := (magnitude x).floor
  if isNegative x then -size else size

def isIntegral (x : Float) : Bool :=
  (magnitude x).isIntegral

/-- The number with the given sign and magnitude, for a mantissa below `2 ^ 53` and an exponent
from `-1074` on that together stay below the overflow threshold. -/
def ofMagnitude (negative : Bool) (m : Magnitude) : Float :=
  let sign : Nat := if negative then 0x8000000000000000 else 0
  if m.mantissa = 0 then Float.ofBits (UInt64.ofNat sign)
  else
    let room := min (52 - m.mantissa.log2) (m.exponent + 1074).toNat
    let mantissa := m.mantissa <<< room
    let exponent := m.exponent - room
    let field := if mantissa < 0x10000000000000 then 0 else (exponent + 1075).toNat
    Float.ofBits (UInt64.ofNat (sign + (field <<< 52) + mantissa % 0x10000000000000))

/-- The remainder of a division that rounds toward zero: exact, with the sign of the dividend.
There is none for an infinite dividend or a zero divisor, and an infinite divisor leaves the
dividend as it is. -/
def remainder (x y : Float) : Float :=
  if x.isNaN || y.isNaN || x.isInf || y == 0.0 then 0.0 / 0.0
  else if y.isInf then x
  else
    let a := magnitude x
    let b := magnitude y
    let exponent := min a.exponent b.exponent
    let dividend := a.mantissa <<< (a.exponent - exponent).toNat
    let divisor := b.mantissa <<< (b.exponent - exponent).toNat
    ofMagnitude (isNegative x) { mantissa := dividend % divisor, exponent := exponent }

/-- The remainder from zero up to the size of the divisor: where the other one is negative, the
divisor is added to it, with rounding. -/
def euclideanRemainder (x y : Float) : Float :=
  let r := remainder x y
  if r < 0.0 then r + y.abs else r

/-- The number without its fraction, with its sign. -/
def trunc : Float :=
  let m := magnitude x
  if 0 ≤ m.exponent then x else ofMagnitude (isNegative x) { mantissa := m.floor, exponent := 0 }

/-- The whole part as a word. Numbers beyond the words give the nearest one, and not-a-number gives
zero. -/
def toWord : UInt32 :=
  if x.isNaN then 0 else UInt32.ofNatClamp (truncate x).toNat

def toUInt32 : UInt32 :=
  if !x.isFinite || x == 0.0 then 0 else toWord (euclideanRemainder (trunc x) 4294967296.0)

def toInt32 : Int :=
  (toUInt32 x).toBitVec.toInt

def order? (x y : Float) : Option Ordering :=
  if x < y then some .lt
  else if x == y then some .eq
  else if y < x then some .gt
  else none

end Double
end Scriptc
