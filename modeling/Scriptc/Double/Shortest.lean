import Scriptc.Double.Basic

/-!
# The shortest decimal that reads back

Every decimal inside a number's rounding interval reads back as that number. Of those with the
fewest digits the nearest one is taken, in exact integer arithmetic.
-/

namespace Scriptc

/-- A positive decimal number `digits * 10 ^ exponent`, whose last digit is not zero. -/
structure Decimal where
  digits : Nat
  exponent : Int
deriving DecidableEq, Repr

/-- Which of two equally near decimals is taken. -/
inductive Tie where
  | upper
  | even
deriving DecidableEq, Repr

namespace Tie

def choose (tie : Tie) (below : Nat) : Nat :=
  match tie with
  | upper => below + 1
  | even => if below % 2 = 0 then below else below + 1

end Tie

namespace Double

/-- The reals that round to a number, all over one denominator. -/
structure RoundingInterval where
  value : Nat
  low : Nat
  high : Nat
  denominator : Nat
  /-- Whether the ends themselves round to the number. -/
  closed : Bool

/-- The rounding interval of a positive magnitude. The lower end is nearer where the mantissa is
the smallest of its binade. An end belongs to the interval when the mantissa is even. -/
def Magnitude.interval (m : Magnitude) : RoundingInterval :=
  let below := if m.mantissa = 0x10000000000000 ∧ -1074 < m.exponent then 1 else 2
  let scale := 1 <<< (m.exponent - 2).toNat
  { value := 4 * m.mantissa * scale
    low := (4 * m.mantissa - below) * scale
    high := (4 * m.mantissa + 2) * scale
    denominator := 1 <<< (2 - m.exponent).toNat
    closed := m.mantissa % 2 == 0 }

namespace RoundingInterval

variable (i : RoundingInterval)

def inUnits (exponent : Int) : RoundingInterval :=
  let up := Nat.pow 10 (-exponent).toNat
  { i with
    value := i.value * up
    low := i.low * up
    high := i.high * up
    denominator := i.denominator * Nat.pow 10 exponent.toNat }

def contains (count : Nat) : Bool :=
  let point := count * i.denominator
  if i.closed then i.low ≤ point && point ≤ i.high else i.low < point && point < i.high

def nearest? (tie : Tie) : Option Nat :=
  let below := i.value / i.denominator
  let above := below + 1
  let gapBelow := i.value - below * i.denominator
  let gapAbove := above * i.denominator - i.value
  match i.contains below && below != 0, i.contains above with
  | true, true =>
    match compare gapBelow gapAbove with
    | .lt => some below
    | .eq => some (tie.choose below)
    | .gt => some above
  | true, false => some below
  | false, true => some above
  | false, false => none

def reaches (exponent : Int) : Bool :=
  let scaled := i.inUnits exponent
  scaled.denominator ≤ scaled.value

end RoundingInterval

def Magnitude.decimalExponent (m : Magnitude) : Int :=
  let estimate := ((m.mantissa.log2 + m.exponent) * 30103).fdiv 100000
  if m.interval.reaches (estimate + 1) then estimate + 1
  else if m.interval.reaches estimate then estimate
  else estimate - 1

def dropZeros : Nat → Nat → Int → Decimal
  | 0, digits, exponent => { digits, exponent }
  | fuel + 1, digits, exponent =>
    if digits % 10 = 0 then dropZeros fuel (digits / 10) (exponent + 1) else { digits, exponent }

def Magnitude.shortest (m : Magnitude) (tie : Tie) : Decimal :=
  let lead := m.decimalExponent
  let attempt (count : Nat) : Option Decimal :=
    let exponent := lead - count
    ((m.interval.inUnits exponent).nearest? tie).map fun digits => dropZeros 17 digits exponent
  ((List.range 17).findSome? attempt).getD
    { digits :=
        (m.interval.inUnits (lead - 16)).value / (m.interval.inUnits (lead - 16)).denominator
      exponent := lead - 16 }

def shortest (x : Float) (tie : Tie) : Decimal :=
  (magnitude x).shortest tie

end Double
end Scriptc
