import Scriptc.Constant.Basic
import Scriptc.Text.Blank

/-!
# Conversions between constants

Numbers, truth values and strings of constants, as the script language converts them.
-/

namespace Scriptc

namespace NumericText

def digitValue? (c : Char) : Option Nat :=
  if '0' ≤ c ∧ c ≤ '9' then some (c.toNat - '0'.toNat)
  else if 'a' ≤ c ∧ c ≤ 'f' then some (c.toNat - 'a'.toNat + 10)
  else if 'A' ≤ c ∧ c ≤ 'F' then some (c.toNat - 'A'.toNat + 10)
  else none

def digitIn? (radix : Nat) (c : Char) : Option Nat :=
  (digitValue? c).filter (· < radix)

def continueDigits (radix : Nat) (value : Float) : List Char → Option Float
  | [] => some value
  | c :: rest =>
    match digitIn? radix c with
    | some digit => continueDigits radix (value * Float.ofNat radix + Float.ofNat digit) rest
    | none => none

def radixValue? (radix : Nat) (digits : List Char) : Option Float :=
  if digits.isEmpty then none else continueDigits radix 0.0 digits

def radixOfMark? : Char → Option Nat
  | 'x' | 'X' => some 16
  | 'o' | 'O' => some 8
  | 'b' | 'B' => some 2
  | _ => none

def decimalValue (digits : List Char) : Nat :=
  digits.foldl (fun value c => value * 10 + (c.toNat - '0'.toNat)) 0

/-- The double nearest to `significand * 10 ^ exponent`. Numbers far beyond the range of doubles are
infinite or zero without computing the power. -/
def nearest (significand : Nat) (exponent : Int) : Float :=
  let top : Int := exponent + (Nat.toDigits 10 significand).length
  if significand = 0 ∨ top < -400 then 0.0
  else if 400 < top then 1.0 / 0.0
  else if 0 ≤ exponent then Float.ofScientific significand false exponent.toNat
  else Float.ofScientific significand true (-exponent).toNat

def exponentPart? : List Char → Option Int
  | [] => some 0
  | mark :: rest =>
    if mark = 'e' ∨ mark = 'E' then
      let (negative, digits) :=
        match rest with
        | '-' :: digits => (true, digits)
        | '+' :: digits => (false, digits)
        | digits => (false, digits)
      if digits.isEmpty ∨ ¬ digits.all Char.isDigit then none
      else
        let size : Int := decimalValue digits
        some (if negative then -size else size)
    else none

def decimal? (chars : List Char) : Option Float :=
  let whole := chars.takeWhile Char.isDigit
  let (fraction, rest) :=
    match chars.dropWhile Char.isDigit with
    | '.' :: rest => (rest.takeWhile Char.isDigit, rest.dropWhile Char.isDigit)
    | rest => ([], rest)
  if whole.isEmpty && fraction.isEmpty then none
  else (exponentPart? rest).map fun exponent =>
    nearest (decimalValue (whole ++ fraction)) (exponent - fraction.length)

/-- What the check of a decimal literal has seen of its characters, the last one included. -/
structure Scan where
  sawDigit : Bool := false
  sawPoint : Bool := false
  sawExponent : Bool := false
  exponentDigits : Nat := 0
  previous : Char := ' '

namespace Scan

def step (s : Scan) (c : Char) : Option Scan :=
  if c.isDigit then
    if s.sawExponent then some { s with exponentDigits := s.exponentDigits + 1, previous := c }
    else some { s with sawDigit := true, previous := c }
  else if c = '.' ∧ !s.sawPoint ∧ !s.sawExponent then
    some { s with sawPoint := true, previous := c }
  else if (c = 'e' ∨ c = 'E') ∧ s.sawDigit ∧ !s.sawExponent then
    some { s with sawExponent := true, previous := c }
  else if (c = '+' ∨ c = '-') ∧ (s.previous = 'e' ∨ s.previous = 'E') then
    some { s with previous := c }
  else none

def accepts (s : Scan) : Bool :=
  s.sawDigit && (!s.sawExponent || s.exponentDigits != 0)

end Scan

/-- Whether the check of a decimal literal accepts its characters. -/
def isDecimal (chars : List Char) : Bool :=
  (chars.foldlM Scan.step {}).any Scan.accepts

def unsigned? (chars : List Char) : Option Float :=
  if chars = "Infinity".toList then some (1.0 / 0.0)
  else if isDecimal chars then decimal? chars
  else none

def value? : List Char → Option Float
  | [] => some 0.0
  | '+' :: rest => unsigned? rest
  | '-' :: rest => (unsigned? rest).map (-1.0 * ·)
  | '0' :: mark :: rest =>
    match radixOfMark? mark with
    | some radix => radixValue? radix rest
    | none => unsigned? ('0' :: mark :: rest)
  | chars => unsigned? chars

def toNumber (s : String) : Float :=
  (value? (Text.trimBlanks s.toList)).getD (0.0 / 0.0)

end NumericText

namespace Constant

def toNumber : Constant → Float
  | undefined => 0.0 / 0.0
  | null => 0.0
  | boolean b => if b then 1.0 else 0.0
  | number x => x
  | text s => NumericText.toNumber s

def toBoolean : Constant → Bool
  | undefined => false
  | null => false
  | boolean b => b
  | number x => !x.isNaN && x != 0.0
  | text s => !s.isEmpty

def toText : Constant → String
  | undefined => "undefined"
  | null => "null"
  | boolean b => toString b
  | number x => Double.scriptText x
  | text s => s

def typeName : Constant → String
  | undefined => "undefined"
  | null => "object"
  | boolean _ => "boolean"
  | number _ => "number"
  | text _ => "string"

end Constant
end Scriptc
