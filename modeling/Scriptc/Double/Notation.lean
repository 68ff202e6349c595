import Scriptc.Double.Shortest

/-!
# Writing decimals

The layouts in which a shortest decimal is written. Data files take the even one of two equally near
decimals, all other texts the upper one.
-/

namespace Scriptc
namespace Decimal

variable (d : Decimal)

def digitChars : List Char :=
  Nat.toDigits 10 d.digits

def point : Int :=
  d.exponent + d.digitChars.length

def zeros (count : Nat) : List Char :=
  List.replicate count '0'

def positional : List Char :=
  let digits := d.digitChars
  let point := d.point
  if point ≤ 0 then '0' :: '.' :: zeros (-point).toNat ++ digits
  else if digits.length ≤ point.toNat then digits ++ zeros (point.toNat - digits.length)
  else digits.take point.toNat ++ '.' :: digits.drop point.toNat

/-- One digit, a point before any further digits, and the mark with the exponent. A non-negative
exponent has the sign that `plus` gives. -/
def scientific (plus : List Char) : List Char :=
  let exponent := d.point - 1
  let power := Nat.toDigits 10 exponent.natAbs
  let mantissa :=
    match d.digitChars with
    | [] => []
    | [digit] => [digit]
    | digit :: rest => digit :: '.' :: rest
  mantissa ++ 'e' :: (if exponent < 0 then '-' :: power else plus ++ power)

def pointed : List Char :=
  if 0 ≤ d.exponent then d.positional ++ ['.', '0'] else d.positional

end Decimal

namespace Double

variable (x : Float)

def signed (text : List Char) : String :=
  String.ofList (if isNegative x then '-' :: text else text)

def positionalText : String :=
  signed x (if x == 0.0 then ['0'] else (shortest x .upper).positional)

def scientificText : String :=
  signed x (if x == 0.0 then ['0', 'e', '0'] else (shortest x .upper).scientific [])

/-- The text of a finite number in a data file: positional with a point for leading exponents from
`-5` to `15`, otherwise with a signed exponent. -/
def dataText : String :=
  signed x <|
    if x == 0.0 then ['0', '.', '0']
    else
      let d := shortest x .even
      if -5 < d.point ∧ d.point ≤ 16 then d.pointed else d.scientific ['+']

/-- The text of any number in a fault: positional with a point from `0.0001` up to `10 ^ 16`,
otherwise with an exponent. -/
def faultText : String :=
  if x.isNaN then "NaN"
  else signed x <|
    if x.isInf then ['i', 'n', 'f']
    else if x == 0.0 then ['0', '.', '0']
    else
      let d := shortest x .upper
      if -4 < d.point ∧ d.point ≤ 16 then d.pointed else d.scientific []

/-- The text of a number as the script language converts it to a string: positional up to
`10 ^ 21` and down to `10 ^ -6`, otherwise with a signed exponent. Zero has no sign. -/
def scriptText : String :=
  if x.isNaN then "NaN"
  else if x == 0.0 then "0"
  else signed x <|
    if x.isInf then "Infinity".toList
    else
      let d := shortest x .upper
      if -6 < d.point ∧ d.point ≤ 21 then d.positional else d.scientific ['+']

end Double
end Scriptc
