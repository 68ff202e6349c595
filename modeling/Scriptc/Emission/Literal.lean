import Scriptc.Double.Notation
import Scriptc.Text.Bytes

/-!
# Literals of C

Strings, comments, numbers and identifiers in generated C text.
-/

namespace Scriptc
namespace Literal

/-- A byte as a backslash and three octal digits, so that a digit after it is not taken in. -/
def octalEscape (byte : UInt8) : List Char :=
  let digit (n : Nat) : Char := Char.ofNat ('0'.toNat + n % 8)
  ['\\', digit (byte.toNat / 64), digit (byte.toNat / 8), digit byte.toNat]

/-- How a byte is written inside a string literal. Question marks are escaped, since a pair of them
could start a trigraph. -/
def stringByte (byte : UInt8) : List Char :=
  let c := Char.ofNat byte.toNat
  match c with
  | '\\' => ['\\', '\\']
  | '"' => ['\\', '"']
  | '\n' => ['\\', 'n']
  | '\r' => ['\\', 'r']
  | '\t' => ['\\', 't']
  | '?' => ['\\', '?']
  | _ => if 0x20 ≤ byte ∧ byte ≤ 0x7e then [c] else octalEscape byte

def stringBody (bytes : List UInt8) : List Char :=
  bytes.flatMap stringByte

def ofBytes (bytes : List UInt8) : String :=
  String.ofList ('"' :: stringBody bytes ++ ['"'])

def ofString (s : String) : String :=
  ofBytes (Text.bytes s)

def isControl (c : Char) : Bool :=
  c.toNat < 0x20 || (0x7f ≤ c.toNat && c.toNat < 0xa0)

def commentChars : List Char → List Char
  | '*' :: '/' :: rest => '*' :: '\\' :: '/' :: commentChars rest
  | '/' :: '*' :: rest => '/' :: '\\' :: '*' :: commentChars rest
  | c :: rest => (if isControl c then ' ' else c) :: commentChars rest
  | [] => []

def comment (s : String) : String :=
  String.ofList (commentChars s.toList)

def exactLimit : Nat := 0x20000000000000

def number (x : Float) : String :=
  if x.isNaN then "NAN"
  else if x.isInf then (if Double.isNegative x then "-INFINITY" else "INFINITY")
  else if x == 0.0 && Double.isNegative x then "-0.0"
  else if Double.isIntegral x then
    if (Double.truncate x).natAbs < exactLimit then toString (Double.truncate x)
    else Double.scientificText x
  else Double.positionalText x

def identifierPart (name : String) : String :=
  String.ofList (name.toList.map fun c => if c.isAlphanum then c else '_')

end Literal
end Scriptc
