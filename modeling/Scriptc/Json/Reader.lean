import Scriptc.Json.Basic
import Scriptc.Text.Bytes

/-!
# Reading JSON

A reader of JSON text that stops at the first fault and knows where it stopped. Containers may be
nested 127 deep. A number is an integer where it has neither fraction nor exponent and fits 64 bits.
Any other is a float: its leading digits, as many as fit 64 bits, times or divided by one power of
ten.
-/

namespace Scriptc

inductive JsonFault where
  | endInList
  | endInObject
  | endInString
  | endInValue
  | expectedColon
  | expectedListEnd
  | expectedObjectEnd
  | expectedWord
  | expectedValue
  | invalidEscape
  | invalidNumber
  | numberOutOfRange
  | controlCharacter
  | nameNotString
  | loneSurrogate
  | trailingComma
  | trailingCharacters
  | unfinishedSurrogate
  | tooDeep
deriving DecidableEq, Repr

namespace JsonFault

def message : JsonFault → String
  | endInList => "EOF while parsing a list"
  | endInObject => "EOF while parsing an object"
  | endInString => "EOF while parsing a string"
  | endInValue => "EOF while parsing a value"
  | expectedColon => "expected `:`"
  | expectedListEnd => "expected `,` or `]`"
  | expectedObjectEnd => "expected `,` or `\x7d`"
  | expectedWord => "expected ident"
  | expectedValue => "expected value"
  | invalidEscape => "invalid escape"
  | invalidNumber => "invalid number"
  | numberOutOfRange => "number out of range"
  | controlCharacter => "control character (\\u0000-\\u001F) found while parsing a string"
  | nameNotString => "key must be a string"
  | loneSurrogate => "lone leading surrogate in hex escape"
  | trailingComma => "trailing comma"
  | trailingCharacters => "trailing characters"
  | unfinishedSurrogate => "unexpected end of hex escape"
  | tooDeep => "recursion limit exceeded"

end JsonFault

namespace Json

/-- Where reading stopped: the text not yet consumed, and whether the fault lies in its first
character rather than before it. -/
structure Stop where
  fault : JsonFault
  rest : List Char
  ahead : Bool

abbrev Reading (α : Type) := Except Stop (α × List Char)

def stop {α : Type} (fault : JsonFault) (rest : List Char) : Except Stop α :=
  .error { fault, rest, ahead := false }

def stopAhead {α : Type} (fault : JsonFault) (rest : List Char) : Except Stop α :=
  .error { fault, rest, ahead := true }

def skipBlanks : List Char → List Char
  | ' ' :: rest | '\n' :: rest | '\t' :: rest | '\r' :: rest => skipBlanks rest
  | chars => chars

def readWord : List Char → List Char → Except Stop (List Char)
  | [], rest => .ok rest
  | _ :: _, [] => stop .endInValue []
  | expected :: more, c :: rest =>
    if c = expected then readWord more rest else stop .expectedWord rest

def hexValue? (c : Char) : Option Nat :=
  if '0' ≤ c ∧ c ≤ '9' then some (c.toNat - '0'.toNat)
  else if 'a' ≤ c ∧ c ≤ 'f' then some (c.toNat - 'a'.toNat + 10)
  else if 'A' ≤ c ∧ c ≤ 'F' then some (c.toNat - 'A'.toNat + 10)
  else none

def readHex : List Char → Reading Nat
  | a :: b :: c :: d :: rest =>
    match hexValue? a, hexValue? b, hexValue? c, hexValue? d with
    | some a, some b, some c, some d => .ok (((a * 16 + b) * 16 + c) * 16 + d, rest)
    | _, _, _, _ => stop .invalidEscape rest
  | _ => stop .endInString []

/-- The character of a hexadecimal escape, whose first letter has been consumed. A character above
`U+FFFF` takes two escapes. -/
def readUnicodeEscape (chars : List Char) : Except Stop (Char × List Char) := do
  let (high, rest) ← readHex chars
  if 0xDC00 ≤ high ∧ high ≤ 0xDFFF then stop .loneSurrogate rest
  else if 0xD800 ≤ high ∧ high ≤ 0xDBFF then
    match rest with
    | [] | ['\\'] => stop .endInString []
    | '\\' :: 'u' :: rest =>
      let (low, rest) ← readHex rest
      if 0xDC00 ≤ low ∧ low ≤ 0xDFFF then
        .ok (Char.ofNat (0x10000 + (high - 0xD800) * 0x400 + (low - 0xDC00)), rest)
      else stop .loneSurrogate rest
    | '\\' :: _ :: rest | _ :: rest => stop .unfinishedSurrogate rest
  else .ok (Char.ofNat high, rest)

def readEscape : List Char → Reading Char
  | [] => stop .endInString []
  | c :: rest =>
    match c with
    | '"' | '\\' | '/' => .ok (c, rest)
    | 'b' => .ok (Char.ofNat 8, rest)
    | 'f' => .ok (Char.ofNat 12, rest)
    | 'n' => .ok ('\n', rest)
    | 'r' => .ok ('\r', rest)
    | 't' => .ok ('\t', rest)
    | 'u' => readUnicodeEscape rest
    | _ => stop .invalidEscape rest

/-- The rest of a string whose opening quote has been consumed. Every step consumes a character,
so the length of the text is enough fuel. -/
def readString : Nat → List Char → List Char → Except Stop (String × List Char)
  | 0, _, rest => stop .endInString rest
  | _ + 1, _, [] => stop .endInString []
  | fuel + 1, done, c :: rest =>
    if c = '"' then .ok (String.ofList done.reverse, rest)
    else if c = '\\' then do
      let (escaped, rest) ← readEscape rest
      readString fuel (escaped :: done) rest
    else if c.toNat < 32 then stop .controlCharacter rest
    else readString fuel (c :: done) rest

def maxInteger : Nat := 0xffffffffffffffff

/-- A run of digits: the value of its leading digits as far as they fit 64 bits with `start` before
them, the number of digits that did, the number of all digits, and the text after them. -/
def readDigits (start : Nat) (chars : List Char) : Nat × Nat × Nat × List Char :=
  let run := chars.takeWhile Char.isDigit
  let step (state : Nat × Nat × Bool) (c : Char) : Nat × Nat × Bool :=
    let (value, used, full) := state
    let next := value * 10 + (c.toNat - '0'.toNat)
    if full || maxInteger < next then (value, used, true) else (next, used + 1, false)
  let (value, used, _) := run.foldl step (start, 0, false)
  (value, used, run.length, chars.dropWhile Char.isDigit)

def powerOfTen (n : Nat) : Float :=
  Float.ofScientific 1 false n

/-- The float `significand * 10 ^ exponent`, by one multiplication or division after bringing a
very small exponent into range. The fuel bounds the steps that do so. -/
def scale : Nat → Float → Int → Option Float
  | 0, x, _ => some x
  | fuel + 1, x, exponent =>
    if exponent.natAbs ≤ 308 then
      if 0 ≤ exponent then
        let y := x * powerOfTen exponent.natAbs
        if y.isInf then none else some y
      else some (x / powerOfTen exponent.natAbs)
    else if x == 0.0 then some x
    else if 0 ≤ exponent then none
    else scale fuel (x / powerOfTen 308) (exponent + 308)

variable (negative : Bool)

variable (significand : Nat)

def floatOfParts (exponent : Int) (rest : List Char) :
    Reading JsonNumber :=
  match scale 4 (Float.ofNat significand) exponent with
  | some x => .ok (.float (if negative then -x else x), rest)
  | none => stop .numberOutOfRange rest

/-- The exponent of a number, whose mark has been consumed. An exponent too large for 32 bits is
out of range, or makes zero of a number that is zero or tiny. -/
def readExponent (exponent : Int) (chars : List Char) :
    Reading JsonNumber :=
  let (down, chars) :=
    match chars with
    | '+' :: rest => (false, rest)
    | '-' :: rest => (true, rest)
    | chars => (false, chars)
  match chars with
  | [] => stop .endInValue []
  | c :: rest =>
    if c.isDigit then
      let power : Nat := (chars.takeWhile Char.isDigit).foldl (fun n d => n * 10 + (d.toNat - 48)) 0
      let shift : Int := if down then -power else power
      let rest := chars.dropWhile Char.isDigit
      if power < 0x80000000 then floatOfParts negative significand (exponent + shift) rest
      else if significand ≠ 0 ∧ ¬ down then stop .numberOutOfRange rest
      else .ok (.float (if negative then -0.0 else 0.0), rest)
    else stop .invalidNumber rest

def readFraction (exponent : Int) (chars : List Char) :
    Reading JsonNumber :=
  match chars with
  | '.' :: rest =>
    let (value, used, all, rest) := readDigits significand rest
    if all = 0 then stopAhead (if rest.isEmpty then .endInValue else .invalidNumber) rest
    else
      match rest with
      | 'e' :: more | 'E' :: more => readExponent negative value (exponent - used) more
      | _ => floatOfParts negative value (exponent - used) rest
  | 'e' :: rest | 'E' :: rest => readExponent negative significand exponent rest
  | _ => floatOfParts negative significand exponent chars

def readNumber (chars : List Char) : Reading JsonNumber :=
  match chars with
  | [] => stop .endInValue []
  | c :: rest =>
    if ¬ c.isDigit then stop .invalidNumber rest
    else if c = '0' ∧ (rest.head?.any Char.isDigit) then stopAhead .invalidNumber rest
    else
      let (value, used, all, rest) := readDigits 0 chars
      let plain := !(rest.head?.any fun c => c == '.' || c == 'e' || c == 'E')
      if plain && used == all then
        if ¬ negative then .ok (.integer value, rest)
        else if value = 0 ∨ 0x8000000000000000 < value then
          .ok (.float (-(Float.ofNat value)), rest)
        else .ok (.integer (-value), rest)
      else readFraction negative value (all - used : Nat) rest

def readLeaf (fuel : Nat) (chars : List Char) : Reading Json :=
  match chars with
  | [] => stopAhead .endInValue []
  | 'n' :: rest => (readWord ['u', 'l', 'l'] rest).map (Json.null, ·)
  | 't' :: rest => (readWord ['r', 'u', 'e'] rest).map (Json.bool true, ·)
  | 'f' :: rest => (readWord ['a', 'l', 's', 'e'] rest).map (Json.bool false, ·)
  | '"' :: rest => (readString fuel [] rest).map fun (s, rest) => (.string s, rest)
  | '-' :: rest => (readNumber true rest).map fun (n, rest) => (.number n, rest)
  | c :: _ =>
    if c.isDigit then (readNumber false chars).map fun (n, rest) => (.number n, rest)
    else stopAhead .expectedValue chars

/-- The text from the next item or field on, which a comma stands ahead of unless it is the
first. -/
def nextEntry (close : Char) (unclosed : JsonFault) : Bool → List Char → Except Stop (List Char)
  | true, chars => .ok chars
  | false, ',' :: rest =>
    match skipBlanks rest with
    | [] => stopAhead .endInValue []
    | c :: rest => if c = close then stopAhead .trailingComma (c :: rest) else .ok (c :: rest)
  | false, chars => stopAhead unclosed chars

mutual

/-- A value. Every step consumes a character, so the length of the text is enough fuel; `depth`
counts the containers that may still be opened. -/
def readValue : Nat → Nat → List Char → Reading Json
  | 0, _, rest => stopAhead .endInValue rest
  | fuel + 1, depth, chars =>
    match skipBlanks chars with
    | '[' :: rest =>
      match depth with
      | 0 => stopAhead .tooDeep ('[' :: rest)
      | depth + 1 => (readItems fuel depth true [] rest).map fun (items, r) => (.array items, r)
    | '\x7b' :: rest =>
      match depth with
      | 0 => stopAhead .tooDeep ('\x7b' :: rest)
      | depth + 1 => (readFields fuel depth true [] rest).map fun (fields, r) => (.object fields, r)
    | chars => readLeaf fuel chars

def readItems : Nat → Nat → Bool → List Json → List Char →
    Except Stop (List Json × List Char)
  | 0, _, _, _, rest => stopAhead .endInList rest
  | fuel + 1, depth, first, done, chars =>
    match skipBlanks chars with
    | [] => stopAhead .endInList []
    | ']' :: rest => .ok (done.reverse, rest)
    | chars => do
      let (item, rest) ← readValue fuel depth (← nextEntry ']' .expectedListEnd first chars)
      readItems fuel depth false (item :: done) rest

def readFields : Nat → Nat → Bool → List (String × Json) → List Char →
    Except Stop (List (String × Json) × List Char)
  | 0, _, _, _, rest => stopAhead .endInObject rest
  | fuel + 1, depth, first, done, chars =>
    match skipBlanks chars with
    | [] => stopAhead .endInObject []
    | '\x7d' :: rest => .ok (done.reverse, rest)
    | chars => do
      match ← nextEntry '\x7d' .expectedObjectEnd first chars with
      | '"' :: rest =>
        let (name, rest) ← readString fuel [] rest
        match skipBlanks rest with
        | [] => stopAhead .endInObject []
        | ':' :: rest =>
          let (value, rest) ← readValue fuel depth rest
          readFields fuel depth false ((name, value) :: done) rest
        | chars => stopAhead .expectedColon chars
      | chars => stopAhead .nameNotString chars

end

def maxDepth : Nat := 127

def readStart (depth : Nat) (chars : List Char) : Reading Json :=
  readValue (2 * chars.length + 2) depth chars

def expectEnd (rest : List Char) : Except Stop Unit :=
  match skipBlanks rest with
  | [] => .ok ()
  | chars => stopAhead .trailingCharacters chars

def read (depth : Nat) (text : String) : Except Stop Json := do
  let (value, rest) ← readStart depth text.toList
  expectEnd rest
  return value

/-- Line, counted from one, and byte column, counted from zero, of the end of what was consumed
when `rest` is left. -/
def positionBefore (text rest : List Char) : Nat × Nat :=
  let consumed := text.take (text.length - rest.length)
  let line := consumed.reverse.takeWhile (· ≠ '\n')
  (consumed.count '\n' + 1, Text.byteLength line)

def Stop.position (text : List Char) (s : Stop) : Nat × Nat :=
  let (line, column) := positionBefore text s.rest
  (line, if s.ahead && !s.rest.isEmpty then column + 1 else column)

end Json
end Scriptc
