import Scriptc.Double.Notation
import Scriptc.Json.Basic

/-!
# Writing JSON

Two layouts of a value: all on one line, and one item or field a line with two blanks for each
level of nesting.
-/

namespace Scriptc
namespace Json

def hexDigit (n : Nat) : Char :=
  Nat.digitChar (n % 16)

def escapedChar (c : Char) : List Char :=
  match c with
  | '"' => ['\\', '"']
  | '\\' => ['\\', '\\']
  | '\n' => ['\\', 'n']
  | '\r' => ['\\', 'r']
  | '\t' => ['\\', 't']
  | _ =>
    if c.toNat = 8 then ['\\', 'b']
    else if c.toNat = 12 then ['\\', 'f']
    else if c.toNat < 32 then ['\\', 'u', '0', '0', hexDigit (c.toNat / 16), hexDigit c.toNat]
    else [c]

def stringText (s : String) : String :=
  String.ofList ('"' :: s.toList.flatMap escapedChar ++ ['"'])

def numberText : JsonNumber → String
  | .integer n => toString n
  | .float x => if x.isFinite then Double.dataText x else "null"

def leafText : Json → String
  | .bool true => "true"
  | .bool false => "false"
  | .number n => numberText n
  | .string s => stringText s
  | _ => "null"

/-- What stands ahead of an item or field, or of the end of a container, at a level of nesting. -/
def lineBreak : Option Nat → String
  | none => ""
  | some level => "\n" ++ String.ofList (List.replicate (2 * level) ' ')

mutual

/-- A value all on one line, or one that stands at a level of nesting. -/
def textAt (level : Option Nat) : Json → String
  | .array [] => "[]"
  | .array items => "[" ++ itemsText (level.map (· + 1)) items ++ lineBreak level ++ "]"
  | .object [] => "\x7b\x7d"
  | .object fields =>
    "\x7b" ++ fieldsText (level.map (· + 1)) fields ++ lineBreak level ++ "\x7d"
  | leaf => leafText leaf

def itemsText (level : Option Nat) : List Json → String
  | [] => ""
  | item :: rest =>
    lineBreak level ++ textAt level item ++ (if rest.isEmpty then "" else ",") ++
      itemsText level rest

def fieldsText (level : Option Nat) : List (String × Json) → String
  | [] => ""
  | (name, value) :: rest =>
    lineBreak level ++ stringText name ++ (if level.isSome then ": " else ":") ++
      textAt level value ++ (if rest.isEmpty then "" else ",") ++ fieldsText level rest

end

def compact : Json → String := textAt none

def pretty : Json → String := textAt (some 0)

end Json
end Scriptc
