/-!
# Text as bytes

The bytes of a text, their order, and the first place where one byte string occurs in another.
-/

namespace Scriptc
namespace Text

def bytes (s : String) : List UInt8 :=
  s.toList.flatMap String.utf8EncodeChar

def byteLength (chars : List Char) : Nat :=
  (chars.map Char.utf8Size).foldr (· + ·) 0

def compareBytes : List UInt8 → List UInt8 → Ordering
  | [], [] => .eq
  | [], _ :: _ => .lt
  | _ :: _, [] => .gt
  | a :: as, b :: bs => (compare a.toNat b.toNat).then (compareBytes as bs)

def find? (needle : List UInt8) : List UInt8 → Option Nat
  | [] => if needle.isEmpty then some 0 else none
  | byte :: rest =>
    if needle.isPrefixOf (byte :: rest) then some 0 else (find? needle rest).map (· + 1)

end Text
end Scriptc
