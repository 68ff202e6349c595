/-!
# Text as 16-bit units

A character above `U+FFFF` is two 16-bit units, both of which are smaller than the units from
`U+E000` on.
-/

namespace Scriptc
namespace Text

def charUnits (c : Char) : List Nat :=
  if c.toNat < 0x10000 then [c.toNat]
  else [0xD800 + (c.toNat - 0x10000) / 0x400, 0xDC00 + (c.toNat - 0x10000) % 0x400]

def units (s : String) : List Nat :=
  s.toList.flatMap charUnits

def compareUnits : List Nat → List Nat → Ordering
  | [], [] => .eq
  | [], _ :: _ => .lt
  | _ :: _, [] => .gt
  | a :: as, b :: bs => (compare a b).then (compareUnits as bs)

def compareByUnits (a b : String) : Ordering :=
  compareUnits (units a) (units b)

end Text
end Scriptc
