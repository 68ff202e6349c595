/-!
# White space of the script language

The characters that are dropped around a string before it is read as a number.
-/

namespace Scriptc
namespace Text

/-- Line ends, tabs, the byte order mark and every space separator, together with the next-line
control, which the numeric reading of strings skips as well. -/
def isBlank (c : Char) : Bool :=
  match c.toNat with
  | 0x0009 | 0x000A | 0x000B | 0x000C | 0x000D | 0x0020 => true
  | 0x0085 | 0x00A0 | 0x1680 | 0x2028 | 0x2029 | 0x202F | 0x205F | 0x3000 | 0xFEFF => true
  | n => 0x2000 ≤ n && n ≤ 0x200A

def trimBlanks (chars : List Char) : List Char :=
  ((chars.dropWhile isBlank).reverse.dropWhile isBlank).reverse

end Text
end Scriptc
