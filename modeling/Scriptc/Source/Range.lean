/-!
# Ranges of source text

Places in a source are byte ranges. Lines and columns are worked out from the text when a place is
shown.
-/

namespace Scriptc

/-- A byte range; `stop` is the first byte after it. -/
structure TextRange where
  start : Nat
  stop : Nat
deriving DecidableEq, Repr, Inhabited

namespace TextRange

def maxOffset : Nat := 0xffffffff

def ofOffsets (start stop : Nat) : TextRange :=
  { start := min start maxOffset, stop := min stop maxOffset }

def length (r : TextRange) : Nat :=
  r.stop - r.start

def isEmpty (r : TextRange) : Bool :=
  r.stop ≤ r.start

end TextRange

/-- A range in one of the files of a compilation, which are numbered from zero. -/
structure Span where
  file : Nat
  range : TextRange
deriving DecidableEq, Repr, Inhabited

end Scriptc
