import Scriptc.Text.Bytes

/-!
# Lines of a source text

Byte offsets as lines and columns. Columns count characters. An offset past the end counts as the
end, and one inside a character as that character's start. Line numbers are words, so there is a
largest one.
-/

namespace Scriptc

/-- A text that is addressed by byte offsets. -/
structure SourceText where
  chars : List Char

/-- A line and a column, both counted from one. -/
structure LineColumn where
  line : Nat
  column : Nat
deriving DecidableEq, Repr

namespace Text

/-- A run of characters cut at the last character boundary that is not after a byte offset. -/
def cutAt : List Char → Nat → List Char × List Char
  | [], _ => ([], [])
  | c :: rest, offset =>
    if c.utf8Size ≤ offset then
      let (before, after) := cutAt rest (offset - c.utf8Size)
      (c :: before, after)
    else ([], c :: rest)

def offsetsAfterNewlines (offset : Nat) : List Char → List Nat
  | [] => []
  | c :: rest =>
    let next := offset + c.utf8Size
    if c = '\n' then next :: offsetsAfterNewlines next rest else offsetsAfterNewlines next rest

end Text

namespace SourceText

def ofString (s : String) : SourceText :=
  { chars := s.toList }

variable (t : SourceText)

def byteSize : Nat :=
  Text.byteLength t.chars

def slice (start stop : Nat) : List Char :=
  (Text.cutAt (Text.cutAt t.chars start).2 (stop - start)).1

def clamp (offset : Nat) : Nat :=
  Text.byteLength (Text.cutAt t.chars offset).1

def lineStarts : List Nat :=
  0 :: Text.offsetsAfterNewlines 0 t.chars

def lineCount : Nat :=
  t.lineStarts.length

def lineOf (offset : Nat) : Nat :=
  t.lineStarts.countP (· ≤ min offset t.byteSize) - 1

/-- The byte bounds of a line, counted from zero, without its line end. A line that does not exist
is empty and at the end. -/
def lineBounds (line : Nat) : Nat × Nat :=
  let starts := t.lineStarts
  let start := starts[line]?.getD t.byteSize
  let stop :=
    match starts[line + 1]? with
    | some next => next - 1
    | none => t.byteSize
  let trimmed := if (t.slice start stop).getLast? = some '\r' then stop - 1 else stop
  (start, max trimmed start)

def lineText (line : Nat) : List Char :=
  let (start, stop) := t.lineBounds line
  t.slice start stop

def maxLine : Nat := 0xffffffffffffffff

/-- The byte bounds of a line, which are found by the start of the next one; none for the largest
line number, which has no next one. -/
def lineBounds? (line : Nat) : Option (Nat × Nat) :=
  if line < maxLine then some (t.lineBounds line) else none

def lineText? (line : Nat) : Option (List Char) :=
  if line < maxLine then some (t.lineText line) else none

def lineColumn (offset : Nat) : LineColumn :=
  let place := t.clamp offset
  let line := t.lineOf place
  let (start, stop) := t.lineBounds line
  { line := line + 1, column := (t.slice start (max (min place stop) start)).length + 1 }

end SourceText
end Scriptc
