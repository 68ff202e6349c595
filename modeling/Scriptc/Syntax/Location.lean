import Scriptc.Source.Lines
import Scriptc.Source.Range

/-!
# Locations of syntax

Where a node of a syntax tree stands in its source.
-/

namespace Scriptc

/-- A line, counted from one, and a column, counted from zero. -/
structure Position where
  line : Nat
  column : Nat
deriving DecidableEq, Repr

/-- The place of a node. Whoever produced the tree may have given the position of its start. -/
structure Location where
  range : TextRange
  givenStart : Option Position
deriving DecidableEq, Repr, Inhabited

namespace Location

def ofRange (start stop : Nat) : Location :=
  { range := { start, stop }, givenStart := none }

def nowhere : Location :=
  ofRange 0 0

def startPosition? (loc : Location) (source : Option SourceText) : Option Position :=
  match loc.givenStart, source with
  | some position, _ => some position
  | none, some text =>
    let place := text.lineColumn loc.range.start
    some { line := place.line, column := place.column - 1 }
  | none, none => none

end Location
end Scriptc
