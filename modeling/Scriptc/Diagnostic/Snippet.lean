import Scriptc.Diagnostic.Basic
import Scriptc.Source.Files

/-!
# Showing diagnostics

A diagnostic is shown as a header, an excerpt of the source with the reported range marked, one
more excerpt for each further place, and its notes.
-/

namespace Scriptc

structure SnippetStyle where
  color : Bool
  maxLines : Nat

namespace SnippetStyle

def plain : SnippetStyle :=
  { color := false, maxLines := 4 }

end SnippetStyle

inductive Tint where
  | red
  | yellow
  | blue
deriving DecidableEq, Repr

namespace Tint

def escape : String := String.singleton (Char.ofNat 27)

def start : Tint → String
  | red => escape ++ "[1;31m"
  | yellow => escape ++ "[1;33m"
  | blue => escape ++ "[1;34m"

def reset : String := escape ++ "[0m"

def paint (color : Bool) (tint : Tint) (text : String) : String :=
  if color then tint.start ++ text ++ reset else text

end Tint

def Severity.tint : Severity → Tint
  | .error => .red
  | .warning => .yellow
  | .note => .blue

/-- What marks a range: the reported one, or a further place. -/
inductive Mark where
  | primary
  | secondary
deriving DecidableEq, Repr

namespace Mark

def char : Mark → Char
  | primary => '^'
  | secondary => '-'

def tint : Mark → Tint
  | primary => .red
  | secondary => .blue

end Mark

namespace Snippet

def blanks (count : Nat) : String :=
  String.ofList (List.replicate count ' ')

def padded (width n : Nat) : String :=
  blanks (width - (toString n).length) ++ toString n

/-- The lines that a range touches, counted from zero: the first one, the last one, and the last
one shown. -/
structure Extent where
  first : Nat
  last : Nat
  shownLast : Nat

variable (style : SnippetStyle)

def shownEnd (first : Nat) : Nat :=
  first + max style.maxLines 1

variable (text : SourceText)

def extent (start stop : Nat) : Extent :=
  let first := text.lineOf start
  let last := text.lineOf (if start < stop then stop - 1 else stop)
  { first, last, shownLast := min last (shownEnd style first - 1) }

def markPlace (start stop line : Nat) : Nat × Nat :=
  let (lineStart, lineStop) := text.lineBounds line
  let clampToLine (offset : Nat) : Nat := min (max offset lineStart) lineStop
  let marked := text.slice (clampToLine start) (clampToLine stop)
  ((text.slice lineStart (clampToLine start)).length, max marked.length 1)

def lineWithMarks (start stop : Nat) (mark : Mark)
    (message : String) (gutter first line : Nat) : String :=
  let (pad, width) := markPlace text start stop line
  let marks := mark.tint.paint style.color (String.ofList (List.replicate width mark.char))
  let remark := if line = first ∧ message ≠ "" then " " ++ message else ""
  padded gutter (line + 1) ++ " | " ++ String.ofList (text.lineText line) ++ "\n" ++
    blanks gutter ++ " | " ++ blanks pad ++ marks ++ remark ++ "\n"

def ofSource (file : SourceFile) (range : TextRange) (mark : Mark)
    (message : String) : String :=
  let text := file.text
  let start := text.clamp range.start
  let stop := max (text.clamp range.stop) start
  let place := text.lineColumn start
  let extent := extent style text start stop
  let gutter := (toString (extent.shownLast + 1)).length
  let lines := List.range' extent.first (extent.shownLast + 1 - extent.first)
  let hidden := extent.last - extent.shownLast
  " --> " ++ file.name ++ ":" ++ toString place.line ++ ":" ++ toString place.column ++ "\n" ++
    blanks gutter ++ " |\n" ++
    String.join (lines.map (lineWithMarks style text start stop mark message gutter
      extent.first)) ++
    if 0 < hidden then
      blanks gutter ++ " | ... (" ++ toString hidden ++ " more lines)\n"
    else ""

def ofSpan (files : SourceFiles) (span : Span) (mark : Mark)
    (message : String) : String :=
  match files.get? span.file with
  | some file => ofSource style file span.range mark message
  | none => " --> <unknown>:?:?\n  | <source unavailable>\n"

def isNumbered (files : SourceFiles) (span : Span) : Bool :=
  match files.get? span.file with
  | some file =>
    shownEnd style (file.text.lineOf (file.text.clamp span.range.start)) ≤ SourceText.maxLine
  | none => true

end Snippet

namespace Pointer

def comparePlaces (a b : Pointer) : Ordering :=
  (compare a.span.file b.span.file).then <|
  (compare a.span.range.start b.span.range.start).then <|
  compare a.span.range.stop b.span.range.stop

def sort (pointers : List Pointer) : List Pointer :=
  pointers.mergeSort fun a b => (comparePlaces a b).isLE

end Pointer

namespace Diagnostic

def render (style : SnippetStyle) (files : SourceFiles) (d : Diagnostic) : String :=
  d.severity.tint.paint style.color d.severity.word ++ "[" ++ d.code ++ "]: " ++
    d.message ++ "\n" ++ Snippet.ofSpan style files d.span .primary d.message ++
    String.join ((Pointer.sort d.pointers).map fun p =>
      Snippet.ofSpan style files p.span .secondary p.message) ++
    String.join (d.notes.map fun note => "= note: " ++ note ++ "\n")

def render? (style : SnippetStyle) (files : SourceFiles) (d : Diagnostic) : Option String :=
  let spans := d.span :: d.pointers.map Pointer.span
  if spans.all (Snippet.isNumbered style files) then some (d.render style files) else none

end Diagnostic
end Scriptc
