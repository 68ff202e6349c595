/-!
# Paths

Paths whose segments are divided by slashes. Runs of slashes count as one, a slash at the end means
nothing, and so does a single dot.
-/

namespace Scriptc

/-- A path: segments from the root or from wherever the path is used. -/
structure Path where
  absolute : Bool
  segments : List String
deriving DecidableEq, Repr

namespace Path

def up : String := ".."

/-- The segments between slashes; `current` holds the characters of the last one, reversed. -/
def splitSlashes (current : List Char) : List Char → List String
  | [] => [String.ofList current.reverse]
  | '/' :: rest => String.ofList current.reverse :: splitSlashes [] rest
  | c :: rest => splitSlashes (c :: current) rest

def isAbsoluteText (text : String) : Bool :=
  text.toList.head? == some '/'

def ofText (text : String) : Path :=
  { absolute := isAbsoluteText text,
    segments := (splitSlashes [] text.toList).filter fun s => s != "" && s != "." }

/-- One more segment on a path whose segments are in normal form, the last one first. A parent
segment takes back an ordinary one; at the root it means nothing. -/
def pushSegment (absolute : Bool) (done : List String) (segment : String) : List String :=
  if segment = up then
    match done with
    | last :: rest => if last = up then up :: done else rest
    | [] => if absolute then [] else [up]
  else segment :: done

def normalize (p : Path) : Path :=
  { p with segments := (p.segments.foldl (pushSegment p.absolute) []).reverse }

def toText (p : Path) : String :=
  let body := String.intercalate "/" p.segments
  if p.absolute then "/" ++ body else if p.segments.isEmpty then "." else body

def normalizeText (text : String) : String :=
  (ofText text).normalize.toText

def joinText (directory text : String) : String :=
  if isAbsoluteText text then text
  else if directory.isEmpty || directory.toList.getLast? == some '/' then directory ++ text
  else directory ++ "/" ++ text

def stem? (p : Path) : Option String :=
  match p.segments.getLast? with
  | none => none
  | some name =>
    if name = up then none
    else
      let beforeDot := (name.toList.reverse.dropWhile (· ≠ '.')).drop 1
      if beforeDot.isEmpty then some name else some (String.ofList beforeDot.reverse)

def directory (p : Path) : Path :=
  { p with segments := p.segments.dropLast }

end Path
end Scriptc
