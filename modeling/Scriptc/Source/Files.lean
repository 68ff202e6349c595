import Scriptc.Source.Lines
import Scriptc.Source.Range

/-!
# Source files

The names and texts of the files of a compilation, numbered in the order in which they were added.
-/

namespace Scriptc

structure SourceFile where
  name : String
  text : SourceText

structure SourceFiles where
  files : List SourceFile

namespace SourceFiles

def empty : SourceFiles :=
  { files := [] }

def add (s : SourceFiles) (name text : String) : SourceFiles :=
  { files := s.files ++ [{ name, text := SourceText.ofString text }] }

def get? (s : SourceFiles) (file : Nat) : Option SourceFile :=
  s.files[file]?

def lineColumn? (s : SourceFiles) (file offset : Nat) : Option LineColumn :=
  (s.get? file).map (·.text.lineColumn offset)

end SourceFiles
end Scriptc
