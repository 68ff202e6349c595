import Scriptc.Path.Basic

/-!
# File trees

A directory with everything below it. Paths are followed component by component, so that a parent
component needs the directory that it leaves.
-/

namespace Scriptc

/-- Why a file cannot be used, as the system words it. -/
structure FileError where
  details : String
  code : Nat
deriving DecidableEq, Repr

namespace FileError

def notFound : FileError :=
  { details := "No such file or directory", code := 2 }

def notDirectory : FileError :=
  { details := "Not a directory", code := 20 }

def isDirectory : FileError :=
  { details := "Is a directory", code := 21 }

def nameTooLong : FileError :=
  { details := "File name too long", code := 36 }

def known : List FileError :=
  [notFound, notDirectory, isDirectory, nameTooLong]

def ofCode (code : Nat) (details : String) : FileError :=
  (known.find? (·.code == code)).getD { details, code }

def message (e : FileError) : String :=
  e.details ++ " (os error " ++ toString e.code ++ ")"

end FileError

/-- Where a walk along a path stands. -/
inductive TreePosition where
  /-- At the end of segments below the directory of a tree. -/
  | inside (segments : List String)
  | outside
deriving DecidableEq, Repr

namespace TreePosition

def maxName : Nat := 255

def parent : TreePosition → TreePosition
  | inside [] | outside => outside
  | inside segments => inside segments.dropLast

def child (directory : TreePosition) (name : String) : Except FileError (List String) :=
  if maxName < name.utf8ByteSize then .error .nameTooLong
  else
    match directory with
    | inside segments => .ok (segments ++ [name])
    | outside => .error .notFound

end TreePosition

/-- What a path means before it is known whether it is there. -/
structure Destination where
  /-- The directory of the last component, or the one that it means itself. -/
  directory : TreePosition
  /-- The last component, unless it is a dot or a parent component. -/
  name : Option String
  slash : Bool
deriving DecidableEq, Repr

/-- What is below a directory: files with their contents, and directories. -/
structure FileTree where
  files : List (List String × String)
  directories : List (List String)

namespace FileTree

def empty : FileTree :=
  { files := [], directories := [] }

variable (tree : FileTree)

def add (name contents : String) : FileTree :=
  let segments := (Path.ofText name).segments
  if name.toList.getLast? = some '/' then
    { tree with directories := segments :: tree.directories }
  else { tree with files := (segments, contents) :: tree.files }

def ofList (files : List (String × String)) : FileTree :=
  files.foldl (fun tree (name, contents) => tree.add name contents) empty

def hasDirectory (segments : List String) : Bool :=
  segments.isEmpty || tree.directories.any segments.isPrefixOf ||
    tree.files.any fun (name, _) => segments.isPrefixOf name && segments != name

def contents? (segments : List String) : Option String :=
  tree.files.lookup segments

def enter (directory : TreePosition) (component : String) :
    Except FileError TreePosition :=
  if component = "." then .ok directory
  else if component = Path.up then .ok directory.parent
  else do
    let segments ← directory.child component
    if tree.hasDirectory segments then .ok (.inside segments)
    else if (tree.contents? segments).isSome then .error .notDirectory
    else .error .notFound

/-- Follows the components of a path from a directory. The last name is not looked up, because it
may be that of a new file. -/
def follow (tree : FileTree) (slash : Bool) (directory : TreePosition) :
    List String → Except FileError Destination
  | [] => .ok { directory, name := none, slash }
  | [component] =>
    if component = "." || component = Path.up then do
      return { directory := ← tree.enter directory component, name := none, slash }
    else .ok { directory, name := some component, slash }
  | component :: rest => do
    tree.follow slash (← tree.enter directory component) rest

def maxPath : Nat := 4095

def locate (text : String) : Except FileError Destination :=
  if text.isEmpty then .error .notFound
  else if maxPath < text.utf8ByteSize then .error .nameTooLong
  else
    tree.follow (text.toList.getLast? == some '/')
      (if Path.isAbsoluteText text then .outside else .inside [])
      ((Path.splitSlashes [] text.toList).filter (· != ""))

def read (text : String) : Except FileError String := do
  let destination ← tree.locate text
  match destination.name with
  | none => .error .isDirectory
  | some name =>
    let segments ← destination.directory.child name
    match tree.contents? segments with
    | some contents => if destination.slash then .error .notDirectory else .ok contents
    | none => .error (if tree.hasDirectory segments then .isDirectory else .notFound)

def isFile (text : String) : Bool :=
  (tree.read text).isOk

/-- Writes a file, whose directory has to be there. A name with a slash after it can only be that of
a directory. -/
def write (text contents : String) : Except FileError FileTree := do
  let destination ← tree.locate text
  match destination.name, destination.slash with
  | none, _ | some _, true => .error .isDirectory
  | some name, false =>
    let segments ← destination.directory.child name
    if tree.hasDirectory segments then .error .isDirectory
    else
      let others := tree.files.filter (·.1 != segments)
      .ok { tree with files := (segments, contents) :: others }

end FileTree
end Scriptc
