import Scriptc.Path.Basic

/-!
# Finding modules

What file a module request means.
-/

namespace Scriptc

structure Resolution where
  /-- The file, or the place where it was looked for. -/
  path : String
  found : Bool
deriving DecidableEq, Repr

/-- Finds modules: from the directory of the requesting file and the specifier in the request. -/
abbrev Resolver := String → String → Resolution

namespace Resolver

def ofTable (table : List (String × String)) : Resolver := fun _ specifier =>
  match table.lookup specifier with
  | some path => { path, found := true }
  | none => { path := specifier, found := false }

def isPath (specifier : String) : Bool :=
  "./".toList.isPrefixOf specifier.toList || "../".toList.isPrefixOf specifier.toList ||
    specifier == "." || specifier == ".." || Path.isAbsoluteText specifier

def candidates (searchDirs : List String) (fromDir specifier : String) : List String :=
  if isPath specifier then [Path.normalizeText (Path.joinText fromDir specifier)]
  else searchDirs.map fun dir => Path.normalizeText (Path.joinText dir specifier)

def fileForms (base : String) : List String :=
  [base, base ++ ".js", Path.joinText base "index.js"]

def ofFiles (isFile : String → Bool) (searchDirs : List String) : Resolver :=
  fun fromDir specifier =>
    let candidates := candidates searchDirs fromDir specifier
    match (candidates.flatMap fileForms).find? isFile with
    | some path => { path := Path.normalizeText path, found := true }
    | none => { path := candidates.head?.getD specifier, found := false }

end Resolver
end Scriptc
