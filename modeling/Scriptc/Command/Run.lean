import Scriptc.Code.Dump
import Scriptc.Command.Arguments
import Scriptc.Compilation
import Scriptc.Diagnostic.Snippet
import Scriptc.Path.FileTree
import Scriptc.Syntax.Loading

/-!
# Runs of the command

What the command does with its arguments and with files, whatever the files are kept in.
-/

namespace Scriptc

structure FileAccess (m : Type → Type) where
  read : String → m (Except FileError String)
  isFile : String → m Bool
  write : String → String → m (Except FileError PUnit)

namespace FileAccess

def ofTree : FileAccess (StateM FileTree) where
  read path := return (← get).read path
  isFile path := return (← get).isFile path
  write path contents := do
    match (← get).write path contents with
    | .ok tree =>
      set tree
      pure (.ok ())
    | .error e => pure (.error e)

end FileAccess

/-- What a run leaves behind besides files. -/
structure Outcome where
  code : Nat
  output : String
  reports : String
deriving DecidableEq, Repr

namespace Outcome

def failure (report : String) : Outcome :=
  { code := 1, output := "", reports := report ++ "\n" }

def refused (e : UsageError) : Outcome :=
  match e with
  | .help => { code := 0, output := e.message ++ "\n", reports := "" }
  | _ => { code := 2, output := "", reports := e.message ++ "\n" }

def broken (fault : Fault) : Outcome :=
  { code := 101, output := "", reports := fault.message?.getD "number out of range" ++ "\n" }

end Outcome

namespace Arguments

def moduleName (a : Arguments) : String :=
  (a.value? .moduleName).getD ((Path.ofText a.input).stem?.getD "main")

variable (a : Arguments)

def compileOptions : CompileOptions :=
  { strict := a.has .strict, moduleName := a.moduleName,
    runtimeHeader := (a.value? .runtimeHeader).getD CompileOptions.standard.runtimeHeader,
    emitMain := !a.has .noMain }

def fromDir : String :=
  (Path.ofText a.input).directory.toText

def answers (isFile : String → Bool) : Requests.Answers :=
  { resolver := .ofFiles isFile (a.values .searchDir), fromDir := a.fromDir }

def specifiers (p : Program) : List String :=
  let everything : Requests.Answers :=
    { resolver := fun _ specifier => { path := specifier, found := true }, fromDir := "" }
  (p.answerRequests everything).2.dependencies.toList.map (·.specifier)

def probes (p : Program) : List String :=
  (specifiers p).flatMap fun specifier =>
    (Resolver.candidates (a.values .searchDir) a.fromDir specifier).flatMap Resolver.fileForms

/-- The result of the command's work: the diagnostics, and the text to write if there is one. -/
structure Work where
  diagnostics : List Diagnostic
  text : Option String

def work (p : Program) (isFile : String → Bool) : Except Fault Work := do
  let answers := a.answers isFile
  if a.has .emitBlocks then
    let analysis ← p.analyze a.compileOptions answers 0
    return { diagnostics := analysis.log.sorted, text := analysis.unit.map CodeUnit.dumpText }
  else
    match ← p.compile a.compileOptions answers 0 with
    | .ok compiled => return { diagnostics := compiled.diagnostics, text := some compiled.text }
    | .error diagnostics => return { diagnostics, text := none }

def reports (onTerminal : Bool) (files : SourceFiles)
    (diagnostics : List Diagnostic) : String :=
  let style := { SnippetStyle.plain with color := a.color.isColored onTerminal }
  String.join (diagnostics.map fun d => d.render style files ++ "\n")

end Arguments

namespace Command

variable {m : Type → Type} [Monad m]

def unreadable (path : String) (e : FileError) : String :=
  "failed to read " ++ path ++ ": " ++ e.message

def sourceOf (files : FileAccess m) (a : Arguments) : m (Except String (String × String)) := do
  match a.value? .source with
  | none => pure (.ok (a.input, ""))
  | some path =>
    match ← files.read path with
    | .ok text => pure (.ok (path, text))
    | .error e => pure (.error (unreadable path e))

def deliver (files : FileAccess m) (a : Arguments) (reports : String) :
    Option String → m Outcome
  | none => pure { code := 1, output := "", reports }
  | some text => do
    match a.value? .output with
    | none => pure { code := 0, output := text, reports }
    | some path =>
      match ← files.write path text with
      | .ok _ => pure { code := 0, output := "", reports }
      | .error e =>
        pure { code := 1, output := "",
               reports := reports ++ "failed to write output: " ++ e.message ++ "\n" }

def runProgram (files : FileAccess m) (onTerminal : Bool) (a : Arguments) (p : Program) :
    m Outcome := do
  match ← sourceOf files a with
  | .error report => pure (.failure report)
  | .ok (name, text) =>
    let found ← (a.probes p).filterM files.isFile
    match a.work p found.contains with
    | .error fault => pure (.broken fault)
    | .ok work =>
      let reports := a.reports onTerminal (SourceFiles.empty.add name text) work.diagnostics
      deliver files a reports work.text

def run (files : FileAccess m) (onTerminal : Bool) (words : List String) : m Outcome := do
  match Arguments.ofWords words with
  | .error e => pure (.refused e)
  | .ok a =>
    match ← files.read a.input with
    | .error e => pure (.failure (unreadable a.input e))
    | .ok text =>
      match Program.ofText text with
      | .error fault =>
        pure (.failure (a.input ++ " is not a valid ESTree program: " ++ fault.message text))
      | .ok p => runProgram files onTerminal a p

end Command
end Scriptc
