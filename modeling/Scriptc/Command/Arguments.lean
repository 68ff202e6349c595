/-!
# Arguments of the command

The words after the name of the command: one input file, and options. The value of an option is the
next word, or follows in the same word.
-/

namespace Scriptc

/-- When diagnostics are colored. -/
inductive ColorChoice where
  | auto
  | always
  | never
deriving DecidableEq, Repr

namespace ColorChoice

def ofName? : String → Option ColorChoice
  | "auto" => some auto
  | "always" => some always
  | "never" => some never
  | _ => none

def isColored (choice : ColorChoice) (onTerminal : Bool) : Bool :=
  match choice with
  | auto => onTerminal
  | always => true
  | never => false

end ColorChoice

inductive CommandOption where
  | source
  | output
  | strict
  | noMain
  | moduleName
  | runtimeHeader
  | searchDir
  | emitBlocks
  | trace
  | color
deriving DecidableEq, Repr

namespace CommandOption

def all : List CommandOption := [
  .source, .output, .strict, .noMain, .moduleName, .runtimeHeader, .searchDir, .emitBlocks, .trace,
  .color]

def name : CommandOption → String
  | source => "source"
  | output => "output"
  | strict => "strict"
  | noMain => "no-main"
  | moduleName => "module-name"
  | runtimeHeader => "runtime-header"
  | searchDir => "search-dir"
  | emitBlocks => "emit-hir"
  | trace => "trace"
  | color => "color"

def letter? : CommandOption → Option Char
  | source => some 's'
  | output => some 'o'
  | _ => none

def hasValue : CommandOption → Bool
  | strict | noMain | emitBlocks | trace => false
  | _ => true

def isRepeatable : CommandOption → Bool
  | searchDir => true
  | _ => false

def accepts (option : CommandOption) (value : String) : Bool :=
  match option with
  | source | output | searchDir => !value.isEmpty
  | color => (ColorChoice.ofName? value).isSome
  | _ => true

def ofName? (s : String) : Option CommandOption :=
  all.find? fun option => option.name = s

def ofLetter? (c : Char) : Option CommandOption :=
  all.find? fun option => option.letter? = some c

end CommandOption

/-- Why arguments are not taken. -/
inductive UsageError where
  | help
  | unexpected (word : String)
  | missingValue (option : CommandOption)
  | wrongValue (option : CommandOption) (value : String)
  | repeated (option : CommandOption)
  | missingInput
deriving DecidableEq, Repr

namespace UsageError

def message : UsageError → String
  | help => "Usage: compile-js [OPTIONS] <INPUT>"
  | unexpected word => "error: unexpected argument '" ++ word ++ "' found"
  | missingValue option => "error: a value is required for '--" ++ option.name ++ "'"
  | wrongValue option value =>
    "error: invalid value '" ++ value ++ "' for '--" ++ option.name ++ "'"
  | repeated option =>
    "error: the argument '--" ++ option.name ++ "' cannot be used multiple times"
  | missingInput => "error: the input file was not provided"

end UsageError

structure Arguments where
  input : String
  /-- The options with their values, in the order given. -/
  given : List (CommandOption × String)
deriving DecidableEq, Repr

namespace Arguments

def has (a : Arguments) (option : CommandOption) : Bool :=
  a.given.any (·.1 == option)

def value? (a : Arguments) (option : CommandOption) : Option String :=
  a.given.lookup option

def values (a : Arguments) (option : CommandOption) : List String :=
  (a.given.filter (·.1 == option)).map (·.2)

def color (a : Arguments) : ColorChoice :=
  ((a.value? .color).bind ColorChoice.ofName?).getD .auto

structure Progress where
  input : Option String
  given : List (CommandOption × String)
  pending : Option CommandOption
  onlyFiles : Bool

namespace Progress

def start : Progress :=
  { input := none, given := [], pending := none, onlyFiles := false }

variable (p : Progress)

def addOption (option : CommandOption) (value : String) : Except UsageError Progress :=
  if p.given.any (·.1 == option) && !option.isRepeatable then .error (.repeated option)
  else if !option.accepts value then .error (.wrongValue option value)
  else .ok { p with given := p.given ++ [(option, value)], pending := none }

def addFile (word : String) : Except UsageError Progress :=
  if p.input.isSome then .error (.unexpected word)
  else if word.isEmpty then .error .missingInput
  else .ok { p with input := some word }

def addNamed (word : String) (option : CommandOption) : Option String → Except UsageError Progress
  | some value =>
    if option.hasValue then p.addOption option value else .error (.unexpected word)
  | none =>
    if option.hasValue then .ok { p with pending := some option } else p.addOption option ""

def addLong (word : String) (name : List Char) : Except UsageError Progress :=
  let value :=
    match name.dropWhile (· ≠ '=') with
    | _ :: value => some (String.ofList value)
    | [] => none
  let title := String.ofList (name.takeWhile (· ≠ '='))
  match CommandOption.ofName? title with
  | some option => p.addNamed word option value
  | none =>
    if title = "help" ∧ value.isNone then .error .help else .error (.unexpected word)

def addShort (word : String) (letter : Char) (rest : List Char) : Except UsageError Progress :=
  match CommandOption.ofLetter? letter with
  | some option =>
    match rest with
    | [] => p.addNamed word option none
    | '=' :: value | value => p.addNamed word option (some (String.ofList value))
  | none => if letter = 'h' then .error .help else .error (.unexpected word)

def addWord (word : String) : Except UsageError Progress :=
  match p.pending, p.onlyFiles, word.toList with
  | some option, _, '-' :: _ :: _ => .error (.missingValue option)
  | some option, _, _ => p.addOption option word
  | none, true, _ => p.addFile word
  | none, false, ['-', '-'] => .ok { p with onlyFiles := true }
  | none, false, '-' :: '-' :: name => p.addLong word name
  | none, false, '-' :: letter :: rest => p.addShort word letter rest
  | none, false, _ => p.addFile word

def finish : Except UsageError Arguments :=
  match p.pending, p.input with
  | some option, _ => .error (.missingValue option)
  | none, some input => .ok { input, given := p.given }
  | none, none => .error .missingInput

end Progress

def ofWords (words : List String) : Except UsageError Arguments := do
  (← words.foldlM Progress.addWord Progress.start).finish

end Arguments
end Scriptc
