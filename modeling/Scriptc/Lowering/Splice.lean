import Scriptc.Code.Template
import Scriptc.Lowering.Targets

/-!
# Native code in lowering

A call of `__asm__` splices native code into the routine. Its arguments are options, result
bindings, input bindings, names of scratch bindings and a template over them. A call of `__asmh__`
adds a header to the unit.
-/

namespace Scriptc

/-- An entry of a binding list: its syntax and, if it is a pair, the place in second position. -/
structure SpliceEntry where
  entry : Expr
  second : Option Place

abbrev SpliceList := Option (List SpliceEntry)

structure NamedEntry where
  name : String
  loc : Location
  place : Place

/-- A name with the operand that stands for it in the native code. -/
structure SpliceBinding where
  name : String
  loc : Location
  value : Operand

namespace Expr

def elements? : Expr → Option (List (Option Expr))
  | array _ elements => some elements
  | _ => none

end Expr

namespace Lowering

def spliceName : String := "__asm__"

def headerName : String := "__asmh__"

def elementName? (element : Option Expr) : Option String :=
  element.bind Expr.constantText?

def entryName (e : Expr) (arity : Nat) : Lower (Option String) := do
  match e.elements? with
  | some elements =>
    if elements.length = arity then
      match elementName? (elements.head?.getD none) with
      | some name => pure (some name)
      | none =>
        error e.loc "__asm__ binding name must be a constant string"
        pure none
    else
      error e.loc ("__asm__ binding must be an array of " ++ toString arity)
      pure none
  | none =>
    error e.loc ("__asm__ binding must be an array of " ++ toString arity)
    pure none

def listEntries (whole : Expr) (list : SpliceList) : Lower (List SpliceEntry) := do
  match list with
  | some entries => pure entries
  | none =>
    error whole.loc "__asm__ bindings must be an array literal"
    pure []

def pairEntries : List SpliceEntry → Lower (List NamedEntry)
  | [] => pure []
  | e :: rest => do
    match ← entryName e.entry 2, e.second with
    | some name, some place =>
      return { name, loc := e.entry.loc, place } :: (← pairEntries rest)
    | some _, none =>
      error e.entry.loc "__asm__ binding is missing its expression"
      pairEntries rest
    | none, _ => pairEntries rest

def nameEntries : List SpliceEntry → Lower (List (String × Location))
  | [] => pure []
  | e :: rest => do
    match ← entryName e.entry 1 with
    | some name => return (name, e.entry.loc) :: (← nameEntries rest)
    | none => nameEntries rest

def tempBindings : List (String × Location) → Lower (List SpliceBinding)
  | [] => pure []
  | (name, loc) :: rest => do
    let value ← allocTemp
    return { name, loc, value } :: (← tempBindings rest)

def inputBindings : List NamedEntry → Lower (List SpliceBinding)
  | [] => pure []
  | e :: rest => do
    let value ← pinIf (!rest.all (·.place.whole.isSimple)) (← e.place.whole.value)
    return { name := e.name, loc := e.loc, value } :: (← inputBindings rest)

def reportDuplicates (earlier : List String) : List SpliceBinding → Lower PUnit
  | [] => pure ()
  | b :: rest => do
    if earlier.contains b.name then error b.loc ("duplicate binding '" ++ b.name ++ "'")
    reportDuplicates (b.name :: earlier) rest

def reportUses : List (SpliceBinding × Nat) → Lower PUnit
  | [] => pure ()
  | (b, count) :: rest => do
    match count with
    | 0 => error b.loc ("binding '" ++ b.name ++ "' is not used")
    | 1 => pure ()
    | n => warn b.loc ("binding '" ++ b.name ++ "' is referenced " ++ toString n ++ " times")
    reportUses rest

def writeResults : List (NamedEntry × SpliceBinding) → Lower PUnit
  | [] => pure ()
  | (e, b) :: rest => do
    let target ← e.place.evaluate false
    target.write b.value
    target.release
    writeResults rest

def releaseBindings : List SpliceBinding → Lower PUnit
  | [] => pure ()
  | b :: rest => do
    release b.value
    releaseBindings rest

def optionKey? (key : Expr) (computed : Bool) : Option String :=
  match key, computed with
  | .ident _ name, false => some name
  | key, _ => key.textLiteral?

def readOptions (isPure : Bool) : List Member → Lower Bool
  | [] => pure isPure
  | .spread loc _ :: rest => do
    error loc "invalid __asm__ option"
    readOptions isPure rest
  | .property loc key value _ computed :: rest => do
    match optionKey? key computed, value with
    | some "pure", .literal _ { value := .boolean b, .. } => readOptions b rest
    | _, _ =>
      error loc "invalid __asm__ option"
      readOptions isPure rest

def splicePurity : Expr → Lower Bool
  | .object _ members => readOptions false members
  | e => do
    error e.loc "__asm__ options must be an object literal"
    pure false

variable (loc : Location)

def emitSplice (isPure : Bool) (results : List NamedEntry)
    (bindings : List SpliceBinding) (parts : List SplicePart) (uses : List Nat) : Lower PUnit := do
  reportUses (bindings.zip uses)
  if isPure && results.isEmpty then
    modifyLog (·.report .note loc.range "pure native splice has no results and is dropped")
  else
    push (.splice (bindings.map (·.value)) results.length parts)
    writeResults (results.zip bindings)

structure SpliceCall where
  options : Expr
  results : Expr × SpliceList
  inputs : Expr × SpliceList
  scratch : Expr × SpliceList
  template : Expr

def spliceCode (call : SpliceCall) : Lower PUnit := do
  let isPure ← splicePurity call.options
  match call.template.constantText? with
  | none => error call.template.loc "__asm__ template must be a constant string"
  | some template =>
    let results ← pairEntries (← listEntries call.results.1 call.results.2)
    let resultBindings ← tempBindings (results.map fun e => (e.name, e.loc))
    let inputs ← pairEntries (← listEntries call.inputs.1 call.inputs.2)
    let inputs ← inputBindings inputs
    let scratch ← nameEntries (← listEntries call.scratch.1 call.scratch.2)
    let scratch ← tempBindings scratch
    let bindings := resultBindings ++ inputs ++ scratch
    reportDuplicates [] bindings
    match SplicePart.ofTemplate (bindings.map (·.name)) template with
    | .error e => error call.template.loc e.message
    | .ok (parts, uses) => emitSplice loc isPure results bindings parts uses
    releaseBindings bindings

def headerCode (args : List Expr) : Lower PUnit := do
  match args with
  | [text] =>
    match text.constantText? with
    | some header => inUnit (modify (·.addHeader header))
    | none => error text.loc "__asmh__ argument must be a constant string"
  | _ => error loc "__asmh__ expects exactly one argument"

def nativeCode (name : String) (args : List Expr) (lists : List SpliceList) :
    Lower PUnit := do
  if name = headerName then headerCode loc args
  else
    match args, lists with
    | [options, results, inputs, scratch, template], [_, resultList, inputList, scratchList, _] =>
      spliceCode loc
        { options, results := (results, resultList), inputs := (inputs, inputList),
          scratch := (scratch, scratchList), template }
    | _, _ => error loc "__asm__ expects 5 arguments"

def isNative (callee : Expr) : Lower Bool := do
  match callee.name? with
  | some name =>
    if name = spliceName ∨ name = headerName then
      return (← askScopes (·.lookup (← get).frame.scope name)).isNone
    else pure false
  | none => pure false

end Lowering
end Scriptc
