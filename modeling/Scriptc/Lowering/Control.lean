import Scriptc.Lowering.Targets

/-!
# Control flow in lowering

The code of statements from the code of their parts. A loop or switch takes over the labels that
stand directly before it, any other statement can only be left by them.
-/

namespace Scriptc

abbrev StmtCode := List String → Lower PUnit

/-- A variable of a declaration with the code of its first value. -/
structure DeclaratorCode where
  loc : Location
  target : Pattern
  init : Option Lowered

inductive HeadCode where
  | declaration (loc : Location) (declarators : List DeclaratorCode)
  | target (p : Place)

structure CaseCode where
  test : Option Lowered
  body : Lower PUnit

/-- The part of a try statement that catches. -/
structure HandlerCode where
  param : Option Pattern
  body : Lower PUnit

/-- Why a break or continue goes nowhere. -/
inductive JumpError where
  | undefinedLabel (name : String)
  | notLoop (name : String)
  | continueOutside
  | breakOutside
deriving DecidableEq, Repr

namespace JumpError

def message : JumpError → String
  | undefinedLabel name => "undefined label '" ++ name ++ "'"
  | notLoop name => "label '" ++ name ++ "' does not name a loop"
  | continueOutside => "continue outside of a loop"
  | breakOutside => "break outside of a loop or switch"

end JumpError

namespace JumpTarget

/-- Where a break or continue with a label goes: the place in the routine, and the number of
protected regions around it. The innermost statement with the label counts. -/
def labeledDestination (targets : List JumpTarget) (name : String) (isContinue : Bool) :
    Except JumpError (Label × Nat) :=
  match targets.find? (·.names.contains name), isContinue with
  | none, _ => .error (.undefinedLabel name)
  | some t, false => .ok (t.breakLabel, t.tryDepth)
  | some t, true =>
    match t.continueLabel with
    | some label => .ok (label, t.tryDepth)
    | none => .error (.notLoop name)

/-- Where a break or continue goes. Without a label, a break leaves the innermost loop or switch,
and a continue goes on with the innermost loop. -/
def destination (targets : List JumpTarget) (name : Option String) (isContinue : Bool) :
    Except JumpError (Label × Nat) :=
  match name, isContinue with
  | some name, _ => labeledDestination targets name isContinue
  | none, true =>
    match targets.findSome? fun t => t.continueLabel.map (·, t.tryDepth) with
    | some place => .ok place
    | none => .error .continueOutside
  | none, false =>
    match targets.find? (·.breakable) with
    | some t => .ok (t.breakLabel, t.tryDepth)
    | none => .error .breakOutside

end JumpTarget

namespace Lowering

def inTarget (names : List String) (breakLabel : Label) (continueLabel : Option Label)
    (breakable : Bool) (body : Lower PUnit) : Lower PUnit := do
  modifyFrame fun f =>
    { f with targets :=
        { names, breakLabel, continueLabel, breakable, tryDepth := f.tries.length } :: f.targets }
  body
  modifyFrame fun f => { f with targets := f.targets.tail }

def loopBody (body : StmtCode) (labels : List String) (exit next : Label) : Lower PUnit :=
  inTarget labels exit (some next) true (body [])

def labeledCode (labels : List String) (code : Lower PUnit) : Lower PUnit := do
  if labels.isEmpty then code
  else
    let exit ← newLabel
    inTarget labels exit none false code
    place exit

def labelCode (label : Ident) (body : StmtCode) (labels : List String) : Lower PUnit := do
  let taken := labels.contains label.name ||
    (← get).frame.targets.any fun t => t.names.contains label.name
  if taken then error label.loc ("duplicate label '" ++ label.name ++ "'")
  body (labels ++ [label.name])

variable (loc : Location)

def expressionCode (e : Lowered) (directive : Option String) :
    Lower PUnit := do
  if directive.isNone then
    if e.expr.isPure then warn loc "expression result is unused"
    e.discard

def ifCode (test : Lowered) (whenTrue : StmtCode) (whenFalse : Option StmtCode) :
    Lower PUnit := do
  let first ← newLabel
  let second ← newLabel
  let done ← newLabel
  test.jump first second
  place first
  whenTrue []
  match whenFalse with
  | some other =>
    goto done
    place second
    other []
    place done
  | none => place second

def whileCode (test : Lowered) (body : StmtCode) (labels : List String) : Lower PUnit := do
  let head ← newLabel
  let start ← newLabel
  let exit ← newLabel
  place head
  test.jump start exit
  place start
  loopBody body labels exit head
  goto head
  place exit

def doWhileCode (body : StmtCode) (test : Lowered) (labels : List String) : Lower PUnit := do
  let start ← newLabel
  let next ← newLabel
  let exit ← newLabel
  place start
  loopBody body labels exit next
  place next
  test.jump start exit
  place exit

def declaratorsCode : List DeclaratorCode → Lower PUnit
  | [] => pure ()
  | d :: rest => do
    match d.target.name?, d.init with
    | none, init =>
      notSupported d.loc "destructuring declaration"
      discardOption init
    | some _, none => pure ()
    | some name, some init =>
      let id ← declaredBinding name d.loc
      match ← writeBinding id d.loc with
      | some dest =>
        let value ← init.value
        assign dest value
        release value
      | none => init.discard
    declaratorsCode rest

def initCode : Option HeadCode → Lower PUnit
  | none => pure ()
  | some (.declaration _ declarators) => declaratorsCode declarators
  | some (.target p) => p.whole.discard

def forCode (init : Option HeadCode) (test update : Option Lowered) (body : StmtCode)
    (labels : List String) : Lower PUnit := do
  initCode init
  let head ← newLabel
  let start ← newLabel
  let exit ← newLabel
  let next ← newLabel
  place head
  match test with
  | some test => test.jump start exit
  | none => pure ()
  place start
  loopBody body labels exit next
  place next
  discardOption update
  goto head
  place exit

def enumerateParts : List SplicePart :=
  [.binding 0, .text " = js_for_in_start(&frame, ", .binding 1, .text ");"]

def nextKeyParts : List SplicePart :=
  [.binding 0, .text " = js_for_in_next(&frame, ", .binding 2, .text ", &", .binding 1,
    .text ");"]

def bindKey (head : HeadCode) (key : Operand) : Lower PUnit := do
  match head with
  | .declaration _ [d] =>
    match d.target.name? with
    | some name =>
      if d.init.isSome then error d.loc "for-in variable cannot have an initializer"
      let id ← declaredBinding name d.loc
      match ← writeBinding id d.loc with
      | some dest => assign dest key
      | none => pure ()
    | none => notSupported d.loc "destructuring declaration"
  | .declaration loc _ => error loc "for-in requires exactly one variable"
  | .target p =>
    let target ← p.evaluate false
    target.write key
    target.release

def forInCode (head : HeadCode) (object : Lowered) (body : StmtCode) (labels : List String) :
    Lower PUnit := do
  let start ← newLabel
  let next ← newLabel
  let exit ← newLabel
  let enumerate ← newLabel
  let value ← object.value
  let _ ← inCode (Routine.branchCompare .looseEq value (.constant .null) exit enumerate)
  place enumerate
  let source ← unaryValue .toObject value
  let iterator ← allocTemp
  push (.splice [iterator, source] 1 enumerateParts)
  release source
  place next
  let more ← allocTemp
  let key ← allocTemp
  push (.splice [more, key, iterator] 2 nextKeyParts)
  let _ ← inCode (Routine.branchTrue more start exit)
  release more
  place start
  bindKey head key
  release key
  loopBody body labels exit next
  goto next
  place exit
  release iterator

def forOfCode (object : Lowered) (body : StmtCode) (labels : List String) :
    Lower PUnit := do
  object.discard
  let next ← newLabel
  let exit ← newLabel
  place next
  loopBody body labels exit next
  place exit
  notSupported loc "for-of loop"

def endTries : List Nat → Lower PUnit
  | [] => pure ()
  | index :: rest => do
    push (.endTry index)
    endTries rest

def leaveTries (depth : Nat) : Lower PUnit := do
  let tries := (← get).frame.tries
  if tries.length < depth then throw .outOfRange
  endTries (tries.take (tries.length - depth))

def jumpCode (label : Option Ident) (isContinue : Bool) : Lower PUnit := do
  match JumpTarget.destination (← get).frame.targets (label.map (·.name)) isContinue with
  | .ok (destination, depth) =>
    leaveTries depth
    goto destination
  | .error e => error loc e.message

def returnCode (argument : Option Lowered) : Lower PUnit := do
  let value ←
    match argument with
    | some e => e.value
    | none => pure .undefined
  if (← get).frame.isTop then
    error loc "return outside of a function"
    release value
  else
    leaveTries 0
    inCode (Routine.ret value)
    release value

def throwCode (argument : Lowered) : Lower PUnit := do
  let value ← argument.value
  inCode (Routine.setJump (.throw value))
  release value

/-- The number that a case test stands for in a jump table: an integer of 32 bits, but not negative
zero, which a table cannot tell from zero. -/
def tableKey? : Expr → Option Int
  | .literal _ { value := .number x, .. } =>
    if x.isFinite && Double.isIntegral x && !(x == 0.0 && Double.isNegative x) then
      let n := Double.truncate x
      if -0x80000000 ≤ n ∧ n < 0x80000000 then some n else none
    else none
  | _ => none

def jumpTable? : List (CaseCode × Label) → Option (List (Int × Label))
  | [] => some []
  | (c, label) :: rest =>
    match c.test with
    | none => jumpTable? rest
    | some test => do
      let key ← tableKey? test.expr
      let table ← jumpTable? rest
      some ((key, label) :: table)

def distinctKeys (table : List (Int × Label)) : Bool :=
  decide (table.map (·.1)).Nodup

def testCases (value : Operand) : List (CaseCode × Label) → Lower PUnit
  | [] => pure ()
  | (c, label) :: rest => do
    match c.test with
    | none => pure ()
    | some test =>
      let v ← test.value
      let next ← newLabel
      let _ ← inCode (Routine.branchCompare .strictEq value v label next)
      release v
      place next
    testCases value rest

def caseLabels : List CaseCode → Lower (List (CaseCode × Label))
  | [] => pure []
  | c :: rest => do
    let label ← newLabel
    return (c, label) :: (← caseLabels rest)

def caseBodies : List (CaseCode × Label) → Lower PUnit
  | [] => pure ()
  | (c, label) :: rest => do
    place label
    c.body
    caseBodies rest

def usableTable? (value : Operand) (cases : List (CaseCode × Label)) :
    Option (List (Int × Label)) :=
  if value.isConstant then none else (jumpTable? cases).filter distinctKeys

def switchCode (discriminant : Lowered) (cases : List CaseCode)
    (labels : List String) : Lower PUnit := do
  let value ← discriminant.value
  if cases.isEmpty then
    warn loc "empty switch statement"
    release value
  else
    let value ← pin value
    let exit ← newLabel
    let cases ← caseLabels cases
    let default := ((cases.find? (·.1.test.isNone)).map (·.2)).getD exit
    match usableTable? value cases with
    | some table => inCode (Routine.setJump (.switch value table default))
    | none =>
      testCases value cases
      goto default
    release value
    inTarget labels exit none true (caseBodies cases)
    place exit

def bindThrown (scope : ScopeId) : Option Pattern → Lower PUnit
  | none => pure ()
  | some p => do
    match p.name? with
    | none => notSupported p.loc "destructuring catch parameter"
    | some name =>
      let id ← newVariable scope name none
      modifyBinding id fun b => { b with declared := true, initialized := true }
      match ← writeBinding id p.loc with
      | some dest => push (.loadThrown dest)
      | none => pure ()

def handlerCode (handler : HandlerCode) : Lower PUnit := do
  let frame := (← get).frame
  let scope ← inScopes (ScopeTree.newScope (some frame.scope) frame.routine false)
  modifyFrame fun f => { f with scope }
  bindThrown scope handler.param
  handler.body
  modifyFrame fun f => { f with scope := frame.scope }

def rethrow : Lower PUnit := do
  let t ← allocTemp
  push (.loadThrown t)
  inCode (Routine.setJump (.throw t))
  release t

def tryCode (block : Lower PUnit) (handler : Option HandlerCode)
    (finalizer : Option (Lower PUnit)) : Lower PUnit := do
  let index ← inCode Routine.newTryIndex
  let start ← newLabel
  let onCatch ← newLabel
  let done ← newLabel
  inCode (Routine.setJump (.beginTry index onCatch start))
  place start
  modifyFrame fun f => { f with tries := index :: f.tries }
  block
  modifyFrame fun f => { f with tries := f.tries.tail }
  push (.endTry index)
  goto done
  place onCatch
  match handler with
  | some h => handlerCode h
  | none => rethrow
  place done
  match finalizer with
  | some body =>
    body
    notSupported loc "finally"
  | none => pure ()

end Lowering
end Scriptc
