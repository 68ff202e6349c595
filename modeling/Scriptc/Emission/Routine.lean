import Scriptc.Code.Order
import Scriptc.Emission.Line
import Scriptc.Emission.Literal
import Scriptc.Storage.Environment

/-!
# C functions

A laid-out routine as a C function. Control falls through to the block that follows where it can.
Lines that go to a block note it, and the blocks that were noted get labels.
-/

namespace Scriptc

def functionParams : String :=
  "(StackFrame * caller, Env * env, unsigned argc, const TaggedValue * argv)"

namespace Routine

def givenName? (r : Routine) : Option String :=
  r.name.filter (!·.isEmpty)

def functionName (r : Routine) : String :=
  match r.givenName? with
  | some name => "fn" ++ toString r.id ++ "_" ++ Literal.identifierPart name
  | none => "fn" ++ toString r.id

def prototype (r : Routine) : String :=
  "static TaggedValue " ++ r.functionName ++ " " ++ functionParams ++ ";\n"

end Routine

/-- What the text of a routine depends on. -/
structure Emitter where
  unit : CodeUnit
  routine : Routine
  layout : Layout

namespace Emitter

abbrev Result := Except Fault

def param (id : ParamId) : String :=
  if id = 0 then "argv[0]"
  else "(argc > " ++ toString id ++ " ? argv[" ++ toString id ++ "] : JS_UNDEFINED_VALUE)"

def cell (id : LocalId) : String :=
  "locals[" ++ toString id ++ "]"

def maxLocals : Nat := 0x100000000

variable (e : Emitter)

def slotText (id : SlotId) : Result String :=
  let place := e.layout.argSlotBase + id
  if place < maxLocals then .ok (cell place) else .error .tooLarge

def variableText (id : VariableId) : Result String := do
  let v ← e.unit.getVariable id
  let own : Bool := id.routine == e.routine.id
  match v.storage, own with
  | some (.cell place), true => .ok (cell place)
  | some (.param place), true => .ok (param place)
  | some (.environment index), true => .ok ("escaped->vars[" ++ toString index ++ "]")
  | some (.environment index), false =>
    let links ← e.unit.hops e.routine.id id.routine
    .ok ("env" ++ String.join (List.replicate links "->parent") ++ "->vars[" ++
      toString index ++ "]")
  | storage, _ => .error (.unreachableStorage v.name id.routine e.routine.id storage)

def constant : Constant → Result String
  | .undefined => .ok "JS_UNDEFINED_VALUE"
  | .null => .ok "JS_NULL_VALUE"
  | .boolean b => .ok (if b then "JS_TRUE_VALUE" else "JS_FALSE_VALUE")
  | .number x => .ok ("js_make_number(" ++ Literal.number x ++ ")")
  | .text s =>
    match e.unit.stringId? s with
    | some id => .ok ("js_string_const(&frame, " ++ toString id ++ ")")
    | none => .error (.notInterned s)

def operand : Operand → Result String
  | .cell id => .ok (cell id)
  | .slot id => e.slotText id
  | .param id => .ok (param id)
  | .var id => e.variableText id
  | .constant value => e.constant value

def closureEnv : String :=
  if 0 < e.layout.envSize then "escaped" else "env"

def routineName (id : RoutineId) : Result String :=
  Routine.functionName <$> e.unit.routine id

def spliceText (e : Emitter) (bindings : List Operand) : List SplicePart → Result String
  | [] => .ok ""
  | part :: rest => do
    let text ←
      match part with
      | .text s => .ok s
      | .binding index =>
        match bindings[index]? with
        | some a => e.operand a
        | none => .error .outOfRange
    return text ++ (← e.spliceText bindings rest)

def callText (callee : Callee) (argc : Nat) : Result String := do
  let args := toString argc ++ ", &" ++ cell e.layout.argSlotBase
  match callee with
  | .indirect value => return "js_call(&frame, " ++ (← e.operand value) ++ ", " ++ args ++ ");"
  | .pinned _ copy => return "js_call(&frame, " ++ (← e.operand copy) ++ ", " ++ args ++ ");"
  | .construct value =>
    return "js_construct(&frame, " ++ (← e.operand value) ++ ", " ++ args ++ ");"
  | .direct routine closure =>
    let name ← e.routineName routine
    return name ++ "(&frame, js_closure_env(" ++ (← e.operand closure) ++ "), " ++ args ++ ");"

def instructionText : Instruction → Result String
  | .closure dest routine => do
    let dest ← e.operand dest
    let name ← e.routineName routine
    return dest ++ " = js_new_closure(&frame, " ++ e.closureEnv ++ ", " ++ name ++ ");"
  | .newObject dest => return (← e.operand dest) ++ " = js_new_object(&frame);"
  | .newArray dest length =>
    return (← e.operand dest) ++ " = js_new_array(&frame, " ++ toString length ++ ");"
  | .newArguments dest => return (← e.operand dest) ++ " = js_new_arguments(&frame, argc, argv);"
  | .loadThrown dest => return (← e.operand dest) ++ " = frame.thrown;"
  | .endTry index => return "JS_TRY_END(&frame, &tryRecs[" ++ toString index ++ "]);"
  | .splice bindings _ parts => e.spliceText bindings parts
  | .assign dest source => do
    let dest ← e.operand dest
    return dest ++ " = " ++ (← e.operand source) ++ ";"
  | .binary op dest left right => do
    let dest ← e.operand dest
    let left ← e.operand left
    let right ← e.operand right
    return dest ++ " = js_" ++ op.mnemonic ++ "(&frame, " ++ left ++ ", " ++ right ++ ");"
  | .unary op dest argument => do
    let dest ← e.operand dest
    let argument ← e.operand argument
    return dest ++ " = js_" ++ op.mnemonic ++ "(&frame, " ++ argument ++ ");"
  | .get dest object key => do
    let dest ← e.operand dest
    let object ← e.operand object
    let key ← e.operand key
    return dest ++ " = js_get(&frame, " ++ object ++ ", " ++ key ++ ");"
  | .put object key value => do
    let object ← e.operand object
    let key ← e.operand key
    let value ← e.operand value
    return "js_put(&frame, " ++ object ++ ", " ++ key ++ ", " ++ value ++ ");"
  | .call dest callee argc => do
    let target ←
      match dest with
      | some dest => (· ++ " = ") <$> e.operand dest
      | none => .ok ""
    return target ++ (← e.callText callee argc)

/-- Lines by which control passes on, and the blocks noted as ones that a line goes to. -/
structure Passage where
  lines : List Line := []
  targets : List BlockId := []

def passTo (block : BlockId) (next : Option BlockId) : Passage :=
  if some block = next then {} else { lines := [.goto block], targets := [block] }

def Passage.cons (line : Line) (noted : List BlockId) (p : Passage) : Passage :=
  { lines := line :: p.lines, targets := noted ++ p.targets }

def branchLines (condition : String) (onTrue onFalse : BlockId) (next : Option BlockId) :
    Passage :=
  if onTrue = onFalse then (passTo onTrue next).cons (.discard condition) []
  else if some onTrue = next then
    { lines := [.gotoIf condition false onFalse], targets := [onFalse] }
  else (passTo onFalse next).cons (.gotoIf condition true onTrue) [onTrue]

def choiceLines (e : Emitter) : List (Int × Label) → Result Passage
  | [] => .ok {}
  | (key, label) :: rest => do
    let block ← e.routine.target label
    return (← e.choiceLines rest).cons (.choice key block) [block]

/-- The lines for the jump of a block before the block `next`, to which control falls through. -/
def jumpLines (jump : Jump) (next : Option BlockId) : Result Passage :=
  match jump with
  | .ret value => return { lines := [.ret (← e.operand value)] }
  | .throw value => return { lines := [.throw (← e.operand value)] }
  | .goto label => return passTo (← e.routine.target label) next
  | .beginTry index onCatch onBody => do
    let onCatch ← e.routine.target onCatch
    let onBody ← e.routine.target onBody
    let condition := "JS_TRY_BEGIN(&frame, &tryRecs[" ++ toString index ++ "])"
    return (passTo onBody next).cons (.gotoIf condition true onCatch) [onCatch]
  | .switch value cases default => do
    let value ← e.operand value
    let rows ← e.choiceLines cases
    let default ← e.routine.target default
    return { lines := .choose value :: rows.lines ++ [.otherwise default, .endChoose]
             targets := rows.targets ++ [default] }
  | .ifTrue value onTrue onFalse => do
    let value ← e.operand value
    let onTrue ← e.routine.target onTrue
    let onFalse ← e.routine.target onFalse
    return branchLines ("js_is_true(" ++ value ++ ")") onTrue onFalse next
  | .ifCompare op left right onTrue onFalse => do
    if !op.isRelationalBranch then throw (.wrongBranch op)
    let left ← e.operand left
    let right ← e.operand right
    let onTrue ← e.routine.target onTrue
    let onFalse ← e.routine.target onFalse
    let condition := "js_" ++ op.mnemonic ++ "(&frame, " ++ left ++ ", " ++ right ++ ")"
    return branchLines condition onTrue onFalse next

def instructionLines (e : Emitter) : List Instruction → Result (List Line)
  | [] => .ok []
  | i :: rest => do
    let text ← e.instructionText i
    return .code text :: (← e.instructionLines rest)

def blockLines (block : BlockId) (next : Option BlockId) : Result Passage := do
  match e.routine.blocks[block]? with
  | none => .error .outOfRange
  | some b =>
    let body ← e.instructionLines b.body.toList
    match b.jump with
    | some jump =>
      let last ← e.jumpLines jump next
      return { last with lines := body ++ last.lines }
    | none => .error (.noTerminator block)

/-- The lines of blocks in order, and all blocks that were noted on the way. -/
def orderedLines (e : Emitter) : List BlockId → Result (List (BlockId × List Line) × List BlockId)
  | [] => .ok ([], [])
  | block :: rest => do
    let own ← e.blockLines block rest.head?
    let (later, targets) ← e.orderedLines rest
    return ((block, own.lines) :: later, own.targets ++ targets)

/-- Labels are written last, when it is known which blocks lines go to. -/
def withLabels (targets : List BlockId) (blocks : List (BlockId × List Line)) : List Line :=
  blocks.flatMap fun (block, lines) =>
    if targets.contains block then .label block :: lines else lines

end Emitter

namespace Routine

variable (r : Routine)

def heading : String :=
  let place := if r.parent.isNone then "top level " else ""
  let name :=
    match r.givenName? with
    | some name => Literal.comment name
    | none => "<anonymous>"
  "/* " ++ place ++ name ++ " */\n"

def preamble (layout : Layout) : String :=
  let count := toString layout.localCount
  "  StackFrame frame;\n" ++
    "  TaggedValue locals[" ++ count ++ "];\n" ++
    "  js_enter_frame(&frame, caller, " ++ count ++ ", locals);\n" ++
    (if 0 < layout.envSize then
      "  Env * escaped = js_new_env(&frame, env, " ++ toString layout.envSize ++ ");\n"
    else "") ++
    if 0 < r.tryCount then "  TryRecord tryRecs[" ++ toString r.tryCount ++ "];\n" else ""

def bodyLines (unit : CodeUnit) (layout : Layout) : Except Fault (List Line) := do
  let order ← r.blockOrder
  let e : Emitter := { unit, routine := r, layout }
  let (blocks, targets) ← e.orderedLines order
  return Emitter.withLabels targets blocks

def emit (unit : CodeUnit) : Except Fault String := do
  let layout ← r.getLayout
  let lines ← r.bodyLines unit layout
  return r.heading ++ "static TaggedValue " ++ r.functionName ++ " " ++ functionParams ++
    "\n\x7b\n" ++ r.preamble layout ++ String.join (lines.map Line.text) ++ "\x7d\n"

end Routine
end Scriptc
