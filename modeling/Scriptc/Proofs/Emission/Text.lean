import Mathlib.Data.List.Forall2
import Scriptc.Emission.CodeUnit
import Scriptc.Proofs.Code.Chart
import Scriptc.Proofs.Results

/-!
# The text of functions

The text of a function is that of its lines, between the declarations of its storage. A line is
proper if each place, string and function that its text names is there. An emitter that is given
proper operands writes proper lines.
-/

namespace Scriptc

open List

/-! ## Lines and declarations -/

/-- The text of a line. A line that goes to a block names its label. -/
inductive Line.Spelled : Line → String → Prop
  | label {block : BlockId} : Spelled (.label block) ("B" ++ toString block ++ ":\n")
  | code {text : String} : Spelled (.code text) ("  " ++ text ++ "\n")
  | discard {test : String} : Spelled (.discard test) ("  (void)(" ++ test ++ ");\n")
  | ret {value : String} :
      Spelled (.ret value) ("  return js_leave_frame(&frame, " ++ value ++ ");\n")
  | throw {value : String} : Spelled (.throw value) ("  js_throw(&frame, " ++ value ++ ");\n")
  | goto {block : BlockId} : Spelled (.goto block) ("  goto " ++ ("B" ++ toString block) ++ ";\n")
  | gotoIf {test : String} {block : BlockId} : Spelled (.gotoIf test true block)
      ("  if (" ++ test ++ ") goto " ++ ("B" ++ toString block) ++ ";\n")
  | gotoUnless {test : String} {block : BlockId} : Spelled (.gotoIf test false block)
      ("  if (" ++ ("!(" ++ test ++ ")") ++ ") goto " ++ ("B" ++ toString block) ++ ";\n")
  | choose {value : String} :
      Spelled (.choose value) ("  switch (js_switch_key(&frame, " ++ value ++ ")) \x7b\n")
  | choice {key : Int} {block : BlockId} : Spelled (.choice key block)
      ("    case " ++ toString key ++ ": goto " ++ ("B" ++ toString block) ++ ";\n")
  | otherwise {block : BlockId} :
      Spelled (.otherwise block) ("    default: goto " ++ ("B" ++ toString block) ++ ";\n")
  | endChoose : Spelled .endChoose "  \x7d\n"

lemma Line.spelled (line : Line) : line.Spelled line.text := by
  cases line with
  | gotoIf test wanted block =>
    cases wanted with
    | true => exact .gotoIf
    | false => exact .gotoUnless
  | _ => constructor

namespace Routine

/-- Whether a text is the function of a routine with certain lines. The locals, the environment and
the records of protected regions are declared with the sizes that the routine has. -/
def Spells (r : Routine) (layout : Layout) (lines : List Line) (text : String) : Prop :=
  ∃ texts, List.Forall₂ Line.Spelled lines texts ∧
    text = r.heading ++ "static TaggedValue " ++ r.functionName ++ " " ++
      "(StackFrame * caller, Env * env, unsigned argc, const TaggedValue * argv)" ++ "\n\x7b\n" ++
      ("  StackFrame frame;\n" ++
        "  TaggedValue locals[" ++ toString layout.localCount ++ "];\n" ++
        "  js_enter_frame(&frame, caller, " ++ toString layout.localCount ++ ", locals);\n" ++
        (if 0 < layout.envSize then
          "  Env * escaped = js_new_env(&frame, env, " ++ toString layout.envSize ++ ");\n"
        else "") ++
        if 0 < r.tryCount then "  TryRecord tryRecs[" ++ toString r.tryCount ++ "];\n" else "") ++
      String.join texts ++ "\x7d\n"

lemma emit_eq {r : Routine} {u : CodeUnit} {layout : Layout} (laid : r.layout = some layout) :
    ∃ text : List Line → String, r.emit u = text <$> r.bodyLines u layout ∧
      ∀ lines, r.Spells layout lines (text lines) := by
  have known : r.getLayout = .ok layout := by simp [getLayout, laid]
  unfold emit
  rw [known]
  refine ⟨_, rfl, fun lines => ⟨lines.map Line.text, ?_, rfl⟩⟩
  exact forall₂_map_right_iff.mpr (forall₂_same.mpr fun line _ => line.spelled)

end Routine

/-! ## What a text may name -/

def CodeUnit.functionNames (u : CodeUnit) : List String :=
  u.routines.toList.map Routine.functionName

namespace Emitter

/-- A place that can be written: a local of the function, a place of its own environment, which is
there if it has any, or a place of an environment around it. -/
inductive Place (e : Emitter) : String → Prop
  | cell {k : Nat} (inside : k < e.layout.localCount) : Place e ("locals[" ++ toString k ++ "]")
  | own {k : Nat} (inside : k < e.layout.envSize) : Place e ("escaped->vars[" ++ toString k ++ "]")
  | outer {id : RoutineId} {owner : Routine} {layout : Layout} {k links : Nat}
      (found : e.unit.routines[id]? = some owner) (laid : owner.layout = some layout)
      (inside : k < layout.envSize) (reached : e.unit.hops e.routine.id id = .ok links) :
      Place e ("env" ++ String.join (replicate links "->parent") ++ "->vars[" ++
        toString k ++ "]")

/-- A value: a place, the receiver, a parameter that is read only if it was passed, a string of the
table, or another constant. -/
inductive Value (e : Emitter) : String → Prop
  | place {text : String} (place : e.Place text) : Value e text
  | receiver : Value e "argv[0]"
  | param {id : ParamId} (later : id ≠ 0) : Value e
      ("(argc > " ++ toString id ++ " ? argv[" ++ toString id ++ "] : JS_UNDEFINED_VALUE)")
  | string {id : Nat}
      (inside : id < (StringTable.ofStrings e.unit.strings.toList).entries.size) :
      Value e ("js_string_const(&frame, " ++ toString id ++ ")")
  | number {x : Float} : Value e ("js_make_number(" ++ Literal.number x ++ ")")
  | word {text : String} (known : text ∈
      ["JS_UNDEFINED_VALUE", "JS_NULL_VALUE", "JS_TRUE_VALUE", "JS_FALSE_VALUE"]) : Value e text

/-- The arguments of a call, which are as many locals as it passes. -/
inductive Arguments (e : Emitter) : String → Prop
  | locals {argc : Nat} (inside : e.layout.argSlotBase + argc ≤ e.layout.localCount) :
      Arguments e (toString argc ++ ", &" ++ ("locals[" ++ toString e.layout.argSlotBase ++ "]"))

/-- A call: of a value, as a constructor or not, or of a function by its name. -/
inductive Call (e : Emitter) : String → Prop
  | indirect {value args : String} (callee : e.Value value) (passed : e.Arguments args) :
      Call e ("js_call(&frame, " ++ value ++ ", " ++ args ++ ");")
  | construct {value args : String} (callee : e.Value value) (passed : e.Arguments args) :
      Call e ("js_construct(&frame, " ++ value ++ ", " ++ args ++ ");")
  | direct {name closure args : String} (known : name ∈ e.unit.functionNames)
      (callee : e.Value closure) (passed : e.Arguments args) :
      Call e (name ++ "(&frame, js_closure_env(" ++ closure ++ "), " ++ args ++ ");")

/-- The text for a part of a splice. Bindings that take results are places. -/
inductive Piece (e : Emitter) (results : Nat) : SplicePart → String → Prop
  | text {text : String} : Piece e results (.text text) text
  | binding {index : Nat} {text : String} (value : e.Value text)
      (place : index < results → e.Place text) : Piece e results (.binding index) text

/-- The statement for an instruction. What it assigns is a place. -/
inductive Statement (e : Emitter) : String → Prop
  | closure {dest env name : String} (place : e.Place dest) (known : name ∈ e.unit.functionNames)
      (inner : env = if 0 < e.layout.envSize then "escaped" else "env") :
      Statement e (dest ++ " = js_new_closure(&frame, " ++ env ++ ", " ++ name ++ ");")
  | object {dest : String} (place : e.Place dest) :
      Statement e (dest ++ " = js_new_object(&frame);")
  | array {dest : String} {length : Nat} (place : e.Place dest) :
      Statement e (dest ++ " = js_new_array(&frame, " ++ toString length ++ ");")
  | arguments {dest : String} (place : e.Place dest) :
      Statement e (dest ++ " = js_new_arguments(&frame, argc, argv);")
  | thrown {dest : String} (place : e.Place dest) : Statement e (dest ++ " = frame.thrown;")
  | endTry {index : Nat} (inside : index < e.routine.tryCount) :
      Statement e ("JS_TRY_END(&frame, &tryRecs[" ++ toString index ++ "]);")
  | splice {bindings : List Operand} {results : Nat} {parts : List SplicePart}
      {pieces : List String} (stands : e.routine.Has (.splice bindings results parts))
      (shown : List.Forall₂ (e.Piece results) parts pieces) : Statement e (String.join pieces)
  | assign {dest value : String} (place : e.Place dest) (source : e.Value value) :
      Statement e (dest ++ " = " ++ value ++ ";")
  | binary {op : Opcode} {dest left right : String} (place : e.Place dest)
      (first : e.Value left) (second : e.Value right) :
      Statement e (dest ++ " = js_" ++ op.mnemonic ++ "(&frame, " ++ left ++ ", " ++ right ++ ");")
  | unary {op : Opcode} {dest value : String} (place : e.Place dest)
      (argument : e.Value value) :
      Statement e (dest ++ " = js_" ++ op.mnemonic ++ "(&frame, " ++ value ++ ");")
  | get {dest object key : String} (place : e.Place dest) (first : e.Value object)
      (second : e.Value key) :
      Statement e (dest ++ " = js_get(&frame, " ++ object ++ ", " ++ key ++ ");")
  | put {object key value : String} (first : e.Value object) (second : e.Value key)
      (third : e.Value value) :
      Statement e ("js_put(&frame, " ++ object ++ ", " ++ key ++ ", " ++ value ++ ");")
  | call {target call : String} (kept : target = "" ∨ ∃ dest, e.Place dest ∧ target = dest ++ " = ")
      (called : e.Call call) : Statement e (target ++ call)

/-- The test of a jump. -/
inductive Test (e : Emitter) : String → Prop
  | truth {value : String} (shown : e.Value value) : Test e ("js_is_true(" ++ value ++ ")")
  | compare {op : Opcode} {left right : String} (first : e.Value left)
      (second : e.Value right) :
      Test e ("js_" ++ op.mnemonic ++ "(&frame, " ++ left ++ ", " ++ right ++ ")")
  | beginTry {index : Nat} (inside : index < e.routine.tryCount) :
      Test e ("JS_TRY_BEGIN(&frame, &tryRecs[" ++ toString index ++ "])")

def Proper (e : Emitter) : Line → Prop
  | .code text => e.Statement text
  | .discard test => e.Test test
  | .gotoIf test _ _ => e.Test test
  | .ret value => e.Value value
  | .throw value => e.Value value
  | .choose value => e.Value value
  | _ => True

/-- Whether a text is the function of the emitter's routine and all its lines are proper. -/
def Writes (e : Emitter) (text : String) : Prop :=
  ∃ lines, e.routine.Spells e.layout lines text ∧ ∀ line ∈ lines, e.Proper line

/-! ## Writing lines -/

/-- Whether a step gives a result of some kind. Only where there are more locals than can be told
apart, it may give none, and the routine is refused. -/
def Gives {α : Type} (e : Emitter) (step : Result α) (post : α → Prop) : Prop :=
  (∃ a, step = .ok a ∧ post a) ∨ maxLocals < e.layout.localCount ∧ step = .error .tooLarge

namespace Gives

variable {α β : Type} {e : Emitter} {step : Result α} {post : α → Prop}

protected lemma ok {a : α} (holds : post a) : e.Gives (.ok a) post := .inl ⟨a, rfl, holds⟩

protected lemma bind {next : α → Result β} {last : β → Prop} (first : e.Gives step post)
    (rest : ∀ a, post a → e.Gives (next a) last) : e.Gives (step >>= next) last := by
  rcases first with ⟨a, rfl, holds⟩ | ⟨many, rfl⟩
  · exact rest a holds
  · exact .inr ⟨many, rfl⟩

protected lemma map {change : α → β} {last : β → Prop} (first : e.Gives step post)
    (holds : ∀ a, post a → last (change a)) : e.Gives (change <$> step) last := by
  rcases first with ⟨a, rfl, here⟩ | ⟨many, rfl⟩
  · exact .ok (holds a here)
  · exact .inr ⟨many, rfl⟩

lemma mono {weaker : α → Prop} (gives : e.Gives step post) (weakens : ∀ a, post a → weaker a) :
    e.Gives step weaker :=
  gives.imp_left fun ⟨a, run, holds⟩ => ⟨a, run, weakens a holds⟩

lemma of_eq {a : α} (run : step = .ok a) : e.Gives step fun _ => True := .inl ⟨a, run, trivial⟩

lemma succeeds (gives : e.Gives step post) (countable : e.layout.localCount ≤ maxLocals) :
    ∃ a, step = .ok a := by
  rcases gives with ⟨a, run, -⟩ | ⟨many, -⟩
  · exact ⟨a, run⟩
  · exact absurd many (Nat.not_lt.mpr countable)

lemma holds {a : α} (gives : e.Gives step post) (run : step = .ok a) : post a := by
  rcases gives with ⟨b, run', here⟩ | ⟨-, stops⟩
  · obtain rfl : a = b := by simpa [run] using run'
    exact here
  · simp [run] at stops

end Gives

/-- Whether the numbers in an instruction are within what the routine and its unit have. -/
def Refers (e : Emitter) : Instruction → Prop
  | .closure _ routine => routine < e.unit.routines.size
  | .call _ callee argc => e.layout.argSlotBase + argc ≤ e.layout.localCount ∧
      ∀ routine closure, callee = .direct routine closure → routine < e.unit.routines.size
  | .splice bindings _ parts => ∀ index, .binding index ∈ parts → index < bindings.length
  | .endTry index => index < e.routine.tryCount
  | _ => True

section

variable {e : Emitter}

lemma routineName_gives {id : RoutineId} (inside : id < e.unit.routines.size) :
    e.Gives (e.routineName id) (· ∈ e.unit.functionNames) := by
  refine .inl ⟨e.unit.routines[id].functionName, ?_, ?_⟩
  · simp [routineName, CodeUnit.routine, Array.getElem?_eq_getElem inside, Functor.map, Except.map]
  · exact mem_map_of_mem (Array.mem_toList_iff.mpr (Array.getElem_mem inside))

lemma spliceText_gives {bindings : List Operand} {results : Nat} {parts : List SplicePart}
    (operands : ∀ index (inside : index < bindings.length), e.Gives (e.operand bindings[index])
      fun text => e.Value text ∧ (index < results → e.Place text))
    (inside : ∀ index, .binding index ∈ parts → index < bindings.length) :
    e.Gives (e.spliceText bindings parts) fun text => ∃ pieces,
      List.Forall₂ (e.Piece results) parts pieces ∧ String.join pieces = text := by
  induction parts with
  | nil => exact .ok ⟨[], .nil, rfl⟩
  | cons part rest ih =>
    have later := ih fun index mem => inside index (mem_cons_of_mem _ mem)
    cases part with
    | text first =>
      refine later.bind fun text shown => ?_
      obtain ⟨pieces, all, rfl⟩ := shown
      exact .ok ⟨first :: pieces, .cons .text all, String.join_cons⟩
    | binding index =>
      have bound := inside index mem_cons_self
      simp only [spliceText, getElem?_eq_getElem bound]
      refine (operands index bound).bind fun first known => later.bind fun text shown => ?_
      obtain ⟨pieces, all, rfl⟩ := shown
      exact .ok ⟨first :: pieces, .cons (.binding known.1 known.2) all, String.join_cons⟩

lemma callText_gives {callee : Callee} {argc : Nat}
    (operand : e.Gives (e.operand callee.operand) e.Value)
    (inside : e.layout.argSlotBase + argc ≤ e.layout.localCount)
    (found : ∀ routine closure, callee = .direct routine closure → routine < e.unit.routines.size) :
    e.Gives (e.callText callee argc) e.Call := by
  cases callee with
  | indirect value | pinned _ value =>
    exact operand.bind fun _ shown => .ok (.indirect shown (.locals inside))
  | construct value => exact operand.bind fun _ shown => .ok (.construct shown (.locals inside))
  | direct routine closure =>
    exact (routineName_gives (found routine closure rfl)).bind fun _ known =>
      operand.bind fun _ shown => .ok (.direct known shown (.locals inside))

lemma instructionText_gives {i : Instruction} (stands : e.routine.Has i) (refers : e.Refers i)
    (operands : ∀ a ∈ i.operands, e.Gives (e.operand a) e.Value)
    (dests : ∀ a ∈ i.dests, e.Gives (e.operand a) e.Place) :
    e.Gives (e.instructionText i) e.Statement := by
  simp only [Instruction.operands, Instruction.dests] at operands dests
  cases i with
  | closure dest routine =>
    exact (dests dest (by simp)).bind fun _ place => (routineName_gives refers).bind fun _ known =>
      .ok (.closure place known rfl)
  | newObject dest => exact (dests dest (by simp)).bind fun _ place => .ok (.object place)
  | newArray dest => exact (dests dest (by simp)).bind fun _ place => .ok (.array place)
  | newArguments dest => exact (dests dest (by simp)).bind fun _ place => .ok (.arguments place)
  | loadThrown dest => exact (dests dest (by simp)).bind fun _ place => .ok (.thrown place)
  | endTry index => exact .ok (.endTry refers)
  | splice bindings results parts =>
    have each (index : Nat) (inside : index < bindings.length) :
        e.Gives (e.operand bindings[index]) fun text =>
          e.Value text ∧ (index < results → e.Place text) := by
      by_cases early : index < results
      · have listed : bindings[index] ∈ bindings.take results :=
          mem_take_iff_getElem.mpr ⟨index, by omega, rfl⟩
        exact (dests _ listed).mono fun _ place => ⟨.place place, fun _ => place⟩
      · exact (operands _ (getElem_mem inside)).mono fun _ shown =>
          ⟨shown, fun within => absurd within early⟩
    refine (spliceText_gives each refers).mono ?_
    rintro _ ⟨pieces, all, rfl⟩
    exact .splice stands all
  | assign dest source =>
    exact (dests dest (by simp)).bind fun _ place => (operands source (by simp)).bind fun _ shown =>
      .ok (.assign place shown)
  | unary op dest argument =>
    exact (dests dest (by simp)).bind fun _ place =>
      (operands argument (by simp)).bind fun _ shown => .ok (.unary place shown)
  | binary op dest left right =>
    exact (dests dest (by simp)).bind fun _ place => (operands left (by simp)).bind fun _ first =>
      (operands right (by simp)).bind fun _ second => .ok (.binary place first second)
  | get dest object key =>
    exact (dests dest (by simp)).bind fun _ place => (operands object (by simp)).bind fun _ first =>
      (operands key (by simp)).bind fun _ second => .ok (.get place first second)
  | put object key value =>
    exact (operands object (by simp)).bind fun _ first => (operands key (by simp)).bind
      fun _ second => (operands value (by simp)).bind fun _ third => .ok (.put first second third)
  | call dest callee argc =>
    have called : e.Gives (e.callText callee argc) e.Call :=
      callText_gives (operands callee.operand (by simp)) refers.1 refers.2
    cases dest with
    | none => exact called.bind fun _ shown => .ok (.call (.inl rfl) shown)
    | some dest =>
      exact ((dests dest (by simp)).map fun _ place => ⟨_, place, rfl⟩).bind fun _ kept =>
        called.bind fun _ shown => .ok (.call (.inr kept) shown)

lemma instructionLines_gives {body : List Instruction}
    (texts : ∀ i ∈ body, e.Gives (e.instructionText i) e.Statement) :
    e.Gives (e.instructionLines body) fun lines => ∀ line ∈ lines, e.Proper line := by
  induction body with
  | nil => exact .ok (by simp)
  | cons first rest ih =>
    exact (texts first mem_cons_self).bind fun _ shown =>
      (ih fun i mem => texts i (mem_cons_of_mem _ mem)).bind fun _ later =>
        .ok (forall_mem_cons.mpr ⟨shown, later⟩)

lemma passTo_proper (block : BlockId) (next : Option BlockId) :
    ∀ line ∈ (passTo block next).lines, e.Proper line := by
  rw [passTo]
  split
  · simp
  · simp [Proper]

lemma branchLines_proper {test : String} (shown : e.Test test) (onTrue onFalse : BlockId)
    (next : Option BlockId) :
    ∀ line ∈ (branchLines test onTrue onFalse next).lines, e.Proper line := by
  rw [branchLines]
  split
  · exact forall_mem_cons.mpr ⟨shown, passTo_proper onTrue next⟩
  · split
    · exact forall_mem_singleton.mpr shown
    · exact forall_mem_cons.mpr ⟨shown, passTo_proper onFalse next⟩

lemma choiceLines_gives {cases : List (Int × Label)}
    (placed : ∀ label ∈ cases.map (·.2), ∃ k, e.routine.target label = .ok k) :
    e.Gives (e.choiceLines cases) fun p => ∀ line ∈ p.lines, e.Proper line := by
  induction cases with
  | nil => exact .ok (by simp)
  | cons first rest ih =>
    obtain ⟨block, target⟩ := placed first.2 mem_cons_self
    exact (Gives.of_eq target).bind fun _ _ =>
      (ih fun label mem => placed label (mem_cons_of_mem _ mem)).bind fun _ later =>
        .ok (forall_mem_cons.mpr ⟨trivial, later⟩)

lemma jumpLines_gives {jump : Jump} (next : Option BlockId)
    (operands : ∀ a ∈ jump.operands, e.Gives (e.operand a) e.Value)
    (placed : ∀ label ∈ jump.targets, ∃ k, e.routine.target label = .ok k)
    (compares : ∀ op left right onTrue onFalse, jump = .ifCompare op left right onTrue onFalse →
      op.isRelationalBranch = true)
    (region : ∀ index onCatch onBody, jump = .beginTry index onCatch onBody →
      index < e.routine.tryCount) :
    e.Gives (e.jumpLines jump next) fun p => ∀ line ∈ p.lines, e.Proper line := by
  have target (label : Label) (mem : label ∈ jump.targets) :
      e.Gives (e.routine.target label) fun _ => True := by
    obtain ⟨block, found⟩ := placed label mem
    exact .of_eq found
  simp only [Jump.operands, Jump.targets] at operands placed target
  cases jump with
  | ret value | throw value =>
    exact (operands value (by simp)).bind fun _ shown => .ok (forall_mem_singleton.mpr shown)
  | goto label => exact (target label (by simp)).bind fun block _ => .ok (passTo_proper block next)
  | beginTry index onCatch onBody =>
    exact (target onCatch (by simp)).bind fun _ _ => (target onBody (by simp)).bind fun body _ =>
      .ok (forall_mem_cons.mpr ⟨.beginTry (region index onCatch onBody rfl),
        passTo_proper body next⟩)
  | switch value cases default =>
    refine (operands value (by simp)).bind fun _ shown => ?_
    refine (choiceLines_gives fun label mem => placed label (mem_append_left _ mem)).bind
      fun rows proper => ?_
    refine (target default (by simp)).bind fun _ _ => .ok ?_
    exact forall_mem_cons.mpr ⟨shown, forall_mem_append.mpr ⟨proper, by simp [Proper]⟩⟩
  | ifTrue value onTrue onFalse =>
    exact (operands value (by simp)).bind fun _ shown => (target onTrue (by simp)).bind fun yes _ =>
      (target onFalse (by simp)).bind fun no _ =>
        .ok (branchLines_proper (.truth shown) yes no next)
  | ifCompare op left right onTrue onFalse =>
    have relational := compares op left right onTrue onFalse rfl
    simp only [jumpLines, relational, Bool.not_true, Bool.false_eq_true, if_false]
    exact (operands left (by simp)).bind fun _ first => (operands right (by simp)).bind
      fun _ second => (target onTrue (by simp)).bind fun yes _ => (target onFalse (by simp)).bind
        fun no _ => .ok (branchLines_proper (.compare first second) yes no next)

lemma orderedLines_gives {order : List BlockId}
    (blocks : ∀ k ∈ order, ∀ next,
      e.Gives (e.blockLines k next) fun p => ∀ line ∈ p.lines, e.Proper line) :
    e.Gives (e.orderedLines order) fun out => ∀ own ∈ out.1, ∀ line ∈ own.2, e.Proper line := by
  induction order with
  | nil => exact .ok (by simp)
  | cons first rest ih =>
    exact (blocks first mem_cons_self rest.head?).bind fun _ here =>
      (ih fun k mem => blocks k (mem_cons_of_mem _ mem)).bind fun _ later =>
        .ok (forall_mem_cons.mpr ⟨here, later⟩)

lemma withLabels_proper {blocks : List (BlockId × List Line)}
    (proper : ∀ own ∈ blocks, ∀ line ∈ own.2, e.Proper line) (targets : List BlockId) :
    ∀ line ∈ withLabels targets blocks, e.Proper line := by
  intro line mem
  obtain ⟨⟨block, own⟩, listed, here⟩ := mem_flatMap.mp mem
  dsimp only at here
  split at here
  · rcases mem_cons.mp here with rfl | inner
    · trivial
    · exact proper _ listed line inner
  · exact proper _ listed line here

end

end Emitter
end Scriptc
