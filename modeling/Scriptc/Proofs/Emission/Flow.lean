import Scriptc.Proofs.Code.Building
import Scriptc.Proofs.Code.Order
import Scriptc.Proofs.Emission.Text

/-!
# The flow of generated lines

The text of a routine passes control as its graph of blocks does. A `Decision` says how the tests
come out, by which a jump selects a label and the lines of a block depart: to a block by name, to
the lines that follow, or out of the routine. Native text among them is taken to go straight on.
-/

namespace Scriptc

open Result List

/-- The outcomes of tests as they are written: whether a condition is true, which for a protected
region means that control came back from a throw, and the key of a value. -/
structure Decision where
  truth : String → Bool
  key : String → Int

/-- The label that a jump selects, with the text of what it tests. -/
def Jump.selects (o : Decision) (test : String) : Jump → Option Label
  | ret _ | throw _ => none
  | goto label => some label
  | switch _ cases default => some (((cases.find? (·.1 == o.key test)).map (·.2)).getD default)
  | beginTry _ onTrue onFalse | ifTrue _ onTrue onFalse | ifCompare _ _ _ onTrue onFalse =>
    some (if o.truth test then onTrue else onFalse)

/-- Where control is after some lines. -/
inductive Departure where
  | falls
  | goes (block : BlockId)
  | leaves

namespace Line

def label? : Line → Option BlockId
  | label block => some block
  | _ => none

def target? : Line → Option BlockId
  | goto block | gotoIf _ _ block | choice _ block | otherwise block => some block
  | _ => none

/-- The block of the row that a key takes. The default row may stand anywhere. -/
def chosen (key : Int) : List Line → Option BlockId
  | choice k block :: rest => if k = key then some block else chosen key rest
  | otherwise block :: rest => some ((chosen key rest).getD block)
  | _ => none

/-- Where control is after lines that are entered at their start. -/
def departure (o : Decision) : List Line → Departure
  | [] => .falls
  | ret _ :: _ | throw _ :: _ => .leaves
  | goto block :: _ => .goes block
  | gotoIf test wanted block :: rest =>
    if o.truth test = wanted then .goes block else departure o rest
  | choose value :: rest =>
    match chosen (o.key value) rest with
    | some block => .goes block
    | none => departure o rest
  | _ :: rest => departure o rest

end Line

namespace Emitter

/-- What a jump tests, as it is written. -/
def test (e : Emitter) : Jump → Result String
  | .goto _ => .ok ""
  | .ret value | .throw value | .switch value _ _ => e.operand value
  | .beginTry index _ _ => .ok ("JS_TRY_BEGIN(&frame, &tryRecs[" ++ toString index ++ "])")
  | .ifTrue value _ _ => return "js_is_true(" ++ (← e.operand value) ++ ")"
  | .ifCompare op left right _ _ => do
    let left ← e.operand left
    let right ← e.operand right
    return "js_" ++ op.mnemonic ++ "(&frame, " ++ left ++ ", " ++ right ++ ")"

/-- Whether lines go on to a block, by its name or because it is the next one. -/
def Reaches (next : Option BlockId) (o : Decision) (lines : List Line) (block : BlockId) : Prop :=
  (Line.departure o lines = .goes block ∧ block ∈ lines.filterMap Line.target?) ∨
    (Line.departure o lines = .falls ∧ next = some block)

/-- Whether lines pass control on as a jump does, with `next` the block that follows them. -/
structure Passes (e : Emitter) (jump : Jump) (next : Option BlockId) (lines : List Line) :
    Prop where
  unlabelled : lines.filterMap Line.label? = []
  named : ∀ block ∈ lines.filterMap Line.target?,
    ∃ label ∈ jump.targets, e.routine.target label = .ok block
  departs : ∃ test, e.test jump = .ok test ∧ ∀ o, match jump.selects o test with
    | none => Line.departure o lines = .leaves
    | some label => ∃ block, e.routine.target label = .ok block ∧ Reaches next o lines block

variable {e : Emitter} {jump : Jump} {next : Option BlockId} {p : Passage} {block : BlockId}
  {lines : List Line} {o : Decision}

lemma Reaches.skip {line : Line}
    (passed : Line.departure o (line :: lines) = Line.departure o lines)
    (reaches : Reaches next o lines block) : Reaches next o (line :: lines) block := by
  rw [Reaches, passed]
  exact reaches.imp_left (And.imp_right fun named =>
    ((sublist_cons_self line lines).filterMap _).subset named)

/-- The lines of instructions are passed through. -/
lemma Passes.after {body : List Instruction} {texts : List Line}
    (written : e.instructionLines body = .ok texts) (passes : e.Passes jump next lines) :
    (texts ++ lines).filterMap Line.target? = lines.filterMap Line.target? ∧
      e.Passes jump next (texts ++ lines) := by
  induction body generalizing texts with
  | nil =>
    cases written
    exact ⟨rfl, passes⟩
  | cons i body ih =>
    obtain ⟨text, -, written⟩ := bind_eq_ok.mp written
    obtain ⟨later, tail, ⟨⟩⟩ := bind_eq_ok.mp written
    obtain ⟨same, passes⟩ := ih tail
    exact ⟨same, passes.unlabelled, passes.named, passes.departs⟩

section

variable {test : String} {onTrue onFalse : Label} {yes no : BlockId}
  (shown : e.test jump = .ok test)
  (selects : ∀ o, jump.selects o test = some (if o.truth test then onTrue else onFalse))
  (targets : [onTrue, onFalse] ⊆ jump.targets) (taken : e.routine.target onTrue = .ok yes)
  (refused : e.routine.target onFalse = .ok no)
include shown selects targets taken refused

end

/-- Whether lines are those of a block with `next` the block that follows them: its instructions in
order, and then lines by which control passes on as its jump does. -/
def Shows (e : Emitter) (block : BlockId) (next : Option BlockId) (lines : List Line) : Prop :=
  ∃ b jump body, e.routine.blocks[block]? = some b ∧ b.jump = some jump ∧
    e.instructionLines b.body.toList = .ok body ∧ body <+: lines ∧ e.Passes jump next lines

end Emitter

namespace Routine

end Routine
end Scriptc
