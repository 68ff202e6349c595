import Scriptc.Proofs.Lowering.Execution
import Scriptc.Proofs.Lowering.Names

/-!
# Values of lowered code

Each operation on values ends without a fault, its ledger says which temporaries it takes and gives,
and its code computes what the run time gives the operator.
-/

namespace Scriptc

open List

variable {c : Constant} {argument : Operand} {branch : Opcode} {id : LocalId}
  {onTrue onFalse : Label}

lemma Operand.constant?_eq_some {a : Operand} : a.constant? = some c ↔ a = .constant c := by
  cases a <;> simp [constant?]

namespace Routine

lemma constant_of_foldUnary {op : Opcode} {value : Operand}
    (folded : foldUnary op argument = .ok (some value)) : ∃ c, argument = .constant c := by
  rw [foldUnary] at folded
  split at folded
  next a is_constant => exact ⟨a, Operand.constant?_eq_some.mp is_constant⟩
  next => simp at folded

lemma constants_of_foldBinary {op : Opcode} {left right value : Operand}
    (folded : foldBinary op left right = .ok (some value)) :
    (∃ c, left = .constant c) ∧ ∃ c, right = .constant c := by
  rw [foldBinary] at folded
  split at folded
  next a b is_left is_right =>
    exact ⟨⟨a, Operand.constant?_eq_some.mp is_left⟩, b, Operand.constant?_eq_some.mp is_right⟩
  next => simp at folded

end Routine

lemma Opcode.comparison_branch {op : Opcode} (known : op.branch = .ok branch) :
    branch.comparison? = some op := by
  cases op <;> cases known <;> rfl

namespace Memory

variable {V : Type} {rt : Runtime V} (m : Memory V)
variable {op : Opcode}

lemma read_foldBinary {left right : Operand}
    (folded : Routine.foldBinary op left right = .ok (some (.constant c))) :
    rt.binary op (m.read rt left) (m.read rt right) = rt.ofConstant c := by
  rw [Routine.foldBinary] at folded
  split at folded
  next a b is_left is_right =>
    obtain ⟨value, known, same⟩ := Result.map_eq_ok.mp folded
    obtain ⟨d, rfl, same_value⟩ := Option.map_eq_some_iff.mp same
    cases same_value
    rw [Operand.constant?_eq_some.mp is_left, Operand.constant?_eq_some.mp is_right]
    exact rt.binary_constant known
  next => simp at folded

lemma read_foldUnary (folded : Routine.foldUnary op argument = .ok (some (.constant c))) :
    rt.unary op (m.read rt argument) = rt.ofConstant c := by
  rw [Routine.foldUnary] at folded
  split at folded
  next a is_constant =>
    obtain ⟨value, known, same⟩ := Result.map_eq_ok.mp folded
    obtain ⟨d, rfl, same_value⟩ := Option.map_eq_some_iff.mp same
    cases same_value
    rw [Operand.constant?_eq_some.mp is_constant]
    exact rt.unary_constant known
  next => simp at folded

variable (rt)

lemma perform_binary (computes : op ≠ .delete) (dest left right : Operand) :
    m.perform rt (Routine.binaryInstruction op dest left right) =
      some (.goes (m.write dest (rt.binary op (m.read rt left) (m.read rt right)))) := by
  rw [Routine.binaryInstruction]
  split
  next swapped =>
    have commutes : op.isCommutative = true := by
      rw [Bool.and_eq_true] at swapped
      exact swapped.1
    rw [rt.binary_comm commutes (m.read rt left)]
    exact if_neg computes
  next => exact if_neg computes

lemma leave_truthJump (value : Operand) (onTrue onFalse : Label) :
    m.leave rt (Routine.truthJump value onTrue onFalse) =
      some ⟨.toward (if rt.truthy (m.read rt value) then onTrue else onFalse), m⟩ := by
  rw [Routine.truthJump]
  cases constant : value.constant? with
  | none => rfl
  | some c =>
    rw [Operand.constant?_eq_some.mp constant]
    simp only [leave, read, rt.truthy_constant]

lemma leave_comparison (known : op.branch = .ok branch) (left right : Operand)
    (onTrue onFalse : Label) {value : Option Constant}
    (folded : Routine.foldBinary op left right = .ok (value.map .constant)) :
    m.leave rt (match value with
      | some c => .goto (if c.toBoolean then onTrue else onFalse)
      | none => Routine.comparisonJump op branch left right onTrue onFalse) =
      some ⟨.toward (if rt.truthy (rt.binary op (m.read rt left) (m.read rt right)) then onTrue
        else onFalse), m⟩ := by
  cases value with
  | some c =>
    rw [m.read_foldBinary folded, rt.truthy_constant]
    rfl
  | none =>
    have comparison := Opcode.comparison_branch known
    simp only [Routine.comparisonJump]
    split
    next swapped =>
      have commutes : op.isCommutative = true := by
        rw [Bool.and_eq_true, Bool.and_eq_true] at swapped
        exact swapped.1.1
      simp only [leave, comparison, Option.map_some, rt.binary_comm commutes (m.read rt left)]
    next => simp only [leave, comparison, Option.map_some]

end Memory

namespace Lowering

variable {operands more : List Operand}

variable {V : Type} {rt : Runtime V} {s s' s'' : Lowering}
variable {a b : Operand} {d : Demand} {l : Ledger} {taken : List Operand}
  {eval : Action V V} {value : Memory V → V}

lemma Moves.inUse_spared (moves : s.Moves s' l) (nothing : l.taken = [])
    (mine : ∀ a ∈ taken, a ∈ l.given) (used : s.InUse id) : s'.Spared taken id :=
  moves.spared mine ⟨used, by simp [nothing]⟩

lemma Executes.quiet (executes : s.Executes rt s' d a eval) (moves : s'.Moves s'' l)
    (quiet : s'.Quiet s'') : s.Executes rt s'' d a eval where
  follows := executes.follows.trans (moves.follows quiet)
  performs ctx m suits := by
    rw [quiet.point]
    have follows := moves.follows quiet
    exact (executes.performs ctx m (suits.back follows)).later follows

lemma Executes.inside {s1 s2 : Lowering} (executes : s1.Executes rt s2 d a eval)
    (moves : s.Moves s1 l) (nothing : l.taken = []) (later : s2.Follows s') {ctx : Context V}
    {m : Memory V} (suits : s'.Suits ctx m) :
    s'.Performs rt s.InUse ⟨s1.point, m⟩ (eval ctx m.world) (d.arrival rt s2.point) (d.Met rt a) :=
  ((executes.performs ctx m (suits.back later)).later later).within fun _ =>
    moves.still_inUse nothing

lemma Executes.after (executes : s'.Executes rt s'' d a eval) (moves : s.Moves s' l)
    (nothing : l.taken = []) (quiet : s.Quiet s') : s.Executes rt s'' d a eval where
  follows := (moves.follows quiet).trans executes.follows
  performs ctx m suits := by
    rw [← quiet.point]
    exact (executes.performs ctx m suits).within fun _ => moves.still_inUse nothing

lemma Executes.settle {value : V → V} {value' : Memory V → V}
    (executes : s.Executes rt s' .value a eval) (moves : s.Moves s' l) (nothing : l.taken = [])
    (settles : s'.Settles rt s'' taken d b value') (mine : ∀ a ∈ taken, a ∈ l.given)
    (agree : ∀ m, value' m = value (m.read rt a)) :
    s.Executes rt s'' d b fun ctx => eval ctx >>= fun x => pure (value x) where
  follows := executes.follows.trans settles.follows
  performs ctx m suits := by
    have first := (executes.performs ctx m (suits.back settles.follows)).later settles.follows
    refine first.bind fun x m1 _ _ read => ?_
    have last := settles.performs m1
    rw [agree m1, show m1.read rt a = x from read] at last
    exact last.within fun _ => moves.inUse_spared nothing mine

lemma Executes.pass (executes : s.Executes rt s' .value a eval)
    (moves : s.Moves s' l) (nothing : l.taken = []) (mem : a ∈ l.given)
    (settles : s'.Settles rt s'' [a] d b (·.read rt a)) : s.Executes rt s'' d b eval := by
  have passed : s.Executes rt s'' d b fun ctx => eval ctx >>= fun x => pure (id x) :=
    executes.settle moves nothing settles (by simpa using mem) fun _ => rfl
  simpa only [id, bind_pure] using passed

/-- Whether a computation leaves the variables among operands, where names mean what the code takes
them for. -/
def Leaves (s : Lowering) (eval : Action V V) (operands : List Operand) : Prop :=
  ∀ (ctx : Context V) (m : Memory V), s.Suits ctx m → ∀ v, .var v ∈ operands → ∀ x w,
    eval ctx m.world = .ok x w → w.vars v = m.world.vars v

lemma Executes.holding (executes : s.Executes rt s' d b eval) (ready : ∀ a ∈ operands, s.Ready a)
    (leaves : s'.Leaves eval operands) (ctx : Context V) (m : Memory V) (suits : s'.Suits ctx m) :
    s'.Performs rt s.InUse ⟨s.point, m⟩ (eval ctx m.world) (d.arrival rt s'.point)
      fun v m' => d.Met rt b v m' ∧ ∀ a ∈ operands, m'.read rt a = m.read rt a := by
  refine (executes.performs ctx m suits).mono (fun _ used => used) fun v m' run same met => ?_
  refine ⟨met, fun a mem => ?_⟩
  refine same.read (ready a mem).holds.2 (ready a mem).inUse fun x here => ?_
  exact leaves ctx m suits x (here ▸ mem) v m'.world run

lemma Ready.read_same (ready : s.Ready a) (left : ∀ id, a = .cell id → .cell id ∉ taken)
    {m m' : Memory V} (same : m.Same (s.Spared taken) m')
    (unchanged : ∀ v, a = .var v → m'.world.vars v = m.world.vars v) : m'.read rt a = m.read rt a :=
  same.read ready.holds.2 (fun id here => ⟨ready.inUse id here, left id here⟩) unchanged

lemma Acts.holding {act : Context V → Memory V → Evaluation V V}
    (acts : s.Acts rt s' taken d a act) (ready : ∀ b ∈ operands, s.Ready b)
    (elsewhere : ∀ id, .cell id ∈ taken → .cell id ∉ operands) (ctx : Context V) (m : Memory V)
    (suits : s'.Suits ctx m) (leaves : ∀ v, .var v ∈ operands → ∀ x w,
      act ctx m m.world = .ok x w → w.vars v = m.world.vars v) :
    s'.Performs rt (s.Spared taken) ⟨s.point, m⟩ (act ctx m m.world) (d.arrival rt s'.point)
      fun x m' => d.Met rt a x m' ∧ ∀ b ∈ operands, m'.read rt b = m.read rt b := by
  refine (acts.performs ctx m suits).mono (fun _ spared => spared) fun x m' run same met => ?_
  refine ⟨met, fun b mem => (ready b mem).read_same (fun id here taken => ?_) same ?_⟩
  · exact elsewhere id taken (here ▸ mem)
  · exact fun v here => leaves v (here ▸ mem) x m'.world run

lemma Executes.act {act : Context V → V → Evaluation V V}
    (executes : s.Executes rt s' .value a eval) (moves : s.Moves s' l) (nothing : l.taken = [])
    (acts : s'.Acts rt s'' taken d b fun ctx m => act ctx (m.read rt a))
    (mine : ∀ a ∈ taken, a ∈ l.given) :
    s.Executes rt s'' d b fun ctx => eval ctx >>= act ctx where
  follows := executes.follows.trans acts.follows
  performs ctx m suits := by
    have first := (executes.performs ctx m (suits.back acts.follows)).later acts.follows
    refine first.bind fun x m1 _ same read => ?_
    have last := acts.performs ctx m1 (suits.same same)
    rw [show m1.read rt a = x from read] at last
    exact last.within fun _ => moves.inUse_spared nothing mine

lemma Settles.effect
    (settles : s.Settles rt s' taken .value a value) : s.Settles rt s' taken .effect a value where
  follows := settles.follows
  performs m := (settles.performs m).mono (fun _ spared => spared) fun _ _ _ _ _ => trivial

lemma Settles.sparing (settles : s.Settles rt s' taken d a value)
    (fewer : ∀ id, .cell id ∈ taken → .cell id ∈ more) : s.Settles rt s' more d a value where
  follows := settles.follows
  performs m := (settles.performs m).within fun id spared => spared.mono (fewer id)

lemma Reports.settles (reports : s.Reports s') (settles : s'.Settles rt s'' taken d a value) :
    s.Settles rt s'' taken d a value where
  follows := (reports.moves.follows reports.quiet).trans settles.follows
  performs m := by
    rw [← reports.quiet.point]
    refine (settles.performs m).within fun id spared => ?_
    exact ⟨(reports.moves.inUse id).mpr (.inl ⟨spared.1, by simp⟩), spared.2⟩

lemma Settles.trans {value' whole : Memory V → V} (first : s.Settles rt s' taken .value b value)
    (moves : s.Moves s' l) (taken_eq : l.taken = taken)
    (second : s'.Settles rt s'' more d a value') (mine : ∀ a ∈ more, a ∈ l.given)
    (agree : ∀ m m', m'.world = m.world → m.Same (s.Spared taken) m' →
      m'.read rt b = value m → value' m' = whole m) : s.Settles rt s'' taken d a whole where
  follows := first.follows.trans second.follows
  performs m := by
    obtain ⟨m1, goes, world, same, met⟩ := first.performs m
    have last := second.performs m1
    rw [world, agree m m1 world same met] at last
    refine .after (goes.later second.follows) same (last.mono (fun id spared => ?_) ?_)
    · exact moves.spared mine (taken_eq ▸ spared)
    · exact fun _ _ _ _ holds => holds

lemma Moves.executes (moves : s.Moves s' l) (quiet : s.Quiet s')
      (known : ∀ (ctx : Context V) (m : Memory V),
      s'.Suits ctx m → eval ctx m.world = .ok (m.read rt a) m.world) :
    s.Executes rt s' .value a eval where
  follows := moves.follows quiet
  performs ctx m suits := by
    rw [quiet.point, known ctx m suits]
    exact .arrives (.refl moves.start.point_outside) rfl

/-- Whether the code of an expression ends without a fault, and executes it if it is covered. -/
def Meets (rt : Runtime V) (code : ExprCode) (covered : Prop)
    (eval : Action V V) : Prop :=
  ∀ (d : Demand) (s : Lowering), s.Sound → s.Knows d.labels → Runs (code d) s fun a s' =>
    s.Moves s' { owed := d.labels, given := d.given a } ∧ (covered → s.Executes rt s' d a eval)

/-- Whether code ends without a fault, and gives the value of a computation if it is covered. -/
def Gives (rt : Runtime V) (code : Lower Operand) (covered : Prop)
    (eval : Action V V) : Prop :=
  ∀ s : Lowering, s.Sound → Runs code s fun a s' =>
    s.Moves s' { given := [a] } ∧ (covered → s.Executes rt s' .value a eval)

end Lowering

namespace Lowered

variable {V : Type} {rt : Runtime V} {e : Lowered} {covered : Prop}
  {eval : Action V V}

/-- What the code of an expression does. A simple expression has no effects. -/
structure Spec (rt : Runtime V) (e : Lowered) (covered : Prop)
    (eval : Action V V) : Prop where
  runs : Lowering.Meets rt e.code covered eval
  simple : covered → e.isSimple = true → ∀ ctx w, ∃ v, eval ctx w = .ok v w

namespace Spec

lemma leaves (spec : e.Spec rt covered eval) (known : covered) {operands : List Operand}
    (pinned : (!e.isSimple) = true → ∀ v, .var v ∉ operands) (s : Lowering) :
    s.Leaves eval operands := by
  intro ctx m _ v mem x w run
  cases simple : e.isSimple with
  | true =>
    obtain ⟨y, unchanged⟩ := spec.simple known simple ctx m.world
    have world := (EStateM.Result.ok.inj (unchanged.symm.trans run)).2
    rw [world]
  | false => exact absurd mem (pinned (by simp [simple]) v)

variable {s : Lowering} (spec : e.Spec rt covered eval) (sound : s.Sound)
include spec sound

lemma value : Runs e.value s fun a s' =>
    s.Moves s' { given := [a] } ∧ (covered → s.Executes rt s' .value a eval) :=
  spec.runs .value s sound (by simp [Demand.labels, Lowering.Knows])

lemma discard : Runs e.discard s fun _ s' =>
    s.Moves s' {} ∧ (covered → s.Executes rt s' .effect .undefined eval) := by
  have none_wanted : s.Knows Demand.effect.labels := by simp [Demand.labels, Lowering.Knows]
  refine (spec.runs .effect s sound none_wanted).step fun a s1 ⟨moves, executes⟩ => ?_
  have given : s.Moves s1 { given := [a] } := moves
  refine (Lowering.release_moves given.sound (given.ready (by simp)).inUse).mono ?_
  rintro - s2 ⟨freed, quiet⟩
  refine ⟨given.andThen freed, fun known => ?_⟩
  have executed := (executes known).quiet freed quiet
  exact ⟨executed.follows, executed.performs⟩

lemma jump (labels : s.Knows [onTrue, onFalse]) : Runs (e.jump onTrue onFalse) s fun _ s' =>
      s.Moves s' { owed := [onTrue, onFalse] } ∧
        (covered → s.Executes rt s' (.branch onTrue onFalse) .undefined eval) := by
  refine (spec.runs (.branch onTrue onFalse) s sound labels).step fun a s1 ⟨moves, executes⟩ => ?_
  exact .pure ⟨moves, fun known => ⟨(executes known).follows, (executes known).performs⟩⟩

end Spec

end Lowered

namespace Lowering

variable {covered : Prop} {i : Instruction}

variable {V : Type} {rt : Runtime V} {s s' s'' : Lowering}
variable {value left right : Operand} {operands : List Operand} {op : Opcode}

lemma holds_constant (s : Lowering) (c : Constant) : s.Holds (.constant c) := ⟨trivial, by simp⟩

lemma instructionFits_binary {user : RoutineId} {dest : Operand}
    (dest_fits : s.FitsIn user dest) (left_fits : s.FitsIn user left)
    (right_fits : s.FitsIn user right) (place : dest.isPlace = true) :
    s.InstructionFits user (.binary op dest left right) := by
  refine ⟨fun a mem => ?_, trivial, by simp [Instruction.dests, place]⟩
  simp only [Instruction.operands, mem_cons, not_mem_nil, or_false] at mem
  rcases mem with rfl | rfl | rfl
  · exact dest_fits
  · exact left_fits
  · exact right_fits

lemma Moves.give_constant {made settled owed : List Label} {leaves uncharted : Bool}
    {taken given : List Operand}
    (moves : s.Moves s' { made, settled, owed, leaves, uncharted, taken, given }) (c : Constant) :
    s.Moves s' { made, settled, owed, leaves, uncharted, taken, given := .constant c :: given } :=
  moves.give (by simp) (holds_constant s' c)

lemma reportDecided_reports (sound : s.Sound) (warnAt : Option Location) (taken : Option Bool) :
    Runs (reportDecided warnAt taken) s fun _ s' => s.Reports s' := by
  cases warnAt with
  | none => exact .pure (.refl sound)
  | some loc =>
    cases taken with
    | none => exact .pure (.refl sound)
    | some taken => exact warn_reports sound loc _

lemma jumpFits_truth (fits : s.Fits value) (onTrue onFalse : Label) :
    s.JumpFits s.frame.routine (Routine.truthJump value onTrue onFalse) := by
  rw [Routine.truthJump]
  split
  · exact jumpFits_goto _ _
  · refine ⟨fun a mem => ?_, by simp, by simp⟩
    rw [mem_singleton.mp mem]
    exact fits

lemma jumpFits_comparison (op : Opcode) (known : branch.isRelationalBranch = true)
    (left_fits : s.Fits left) (right_fits : s.Fits right) (onTrue onFalse : Label) :
    s.JumpFits s.frame.routine (Routine.comparisonJump op branch left right onTrue onFalse) := by
  have fits {a b : Operand} (a_fits : s.Fits a) (b_fits : s.Fits b) :
      s.JumpFits s.frame.routine (.ifCompare branch a b onTrue onFalse) := by
    refine ⟨fun c mem => ?_, fun op' _ _ _ _ same => ?_, by simp⟩
    · simp only [Jump.operands, mem_cons, not_mem_nil, or_false] at mem
      rcases mem with rfl | rfl
      · exact a_fits
      · exact b_fits
    · obtain rfl : branch = op' := by simpa using (Jump.ifCompare.inj same).1
      exact known
  rw [Routine.comparisonJump]
  split
  · exact fits right_fits left_fits
  · exact fits left_fits right_fits

lemma truthJump_targets (value : Operand) (onTrue onFalse : Label) :
    (∀ label ∈ (Routine.truthJump value onTrue onFalse).targets, label ∈ [onTrue, onFalse]) ∧
      Flow.Ordinary (Routine.truthJump value onTrue onFalse) := by
  rw [Routine.truthJump]
  split
  · refine ⟨fun label mem => ?_, fun _ _ aimed => aimed⟩
    rw [Jump.targets, mem_singleton] at mem
    split at mem <;> simp [mem]
  · exact ⟨fun label mem => mem, fun _ _ aimed => aimed⟩

lemma comparisonJump_targets (op branch : Opcode) (left right : Operand) (onTrue onFalse : Label) :
    (Routine.comparisonJump op branch left right onTrue onFalse).targets = [onTrue, onFalse] ∧
      Flow.Ordinary (Routine.comparisonJump op branch left right onTrue onFalse) := by
  rw [Routine.comparisonJump]
  split <;> exact ⟨rfl, fun _ _ aimed => aimed⟩

variable (rt)

lemma branchTrue_does (sound : s.Sound) (fits : s.Fits value) (labels : s.Knows [onTrue, onFalse]) :
    Runs (inCode (Routine.branchTrue value onTrue onFalse)) s fun _ s' =>
      s.Moves s' { owed := [onTrue, onFalse] } ∧ s.Does rt s' fun m =>
        ⟨.toward (if rt.truthy (m.read rt value) then onTrue else onFalse), m⟩ := by
  obtain ⟨targets, ordinary⟩ := truthJump_targets value onTrue onFalse
  have ended := moves_ended sound (jumpFits_truth fits onTrue onFalse)
    (fun label mem => labels label (targets label mem)) ordinary
  refine inCode_runs sound ⟨_, _, Routine.branchTrue_run sound.code_sound value _ _, ?_,
    does_ended rt sound ended.keeps.toExtends fun m => m.leave_truthJump rt value onTrue onFalse⟩
  exact ended.close (fun label mem => .inl (targets label mem)) labels

lemma branchCompare_does (sound : s.Sound) (relational : op.isRelational = true)
    (left_fits : s.Fits left) (right_fits : s.Fits right) (labels : s.Knows [onTrue, onFalse]) :
    Runs (inCode (Routine.branchCompare op left right onTrue onFalse)) s fun _ s' =>
      s.Moves s' { owed := [onTrue, onFalse] } ∧ s.Does rt s' fun m =>
        ⟨.toward (if rt.truthy (rt.binary op (m.read rt left) (m.read rt right)) then onTrue
          else onFalse), m⟩ := by
  obtain ⟨binary, branch, known, is_branch⟩ := Opcode.relational_branch relational
  obtain ⟨value, folded⟩ := Routine.foldBinary_succeeds binary left right
  have run := Routine.branchCompare_run sound.code_sound known left right onTrue onFalse folded
  have leaves (m : Memory V) := m.leave_comparison rt known left right onTrue onFalse folded
  cases value with
  | some c =>
    have target : (if c.toBoolean then onTrue else onFalse) ∈ [onTrue, onFalse] := by split <;> simp
    have ended := moves_ended sound
      (jumpFits_goto s.frame.routine (if c.toBoolean then onTrue else onFalse))
      (by simpa [Jump.targets] using labels _ target) fun _ _ aimed => aimed
    refine inCode_runs sound ⟨_, _, run, ?_, does_ended rt sound ended.keeps.toExtends leaves⟩
    refine ended.close (fun label mem => .inl ?_) labels
    rw [Jump.targets, mem_singleton] at mem
    exact mem ▸ target
  | none =>
    obtain ⟨targets, ordinary⟩ := comparisonJump_targets op branch left right onTrue onFalse
    have ended := moves_ended sound
      (jumpFits_comparison op is_branch left_fits right_fits onTrue onFalse)
      (fun label mem => labels label (targets ▸ mem)) ordinary
    refine inCode_runs sound ⟨_, _, run, ?_, does_ended rt sound ended.keeps.toExtends leaves⟩
    exact ended.close (fun label mem => .inl (targets ▸ mem)) labels

lemma settles_same (sound : s.Sound) : s.Settles rt s operands .value value (·.read rt value) where
  follows := sound.follows
  performs _ := .stays sound rfl

lemma branchOn_spec (sound : s.Sound) (ready : s.Ready value) (warnAt : Option Location)
    (labels : s.Knows [onTrue, onFalse]) : Runs (branchOn warnAt value onTrue onFalse) s fun _ s' =>
      s.Moves s' { owed := [onTrue, onFalse], taken := [value] } ∧
        s.Settles rt s' [value] (.branch onTrue onFalse) .undefined (·.read rt value) := by
  refine (branchTrue_does rt sound ready.holds.1 labels).step ?_
  rintro taken s1 ⟨jumped, jumps⟩
  have still := jumped.still_ready ready (by simp)
  refine (release_moves jumped.sound still.inUse).step fun _ s2 ⟨freed, quiet⟩ => ?_
  refine (reportDecided_reports freed.sound warnAt taken).mono fun _ s3 reports => ?_
  have later := (freed.follows quiet).trans (reports.moves.follows reports.quiet)
  refine ⟨(jumped.take freed (by simp)).andThen reports.moves, jumps.follows.trans later, ?_⟩
  exact fun m => .arrives ((jumps.goes m).later later) trivial

lemma settle_spec (sound : s.Sound) (ready : s.Ready value)
    (warnAt : Option Location) {d : Demand} (labels : s.Knows d.labels) :
    Runs (settle warnAt value d) s fun a s' =>
      s.Moves s' { owed := d.labels, taken := [value], given := d.given a } ∧
        s.Settles rt s' [value] d a (·.read rt value) := by
  cases d with
  | value => exact .pure ⟨.keep sound ready, settles_same rt sound⟩
  | effect =>
    refine .pure ⟨.keep sound ready, sound.follows, fun m => ?_⟩
    exact .stays sound trivial
  | branch onTrue onFalse =>
    refine (branchOn_spec rt sound ready warnAt labels).step fun _ s' ⟨moves, settles⟩ => ?_
    exact .pure ⟨moves, settles.follows, settles.performs⟩

lemma settle_meets {code : Lower Operand} {eval : Action V V}
    (gives : Gives rt code covered eval) (warnAt : Option Location) :
    Meets rt (fun d => do settle warnAt (← code) d) covered eval := by
  intro d s sound labels
  refine (gives s sound).step fun a s1 ⟨moves, executes⟩ => ?_
  refine (settle_spec rt moves.sound (moves.ready (by simp)) warnAt (moves.knows labels)).mono ?_
  rintro b s2 ⟨settled, settles⟩
  have moved := moves.andThenTo settled fun label mem => .inl (labels label mem)
  refine ⟨moved.balance (by simp) (by simp) (by simp) labels, fun known => ?_⟩
  exact (executes known).pass moves rfl (by simp) settles

lemma firstTemp?_run {r : Routine} (temps : ∀ id, .cell id ∈ operands → r.isTemp[id]? = some true) :
    (∃ id, .cell id ∈ operands ∧ firstTemp? operands r = .ok (some (.cell id)) r) ∨
      ((∀ id, .cell id ∉ operands) ∧ firstTemp? operands r = .ok none r) := by
  induction operands with
  | nil => exact .inr ⟨by simp, rfl⟩
  | cons a rest ih =>
    have skip (kind : ∀ id, a ≠ .cell id) (asked : r.holdsTemp a = .ok false) :
        firstTemp? (a :: rest) r = firstTemp? rest r := by
      rw [firstTemp?, Runs.bind_run (Routine.ask_run asked)]
      rfl
    have later (kind : ∀ id, a ≠ .cell id) (asked : r.holdsTemp a = .ok false) :
        (∃ id, .cell id ∈ a :: rest ∧ firstTemp? (a :: rest) r = .ok (some (.cell id)) r) ∨
          ((∀ id, .cell id ∉ a :: rest) ∧ firstTemp? (a :: rest) r = .ok none r) := by
      rw [skip kind asked]
      refine (ih fun id mem => temps id (mem_cons_of_mem _ mem)).imp ?_ ?_
      · exact fun ⟨id, mem, run⟩ => ⟨id, mem_cons_of_mem _ mem, run⟩
      · exact fun ⟨absent, run⟩ => ⟨fun id => by simp [(kind id).symm, absent id], run⟩
    cases a with
    | cell id =>
      have temp := temps id (by simp)
      refine .inl ⟨id, by simp, ?_⟩
      have asked : r.holdsTemp (.cell id) = .ok true := by simp [Routine.holdsTemp, temp]
      rw [firstTemp?, Runs.bind_run (Routine.ask_run asked)]
      rfl
    | var | param | slot | constant => exact later (by simp) rfl

lemma releaseOthers_moves (sound : s.Sound) (kept : LocalId)
    (ready : ∀ a ∈ operands, s.Ready a) (apart : operands.Pairwise Operand.Apart) :
    Runs (inCode (releaseOthers (.cell kept) operands)) s fun _ s' =>
      s.Moves s' { taken := operands.filter (· != .cell kept) } ∧ s.Quiet s' := by
  induction operands generalizing s with
  | nil => exact ⟨⟨⟩, s, inCode_same sound rfl, .refl sound, .refl s⟩
  | cons a rest ih =>
    obtain ⟨away, apart⟩ := pairwise_cons.mp apart
    have rest_ready : ∀ b ∈ rest, s.Ready b := fun b mem =>
      ready b (mem_cons_of_mem _ mem)
    by_cases other : (a != .cell kept) = true
    · have freed := release_moves sound (ready a (by simp)).inUse
      have run : releaseOthers (.cell kept) (a :: rest) =
          (Routine.release a >>= fun _ => releaseOthers (.cell kept) rest) := by
        rw [releaseOthers, if_pos other]
      rw [run, filter_cons, if_pos other]
      refine inCode_step sound freed fun _ s1 ⟨moves, quiet⟩ => ?_
      have still : ∀ b ∈ rest, s1.Ready b := by
        intro b mem
        refine moves.still_ready (rest_ready b mem) fun id here => ?_
        rw [mem_singleton]
        exact fun same => away b mem id same.symm here
      refine (ih moves.sound still apart).mono fun _ s2 ⟨later, quiet_later⟩ => ?_
      exact ⟨(moves.take later (by simp)).retake (by simp [or_comm]), quiet.trans quiet_later⟩
    · have run : releaseOthers (.cell kept) (a :: rest) = releaseOthers (.cell kept) rest := by
        rw [releaseOthers, if_neg other]
      rw [run, filter_cons, if_neg other]
      exact ih sound rest_ready apart

lemma resultTemp_moves (sound : s.Sound)
    (ready : ∀ a ∈ operands, s.Ready a) (apart : operands.Pairwise Operand.Apart) :
    Runs (resultTemp operands) s fun dest s' => (∃ id, dest = .cell id) ∧
      s.Moves s' { taken := operands, given := [dest] } ∧ s.Quiet s' := by
  have temps : ∀ id, .cell id ∈ operands → s.code.isTemp[id]? = some true := fun id mem =>
    ((ready _ mem).inUse id rfl).1
  rcases firstTemp?_run temps with ⟨id, mem, run⟩ | ⟨absent, run⟩
  · -- The temporary of an operand is kept.
    refine inCode_after sound run (inCode_after sound rfl ?_)
    refine inCode_step sound (releaseOthers_moves sound id ready apart) ?_
    rintro - s1 ⟨freed, quiet⟩
    have kept := Moves.keep sound (ready _ mem)
    refine ⟨_, s1, inCode_same freed.sound rfl, ⟨id, rfl⟩, ?_, quiet⟩
    refine (kept.take freed ?_).retake fun other => ?_
    · intro other taken
      simpa using Operand.bne_cell.mp (mem_filter.mp taken).2
    · by_cases here : other = id
      · simp [here, mem]
      · simp [here, Operand.bne_cell]
  · -- No operand is held in a temporary.
    refine inCode_after sound run (inCode_step sound (allocTemp_moves sound) ?_)
    rintro _ s1 ⟨⟨id, rfl⟩, fresh, quiet⟩
    have still : ∀ a ∈ operands, s1.Ready a := fun a mem =>
      fresh.still_ready (ready a mem) (by simp)
    refine inCode_step fresh.sound (releaseOthers_moves fresh.sound id still apart) ?_
    rintro - s2 ⟨freed, quiet_later⟩
    refine ⟨_, s2, inCode_same freed.sound rfl, ⟨id, rfl⟩, ?_, quiet.trans quiet_later⟩
    refine (fresh.take freed ?_).retake fun other => ?_
    · intro other taken
      exact absurd (mem_filter.mp taken).1 (absent other)
    · simp [absent]

section

variable (moves : s.Moves s' { taken := operands, given := [.cell id] }) (quiet : s.Quiet s')
  (fits : s'.InstructionFits s'.frame.routine i) (fills : i.Fills id)
include moves quiet fits fills

lemma settles_appended {value : Memory V → V}
    (performs : ∀ m : Memory V, m.perform rt i = some (.goes (m.write (.cell id) (value m)))) :
    s.Moves (s'.withCode (s'.code.appended i)) { taken := operands, given := [.cell id] } ∧
      s.Settles rt (s'.withCode (s'.code.appended i)) operands .value (.cell id) value := by
  have kept := moves.sound.extends_withCode (Routine.edits_appended moves.sound.code_sound i).grows
  have does := does_appended rt moves.sound kept performs
  refine ⟨moves.filled fits fills (by simp), (moves.follows quiet).trans does.follows, fun m => ?_⟩
  have goes := does.goes m
  rw [quiet.point] at goes
  have unspared : ¬s.Spared operands id := moves.not_spared (by simp)
  exact .value goes rfl (.write_cell m unspared _) (m.read_write_cell id _)

lemma acts_appended {event : Memory V → Event V}
    (performs : ∀ m : Memory V, m.perform rt i = some (m.ask rt (event m) [.cell id])) :
    s.Moves (s'.withCode (s'.code.appended i)) { taken := operands, given := [.cell id] } ∧
      s.Acts rt (s'.withCode (s'.code.appended i)) operands .value (.cell id) fun _ m =>
        Evaluation.request rt (event m) := by
  have kept := moves.sound.extends_withCode (Routine.edits_appended moves.sound.code_sound i).grows
  have moved := moves.filled fits fills (by simp)
  have later : s'.Follows (s'.withCode (s'.code.appended i)) := ⟨moves.sound, kept, kept.steady rfl⟩
  refine ⟨moved, (moves.follows quiet).trans later, fun ctx m _ => ?_⟩
  have unspared : ∀ other ∈ [id], ¬s.Spared operands other := by
    intro other mem
    rw [mem_singleton.mp mem]
    exact moves.not_spared (by simp)
  have asks := performs_asked rt moves.sound [id] _ (performs m) unspared
  rw [quiet.point] at asks
  refine asks.bind fun value m' _ _ written => ?_
  refine .stays moved.sound ?_
  rw [written]
  exact Memory.read_write_cell _ id _

end

section

variable (sound : s.Sound)
include sound

lemma settles_constant {value : Memory V → V} (known : ∀ m, value m = rt.ofConstant c) :
    s.Settles rt s operands .value (.constant c) value where
  follows := sound.follows
  performs m := .stays sound (known m).symm

lemma unaryValue_spec (unary : op.isUnary = true) (ready : s.Ready argument) :
    Runs (unaryValue op argument) s fun a s' => (∀ v, a ≠ .var v) ∧
      s.Moves s' { taken := [argument], given := [a] } ∧
        s.Settles rt s' [argument] .value a fun m => rt.unary op (m.read rt argument) := by
  obtain ⟨value, folded⟩ := Routine.foldUnary_succeeds unary argument
  refine .bind ⟨_, s, inCode_same sound (Routine.ask_run folded), ?_⟩
  cases value with
  | some c =>
    obtain ⟨b, rfl⟩ := Routine.constant_of_foldUnary folded
    have given := (Moves.refl sound).give_constant c
    exact .pure ⟨by simp, given.retake (by simp),
      settles_constant rt sound fun m => m.read_foldUnary folded⟩
  | none =>
    refine (resultTemp_moves sound (by simpa using ready) (pairwise_singleton _ _)).step ?_
    rintro _ s1 ⟨⟨id, rfl⟩, moves, quiet⟩
    have run := Routine.unary_run moves.sound.code_sound unary (.cell id) argument folded
    refine .bind ⟨_, _, inCode_run moves.sound run, .pure ⟨by simp, ?_⟩⟩
    refine settles_appended rt moves quiet (i := .unary op (.cell id) argument)
      ⟨?_, trivial, by simp [Instruction.dests, Operand.isPlace]⟩ ⟨rfl, rfl, rfl⟩ fun m => rfl
    intro a mem
    simp only [Instruction.operands, mem_cons, not_mem_nil, or_false] at mem
    rcases mem with rfl | rfl
    · exact moves.fits (by simp)
    · exact moves.keeps.fits ready.holds.1

lemma binaryValue_spec (binary : op.isBinary = true) (computes : op ≠ .delete)
    (left_ready : s.Ready left) (right_ready : s.Ready right) (apart : left.Apart right) :
    Runs (binaryValue op left right) s fun a s' => (∀ v, a ≠ .var v) ∧
      s.Moves s' { taken := [left, right], given := [a] } ∧
        s.Settles rt s' [left, right] .value a fun m =>
          rt.binary op (m.read rt left) (m.read rt right) := by
  obtain ⟨value, folded⟩ := Routine.foldBinary_succeeds binary left right
  refine .bind ⟨_, s, inCode_same sound (Routine.ask_run folded), ?_⟩
  cases value with
  | some c =>
    obtain ⟨⟨b, rfl⟩, d, rfl⟩ := Routine.constants_of_foldBinary folded
    have given := (Moves.refl sound).give_constant c
    refine .bind ⟨⟨⟩, s, inCode_same sound rfl, ?_⟩
    refine .bind ⟨⟨⟩, s, inCode_same sound rfl, ?_⟩
    exact .pure ⟨by simp, given.retake (by simp),
      settles_constant rt sound fun m => m.read_foldBinary folded⟩
  | none =>
    have ready : ∀ a ∈ [left, right], s.Ready a := by simpa using ⟨left_ready, right_ready⟩
    refine (resultTemp_moves sound ready (by simpa using apart)).step ?_
    rintro _ s1 ⟨⟨id, rfl⟩, moves, quiet⟩
    have run := Routine.binary_run moves.sound.code_sound binary (.cell id) left right folded
    refine .bind ⟨_, _, inCode_run moves.sound run, .pure ⟨by simp, ?_⟩⟩
    have left_fits := moves.keeps.fits left_ready.holds.1
    have right_fits := moves.keeps.fits right_ready.holds.1
    refine settles_appended rt moves quiet ?_ ?_ fun m => m.perform_binary rt computes _ left right
    · rw [Routine.binaryInstruction]
      split
      · exact instructionFits_binary (moves.fits (by simp)) right_fits left_fits rfl
      · exact instructionFits_binary (moves.fits (by simp)) left_fits right_fits rfl
    · rw [Routine.binaryInstruction]
      split <;> exact ⟨rfl, rfl, rfl⟩

lemma copy_spec (holds : s.Holds value) (kind : ∀ id, value ≠ .cell id) :
    Runs (do let copy ← allocTemp; assign copy value; pure copy) s fun a s' =>
      (∃ id, a = .cell id) ∧ s.Moves s' { taken := [value], given := [a] } ∧
        s.Settles rt s' [value] .value a (·.read rt value) := by
  refine (allocTemp_moves sound).step ?_
  rintro _ s1 ⟨⟨id, rfl⟩, fresh, quiet⟩
  have fits := fresh.keeps.fits holds.1
  have dest_fits : s1.Fits (.cell id) := fresh.fits (by simp)
  have ne : (Operand.cell id != value) = true := by
    cases value <;> first | rfl | exact absurd rfl (kind _)
  have run := Routine.assign_run fresh.sound.code_sound (.cell id) value
  rw [Routine.assigned, if_pos ne] at run
  refine .bind ⟨⟨⟩, _, inCode_run fresh.sound run, .pure ⟨⟨id, rfl⟩, ?_⟩⟩
  have unheld : ∀ other, .cell other ∈ [value] ↔ .cell other ∈ ([] : List Operand) := by
    simpa using fun other => (kind other).symm
  exact settles_appended rt (fresh.retake unheld) quiet
    (instructionFits_assign dest_fits fits rfl) ⟨rfl, rfl, rfl⟩ fun m => rfl

lemma toTemp_step {a : Operand} (ready : s.Ready a) {β : Type} {next : Operand → Lower β}
    {post : β → Lowering → Prop}
    (rest : ∀ id s', s.Moves s' { taken := [a], given := [.cell id] } →
      s.Settles rt s' [a] .value (.cell id) (·.read rt a) → Runs (next (.cell id)) s' post) :
    Runs (do release a; let dest ← allocTemp; assign dest a; next dest) s post := by
  refine (release_moves sound ready.inUse).step fun _ s1 ⟨freed, quiet1⟩ => ?_
  refine (allocTemp_moves freed.sound).step ?_
  rintro _ s2 ⟨⟨id, rfl⟩, fresh, quiet2⟩
  have moves2 := freed.andThen fresh
  have dest_fits : s2.Fits (.cell id) := fresh.fits (by simp)
  have fits := moves2.keeps.fits ready.holds.1
  refine (assign_does rt moves2 dest_fits fits rfl (by simp) (by simp)).step
    fun _ s3 ⟨assigned, copies⟩ => ?_
  refine rest id s3 assigned ⟨?_, fun m => ?_⟩
  · exact (freed.follows quiet1).trans ((fresh.follows quiet2).trans copies.follows)
  · have goes := copies.goes m
    rw [quiet2.point, quiet1.point] at goes
    have unspared : ¬s.Spared [a] id := moves2.not_spared (by simp)
    exact .value goes rfl (.write_cell m unspared _) (m.read_write_cell id _)

lemma pin_spec (ready : s.Ready value) : Runs (pin value) s fun a s' => (∀ v, a ≠ .var v) ∧
      s.Moves s' { taken := [value], given := [a] } ∧
        s.Settles rt s' [value] .value a (·.read rt value) := by
  have stays (kind : ∀ v, value ≠ .var v) : Runs (pure value : Lower Operand) s fun a s' =>
      (∀ v, a ≠ .var v) ∧ s.Moves s' { taken := [value], given := [a] } ∧
        s.Settles rt s' [value] .value a (·.read rt value) :=
    Runs.pure ⟨kind, .keep sound ready, settles_same rt sound⟩
  cases value with
  | var v =>
    refine (copy_spec rt sound ready.holds (by simp)).mono ?_
    rintro _ s' ⟨⟨id, rfl⟩, moves, settles⟩
    exact ⟨by simp, moves, settles⟩
  | cell | param | slot | constant => exact stays (by simp)

lemma pinIf_spec (keep : Bool) (ready : s.Ready value) :
    Runs (pinIf keep value) s fun a s' => (keep = true → ∀ v, a ≠ .var v) ∧
      s.Moves s' { taken := [value], given := [a] } ∧
        s.Settles rt s' [value] .value a (·.read rt value) := by
  cases keep with
  | true =>
    exact (pin_spec rt sound ready).mono fun a s' ⟨kind, rest⟩ => ⟨fun _ => kind, rest⟩
  | false => exact .pure ⟨by simp, .keep sound ready, settles_same rt sound⟩

lemma toNumber_spec (ready : s.Ready argument) :
    Runs (toNumber argument) s fun a s' => (∀ v, a ≠ .var v) ∧
      s.Moves s' { taken := [argument], given := [a] } ∧
        s.Settles rt s' [argument] .value a fun m => rt.toNumber (m.read rt argument) := by
  have unary : Opcode.toNumber.isUnary = true := rfl
  exact unaryValue_spec rt sound unary ready

lemma refuse_moves (loc : Location) (what : String) :
    Runs (refuse loc what) s fun a s' => a = .undefined ∧ s.Moves s' { given := [a] } := by
  refine (notSupported_reports sound loc what).step fun _ s' ⟨reports, _⟩ => ?_
  exact .pure ⟨rfl, reports.moves.give_constant .undefined⟩

end

lemma pinned_step {e : Lowered} {eval : Action V V}
    (spec : e.Spec rt covered eval) (sound : s.Sound) {keep : Bool} {β : Type}
    {next : Operand → Lower β} {post : β → Lowering → Prop}
    (rest : ∀ a s', (keep = true → ∀ v, a ≠ .var v) → s.Moves s' { given := [a] } →
      (covered → s.Executes rt s' .value a eval) → Runs (next a) s' post) :
    Runs (e.value >>= fun x => pinIf keep x >>= next) s post := by
  refine (spec.value sound).step fun x s1 ⟨moves, executes⟩ => ?_
  refine (pinIf_spec rt moves.sound keep (moves.ready (by simp))).step ?_
  rintro a s2 ⟨kind, pinned, settles⟩
  exact rest a s2 kind (moves.andThen pinned) fun known =>
    (executes known).pass moves rfl (by simp) settles

lemma literalValue_spec (sound : s.Sound) (loc : Location) (lit : LiteralSyntax) :
    Runs (literalValue loc lit) s fun a s' => s.Moves s' { given := [a] } ∧
      (lit.isPlain = true → s.Quiet s' ∧ ∀ m : Memory V, m.read rt a = rt.literal lit) := by
  have refused (what : String) (other : lit.isPlain = false) :
      Runs (refuse loc what) s fun a s' => s.Moves s' { given := [a] } ∧
        (lit.isPlain = true → s.Quiet s' ∧ ∀ m : Memory V, m.read rt a = rt.literal lit) :=
    (refuse_moves sound loc what).mono fun a s' ⟨_, moves⟩ => ⟨moves, by simp [other]⟩
  have known (c : Constant) (same : rt.ofConstant c = rt.literal lit) :
      Runs (pure (.constant c) : Lower Operand) s fun a s' => s.Moves s' { given := [a] } ∧
        (lit.isPlain = true → s.Quiet s' ∧ ∀ m : Memory V, m.read rt a = rt.literal lit) :=
    Runs.pure ⟨(Moves.refl sound).give_constant c, fun _ => ⟨Quiet.refl s, fun _ => same⟩⟩
  rw [literalValue]
  split
  next regex => exact refused _ (by simp [LiteralSyntax.isPlain, regex])
  split
  next bigint => exact refused _ (by simp [LiteralSyntax.isPlain, bigint])
  cases value : lit.value with
  | null => exact known .null (by simp [Runtime.literal, value])
  | boolean b => exact known (.boolean b) (by simp [Runtime.literal, value])
  | number x => exact known (.number x) (by simp [Runtime.literal, value])
  | text t => exact known (.text t) (by simp [Runtime.literal, value])
  | other => exact refused _ (by simp [LiteralSyntax.isPlain, value])

end Lowering
end Scriptc
