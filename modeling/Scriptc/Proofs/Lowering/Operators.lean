import Scriptc.Proofs.Lowering.Values

/-!
# Operators of lowered code

The code of unary, binary, logical and conditional expressions evaluates operands from left to
right, and each value is kept while the code after it runs.
-/

namespace Scriptc

variable {d : Demand} {code : Lower Operand} {op : Opcode} {value : Operand}
  {rhs onTrue onFalse : Label}

lemma Runtime.applyBinary_plan {V : Type} (rt : Runtime V) {op : BinaryOp} {plan : BinaryPlan}
    (known : op.plan? = some plan) (x y : V) :
    rt.applyBinary op x y = if plan.numeric then rt.binary plan.op (rt.toNumber x) (rt.toNumber y)
      else if plan.swapped then rt.binary plan.op y x else rt.binary plan.op x y := by
  cases op <;> cases known <;> rfl

lemma BinaryOp.plan_isBinary {op : BinaryOp} {plan : BinaryPlan}
    (known : op.plan? = some plan) : plan.op.isBinary = true ∧ plan.op ≠ .delete := by
  cases op <;> cases known <;> exact ⟨rfl, by decide⟩

namespace Runtime

variable {V α : Type} (rt : Runtime V) (x : V) (a b : α)

lemma ite_decides_and : (if rt.decides .and x then a else b) = if rt.truthy x then b else a := by
  rw [decides]
  cases rt.truthy x <;> rfl

lemma ite_decides_nullish :
    (if rt.decides .nullish x then a else b) = if rt.nullish x then b else a := by
  rw [decides]
  cases rt.nullish x <;> rfl

end Runtime

namespace Lowering

variable {V : Type} (rt : Runtime V) {s s' : Lowering}

lemma applyPlan_spec (sound : s.Sound) (plan : BinaryPlan)
    (binary : plan.op.isBinary = true ∧ plan.op ≠ .delete) {left right : Operand}
    (left_ready : s.Ready left) (right_ready : s.Ready right) (apart : left.Apart right)
    (loc : Location) (labels : s.Knows d.labels) :
    Runs (applyPlan plan left right loc d) s fun a s' =>
      s.Moves s' { owed := d.labels, taken := [left, right], given := d.given a } ∧
        s.Settles rt s' [left, right] d a fun m =>
          rt.binary plan.op (m.read rt left) (m.read rt right) := by
  have value := (binaryValue_spec rt sound binary.1 binary.2 left_ready right_ready apart).mono
    fun _ _ post => post.2
  cases d with
  | value => exact value
  | effect => exact value.mono fun a s' ⟨moves, settles⟩ => ⟨moves, settles.effect⟩
  | branch onTrue onFalse =>
    rw [applyPlan]
    split
    next relational =>
      refine (branchCompare_does rt sound relational left_ready.holds.1 right_ready.holds.1
        labels).step fun taken s1 ⟨jumped, jumps⟩ => ?_
      have left_still := jumped.still_ready left_ready (by simp)
      refine (release_moves jumped.sound left_still.inUse).step fun _ s2 ⟨first, quiet2⟩ => ?_
      have moves2 := jumped.take first (by simp)
      have right_still := moves2.still_ready right_ready fun id here => by
        simpa using fun same => apart id same.symm here
      refine (release_moves first.sound right_still.inUse).step fun _ s3 ⟨second, quiet3⟩ => ?_
      refine (reportDecided_reports second.sound (some loc) taken).step fun _ s4 reports => ?_
      have moves4 := (moves2.take second (by simp)).andThen reports.moves
      have later := (first.follows quiet2).trans
        ((second.follows quiet3).trans (reports.moves.follows reports.quiet))
      refine .pure ⟨moves4.retake (by simp [or_comm]), jumps.follows.trans later, fun m => ?_⟩
      exact .arrives ((jumps.goes m).later later) trivial
    next =>
      refine value.step fun b s1 ⟨moves, settles⟩ => ?_
      refine (settle_spec rt moves.sound (moves.ready (by simp)) (some loc)
        (moves.knows labels)).mono ?_
      rintro a s2 ⟨settled, meets⟩
      exact ⟨moves.andThenTo settled fun label mem => .inl (labels label mem),
        settles.trans moves rfl meets (by simp) fun _ _ _ _ read => read⟩

lemma applyNumeric_spec (sound : s.Sound) (plan : BinaryPlan)
    (binary : plan.op.isBinary = true ∧ plan.op ≠ .delete) {left right : Operand}
    (left_ready : s.Ready left) (right_ready : s.Ready right) (apart : left.Apart right)
    (loc : Location) (labels : s.Knows d.labels) : Runs (do
      let left ← toNumber left
      let right ← toNumber right
      applyPlan plan left right loc d) s fun a s' =>
        s.Moves s' { owed := d.labels, taken := [left, right], given := d.given a } ∧
          s.Settles rt s' [left, right] d a fun m =>
            rt.binary plan.op (rt.toNumber (m.read rt left)) (rt.toNumber (m.read rt right)) := by
  refine (toNumber_spec rt sound left_ready).step fun x s1 ⟨_, first, x_settles⟩ => ?_
  have right_left {id : LocalId} (here : right = .cell id) : s.Spared [left] id :=
    ⟨right_ready.inUse id here, by simpa using fun same => apart id same.symm here⟩
  have right1 := first.still_ready right_ready fun id here => (right_left here).2
  refine (toNumber_spec rt first.sound right1).step fun y s2 ⟨_, second, y_settles⟩ => ?_
  have x_right {id : LocalId} (here : x = .cell id) : Operand.cell id ∉ [right] := by
    intro there
    have same := (List.mem_singleton.mp there).symm
    exact first.not_spared (by simp [here]) (right_left same)
  have moves2 := first.take second fun id taken given =>
    x_right (List.mem_singleton.mp given).symm taken
  have x_ready : s1.Ready x := first.ready (by simp)
  have apart2 : y.Apart x := by simpa using moves2.apart
  have both := moves2.reorder (.swap _ _ _)
  refine (applyPlan_spec rt both.sound plan binary (both.ready (by simp)) (both.ready (by simp))
    apart2.symm loc (both.knows labels)).mono fun a s3 ⟨third, settles⟩ => ?_
  have moves3 := both.andThenTo third fun label mem => .inl (labels label mem)
  refine ⟨moves3.balance (by simp) (by simp [or_comm]) (by simp) labels, ?_, fun m => ?_⟩
  · exact x_settles.follows.trans (y_settles.follows.trans settles.follows)
  obtain ⟨m1, goes1, world1, same1, x_read⟩ := x_settles.performs m
  obtain ⟨m2, goes2, world2, same2, y_read⟩ := y_settles.performs m1
  have right_read : m1.read rt right = m.read rt right :=
    same1.read right_ready.holds.2 (fun id here => right_left here) fun v _ => by rw [world1]
  have x_kept : m2.read rt x = m1.read rt x :=
    same2.read x_ready.holds.2 (fun id here => ⟨x_ready.inUse id here, x_right here⟩)
      fun v _ => by rw [world2]
  have last := settles.performs m2
  rw [x_kept, show m1.read rt x = _ from x_read, show m2.read rt y = _ from y_read, right_read,
    world2, world1] at last
  have later := y_settles.follows.trans settles.follows
  refine .after (goes1.later later) (same1.mono ?_)
    (.after (goes2.later settles.follows) (same2.mono ?_) (last.mono ?_ ?_))
  · exact fun id spared => spared.mono (by simp +contextual)
  · intro id spared
    have left_spared : s.Spared [left] id := spared.mono (by simp +contextual)
    exact ⟨(first.inUse id).mpr (.inl left_spared), (spared.mono (by simp +contextual)).2⟩
  · exact fun id spared => both.spared (by simp) (spared.mono (by simp [or_comm]))
  · exact fun _ _ _ _ holds => holds

lemma applyBinary_spec (sound : s.Sound) (op : BinaryOp) {left right : Operand}
    (left_ready : s.Ready left) (right_ready : s.Ready right) (apart : left.Apart right)
    (loc : Location) (labels : s.Knows d.labels) :
    Runs (applyBinary op left right loc d) s fun a s' =>
      s.Moves s' { owed := d.labels, taken := [left, right], given := d.given a } ∧
        (op ≠ .power → s.Settles rt s' [left, right] d a fun m =>
          rt.applyBinary op (m.read rt left) (m.read rt right)) := by
  rw [applyBinary]
  cases known : op.plan? with
  | none =>
    have power : op = .power := by cases op <;> first | rfl | cases known
    refine (release_moves sound left_ready.inUse).step fun _ s1 ⟨first, _⟩ => ?_
    have right_still := first.still_ready right_ready fun id here => by
      simpa using fun same => apart id same.symm here
    refine (release_moves first.sound right_still.inUse).step fun _ s2 ⟨second, _⟩ => ?_
    refine (notSupported_reports second.sound loc _).step fun _ s3 ⟨reports, _⟩ => ?_
    have moves3 := (first.take second (by simp)).andThen reports.moves
    have undefined_ready : s3.Ready .undefined := ⟨holds_constant s3 _, by simp [Operand.undefined]⟩
    refine (settle_spec rt moves3.sound undefined_ready (some loc) (moves3.knows labels)).mono ?_
    rintro a s4 ⟨settled, -⟩
    have moves4 := moves3.takeTo settled (by simp) fun label mem => .inl (labels label mem)
    exact ⟨moves4.balance (by simp) (by simp [Operand.undefined, or_comm]) (by simp) labels,
      fun other => absurd power other⟩
  | some plan =>
    have binary := BinaryOp.plan_isBinary known
    have rest {s1 : Lowering} (reports : s.Reports s1) : Runs (if plan.numeric then do
          let left ← toNumber left
          let right ← toNumber right
          applyPlan plan left right loc d
        else if plan.swapped then applyPlan plan right left loc d
        else applyPlan plan left right loc d) s1 fun a s' =>
          s.Moves s' { owed := d.labels, taken := [left, right], given := d.given a } ∧
            (op ≠ .power → s.Settles rt s' [left, right] d a fun m =>
              rt.applyBinary op (m.read rt left) (m.read rt right)) := by
      have left1 := reports.moves.still_ready left_ready (by simp)
      have right1 := reports.moves.still_ready right_ready (by simp)
      have labels1 := reports.moves.knows labels
      have reached (label : Label) (mem : label ∈ d.labels) :
          label < s.labelCount ∨ label ∈ ([] : List Label) ∨ label ∈ ([] : List Label) :=
        .inl (labels label mem)
      split
      next numeric =>
        have value (x y : V) : rt.applyBinary op x y =
            rt.binary plan.op (rt.toNumber x) (rt.toNumber y) := by
          rw [rt.applyBinary_plan known, if_pos numeric]
        refine (applyNumeric_spec rt reports.moves.sound plan binary left1 right1 apart
          loc labels1).mono fun a s' ⟨moves, settles⟩ => ⟨?_, fun _ => ?_⟩
        · exact (reports.moves.takeTo moves (by simp) reached).balance (by simp) (by simp)
            (by simp) labels
        · simpa only [value] using reports.settles settles
      next plain =>
        split
        next swapped =>
          have value (x y : V) : rt.applyBinary op x y = rt.binary plan.op y x := by
            rw [rt.applyBinary_plan known, if_neg plain, if_pos swapped]
          refine (applyPlan_spec rt reports.moves.sound plan binary right1 left1 apart.symm loc
            labels1).mono fun a s' ⟨moves, settles⟩ => ⟨?_, fun _ => ?_⟩
          · exact (reports.moves.takeTo moves (by simp) reached).balance (by simp)
              (by simp [or_comm]) (by simp) labels
          · simpa only [value] using (reports.settles settles).sparing (by simp [or_comm])
        next straight =>
          have value (x y : V) : rt.applyBinary op x y = rt.binary plan.op x y := by
            rw [rt.applyBinary_plan known, if_neg plain, if_neg straight]
          refine (applyPlan_spec rt reports.moves.sound plan binary left1 right1 apart
            loc labels1).mono fun a s' ⟨moves, settles⟩ => ⟨?_, fun _ => ?_⟩
          · exact (reports.moves.takeTo moves (by simp) reached).balance (by simp) (by simp)
              (by simp) labels
          · simpa only [value] using reports.settles settles
    dsimp only
    split
    · exact (warn_reports sound loc _).step fun _ s1 reports => rest reports
    · exact rest (.refl sound)

section

variable {rt} {left right : Lowered} {coversLeft coversRight : Prop}
  {evalLeft evalRight : Action V V}

lemma combine_spec (right_spec : right.Spec rt coversRight evalRight) (sound : s.Sound)
    {first : Operand} (ready : s.Ready first)
    (pinned : (!right.isSimple) = true → ∀ v, first ≠ .var v) (loc : Location) (op : BinaryOp)
    (labels : s.Knows d.labels) : Runs (do
      let second ← right.value
      applyBinary op first second loc d) s fun a s' =>
        s.Moves s' { owed := d.labels, taken := [first], given := d.given a } ∧
          (op ≠ .power ∧ coversRight → s.Acts rt s' [first] d a fun ctx m => do
            let y ← evalRight ctx
            pure (rt.applyBinary op (m.read rt first) y)) := by
  refine (right_spec.value sound).step fun second s1 ⟨done, right_executes⟩ => ?_
  have moves1 := (Moves.keep sound ready).compose [] [] done (by simp) (by simp) (by simp)
  have apart := (by simpa using moves1.apart : second.Apart first).symm
  refine (applyBinary_spec rt moves1.sound op (moves1.ready (by simp)) (moves1.ready (by simp))
    apart loc (moves1.knows labels)).mono fun a s2 ⟨applied, computes⟩ => ?_
  have both := moves1.reorder (List.Perm.swap _ _ _)
  have moved := both.andThenTo applied fun label mem => .inl (labels label mem)
  refine ⟨moved.balance (by simp) (by simp) (by simp) labels, ?_⟩
  rintro ⟨other, covered⟩
  have right_executes := right_executes covered
  have computes := computes other
  refine ⟨right_executes.follows.trans computes.follows, fun ctx m suits => ?_⟩
  have leaves : s1.Leaves evalRight [first] := by
    refine right_spec.leaves covered (fun effects v mem => ?_) s1
    exact pinned effects v (List.mem_singleton.mp mem).symm
  have value := (right_executes.holding (by simpa using ready) leaves ctx m
    (suits.back computes.follows)).later computes.follows
  refine (value.within fun id spared => spared.1).bind ?_
  rintro y m1 - - ⟨second_read, kept⟩
  have last := computes.performs m1
  rw [kept first (by simp), show m1.read rt second = y from second_read] at last
  exact last.within fun _ => both.spared (by simp)

lemma binaryCode_meets (left_spec : left.Spec rt coversLeft evalLeft)
    (right_spec : right.Spec rt coversRight evalRight) (loc : Location) (op : BinaryOp) :
    Meets rt (binaryCode loc op left right) (op ≠ .power ∧ coversLeft ∧ coversRight) (fun ctx => do
      let x ← evalLeft ctx
      let y ← evalRight ctx
      pure (rt.applyBinary op x y)) := by
  intro d s sound labels
  refine pinned_step rt left_spec sound fun a s1 pinned moves1 left_executes => ?_
  refine (combine_spec right_spec moves1.sound (moves1.ready (by simp)) pinned loc op
    (moves1.knows labels)).mono ?_
  rintro b s2 ⟨combined, acts⟩
  have moved := moves1.andThenTo combined fun label mem => .inl (labels label mem)
  refine ⟨moved.balance (by simp) (by simp) (by simp) labels, ?_⟩
  rintro ⟨other, left_covered, right_covered⟩
  exact (left_executes left_covered).act moves1 rfl (acts ⟨other, right_covered⟩) (by simp)

variable {argument : Lowered} {covered : Prop} {eval : Action V V}

lemma settleUnary_meets (gives : Gives rt code covered eval) (loc : Location) :
    Meets rt (fun d => do settleUnary loc (← code) d) covered eval := by
  intro d s sound labels
  cases d with
  | value => exact settle_meets rt gives (some loc) .value s sound labels
  | branch onTrue onFalse =>
    exact settle_meets rt gives (some loc) (.branch onTrue onFalse) s sound labels
  | effect =>
    refine (gives s sound).step fun a s1 ⟨moves, executes⟩ => ?_
    refine (release_moves moves.sound (moves.ready (by simp)).inUse).step ?_
    rintro - s2 ⟨freed, quiet⟩
    refine .pure ⟨(moves.andThen freed).give_constant .undefined, fun known => ?_⟩
    have executed := (executes known).quiet freed quiet
    refine ⟨executed.follows, fun ctx m suits => ?_⟩
    exact (executed.performs ctx m suits).mono (fun _ used => used) fun _ _ _ _ _ => trivial

lemma unaryValue_gives (gives : Gives rt code covered eval) (unary : op.isUnary = true) :
    Gives rt (do unaryValue op (← code)) covered fun ctx =>
      eval ctx >>= fun x => pure (rt.unary op x) := by
  intro s sound
  refine (gives s sound).step fun a s1 ⟨moves, executes⟩ => ?_
  refine (unaryValue_spec rt moves.sound unary (moves.ready (by simp))).mono ?_
  rintro b s2 ⟨-, computed, settles⟩
  refine ⟨moves.andThen computed, fun known => ?_⟩
  exact (executes known).settle moves rfl settles (by simp) fun _ => rfl

lemma toNumber_gives (gives : Gives rt code covered eval) :
    Gives rt (do toNumber (← code)) covered fun ctx => eval ctx >>= fun x =>
      pure (rt.toNumber x) := by
  have unary : Opcode.toNumber.isUnary = true := rfl
  exact unaryValue_gives gives unary

section

variable (spec : argument.Spec rt covered eval) (loc : Location)
include spec

lemma notCode_meets : Meets rt (notCode loc argument) covered fun ctx =>
    eval ctx >>= fun x => pure (rt.unary .logicalNot x) := by
  have unary : Opcode.logicalNot.isUnary = true := rfl
  have gives := unaryValue_gives (fun s sound => spec.value sound) unary
  intro d s sound labels
  cases d with
  | value =>
    simpa only [notCode, bind_assoc] using settleUnary_meets gives loc .value s sound labels
  | effect =>
    simpa only [notCode, bind_assoc] using settleUnary_meets gives loc .effect s sound labels
  | branch onTrue onFalse =>
    have swapped : s.Knows (Demand.branch onFalse onTrue).labels := fun label mem =>
      labels label (by simpa [Demand.labels, or_comm] using mem)
    refine (spec.runs (.branch onFalse onTrue) s sound swapped).mono ?_
    rintro a s' ⟨moves, executes⟩
    refine ⟨moves.balance (by simp [Demand.labels, or_comm]) (by simp) (by simp [Demand.given])
      labels, ?_⟩
    intro known
    refine ⟨(executes known).follows, fun ctx m suits => ?_⟩
    refine ((executes known).performs ctx m suits).bind fun x m1 _ _ _ => ?_
    have turned : (Demand.branch onFalse onTrue).arrival rt s'.point x =
        (Demand.branch onTrue onFalse).arrival rt s'.point (rt.unary .logicalNot x) := by
      simp only [Demand.arrival, rt.truthy_not]
      cases rt.truthy x <;> rfl
    rw [turned]
    exact .arrives (.refl (by intro _ here; cases here)) trivial

lemma unaryCode_meets (unary : op.isUnary = true) :
    Meets rt (unaryCode loc op false argument) covered fun ctx =>
      eval ctx >>= fun x => pure (rt.unary op x) := by
  have gives := unaryValue_gives (fun s sound => spec.value sound) unary
  intro d s sound labels
  simpa only [unaryCode, bind_assoc, pure_bind, Bool.false_eq_true, if_false] using
    settleUnary_meets gives loc d s sound labels

lemma numericCode_meets (unary : op.isUnary = true) :
    Meets rt (unaryCode loc op true argument) covered fun ctx =>
      eval ctx >>= fun x => pure (rt.unary op (rt.toNumber x)) := by
  have gives := unaryValue_gives (toNumber_gives fun s sound => spec.value sound) unary
  intro d s sound labels
  simpa only [unaryCode, bind_assoc, pure_bind, if_true] using
    settleUnary_meets gives loc d s sound labels

lemma plusCode_meets : Meets rt (plusCode loc argument) covered fun ctx =>
    eval ctx >>= fun x => pure (rt.toNumber x) := by
  have gives := toNumber_gives fun s sound => spec.value sound
  intro d s sound labels
  simpa only [plusCode, bind_assoc] using settleUnary_meets gives loc d s sound labels

lemma voidCode_meets : Meets rt (voidCode loc argument) covered fun ctx =>
    eval ctx >>= fun _ => pure rt.undefined := by
  have gives : Gives rt (argument.discard >>= fun _ => pure .undefined) covered fun ctx =>
      eval ctx >>= fun _ => pure rt.undefined := by
    intro s sound
    refine (spec.discard sound).step fun _ s' ⟨moves, executes⟩ => ?_
    refine .pure ⟨moves.give_constant .undefined, fun known => ?_⟩
    refine ⟨(executes known).follows, fun ctx m suits => ?_⟩
    refine ((executes known).performs ctx m suits).bind fun x m1 _ _ _ => ?_
    exact .stays moves.sound rfl
  intro d s sound labels
  simpa only [voidCode, bind_assoc, pure_bind] using settleUnary_meets gives loc d s sound labels

end

variable (rt)

lemma testLeft_does (sound : s.Sound) (op : LogicalOp) (fits : s.Fits value) {done : Label}
    (labels : s.Knows [rhs, done]) :
    Runs (testLeft op value rhs done) s fun _ s' => s.Moves s' { owed := [rhs, done] } ∧
      s.Does rt s' fun m =>
        ⟨.toward (if rt.decides op (m.read rt value) then done else rhs), m⟩ := by
  cases op with
  | and =>
    refine (branchTrue_does rt sound fits labels).step fun _ s' ⟨moves, does⟩ => ?_
    refine .pure ⟨moves, does.follows, fun m => ?_⟩
    rw [rt.ite_decides_and]
    exact does.goes m
  | or =>
    have swapped : s.Knows [done, rhs] := fun label mem =>
      labels label (by simpa [or_comm] using mem)
    refine (branchTrue_does rt sound fits swapped).step fun _ s' ⟨moves, does⟩ => ?_
    exact .pure ⟨moves.balance (by simp [or_comm]) (by simp) (by simp) labels, does⟩
  | nullish =>
    have relational : Opcode.looseEq.isRelational = true := rfl
    have null_fits : s.Fits (.constant .null) := trivial
    refine (branchCompare_does rt sound relational fits null_fits labels).step ?_
    rintro - s' ⟨moves, does⟩
    refine .pure ⟨moves, does.follows, fun m => ?_⟩
    have goes := does.goes m
    rw [show m.read rt (.constant .null) = rt.ofConstant .null from rfl,
      rt.truthy_looseEq_null] at goes
    rwa [rt.ite_decides_nullish]

lemma joinInto_spec (sound : s.Sound) {id : LocalId} (ready : s.Ready value)
    (temp : s.code.isTemp[id]? = some true) (unused : value ≠ .cell id → ¬s.InUse id) :
    Runs (joinInto (.cell id) value) s fun _ s' =>
      s.Moves s' { taken := [value], given := [.cell id] } ∧
        s.Settles rt s' [value] .value (.cell id) (·.read rt value) := by
  rw [joinInto]
  split
  next ne =>
    have ne := Operand.bne_cell.mp ne
    refine (allocSpecific_moves sound temp (unused ne)).step fun _ s1 ⟨taken, quiet⟩ => ?_
    have dest_fits : s1.Fits (.cell id) := taken.fits (by simp)
    have fits := taken.keeps.fits ready.holds.1
    refine (assign_does rt taken dest_fits fits rfl (by simp) (by simp)).step
      fun _ s2 ⟨assigned, does⟩ => ?_
    have still := assigned.still_ready ready (by simp)
    refine (release_moves assigned.sound still.inUse).mono fun _ s3 ⟨freed, quiet3⟩ => ?_
    have moves := assigned.take freed fun other here there => by
      obtain rfl := List.mem_singleton.mp here
      exact ne (by simpa using there)
    have later := freed.follows quiet3
    refine ⟨moves, (taken.follows quiet).trans (does.follows.trans later), fun m => ?_⟩
    have goes := (does.goes m).later later
    rw [quiet.point, ← quiet3.point] at goes
    refine .value goes rfl (.write_cell m ?_ _) (m.read_write_cell id _)
    exact fun spared => unused ne spared.1
  next same =>
    obtain rfl : value = .cell id := by
      by_contra ne
      exact same (Operand.bne_cell.mpr ne)
    exact .pure ⟨.keep sound ready, settles_same rt sound⟩

/-- A value that is put into a temporary which another way to the same place has put its value
in. -/
lemma valueInto_step {rt} (right_spec : right.Spec rt coversRight evalRight) (sound : s.Sound)
    {id : LocalId} (temp : s.code.isTemp[id]? = some true) (unused : ¬s.InUse id) {β : Type}
    {next : Lower β} {post : β → Lowering → Prop}
    (rest : ∀ s', s.Moves s' { given := [.cell id] } →
      (coversRight → s.Executes rt s' .value (.cell id) evalRight) → Runs next s' post) :
    Runs (do joinInto (.cell id) (← right.value); next) s post := by
  refine (right_spec.value sound).step fun b s1 ⟨evaluated, executes⟩ => ?_
  refine (joinInto_spec rt evaluated.sound (evaluated.ready (by simp))
    (evaluated.keeps.temp sound temp) fun other =>
      evaluated.still_unused unused (by simpa using other.symm)).step fun _ s2 ⟨joined, joins⟩ => ?_
  exact rest s2 (evaluated.andThen joined) fun known =>
    (executes known).pass evaluated rfl (by simp) joins

lemma logicalRest_spec {rt} (right_spec : right.Spec rt coversRight evalRight) (op : LogicalOp)
    {s2 s3 : Lowering} {done : Label} (moves : s.Moves s2 { made := [rhs, done] })
    (quiet : s.Quiet s2) (tested : s2.Moves s3 { owed := [rhs, done] })
    (tests : coversLeft → s2.Tests rt s3 evalLeft fun x => if rt.decides op x then done else rhs) :
    Runs (do place rhs; right.discard; place done) s3 fun _ s' => s.Moves s' {} ∧
      (coversLeft ∧ coversRight → s.Executes rt s' .effect .undefined fun ctx =>
        evalLeft ctx >>= fun x => Evaluation.unlessDecided rt op x (evalRight ctx)) := by
  have moves3 := moves.andThenTo tested fun _ mem => .inr (.inl mem)
  refine moves3.place_step rt fun s4 moves4 lands4 => ?_
  refine (right_spec.discard moves4.sound).step fun _ s5 ⟨discarded, right_executes⟩ => ?_
  have moves5 := moves4.andThen discarded
  refine (moves5.place_last rt (by simp)).mono fun _ s6 ⟨moves6, lands6⟩ => ⟨moves6, ?_⟩
  rintro ⟨left_covered, right_covered⟩
  have tests := tests left_covered
  have right_executes := right_executes right_covered
  have later4 := right_executes.follows.trans lands6.follows
  have later3 := lands4.follows.trans later4
  refine ⟨(moves.follows quiet).trans (tests.follows.trans later3), fun ctx m suits => ?_⟩
  have first := ((tests.performs ctx m (suits.back later3)).later later3).within fun _ =>
    moves.still_inUse rfl
  rw [quiet.point] at first
  refine first.bind fun x m1 _ same1 _ => ?_
  rw [Evaluation.unlessDecided]
  by_cases decided : rt.decides op x = true
  · simp only [if_pos decided]
    exact .arrives (lands6.toward m1) trivial
  · simp only [if_neg decided]
    have second := right_executes.inside moves4 rfl lands6.follows (suits.same same1)
    refine .going ((lands4.toward m1).later later4) (second.andThen ?_)
    exact fun y m5 _ _ _ => .arrives (lands6.past m5) trivial

lemma logicalTail_spec {rt} (right_spec : right.Spec rt coversRight evalRight) (op : LogicalOp)
    {s1 s2 : Lowering} {shortcut : Label} (labels : s.Knows [onTrue, onFalse])
    (inside : shortcut ∈ [onTrue, onFalse]) (moves : s.Moves s1 { made := [rhs] })
    (quiet : s.Quiet s1) (tested : s1.Moves s2 { owed := [rhs, shortcut] })
    (tests : coversLeft → s1.Tests rt s2 evalLeft fun x =>
      if rt.decides op x then shortcut else rhs)
    (decided : ∀ x, rt.decides op x = true → shortcut = if rt.truthy x then onTrue else onFalse) :
    Runs (do place rhs; right.jump onTrue onFalse) s2 fun _ s' =>
      s.Moves s' { owed := [onTrue, onFalse] } ∧
        (coversLeft ∧ coversRight → s.Executes rt s' (.branch onTrue onFalse) .undefined fun ctx =>
          evalLeft ctx >>= fun x => Evaluation.unlessDecided rt op x (evalRight ctx)) := by
  have moves2 : s.Moves s2 { made := [rhs], owed := [rhs, shortcut] } := by
    refine moves.andThenTo tested fun label mem => ?_
    rcases List.mem_cons.mp mem with rfl | other
    · exact .inr (.inl List.mem_cons_self)
    · exact .inl (labels label (List.mem_singleton.mp other ▸ inside))
  refine moves2.place_step rt fun s3 moves3 lands => ?_
  refine (right_spec.jump moves3.sound (moves3.knows labels)).mono fun _ s4 ⟨jumped, executes⟩ => ?_
  have moves4 := moves3.andThenTo jumped fun label mem => .inl (labels label mem)
  refine ⟨moves4.balance ?_ (by simp) (by simp) labels, ?_⟩
  · rintro label (_ | ⟨_, _ | ⟨_, _ | ⟨_, _ | ⟨_, absent⟩⟩⟩⟩)
    · simp
    · simp
    · simp
    · exact .inl inside
    · cases absent
  rintro ⟨left_covered, right_covered⟩
  have tests := tests left_covered
  have executes := executes right_covered
  have later2 := lands.follows.trans executes.follows
  refine ⟨(moves.follows quiet).trans (tests.follows.trans later2), fun ctx m suits => ?_⟩
  have first := ((tests.performs ctx m (suits.back later2)).later later2).within fun _ =>
    moves.still_inUse rfl
  rw [quiet.point] at first
  refine first.bind fun x m1 _ same1 _ => ?_
  rw [Evaluation.unlessDecided]
  by_cases known : rt.decides op x = true
  · simp only [if_pos known]
    rw [decided x known]
    exact .arrives (.refl (by intro _ here; cases here)) trivial
  · simp only [if_neg known]
    refine .going ((lands.toward m1).later executes.follows) ?_
    exact executes.inside moves3 rfl moves4.sound.follows (suits.same same1)

section

variable {rt} (left_spec : left.Spec rt coversLeft evalLeft)
  (right_spec : right.Spec rt coversRight evalRight)
include left_spec right_spec

lemma logicalValue_gives (op : LogicalOp) :
    Gives rt (logicalValue op left right) (coversLeft ∧ coversRight) fun ctx =>
      evalLeft ctx >>= fun x => Evaluation.unlessDecided rt op x (evalRight ctx) := by
  intro s sound
  refine (left_spec.value sound).step fun a s1 ⟨moves1, left_executes⟩ => ?_
  refine toTemp_step rt moves1.sound (moves1.ready (by simp)) fun id s2 copied copies => ?_
  have moves2 : s.Moves s2 { given := [.cell id] } := moves1.andThen copied
  refine (newLabel_moves moves2.sound).step fun rhs s3 ⟨label3, quiet3⟩ => ?_
  refine (newLabel_moves label3.sound).step fun done s4 ⟨label4, quiet4⟩ => ?_
  have moves4 := (moves2.andThen label3).andThen label4
  have cell_fits : s4.Fits (.cell id) := moves4.fits (by simp)
  refine (testLeft_does rt moves4.sound op cell_fits moves4.knows_made).step
    fun _ s5 ⟨tested, tests⟩ => ?_
  have moves5 : s.Moves s5 { made := [rhs, done], owed := [rhs, done], given := [.cell id] } :=
    moves4.andThenTo tested fun _ mem => .inr (.inl mem)
  refine moves5.place_step rt fun s6 moves6 lands6 => ?_
  have dest_ready : s6.Ready (.cell id) := moves6.ready (by simp)
  refine (release_moves moves6.sound dest_ready.inUse).step fun _ s7 ⟨freed, quiet7⟩ => ?_
  have moves7 := moves6.andThen freed
  have temp := freed.keeps.temp moves6.sound (dest_ready.inUse id rfl).1
  refine valueInto_step right_spec moves7.sound temp (by simp [freed.inUse id])
    fun s9 evaluated right_executes => ?_
  have moves9 := moves7.andThen evaluated
  refine moves9.place_step rt fun s10 moves10 lands10 => ?_
  refine .pure ⟨moves10.balance (by simp) (by simp) (by simp) knows_nil, ?_⟩
  rintro ⟨left_covered, right_covered⟩
  have left_executes := left_executes left_covered
  have right_executes := right_executes right_covered
  have later6 := (freed.follows quiet7).trans (right_executes.follows.trans lands10.follows)
  have later5 := lands6.follows.trans later6
  have later2 := (label3.follows quiet3).trans
    ((label4.follows quiet4).trans (tests.follows.trans later5))
  have later1 := copies.follows.trans later2
  refine ⟨left_executes.follows.trans later1, fun ctx m suits => ?_⟩
  refine ((left_executes.performs ctx m (suits.back later1)).later later1).bind ?_
  rintro x m1 - same1 a_read
  obtain ⟨m2, goes2, world2, same2, dest_read⟩ := copies.performs m1
  have x_read := Eq.trans dest_read a_read
  have goes5 := (tests.goes m2).later later5
  rw [quiet4.point, quiet3.point, x_read] at goes5
  refine .after (goes2.later later2)
    (same2.mono fun _ used => moves1.inUse_spared rfl (by simp) used)
    (.going goes5 ?_)
  rw [Evaluation.unlessDecided, ← world2]
  by_cases decided : rt.decides op x = true
  · rw [if_pos decided, if_pos decided]
    exact .arrives (lands10.toward m2) x_read
  · rw [if_neg decided, if_neg decided]
    have goes6 := (lands6.toward m2).later later6
    rw [← quiet7.point] at goes6
    have second :=
      right_executes.inside moves7 rfl lands10.follows ((suits.same same1).same same2)
    refine .going goes6 (second.andThen ?_)
    exact fun y m9 _ _ y_read => .arrives (lands10.past m9) y_read

lemma logicalEffect_spec (op : LogicalOp) (sound : s.Sound) :
    Runs (logicalEffect op left right) s fun _ s' => s.Moves s' {} ∧
      (coversLeft ∧ coversRight → s.Executes rt s' .effect .undefined fun ctx =>
        evalLeft ctx >>= fun x => Evaluation.unlessDecided rt op x (evalRight ctx)) := by
  refine (newLabel_moves sound).step fun rhs s1 ⟨label1, quiet1⟩ => ?_
  refine (newLabel_moves label1.sound).step fun done s2 ⟨label2, quiet2⟩ => ?_
  have moves2 := label1.andThen label2
  have quiet := quiet1.trans quiet2
  cases op with
  | and =>
    refine (left_spec.jump moves2.sound moves2.knows_made).step fun _ s3 ⟨tested, executes⟩ => ?_
    refine logicalRest_spec right_spec .and moves2 quiet tested fun known => ?_
    simpa only [rt.ite_decides_and] using (executes known).tests
  | or =>
    have other_order : s2.Knows [done, rhs] := fun label mem =>
      moves2.knows_made label (by simpa [or_comm] using mem)
    refine (left_spec.jump moves2.sound other_order).step fun _ s3 ⟨tested, executes⟩ => ?_
    have swapped : s2.Moves s3 { owed := [rhs, done] } :=
      tested.balance (by simp [or_comm]) (by simp) (by simp) moves2.knows_made
    exact logicalRest_spec right_spec .or moves2 quiet swapped fun known => (executes known).tests
  | nullish =>
    refine (left_spec.value moves2.sound).step fun a s3 ⟨evaluated, executes⟩ => ?_
    have ready : s3.Ready a := evaluated.ready (by simp)
    refine (testLeft_does rt evaluated.sound .nullish ready.holds.1
      (evaluated.knows moves2.knows_made)).step ?_
    rintro - s4 ⟨jumped, jumps⟩
    have moves4 : s2.Moves s4 { owed := [rhs, done], given := [a] } :=
      evaluated.andThenTo jumped fun label mem => .inl (moves2.knows_made label mem)
    refine (release_moves jumped.sound (moves4.ready (by simp)).inUse).step ?_
    rintro - s5 ⟨freed, quiet5⟩
    refine logicalRest_spec right_spec .nullish moves2 quiet (moves4.andThen freed) ?_
    intro known
    have executes := executes known
    have later := jumps.follows.trans (freed.follows quiet5)
    refine ⟨executes.follows.trans later, fun ctx m suits => ?_⟩
    refine ((executes.performs ctx m (suits.back later)).later later).andThen ?_
    rintro x m1 - - a_read
    have goes := (jumps.goes m1).later (freed.follows quiet5)
    rw [show m1.read rt a = x from a_read] at goes
    exact .arrives goes trivial

lemma logicalJump_spec (loc : Location) (op : LogicalOp) (sound : s.Sound)
    (labels : s.Knows [onTrue, onFalse]) :
    Runs (logicalJump loc op left right onTrue onFalse) s fun _ s' =>
      s.Moves s' { owed := [onTrue, onFalse] } ∧
        (coversLeft ∧ coversRight → s.Executes rt s' (.branch onTrue onFalse) .undefined fun ctx =>
          evalLeft ctx >>= fun x => Evaluation.unlessDecided rt op x (evalRight ctx)) := by
  refine (newLabel_moves sound).step fun rhs s1 ⟨made, quiet⟩ => ?_
  have known : s1.Knows [rhs, onTrue, onFalse] := by
    intro label mem
    rcases List.mem_cons.mp mem with rfl | other
    · exact made.knows_made label (by simp)
    · exact made.knows labels label other
  cases op with
  | and =>
    refine (left_spec.jump made.sound fun label mem => known label ?_).step
      fun _ s2 ⟨tested, executes⟩ => ?_
    · simp only [List.mem_cons, List.not_mem_nil, or_false] at mem ⊢
      tauto
    refine logicalTail_spec right_spec .and labels (by simp) made quiet tested (fun known => ?_) ?_
    · simpa only [rt.ite_decides_and] using (executes known).tests
    · intro x decided
      simp_all [Runtime.decides]
  | or =>
    have some_known {other : List Label} (fewer : ∀ label ∈ other, label = rhs ∨ label = onTrue) :
        s1.Knows other := by
      intro label mem
      rcases fewer label mem with rfl | rfl <;> exact known _ (by simp)
    refine (left_spec.jump made.sound (some_known (by simp [or_comm]))).step
      fun _ s2 ⟨tested, executes⟩ => ?_
    have swapped : s1.Moves s2 { owed := [rhs, onTrue] } :=
      tested.balance (by simp [or_comm]) (by simp) (by simp) (some_known (by simp))
    refine logicalTail_spec right_spec .or labels (by simp) made quiet swapped
      (fun known => (executes known).tests) ?_
    intro x decided
    simp_all [Runtime.decides]
  | nullish =>
    refine (logicalValue_gives left_spec right_spec .nullish s1 made.sound).step ?_
    rintro a s2 ⟨moves, executes⟩
    refine (branchOn_spec rt moves.sound (moves.ready (by simp)) (some loc)
      (moves.knows (made.knows labels))).mono ?_
    rintro - s3 ⟨branched, settles⟩
    have moves3 := (made.andThen moves).andThenTo branched fun label mem =>
      .inl (labels label mem)
    refine ⟨moves3.balance (by simp) (by simp) (by simp) labels, fun known => ?_⟩
    exact ((executes known).pass moves rfl (by simp) settles).after made rfl quiet

lemma logicalCode_meets (loc : Location) (op : LogicalOp) :
    Meets rt (logicalCode loc op left right) (coversLeft ∧ coversRight) fun ctx =>
      evalLeft ctx >>= fun x => Evaluation.unlessDecided rt op x (evalRight ctx) := by
  intro d s sound labels
  cases d with
  | value => exact logicalValue_gives left_spec right_spec op s sound
  | effect =>
    refine (logicalEffect_spec left_spec right_spec op sound).step fun _ s' ⟨moves, executes⟩ => ?_
    exact .pure ⟨moves.give_constant .undefined, executes⟩
  | branch onTrue onFalse =>
    refine (logicalJump_spec left_spec right_spec loc op sound labels).step ?_
    exact fun _ s' post => .pure post

end

lemma inTemp_spec (sound : s.Sound) (ready : s.Ready value) :
    Runs (inTemp value) s fun a s' => (∃ id, a = .cell id) ∧
      s.Moves s' { taken := [value], given := [a] } ∧
        s.Settles rt s' [value] .value a (·.read rt value) := by
  have copied (kind : ∀ id, value ≠ .cell id) (asked : s.code.holdsTemp value = .ok false) :
      Runs (inTemp value) s fun a s' => (∃ id, a = .cell id) ∧
        s.Moves s' { taken := [value], given := [a] } ∧
          s.Settles rt s' [value] .value a (·.read rt value) := by
    refine .bind ⟨_, s, inCode_same sound (Routine.ask_run asked), ?_⟩
    exact copy_spec rt sound ready.holds kind
  cases value with
  | cell id =>
    have temp := (ready.inUse id rfl).1
    have asked : s.code.holdsTemp (.cell id) = .ok true := by simp [Routine.holdsTemp, temp]
    refine .bind ⟨_, s, inCode_same sound (Routine.ask_run asked), ?_⟩
    exact .pure ⟨⟨id, rfl⟩, .keep sound ready, settles_same rt sound⟩
  | var | param | slot | constant => exact copied (by simp) rfl

section

variable {rt} {test whenTrue whenFalse : Lowered} {coversTest coversTrue coversFalse : Prop}
  {evalTest evalTrue evalFalse : Action V V}
  (test_spec : test.Spec rt coversTest evalTest)
include test_spec

lemma choice_step (sound : s.Sound) {β : Type} {next : Label → Label → Lower β}
    {post : β → Lowering → Prop}
    (rest : ∀ first second done s', s.Moves s'
        { made := [second, done], settled := [first], owed := [first, second] } →
      (coversTest → s.Chooses rt s' evalTest second) → Runs (next second done) s' post) :
    Runs (do
      let first ← newLabel
      let second ← newLabel
      let done ← newLabel
      test.jump first second
      place first
      next second done) s post := by
  refine (newLabel_moves sound).step fun first s1 ⟨label1, quiet1⟩ => ?_
  refine (newLabel_moves label1.sound).step fun second s2 ⟨label2, quiet2⟩ => ?_
  refine (newLabel_moves label2.sound).step fun done s3 ⟨label3, quiet3⟩ => ?_
  have moves3 := (label1.andThen label2).andThen label3
  have quiet := quiet1.trans (quiet2.trans quiet3)
  have known : s3.Knows [first, second] := fun label mem =>
    moves3.knows_made label (by simp at mem ⊢; tauto)
  refine (test_spec.jump moves3.sound known).step fun _ s4 ⟨tested, executes⟩ => ?_
  have moves4 :=
    moves3.andThenTo tested fun label mem => .inr (.inl (by simp at mem ⊢; tauto))
  refine moves4.place_step rt fun s5 moves5 lands =>
    rest first second done s5 moves5 fun known => ?_
  have tests := ((executes known).after moves3 rfl quiet).tests
  refine ⟨tests.follows.trans lands.follows, fun ctx m suits => ?_⟩
  refine ((tests.performs ctx m (suits.back lands.follows)).later lands.follows).andThen ?_
  intro x m1 _ _ _
  have goes : s5.Goes rt ⟨.toward (if rt.truthy x then first else second), m1⟩
      ⟨if rt.truthy x then s5.point else .toward second, m1⟩ := by
    split
    · exact lands.toward m1
    · exact .refl (by intro _ here; cases here)
  exact .arrives goes trivial

variable (true_spec : whenTrue.Spec rt coversTrue evalTrue)
  (false_spec : whenFalse.Spec rt coversFalse evalFalse)
include true_spec false_spec

lemma conditionalJump_spec (sound : s.Sound) (labels : s.Knows [onTrue, onFalse]) :
    Runs (conditionalCode test whenTrue whenFalse (.branch onTrue onFalse)) s fun a s' =>
      s.Moves s' { owed := [onTrue, onFalse] } ∧ (coversTest ∧ coversTrue ∧ coversFalse →
        s.Executes rt s' (.branch onTrue onFalse) a fun ctx =>
          evalTest ctx >>= fun x => if rt.truthy x then evalTrue ctx else evalFalse ctx) := by
  refine choice_step test_spec sound fun first second done s1 moves1 chooses => ?_
  refine (true_spec.jump moves1.sound (moves1.knows labels)).step
    fun _ s2 ⟨jumped2, executes2⟩ => ?_
  have moves2 := moves1.andThenTo jumped2 fun label mem => .inl (labels label mem)
  refine moves2.place_step rt fun s3 moves3 lands3 => ?_
  refine (false_spec.jump moves3.sound (moves3.knows labels)).step
    fun _ s4 ⟨jumped4, executes4⟩ => ?_
  have moves4 := moves3.andThenTo jumped4 fun label mem => .inl (labels label mem)
  refine .pure ⟨moves4.balance (by simp) (by simp) (by simp) labels, ?_⟩
  rintro ⟨test_covered, true_covered, false_covered⟩
  have chooses := chooses test_covered
  have executes2 := executes2 true_covered
  have executes4 := executes4 false_covered
  have later2 := lands3.follows.trans executes4.follows
  have later1 := executes2.follows.trans later2
  refine ⟨chooses.follows.trans later1, fun ctx m suits => ?_⟩
  refine ((chooses.performs ctx m (suits.back later1)).later later1).bind fun x m1 _ same _ => ?_
  by_cases truth : rt.truthy x = true
  · simp only [if_pos truth]
    exact executes2.inside moves1 rfl later2 (suits.same same)
  · simp only [if_neg truth]
    refine .going ((lands3.toward m1).later executes4.follows) ?_
    exact executes4.inside moves3 rfl moves4.sound.follows (suits.same same)

lemma conditionalEffect_spec (sound : s.Sound) :
    Runs (conditionalCode test whenTrue whenFalse .effect) s fun a s' =>
      s.Moves s' { given := [a] } ∧ (coversTest ∧ coversTrue ∧ coversFalse →
        s.Executes rt s' .effect a fun ctx =>
          evalTest ctx >>= fun x => if rt.truthy x then evalTrue ctx else evalFalse ctx) := by
  refine choice_step test_spec sound fun first second done s1 moves1 chooses => ?_
  refine (true_spec.discard moves1.sound).step fun _ s2 ⟨discarded2, executes2⟩ => ?_
  have moves2 := moves1.andThen discarded2
  refine (goto_does rt discarded2.sound (moves2.knows_made done (by simp))).step
    fun _ s3 ⟨jumped, jumps⟩ => ?_
  have moves3 := moves2.andThenTo jumped (by simp)
  refine moves3.place_step rt fun s4 moves4 lands4 => ?_
  refine (false_spec.discard moves4.sound).step fun _ s5 ⟨discarded5, executes5⟩ => ?_
  have moves5 := moves4.andThen discarded5
  refine moves5.place_step rt fun s6 placed lands6 => ?_
  have moves6 := placed.give_constant .undefined
  refine .pure ⟨moves6.balance (by simp) (by simp) (by simp [Operand.undefined]) knows_nil, ?_⟩
  rintro ⟨test_covered, true_covered, false_covered⟩
  have chooses := chooses test_covered
  have executes2 := executes2 true_covered
  have executes5 := executes5 false_covered
  have later4 := executes5.follows.trans lands6.follows
  have later3 := lands4.follows.trans later4
  have later2 := jumps.follows.trans later3
  have later1 := executes2.follows.trans later2
  refine ⟨chooses.follows.trans later1, fun ctx m suits => ?_⟩
  refine ((chooses.performs ctx m (suits.back later1)).later later1).bind fun x m1 _ same _ => ?_
  by_cases truth : rt.truthy x = true
  · simp only [if_pos truth]
    refine (executes2.inside moves1 rfl later2 (suits.same same)).andThen fun y m2 _ _ _ => ?_
    have goes := ((jumps.goes m2).later later3).trans (lands6.toward m2)
    exact .arrives goes trivial
  · simp only [if_neg truth]
    refine .going ((lands4.toward m1).later later4) ?_
    refine (executes5.inside moves4 rfl lands6.follows (suits.same same)).andThen ?_
    intro y m2 _ _ _
    exact .arrives (lands6.past m2) trivial

lemma conditionalValue_spec (sound : s.Sound) :
    Runs (conditionalCode test whenTrue whenFalse .value) s fun a s' =>
      s.Moves s' { given := [a] } ∧ (coversTest ∧ coversTrue ∧ coversFalse →
        s.Executes rt s' .value a fun ctx =>
          evalTest ctx >>= fun x => if rt.truthy x then evalTrue ctx else evalFalse ctx) := by
  refine choice_step test_spec sound fun first second done s1 moves1 chooses => ?_
  refine (true_spec.value moves1.sound).step fun a s2 ⟨evaluated2, executes2⟩ => ?_
  refine (inTemp_spec rt evaluated2.sound (evaluated2.ready (by simp))).step ?_
  rintro _ s3 ⟨⟨id, rfl⟩, held, holds⟩
  have value3 := evaluated2.andThen held
  have moves3 := moves1.andThen value3
  refine (goto_does rt value3.sound (moves3.knows_made done (by simp))).step
    fun _ s4 ⟨jumped, jumps⟩ => ?_
  have moves4 : s.Moves s4 { made := [second, done], settled := [first],
                             owed := [done, first, second], given := [.cell id] } :=
    moves3.andThenTo jumped (by simp)
  have dest_ready : s4.Ready (.cell id) := moves4.ready (by simp)
  refine (release_moves moves4.sound dest_ready.inUse).step fun _ s5 ⟨freed, quiet5⟩ => ?_
  have moves5 := moves4.andThen freed
  refine (place_lands rt moves5.sound (moves5.made second (by simp)).1).step ?_
  rintro - s6 ⟨places6, lands6⟩
  have moves6 := moves5.place places6
  have unused6 : ¬s6.InUse id := by
    rw [places6.inUse id, freed.inUse id]
    simp
  have temp := (freed.keeps.trans places6.keeps).temp moves4.sound (dest_ready.inUse id rfl).1
  refine valueInto_step false_spec moves6.sound temp unused6 fun s8 evaluated8 executes8 => ?_
  have moves8 := moves6.andThen evaluated8
  refine moves8.place_step rt fun s9 moves9 lands9 => ?_
  refine .pure ⟨moves9.balance (by simp) (by simp) (by simp) knows_nil, ?_⟩
  rintro ⟨test_covered, true_covered, false_covered⟩
  have chooses := chooses test_covered
  have executes2 := (executes2 true_covered).pass evaluated2 rfl (by simp) holds
  have executes8 := executes8 false_covered
  have later6 := executes8.follows.trans lands9.follows
  have later4 := (freed.follows quiet5).trans (lands6.follows.trans later6)
  have later3 := jumps.follows.trans later4
  have later1 := executes2.follows.trans later3
  refine ⟨chooses.follows.trans later1, fun ctx m suits => ?_⟩
  refine ((chooses.performs ctx m (suits.back later1)).later later1).bind fun x m1 _ same _ => ?_
  by_cases truth : rt.truthy x = true
  · simp only [if_pos truth]
    refine (executes2.inside moves1 rfl later3 (suits.same same)).andThen fun y m3 _ _ read => ?_
    have goes := ((jumps.goes m3).later later4).trans (lands9.toward m3)
    exact .arrives goes read
  · simp only [if_neg truth]
    refine .going ((lands6.toward m1).later later6) ?_
    refine (executes8.inside moves6 rfl lands9.follows (suits.same same)).andThen ?_
    exact fun y m8 _ _ y_read => .arrives (lands9.past m8) y_read

lemma conditionalCode_meets :
    Meets rt (conditionalCode test whenTrue whenFalse) (coversTest ∧ coversTrue ∧ coversFalse)
      fun ctx => evalTest ctx >>= fun x => if rt.truthy x then evalTrue ctx else evalFalse ctx := by
  intro d s sound labels
  cases d with
  | value => exact conditionalValue_spec test_spec true_spec false_spec sound
  | effect => exact conditionalEffect_spec test_spec true_spec false_spec sound
  | branch onTrue onFalse => exact conditionalJump_spec test_spec true_spec false_spec sound labels

end

lemma sequenceCode_meets {rt} {first second : Lowered} {rest : List Lowered}
    {covers coversRest : Prop} {eval evalRest : Action V V}
    (first_spec : first.Spec rt covers eval)
    (rest_meets : Meets rt (sequenceCode (second :: rest)) coversRest evalRest) :
    Meets rt (sequenceCode (first :: second :: rest)) (covers ∧ coversRest) fun ctx =>
      eval ctx >>= fun _ => evalRest ctx := by
  intro d s sound labels
  refine (first_spec.discard sound).step fun _ s1 ⟨moves1, executes1⟩ => ?_
  refine (rest_meets d s1 moves1.sound (moves1.knows labels)).mono
    fun a s2 ⟨moves2, executes2⟩ => ?_
  have moved := moves1.andThenTo moves2 fun label mem => .inl (labels label mem)
  refine ⟨moved.balance (by simp) (by simp) (by simp) labels, ?_⟩
  rintro ⟨first_covered, rest_covered⟩
  have executes1 := executes1 first_covered
  have executes2 := executes2 rest_covered
  have later := executes2.follows
  refine ⟨executes1.follows.trans later, fun ctx m suits => ?_⟩
  refine ((executes1.performs ctx m (suits.back later)).later later).bind fun x m1 _ same _ => ?_
  exact executes2.inside moves1 rfl moves2.sound.follows (suits.same same)

end

end Lowering
end Scriptc
