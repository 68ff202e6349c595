import Scriptc.Proofs.Lowering.Targets

/-!
# Assignments of lowered code

An assignment evaluates its place, then its value, and writes once. The parts of the place and the
old value are kept while the code of the new value runs.
-/

namespace Scriptc

open List

lemma AssignOp.combined_ne_power {op : AssignOp} {binary : BinaryOp}
    (plan : op.plan = .combined binary) (other : op ≠ .power) : binary ≠ .power := by
  rintro rfl
  cases op <;> first | exact other rfl | cases plan

namespace Lowering

variable {V : Type} {rt : Runtime V} {s s' s'' : Lowering}

/-- Whether code ends without a fault, and executes a computation if it is covered, whose value may
be needed or not. -/
def Yields (rt : Runtime V) (code : Bool → Lower Operand) (covered : Prop)
    (eval : Action V V) : Prop :=
  ∀ (needed : Bool) (s : Lowering), s.Sound → Runs (code needed) s fun a s' =>
    s.Moves s' { given := [a] } ∧ (covered → s.Executes rt s' (.ofNeed needed) a eval)

lemma settleNeeded_meets {code : Bool → Lower Operand} {covered : Prop}
    {eval : Action V V} (yields : Yields rt code covered eval)
    (warnAt : Option Location) :
    Meets rt (fun d => do settle warnAt (← code d.needsValue) d) covered eval := by
  intro d s sound labels
  cases d with
  | value => exact settle_meets rt (yields true) warnAt .value s sound labels
  | branch onTrue onFalse =>
    exact settle_meets rt (yields true) warnAt (.branch onTrue onFalse) s sound labels
  | effect =>
    refine (yields false s sound).step fun a s' ⟨moves, executes⟩ => ?_
    exact .pure ⟨moves, executes⟩

lemma Reaches.act {t : Target} {d : Demand} {a : Operand}
    {evalSite : Action V (Site V)} {act : Context V → Site V → Evaluation V V}
    (reaches : s.Reaches rt s' t evalSite) (follows : s'.Follows s'')
    (performs : ∀ (ctx : Context V) (m : Memory V) (site : Site V), s''.Suits ctx m →
      t.Denotes rt ctx m site → s''.Performs rt s.InUse ⟨s'.point, m⟩ (act ctx site m.world)
        (d.arrival rt s''.point) (d.Met rt a)) :
    s.Executes rt s'' d a fun ctx => evalSite ctx >>= act ctx where
  follows := reaches.follows.trans follows
  performs ctx m suits := by
    have first := (reaches.performs ctx m (suits.back follows)).later follows
    exact first.bind fun site m1 _ same denotes => performs ctx m1 site (suits.same same) denotes

lemma Moves.parts_same {t : Target} {a b : Operand}
    (moves : s.Moves s' { given := a :: t.operands }) {m m' : Memory V}
    (same : m.Same (s'.Spared [a]) m') (world : m'.world = m.world) (mem : b ∈ t.parts) :
    m'.read rt b = m.read rt b := by
  have inside := Target.parts_subset mem
  refine (moves.ready (mem_cons_of_mem _ inside)).read_same (fun id here taken => ?_) same
    fun v _ => by rw [world]
  exact (pairwise_cons.mp moves.apart).1 b inside id (mem_singleton.mp taken).symm here

lemma assignTail_spec {t : Target} (ready : ∀ a ∈ t.operands, s.Ready a)
    (apart : t.operands.Pairwise Operand.Apart) (place : t.IsPlace s) {code : Lower Operand}
    {taken : List Operand} {covered : Prop} {act : Context V → Memory V → Evaluation V V}
    (elsewhere : ∀ id, .cell id ∈ taken → .cell id ∉ t.operands)
    (runs : Runs code s fun b s' => s.Moves s' { taken, given := [b] } ∧
      (covered → s.Acts rt s' taken .value b act))
    (leaves : covered → ∀ (s' : Lowering) (ctx : Context V) (m : Memory V), s'.Suits ctx m →
      ∀ v, .var v ∈ t.parts → ∀ x w, act ctx m m.world = .ok x w →
        w.vars v = m.world.vars v) (needed : Bool) :
    Runs (do
      let value ← code
      t.write value
      t.assignedValue value needed) s fun a s' =>
        s.Moves s' { taken := t.operands ++ taken, given := [a] } ∧ (covered → s.Follows s' ∧
          (needed = true → ∃ b s1, code s = .ok b s1 ∧ s1.Follows s' ∧ a = t.holder b) ∧
          ∀ (ctx : Context V) (m : Memory V) (site : Site V), s'.Suits ctx m →
            t.Denotes rt ctx m site → s'.Performs rt (s.Spared (t.operands ++ taken)) ⟨s.point, m⟩
              (Evaluation.assignTo rt ctx site (act ctx m) m.world)
              ((Demand.ofNeed needed).arrival rt s'.point) ((Demand.ofNeed needed).Met rt a)) := by
  obtain ⟨value, s1, run, computed, acts⟩ := runs
  refine .after run ?_
  have other {id : LocalId} (mem : .cell id ∈ t.operands) : .cell id ∉ [value] := fun given =>
    elsewhere id (computed.fresh id given ((ready _ mem).inUse id rfl)) mem
  have still : ∀ a ∈ t.operands, s1.Ready a := fun a mem =>
    computed.still_ready (ready a mem) fun id here taken => elsewhere id taken (here ▸ mem)
  have ready1 : ∀ a ∈ value :: t.operands, s1.Ready a := by
    simpa using ⟨computed.ready (by simp), still⟩
  have apart1 : (value :: t.operands).Pairwise Operand.Apart := by
    refine pairwise_cons.mpr ⟨fun b mem id here there => ?_, apart⟩
    exact other (there ▸ mem) (by simp [here])
  refine (assignInto_spec rt computed.sound ready1 apart1
    (place.extends computed.keeps.toExtends) needed).mono ?_
  rintro a s2 ⟨assigned, assigns, same⟩
  have moves2 := computed.compose [value] t.operands assigned (by simp) (by simp)
    (fun id mem => by simpa using other mem)
  refine ⟨moves2.balance (by simp) (by simp) (by simp) knows_nil, fun known => ?_⟩
  have acts := acts known
  refine ⟨acts.follows.trans assigns.follows,
    fun known => ⟨value, s1, run, assigns.follows, same known⟩, fun ctx m site suits denotes => ?_⟩
  have first := (acts.holding (fun a mem => ready a (Target.parts_subset mem))
    (fun id here there => elsewhere id here (Target.parts_subset there)) ctx m
    (suits.back assigns.follows)
    (leaves known s1 ctx m (suits.back assigns.follows))).later assigns.follows
  have fewer (id : LocalId) (spared : s.Spared (t.operands ++ taken) id) : s.Spared taken id :=
    spared.mono (by simp +contextual)
  refine (first.within fewer).bind ?_
  rintro x m1 - same1 ⟨value_read, parts⟩
  rw [(denotes.same parts).write x]
  have last := assigns.performs ctx m1 (suits.same same1)
  rw [show m1.read rt value = x from value_read] at last
  refine last.within fun id spared => ?_
  have kept := fewer id spared
  refine ⟨(computed.inUse id).mpr (.inl kept), ?_⟩
  rw [mem_cons, not_or]
  refine ⟨fun same => kept.2 (computed.fresh id (by simp [same]) kept.1), fun mem => ?_⟩
  exact spared.2 (mem_append_left _ mem)

/-- What the value of an assignment is held in: its place is evaluated, code computes a value, maybe
from the old one, and the value is then held in the variable of the place or where the code left
it. -/
def Assigns (rt : Runtime V) (s s' : Lowering) (left : Place)
    (evalSite : Action V (Site V)) (code : Operand → Lower Operand) (a : Operand) :
    Prop :=
  ∃ stable t s₁, left.evaluate stable s = .ok t s₁ ∧ s.Reaches rt s₁ t evalSite ∧ s₁.Follows s' ∧
    ∃ old s₂ b s₃, s₂.Sound ∧ code old s₂ = .ok b s₃ ∧ s₃.Follows s' ∧ a = t.holder b

section

variable {left : Place} {right : Lowered} {coversLeft coversRight : Prop}
  {evalSite : Action V (Site V)} {evalRight : Action V V}
  (left_spec : left.Evaluates rt coversLeft evalSite)
  (right_spec : right.Spec rt coversRight evalRight)
include left_spec right_spec

lemma assignPlain_spec (sound : s.Sound) (needed : Bool) :
    Runs (assignPlain left right needed) s fun a s' =>
      s.Moves s' { given := [a] } ∧ (coversLeft ∧ coversRight →
        s.Executes rt s' (.ofNeed needed) a (fun ctx => evalSite ctx >>= fun site =>
          Evaluation.assignTo rt ctx site (evalRight ctx)) ∧
        (needed = true → s.Assigns rt s' left evalSite (fun _ => right.value) a)) := by
  obtain ⟨t, s1, done, moves1, place, -, pinned, reaches⟩ := left_spec (!right.isSimple) s sound
  refine .after done ?_
  have value : Runs right.value s1 fun b s' => s1.Moves s' { taken := [], given := [b] } ∧
      (coversLeft ∧ coversRight → s1.Acts rt s' [] .value b fun ctx _ => evalRight ctx) := by
    refine (right_spec.value moves1.sound).mono fun b s2 ⟨done, executes⟩ => ?_
    refine ⟨done, fun known => ⟨(executes known.2).follows, fun ctx m suits => ?_⟩⟩
    exact ((executes known.2).performs ctx m suits).within fun _ spared => spared.1
  refine (assignTail_spec (fun a mem => moves1.ready mem) moves1.apart place
    (by simp) value ?_ needed).mono fun a s2 ⟨assigned, assigns⟩ => ?_
  · exact fun known s' ctx m suits => right_spec.leaves known.2 pinned s' ctx m suits
  · have taken : s1.Moves s2 { taken := t.operands, given := [a] } := assigned.retake (by simp)
    have all : s.Moves s1 { given := t.operands ++ [] } := by simpa using moves1
    refine ⟨(all.andThen taken).balance (by simp) (by simp) (by simp) knows_nil, fun known => ?_⟩
    obtain ⟨follows, holder, assigns⟩ := assigns known
    refine ⟨(reaches known.1).act follows fun ctx m site suits denotes => ?_, fun want => ?_⟩
    · exact (assigns ctx m site suits denotes).within fun _ => moves1.inUse_spared rfl (by simp)
    · obtain ⟨b, s3, run, later, same⟩ := holder want
      exact ⟨_, t, s1, done, reaches known.1, follows, .undefined, s1, b, s3, moves1.sound, run,
        later, same⟩

lemma assignPlain_yields : Yields rt (assignPlain left right) (coversLeft ∧ coversRight) fun ctx =>
    evalSite ctx >>= fun site => Evaluation.assignTo rt ctx site (evalRight ctx) :=
  fun needed _ sound => (assignPlain_spec left_spec right_spec sound needed).mono
    fun _ _ ⟨moves, known⟩ => ⟨moves, fun covered => (known covered).1⟩

lemma assignCombined_spec (sound : s.Sound) (loc : Location) (op : BinaryOp) (needed : Bool) :
    Runs (assignCombined loc op left right needed) s fun a s' =>
      s.Moves s' { given := [a] } ∧ (op ≠ .power ∧ coversLeft ∧ coversRight →
        s.Executes rt s' (.ofNeed needed) a (fun ctx => evalSite ctx >>= fun site => do
          let old ← Evaluation.read rt ctx site
          Evaluation.assignTo rt ctx site do
            let y ← evalRight ctx
            pure (rt.applyBinary op old y)) ∧
        (needed = true → s.Assigns rt s' left evalSite (fun old => do
          let value ← right.value
          applyBinary op old value loc .value) a)) := by
  obtain ⟨t, s1, done, moves1, place, kind, pinned, reaches⟩ := left_spec true s sound
  refine .after done ?_
  have ready1 : ∀ a ∈ t.operands, s1.Ready a := fun a mem => moves1.ready mem
  refine (read_spec rt moves1.sound ready1 place kind).step ?_
  rintro x s2 ⟨read, reads⟩
  have moves2 := moves1.andThen read
  refine (pinIf_spec rt read.sound (!right.isSimple) (read.ready (by simp))).step ?_
  rintro old s3 ⟨old_pinned, held, holds⟩
  have moves3 : s.Moves s3 { given := old :: t.operands } := moves2.andThen held
  obtain ⟨away, apart⟩ := pairwise_cons.mp moves3.apart
  have place3 := place.extends (read.keeps.toExtends.trans held.keeps.toExtends)
  have tail := assignTail_spec
    (fun a mem => moves3.ready (mem_cons_of_mem _ mem)) apart place3
    (fun id here there => away _ there id (mem_singleton.mp here).symm rfl)
    (combine_spec right_spec moves3.sound (moves3.ready (by simp)) old_pinned loc op
      (by simp [Demand.labels, Knows] : s3.Knows Demand.value.labels))
    (fun _ _ _ _ _ v mem => absurd mem (pinned rfl v)) needed
  simp only [bind_assoc] at tail
  refine tail.mono ?_
  rintro a s4 ⟨assigned, assigns⟩
  have taken : s3.Moves s4 { taken := old :: t.operands, given := [a] } :=
    assigned.retake (by simp [or_comm])
  have all : s.Moves s3 { given := (old :: t.operands) ++ [] } := by simpa using moves3
  refine ⟨(all.andThen taken).balance (by simp) (by simp) (by simp) knows_nil, ?_⟩
  rintro ⟨other, left_covered, right_covered⟩
  obtain ⟨follows, holder, assigns⟩ := assigns ⟨other, right_covered⟩
  have later2 := holds.follows.trans follows
  refine ⟨(reaches left_covered).act (reads.follows.trans later2) fun ctx m site suits
    denotes => ?_, fun want => ?_⟩
  rotate_left
  · obtain ⟨b, s5, run, later, same⟩ := holder want
    exact ⟨true, t, s1, done, reaches left_covered, reads.follows.trans later2, old, s3, b, s5,
      moves3.sound, run, later, same⟩
  -- The parts of the place are no variables, so they are still there after the old value is read.
  have first := (reads.holding (fun a mem => ready1 a (Target.parts_subset mem)) (by simp) ctx m
    (suits.back later2) fun v mem => absurd mem (pinned rfl v)).later later2
  rw [← denotes.read] at first
  refine (first.within fun _ => moves1.inUse_spared rfl (by simp)).bind ?_
  rintro y m2 - same2 ⟨x_read, parts2⟩
  obtain ⟨m3, goes3, world3, same3, old_read⟩ := holds.performs m2
  have y_read := Eq.trans old_read x_read
  have denotes3 := denotes.same fun a mem =>
    (moves2.parts_same same3 world3 mem).trans (parts2 a mem)
  have same3 := same3.mono fun id used => moves2.inUse_spared rfl (by simp) used
  have last := assigns ctx m3 site (suits.same (same2.trans same3)) denotes3
  rw [y_read, world3] at last
  refine .after (goes3.later follows) same3 (last.within fun id used => ?_)
  exact moves3.inUse_spared rfl (fun b mem => by simpa [or_comm] using mem) used

lemma assignCombined_yields (loc : Location) (op : BinaryOp) :
    Yields rt (assignCombined loc op left right) (op ≠ .power ∧ coversLeft ∧ coversRight)
      (fun ctx => evalSite ctx >>= fun site => do
        let old ← Evaluation.read rt ctx site
        Evaluation.assignTo rt ctx site do
          let y ← evalRight ctx
          pure (rt.applyBinary op old y)) :=
  fun needed _ sound => (assignCombined_spec left_spec right_spec sound loc op needed).mono
    fun _ _ ⟨moves, known⟩ => ⟨moves, fun covered => (known covered).1⟩

omit left_spec in
lemma assignBoth_step (sound : s.Sound) {t : Target} {id : LocalId}
    (ready : ∀ a ∈ .cell id :: t.operands, s.Ready a) (place : t.IsPlace s)
    (pinned : ∀ v, .var v ∉ t.parts) {β : Type} {next : Lower β} {post : β → Lowering → Prop}
    (rest : ∀ s', s.Moves s' { taken := [.cell id], given := [.cell id] } →
      (coversRight → s.Follows s' ∧ ∀ (ctx : Context V) (m : Memory V) (site : Site V),
        s'.Suits ctx m → t.Denotes rt ctx m site → s'.Performs rt (s.Spared [.cell id]) ⟨s.point, m⟩
          (Evaluation.assignTo rt ctx site (evalRight ctx) m.world) (fun _ => s'.point)
          fun v m' => m'.read rt (.cell id) = v) → Runs next s' post) :
    Runs (do
      let value ← right.value
      t.write value
      assign (.cell id) value
      release value
      next) s post := by
  have target_ready : ∀ a ∈ t.operands, s.Ready a := fun a mem =>
    ready a (mem_cons_of_mem _ mem)
  refine (right_spec.value sound).step fun value s1 ⟨done, executes⟩ => ?_
  have moves1 : s.Moves s1 { taken := [.cell id], given := [value, .cell id] } :=
    (Moves.keep sound (ready _ (by simp))).andThen done
  have ready1 : ∀ a ∈ t.operands, s1.Ready a := fun a mem =>
    done.still_ready (target_ready a mem) (by simp)
  refine (write_spec rt done.sound ready1 (place.extends done.keeps.toExtends)
    (done.ready (by simp))).step ?_
  rintro - s2 ⟨wrote, follows2, writes⟩
  have moves2 : s.Moves s2 { taken := [.cell id], given := [value, .cell id] } :=
    moves1.andThen wrote
  have dest_fits : s2.Fits (.cell id) := moves2.fits (by simp)
  refine (assign_does rt moves2 dest_fits (moves2.fits (by simp)) rfl (by simp) (by simp)).step ?_
  rintro - s3 ⟨moves3, assigns⟩
  refine (release_moves moves3.sound (moves3.ready (by simp)).inUse).step ?_
  rintro - s4 ⟨freed, quiet⟩
  refine rest s4 (moves3.andThen freed) fun known => ?_
  have executes := executes known
  have later3 := freed.follows quiet
  have later2 := assigns.follows.trans later3
  have later1 := follows2.trans later2
  refine ⟨executes.follows.trans later1, fun ctx m site suits denotes => ?_⟩
  have leaves : s1.Leaves evalRight t.parts := fun _ _ _ v mem => absurd mem (pinned v)
  have first := (executes.holding (fun a mem => target_ready a (Target.parts_subset mem))
    leaves ctx m (suits.back later1)).later later1
  refine (first.within fun _ spared => spared.1).bind ?_
  rintro x m1 - same1 ⟨value_read, parts⟩
  rw [(denotes.same parts).write x]
  have second := (writes m1).later later2
  rw [show m1.read rt value = x from value_read] at second
  refine (second.within fun _ _ => trivial).bind ?_
  rintro - m2 - - ⟨-, value_kept, -⟩
  have goes := (assigns.goes m2).later later3
  rw [value_kept, ← quiet.point] at goes
  exact ⟨m2.write (.cell id) x, goes, rfl,
    Memory.Same.write_cell m2 (fun spared => spared.2 (by simp)) x, m2.read_write_cell id x⟩

lemma assignLogical_yields (op : LogicalOp) :
    Yields rt (assignLogical op left right) (coversLeft ∧ coversRight)
      (fun ctx => evalSite ctx >>= fun site => do
        let old ← Evaluation.read rt ctx site
        Evaluation.unlessDecided rt op old (Evaluation.assignTo rt ctx site (evalRight ctx))) := by
  intro needed s sound
  refine (left_spec true s sound).step fun t s1 ⟨moves1, place, kind, pinned, reaches⟩ => ?_
  have ready1 : ∀ a ∈ t.operands, s1.Ready a := fun a mem => moves1.ready mem
  refine (read_spec rt moves1.sound ready1 place kind).step fun x s2 ⟨read, reads⟩ => ?_
  have moves2 := moves1.andThen read
  refine toTemp_step rt moves2.sound (moves2.ready (by simp)) fun id s3 copied copies => ?_
  have moves3 : s.Moves s3 { given := .cell id :: t.operands } := moves2.andThen copied
  refine (newLabel_moves moves3.sound).step fun rhs s4 ⟨label4, quiet4⟩ => ?_
  refine (newLabel_moves label4.sound).step fun done s5 ⟨label5, quiet5⟩ => ?_
  have moves5 := (moves3.andThen label4).andThen label5
  have cell_fits : s5.Fits (.cell id) := moves5.fits (by simp)
  refine (testLeft_does rt moves5.sound op cell_fits moves5.knows_made).step
    fun _ s6 ⟨tested, tests⟩ => ?_
  have moves6 : s.Moves s6
      { made := [rhs, done], owed := [rhs, done], given := .cell id :: t.operands } :=
    moves5.andThenTo tested fun _ mem => .inr (.inl mem)
  refine (place_lands rt moves6.sound (moves6.made rhs (by simp)).1).step ?_
  rintro - s7 ⟨places7, lands7⟩
  have moves7 := moves6.place places7
  have extended := (((read.keeps.trans copied.keeps).trans label4.keeps).trans
    label5.keeps).trans (tested.keeps.trans places7.keeps) |>.toExtends
  refine assignBoth_step right_spec moves7.sound (fun a mem => moves7.ready mem)
    (place.extends extended)
    (pinned rfl) fun s8 assigned assigns => ?_
  have moves8 : s.Moves s8 { made := [done], settled := [rhs], owed := [rhs, done],
                             given := .cell id :: t.operands } := moves7.andThen assigned
  refine moves8.place_step rt fun s9 placed lands9 => ?_
  have moves9 := placed.reorder (perm_append_singleton (.cell id) t.operands).symm
  refine (releaseTarget_moves moves9.sound (fun a mem => moves9.ready (by simp [mem])) ?_).step ?_
  · exact (pairwise_append.mp moves9.apart).1
  rintro - s10 ⟨freed, quiet10⟩
  have moves10 : s.Moves s10
      { settled := [done, rhs], owed := [rhs, done], given := [.cell id] } := moves9.andThen freed
  have value : coversLeft ∧ coversRight → s.Executes rt s10 .value (.cell id) (fun ctx =>
      evalSite ctx >>= fun site => do
        let old ← Evaluation.read rt ctx site
        Evaluation.unlessDecided rt op old (Evaluation.assignTo rt ctx site (evalRight ctx))) := by
    rintro ⟨left_covered, right_covered⟩
    obtain ⟨follows8, assigns⟩ := assigns right_covered
    have later9 := freed.follows quiet10
    have later8 := lands9.follows.trans later9
    have later7 := follows8.trans later8
    have later6 := lands7.follows.trans later7
    have later3 := (label4.follows quiet4).trans
      ((label5.follows quiet5).trans (tests.follows.trans later6))
    have later2 := copies.follows.trans later3
    refine (reaches left_covered).act (reads.follows.trans later2) fun ctx m site
      suits denotes => ?_
    have first := (reads.holding (fun a mem => ready1 a (Target.parts_subset mem)) (by simp)
      ctx m (suits.back later2) fun v mem => absurd mem (pinned rfl v)).later later2
    rw [← denotes.read] at first
    refine (first.within fun _ => moves1.inUse_spared rfl (by simp)).bind ?_
    rintro y m2 - same2 ⟨x_read, parts2⟩
    obtain ⟨m3, goes3, world3, same3, dest_read⟩ := copies.performs m2
    have y_read := Eq.trans dest_read x_read
    have denotes3 := denotes.same fun a mem =>
      (moves2.parts_same same3 world3 mem).trans (parts2 a mem)
    have same3 := same3.mono fun id used => moves2.inUse_spared rfl (by simp) used
    have goes6 := (tests.goes m3).later later6
    rw [quiet5.point, quiet4.point, y_read] at goes6
    refine .after (goes3.later later3) same3 (.going goes6 ?_)
    rw [Evaluation.unlessDecided, ← world3]
    by_cases decided : rt.decides op y = true
    · rw [if_pos decided, if_pos decided]
      have goes9 := (lands9.toward m3).later later9
      rw [← quiet10.point] at goes9
      exact .arrives goes9 y_read
    · rw [if_neg decided, if_neg decided]
      have suits3 := (suits.same same2).same same3
      have second := (assigns ctx m3 site (suits3.back later8) denotes3).later later8
      refine .going ((lands7.toward m3).later later7) ?_
      refine (second.within fun _ => moves7.inUse_spared rfl (by simp)).andThen fun v m8
        _ _ read => ?_
      have goes9 := (lands9.past m8).later later9
      rw [← quiet10.point] at goes9
      exact .arrives goes9 read
  cases needed with
  | true => exact .pure ⟨moves10.balance (by simp) (by simp) (by simp) knows_nil, value⟩
  | false =>
    refine (release_moves moves10.sound (moves10.ready (by simp)).inUse).step ?_
    rintro - s11 ⟨dropped, quiet11⟩
    have moves11 := (moves10.andThen dropped).give_constant .undefined
    refine .pure ⟨moves11.balance (by simp) (by simp) (by simp [Operand.undefined]) knows_nil, ?_⟩
    intro known
    have executed := (value known).quiet dropped quiet11
    refine ⟨executed.follows, fun ctx m suits => ?_⟩
    exact (executed.performs ctx m suits).mono (fun _ used => used) fun _ _ _ _ _ => trivial

lemma assignPlan_yields (loc : Location) (op : AssignOp) : Yields rt (fun needed =>
      match op.plan with
      | .plain => assignPlain left right needed
      | .combined op => assignCombined loc op left right needed
      | .logical op => assignLogical op left right needed) (op ≠ .power ∧ coversLeft ∧ coversRight)
      fun ctx => evalSite ctx >>= fun site => Evaluation.assign rt ctx op site (evalRight ctx) := by
  intro needed s sound
  cases plan : op.plan with
  | plain =>
    simp only [Evaluation.assign_eq, plan]
    refine (assignPlain_yields left_spec right_spec needed s sound).mono ?_
    rintro a s' ⟨moves, executes⟩
    exact ⟨moves, fun known => executes known.2⟩
  | combined binary =>
    simp only [Evaluation.assign_eq, plan]
    refine (assignCombined_yields left_spec right_spec loc binary needed s sound).mono ?_
    rintro a s' ⟨moves, executes⟩
    exact ⟨moves, fun known => executes ⟨AssignOp.combined_ne_power plan known.1, known.2⟩⟩
  | logical logical =>
    simp only [Evaluation.assign_eq, plan]
    refine (assignLogical_yields left_spec right_spec logical needed s sound).mono ?_
    rintro a s' ⟨moves, executes⟩
    exact ⟨moves, fun known => executes known.2⟩

lemma assignCode_meets (loc : Location) (op : AssignOp) :
    Meets rt (assignCode loc op left right) (op ≠ .power ∧ coversLeft ∧ coversRight) fun ctx =>
      evalSite ctx >>= fun site => Evaluation.assign rt ctx op site (evalRight ctx) := by
  intro d s sound labels
  have meets := settleNeeded_meets (assignPlan_yields left_spec right_spec loc op)
    (some loc) d s sound labels
  rw [assignCode]
  cases plan : op.plan with
  | plain | combined | logical => simpa only [plan] using meets

end

lemma writeOut_step (rt : Runtime V) (sound : s.Sound) {t : Target}
    (ready : ∀ a ∈ t.operands, s.Ready a)
    (apart : t.operands.Pairwise Operand.Apart) (place : t.IsPlace s) {value : Operand}
    (value_ready : s.Ready value) {β : Type} {next : Lower β} {post : β → Lowering → Prop}
    (rest : ∀ s', s.Moves s' { taken := t.operands } → s.Follows s' →
      (∀ m : Memory V, s'.Performs rt (fun _ => True) ⟨s.point, m⟩
        (t.writeIn rt m (m.read rt value) m.world) (fun _ => s'.point) fun _ m' =>
          ∀ a, (∀ v, a ≠ .var v) → m'.read rt a = m.read rt a) → Runs next s' post) :
    Runs (do t.write value; t.release; next) s post := by
  refine (write_spec rt sound ready place value_ready).step ?_
  rintro - s1 ⟨wrote, follows, writes⟩
  have still : ∀ a ∈ t.operands, s1.Ready a := fun a mem =>
    wrote.still_ready (ready a mem) (by simp)
  refine (releaseTarget_moves wrote.sound still apart).step fun _ s2 ⟨freed, quiet⟩ => ?_
  have later := freed.follows quiet
  refine rest s2 ((wrote.take freed (by simp)).balance (by simp) (by simp) (by simp) knows_nil)
    (follows.trans later) fun m => ?_
  rw [quiet.point]
  exact ((writes m).later later).mono (fun _ keep => keep) fun _ _ _ _ met => met.2.2

lemma countApart_spec (rt : Runtime V) (sound : s.Sound) (op : UpdateOp) {old : Operand}
    (ready : s.Ready old) :
    Runs (countApart op.opcode old) s fun a s' => (∀ v, a ≠ .var v) ∧ s.Moves s' { given := [a] } ∧
        s.Settles rt s' [] .value a fun m => rt.count op (m.read rt old) := by
  have binary : op.opcode.isBinary = true := by cases op <;> rfl
  have computes : op.opcode ≠ .delete := by cases op <;> simp [UpdateOp.opcode]
  rw [rt.count_eq]
  obtain ⟨value, folded⟩ := Routine.foldBinary_succeeds binary old (.ofNumber 1.0)
  refine .bind ⟨_, s, inCode_same sound (Routine.ask_run folded), ?_⟩
  cases value with
  | some c =>
    exact Runs.pure ⟨by simp, (Moves.refl sound).give_constant c,
      settles_constant rt sound fun m => m.read_foldBinary folded⟩
  | none =>
    refine (allocTemp_moves sound).step ?_
    rintro _ s1 ⟨⟨id, rfl⟩, fresh, quiet⟩
    have run := Routine.binary_run fresh.sound.code_sound binary (.cell id) old (.ofNumber 1.0)
      folded
    refine .bind ⟨_, _, inCode_run fresh.sound run, .pure ⟨by simp, ?_⟩⟩
    have old_fits := fresh.keeps.fits ready.holds.1
    refine settles_appended rt fresh quiet ?_ ?_ fun m => m.perform_binary rt computes _ old _
    · rw [Routine.binaryInstruction]
      split
      · exact instructionFits_binary (fresh.fits (by simp)) trivial old_fits rfl
      · exact instructionFits_binary (fresh.fits (by simp)) old_fits trivial rfl
    · rw [Routine.binaryInstruction]
      split <;> exact ⟨rfl, rfl, rfl⟩

/-- Whether the code of a step finds the place of an expression and the number there. -/
structure Numbers (rt : Runtime V) (s s' : Lowering) (t : Target) (old : Operand)
    (evalSite : Action V (Site V)) : Prop where
  follows : s.Follows s'
  performs : ∀ (ctx : Context V) (m : Memory V), s'.Suits ctx m →
    s'.Performs rt s.InUse ⟨s.point, m⟩ ((do
        let site ← evalSite ctx
        let x ← Evaluation.read rt ctx site
        pure (site, rt.toNumber x)) m.world) (fun _ => s'.point)
      fun x m' => t.Denotes rt ctx m' x.1 ∧ m'.read rt old = x.2

lemma numberAt_step {argument : Place} {covered : Prop}
    {evalSite : Action V (Site V)} (spec : argument.Evaluates rt covered evalSite)
    (sound : s.Sound) {β : Type} {next : Target → Operand → Lower β} {post : β → Lowering → Prop}
    (rest : ∀ t old s', t.IsPlace s' → (∀ v, old ≠ .var v) →
      s.Moves s' { given := old :: t.operands } → (covered → s.Numbers rt s' t old evalSite) →
      Runs (next t old) s' post) :
    Runs (do
      let t ← argument.evaluate false
      let old ← toNumber (← t.read)
      next t old) s post := by
  refine (spec false s sound).step fun t s1 ⟨moves1, place, kind, _, reaches⟩ => ?_
  have ready1 : ∀ a ∈ t.operands, s1.Ready a := fun a mem => moves1.ready mem
  refine (read_spec rt moves1.sound ready1 place kind).step fun x s2 ⟨read, reads⟩ => ?_
  have moves2 := moves1.andThen read
  refine (toNumber_spec rt read.sound (read.ready (by simp))).step ?_
  rintro old s3 ⟨fixed, converted, converts⟩
  refine rest t old s3 (place.extends (read.keeps.toExtends.trans converted.keeps.toExtends)) fixed
    (moves2.andThen converted) fun known => ?_
  have reaches := reaches known
  have later1 := reads.follows.trans converts.follows
  refine ⟨reaches.follows.trans later1, fun ctx m suits => ?_⟩
  refine ((reaches.performs ctx m (suits.back later1)).later later1).bind ?_
  intro site m1 _ same1 denotes
  have suits2 := (suits.back converts.follows).same same1
  have second := (reads.holding (fun a mem => ready1 a (Target.parts_subset mem)) (by simp)
    ctx m1 suits2 fun v _ y w run => by rw [Target.readIn_variables rt run]).later converts.follows
  rw [← denotes.read] at second
  refine (second.within fun _ => moves1.inUse_spared rfl (by simp)).bind ?_
  rintro y m2 - - ⟨x_read, parts2⟩
  obtain ⟨m3, goes3, world3, same3, old_read⟩ := converts.performs m2
  have same := same3.mono fun id used => moves2.inUse_spared rfl (by simp) used
  refine .after goes3 same ?_
  rw [← world3]
  refine .stays converted.sound ⟨?_, ?_⟩
  · exact denotes.same fun a mem =>
      (moves2.parts_same same3 world3 mem).trans (parts2 a mem)
  · rw [← show m2.read rt x = y from x_read]
    exact old_read

lemma Numbers.counted {s3 s4 s5 : Lowering} {t : Target} {old value result : Operand}
    {evalSite : Action V (Site V)} {op : UpdateOp} {taken : List Operand}
    (numbers : s.Numbers rt s3 t old evalSite)
    (done : s.Moves s3 { given := old :: t.operands })
    (counts : s3.Settles rt s4 taken .value value fun m => rt.count op (m.read rt old))
    (mine : ∀ id, .cell id ∈ taken → .cell id ∈ [old]) (later : s4.Follows s5) (sound : s5.Sound)
    (writes : ∀ m : Memory V, s5.Performs rt (fun _ => True) ⟨s4.point, m⟩
      (t.writeIn rt m (m.read rt value) m.world) (fun _ => s5.point) fun _ m' =>
        ∀ a, (∀ v, a ≠ .var v) → m'.read rt a = m.read rt a)
    (needed keepsOld : Bool) (fixed : needed = true → ∀ v, result ≠ .var v)
    (result_read : needed = true → ∀ m m' : Memory V, m.Same (s3.Spared taken) m' →
      m'.read rt value = rt.count op (m.read rt old) →
        m'.read rt result = if keepsOld then m.read rt old else rt.count op (m.read rt old)) :
    s.Executes rt s5 (.ofNeed needed) result fun ctx =>
      evalSite ctx >>= Evaluation.update rt ctx op keepsOld where
  follows := (numbers.follows.trans counts.follows).trans later
  performs ctx m suits := by
    have after := counts.follows.trans later
    have whole : (evalSite ctx >>= Evaluation.update rt ctx op keepsOld) = ((do
          let site ← evalSite ctx
          let x ← Evaluation.read rt ctx site
          pure (site, rt.toNumber x)) >>= fun x => do
            Evaluation.write rt ctx (rt.count op x.2) x.1
            pure (if keepsOld then x.2 else rt.count op x.2)) := by
      simp only [bind_assoc, pure_bind]
      rfl
    rw [whole]
    refine ((numbers.performs ctx m (suits.back after)).later after).bind ?_
    rintro ⟨site, _⟩ m3 - - ⟨denotes, rfl⟩
    obtain ⟨m4, goes4, world4, same4, value_read⟩ := (counts.performs m3).later later
    have value_read := value_read
    have same_old := same4.mono fun id (spared : s3.Spared [old] id) => spared.mono (mine id)
    have parts (a : Operand) (mem : a ∈ t.parts) : m4.read rt a = m3.read rt a :=
      done.parts_same same_old world4 mem
    refine .after goes4 (same_old.mono fun id used => done.inUse_spared rfl (by simp) used) ?_
    rw [← world4, ← value_read, (denotes.same parts).write]
    refine ((writes m4).within fun _ _ => trivial).bind ?_
    rintro - m5 - - kept
    have arrives : (Demand.ofNeed needed).arrival rt (s5.point : Point V) = fun _ => s5.point := by
      cases needed <;> rfl
    rw [arrives, value_read]
    refine .stays sound ?_
    cases needed with
    | false => trivial
    | true => exact (kept result (fixed rfl)).trans (result_read rfl m3 m4 same4 value_read)

section

variable {argument : Place} {covered : Prop} {evalSite : Action V (Site V)}
  (spec : argument.Evaluates rt covered evalSite)
include spec

lemma countedOld_yields (op : UpdateOp) (sound : s.Sound) : Runs (do
      let target ← argument.evaluate false
      let old ← toNumber (← target.read)
      let value ← countApart op.opcode old
      target.write value
      target.release
      if value != old then release value
      pure old) s fun a s' => s.Moves s' { given := [a] } ∧ (covered →
        s.Executes rt s' .value a fun ctx =>
          evalSite ctx >>= Evaluation.update rt ctx op true) := by
  refine numberAt_step spec sound fun t old s3 place fixed moves3 numbers => ?_
  have old_ready := moves3.ready (a := old) (by simp)
  refine (countApart_spec rt moves3.sound op old_ready).step fun value s4 ⟨_, counted, counts⟩ => ?_
  have moves4 := moves3.andThen counted
  obtain ⟨value_away, apart4⟩ := pairwise_cons.mp moves4.apart
  refine writeOut_step rt counted.sound (fun a mem => moves4.ready (by simp [mem]))
    (pairwise_cons.mp apart4).2 (place.extends counted.keeps.toExtends)
    (counted.ready (by simp)) ?_
  intro s5 wrote follows5 writes
  have order := (perm_append_comm : ([value, old] ++ t.operands).Perm _)
  have moves5 : s.Moves s5 { given := [value, old] } := (moves4.reorder order).andThen wrote
  have executes (known : covered) : s.Executes rt s5 .value old fun ctx =>
      evalSite ctx >>= Evaluation.update rt ctx op true := by
    refine (numbers known).counted moves3 counts (by simp) follows5 wrote.sound writes true true
      (fun _ => fixed) fun _ m m' same _ => ?_
    exact old_ready.read_same (by simp) same fun v here => absurd here (fixed v)
  cases differs : value != old with
  | true =>
    refine (release_moves wrote.sound (moves5.ready (by simp)).inUse).step ?_
    rintro - s6 ⟨freed, quiet⟩
    exact .pure ⟨moves5.andThen freed, fun known => (executes known).quiet freed quiet⟩
  | false =>
    have constant : ∀ id, value ≠ .cell id := by
      rintro id rfl
      have same := Operand.eq_of_beq (by simpa [bne] using differs) rfl
      exact value_away old (by simp) id rfl same.symm
    exact .pure ⟨moves5.forget constant, executes⟩

lemma countedNew_yields (op : UpdateOp) (needed : Bool) (sound : s.Sound) : Runs (do
      let target ← argument.evaluate false
      let old ← toNumber (← target.read)
      let value ← binaryValue op.opcode old (.ofNumber 1.0)
      target.write value
      target.release
      if needed then pure value
      else
        release value
        pure .undefined) s fun a s' => s.Moves s' { given := [a] } ∧ (covered →
          ∀ keepsOld, (needed = true → keepsOld = false) →
            s.Executes rt s' (.ofNeed needed) a fun ctx =>
              evalSite ctx >>= Evaluation.update rt ctx op keepsOld) := by
  refine numberAt_step spec sound fun t old s3 place fixed moves3 numbers => ?_
  have binary : op.opcode.isBinary = true := by cases op <;> rfl
  have computes : op.opcode ≠ .delete := by cases op <;> simp [UpdateOp.opcode]
  have old_ready := moves3.ready (a := old) (by simp)
  have one_ready : s3.Ready (.ofNumber 1.0) := ⟨holds_constant s3 _, fun _ other => by cases other⟩
  have mine (id : LocalId) : .cell id ∈ [old, .ofNumber 1.0] ↔ .cell id ∈ [old] := by
    simp [Operand.ofNumber]
  refine (binaryValue_spec rt moves3.sound binary computes old_ready one_ready
    fun _ _ other => by cases other).step ?_
  rintro value s4 ⟨value_fixed, counted, counts⟩
  replace counts : s3.Settles rt s4 [old, .ofNumber 1.0] .value value fun m =>
      rt.count op (m.read rt old) := by
    rw [rt.count_eq]
    exact counts
  have counted := counted.retake fun id => (mine id).symm
  have moves4 : s.Moves s4 { given := value :: t.operands } := moves3.andThen counted
  obtain ⟨value_away, apart4⟩ := pairwise_cons.mp moves4.apart
  refine writeOut_step rt counted.sound (fun a mem => moves4.ready (by simp [mem]))
    apart4 (place.extends counted.keeps.toExtends) (counted.ready (by simp)) ?_
  intro s5 wrote follows5 writes
  have order := (perm_append_comm : ([value] ++ t.operands).Perm _)
  have moves5 : s.Moves s5 { given := [value] } := (moves4.reorder order).andThen wrote
  have executes (known : covered) (keepsOld : Bool) (new : needed = true → keepsOld = false) :
      s.Executes rt s5 (.ofNeed needed) value fun ctx =>
        evalSite ctx >>= Evaluation.update rt ctx op keepsOld := by
    refine (numbers known).counted moves3 counts (fun id => (mine id).mp) follows5
      wrote.sound writes needed keepsOld (fun _ => value_fixed) fun needs m m' _ value_read => ?_
    rw [new needs]
    exact value_read
  cases needed with
  | true => exact .pure ⟨moves5, executes⟩
  | false =>
    refine (release_moves wrote.sound (moves5.ready (by simp)).inUse).step ?_
    rintro - s6 ⟨freed, quiet⟩
    refine .pure ⟨(moves5.andThen freed).give_constant .undefined, fun known keepsOld new => ?_⟩
    have last := (executes known keepsOld new).quiet freed quiet
    exact ⟨last.follows, last.performs⟩

lemma updateCode_meets (loc : Location) (op : UpdateOp) (keepsOld : Bool) :
    Meets rt (updateCode loc op keepsOld argument) covered fun ctx =>
      evalSite ctx >>= Evaluation.update rt ctx op keepsOld := by
  have yields : Yields rt (fun needed => do
      let target ← argument.evaluate false
      let old ← toNumber (← target.read)
      if keepsOld && needed then
        let value ← countApart op.opcode old
        target.write value
        target.release
        if value != old then release value
        pure old
      else
        let value ← binaryValue op.opcode old (.ofNumber 1.0)
        target.write value
        target.release
        if needed then pure value
        else
          release value
          pure .undefined) covered fun ctx =>
        evalSite ctx >>= Evaluation.update rt ctx op keepsOld := by
    intro needed s sound
    cases both : keepsOld && needed with
    | true =>
      obtain ⟨rfl, rfl⟩ : keepsOld = true ∧ needed = true := by simpa using both
      exact countedOld_yields spec op sound
    | false =>
      simp only [both, Bool.false_eq_true, if_false]
      refine (countedNew_yields spec op needed sound).mono fun a s' ⟨moves, executes⟩ => ?_
      exact ⟨moves, fun known => executes known keepsOld fun needs => by simpa [needs] using both⟩
  intro d s sound labels
  have meets := settleNeeded_meets yields (some loc) d s sound labels
  rw [updateCode]
  simpa only [bind_assoc, pure_bind, Result.ite_bind] using meets

end

end Lowering
end Scriptc
