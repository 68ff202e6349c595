import Scriptc.Proofs.Lowering.Leaving
import Scriptc.Proofs.Lowering.Assignments

/-!
# Control flow in lowering

The code of every statement is a step that leaves the temporaries in use as they were and places all
labels that it makes, if the code of its parts is.
-/

namespace Scriptc.Lowering

variable {made : List Label} {init : Option HeadCode} {x : Lowering} {cases : List CaseCode}

variable {V : Type} {rt : Runtime V} {s s' : Lowering}
variable {body : StmtCode} {l : Ledger} {s1 : Lowering} {owed : List Label}
  {pairs : List (CaseCode × Label)} {value : Operand}

lemma Moves.relabel (moves : s.Moves s' l) (same : l.made.Perm made) :
    s.Moves s' { l with made } where
  __ := moves
  made label member := moves.made label (same.mem_iff.mpr member)
  made_nodup := same.nodup_iff.mp moves.made_nodup
  flows said aim F charted spared aimed leaves := by
    obtain ⟨aim', old, own, charted'⟩ := moves.flows said aim F charted spared aimed leaves
    exact ⟨aim', old, fun label member => own label (member.imp_left same.mem_iff.mpr), charted'⟩

def StmtProceeds (code : StmtCode) : Prop := ∀ labels, Proceeds (code labels)

lemma proceeds_pure : Proceeds (pure ⟨⟩) := fun _ sound => Runs.pure (Moves.refl sound).leaving

lemma Proceeds.andThen {first second : Lower PUnit} (before : Proceeds first)
    (after : Proceeds second) : Proceeds (first >>= fun _ => second) := fun s sound =>
  (before s sound).step fun _ s1 moves => (after s1 moves.sound).mono fun _ _ more =>
    moves.andThen more

lemma labeledCode_proceeds {code : Lower PUnit} (proceeds : Proceeds code) (labels : List String) :
    Proceeds (labeledCode labels code) := by
  intro s sound
  rw [labeledCode]
  split
  · exact proceeds s sound
  · refine (newLabel_moves sound).step fun exit s1 ⟨made, _⟩ => ?_
    refine (inTarget_moves proceeds made.sound labels (made.knows_made) false).step
      fun _ s2 inside => ?_
    have moves := made.andThenTo inside (by simp)
    refine (place_places moves.sound (moves.made exit (by simp)).1).mono fun _ s3 ⟨places, _⟩ => ?_
    exact (moves.place places).close (by simp) knows_nil

lemma labelCode_proceeds (proceeds : StmtProceeds body) (label : Ident)
    (labels : List String) : Proceeds (labelCode label body labels) := by
  intro s sound
  simp only [labelCode]
  refine .get_step ?_
  split
  · refine (error_reports sound label.loc _).step fun _ s1 ⟨reports, _⟩ => ?_
    exact (proceeds _ s1 reports.moves.sound).mono fun _ _ more => reports.moves.andThen more
  · exact proceeds _ s sound

lemma thrown_moves {a : Operand} (moves1 : s.Moves s1 { given := [a] }) : Runs (do
      inCode (Routine.setJump (.throw a))
      release a) s1 fun _ s' => s.Moves s' { leaves := true } := by
  have fits : s1.JumpFits s1.frame.routine (.throw a) := by
    refine ⟨fun b mem => ?_, by simp, by simp⟩
    obtain rfl : b = a := by simpa [Jump.operands] using mem
    exact moves1.fits (by simp)
  refine (setJump_moves moves1.sound fits (by simp [Jump.targets]) fun _ _ aimed => aimed).step ?_
  rintro _ s2 ⟨thrown, _⟩
  have moves2 := moves1.andThen thrown
  exact moves2.release_last.mono fun _ _ => .leaving

section

variable {covered : Prop} {eval : Action V V} {e : Lowered}
  (spec : e.Spec rt covered eval)
include spec

lemma discard_proceeds : Proceeds e.discard := fun _ sound =>
  (spec.discard sound).mono fun _ _ ⟨moves, _⟩ => moves.leaving

lemma expressionCode_proceeds (loc : Location) (directive : Option String) :
    Proceeds (expressionCode loc e directive) := by
  intro s sound
  rw [expressionCode]
  split
  · split
    · refine (warn_reports sound loc _).step fun _ s1 reports => ?_
      exact (discard_proceeds spec s1 reports.moves.sound).mono fun _ _ more =>
        reports.moves.andThen more
    · exact discard_proceeds spec s sound
  · exact Runs.pure (Moves.refl sound).leaving

lemma throwCode_proceeds : Proceeds (throwCode e) := fun _ sound =>
  (spec.value sound).step fun _ _ ⟨moves1, _⟩ => thrown_moves moves1

lemma ifCode_proceeds {whenTrue : StmtCode} (proceeds : StmtProceeds whenTrue)
    {whenFalse : Option StmtCode} (other : ∀ code ∈ whenFalse, StmtProceeds code) :
    Proceeds (ifCode e whenTrue whenFalse) := by
  intro s sound
  refine choice_step spec sound fun first second done s1 chosen _ => ?_
  refine (proceeds [] s1 chosen.sound).step fun _ s2 taken => ?_
  have moves2 := chosen.andThen taken
  cases whenFalse with
  | none =>
    refine (place_places moves2.sound (moves2.made second (by simp)).1).mono
      fun _ s3 ⟨places, _⟩ => ?_
    exact (moves2.place places).close (by simp) knows_nil
  | some code =>
    refine moves2.goto_step rt (by simp) fun s3 moves3 _ => ?_
    refine moves3.place_step rt fun s4 moves4 _ => ?_
    refine (other code rfl [] s4 moves4.sound).step fun _ s5 taken' => ?_
    have moves5 := moves4.andThen taken'
    exact (moves5.place_last rt (by simp)).mono fun _ _ ⟨moves, _⟩ => moves

variable (proceeds : StmtProceeds body)
include proceeds

lemma whileCode_proceeds (labels : List String) :
    Proceeds (whileCode e body labels) := by
  intro s sound
  refine (Moves.refl sound).label_step fun head s1 moves1 _ => ?_
  refine moves1.label_step fun start s2 moves2 _ => ?_
  refine moves2.label_step fun exit s3 moves3 _ => ?_
  refine moves3.place_step rt fun s4 moves4 _ => ?_
  refine (spec.jump moves4.sound (moves4.knows_made)).step fun _ s5 ⟨tested, _⟩ => ?_
  have moves5 := moves4.andThenTo tested (by simp)
  refine moves5.place_step rt fun s6 moves6 _ => ?_
  refine (inTarget_moves (proceeds []) moves6.sound labels (moves6.knows_own (by simp)) true).step
    fun _ s7 inside => ?_
  have moves7 := moves6.andThenTo inside (by simp)
  refine moves7.goto_step rt (by simp) fun s8 moves8 _ => ?_
  exact (moves8.place_last rt (by simp)).mono fun _ _ ⟨moves, _⟩ => moves

lemma doWhileCode_proceeds (labels : List String) : Proceeds (doWhileCode body e labels) := by
  intro s sound
  refine (Moves.refl sound).label_step fun start s1 moves1 _ => ?_
  refine moves1.label_step fun next s2 moves2 _ => ?_
  refine moves2.label_step fun exit s3 moves3 _ => ?_
  refine moves3.place_step rt fun s4 moves4 _ => ?_
  refine (inTarget_moves (proceeds []) moves4.sound labels (moves4.knows_own (by simp)) true).step
    fun _ s5 inside => ?_
  have moves5 := moves4.andThenTo inside (by simp)
  refine moves5.place_step rt fun s6 moves6 _ => ?_
  refine (spec.jump moves6.sound (moves6.knows_own (by simp))).step fun _ s7 ⟨tested, _⟩ => ?_
  have moves7 := moves6.andThenTo tested (by simp)
  exact (moves7.place_last rt (by simp)).mono fun _ _ ⟨moves, _⟩ => moves

lemma forOfCode_proceeds (loc : Location) (labels : List String) :
    Proceeds (forOfCode loc e body labels) := by
  intro s sound
  refine (spec.discard sound).step fun _ s1 ⟨moves1, _⟩ => ?_
  refine moves1.label_step fun next s2 moves2 _ => ?_
  refine moves2.label_step fun exit s3 moves3 _ => ?_
  refine moves3.place_step rt fun s4 moves4 _ => ?_
  refine (inTarget_moves (proceeds []) moves4.sound labels (moves4.knows_own (by simp)) true).step
    fun _ s5 inside => ?_
  have moves5 := moves4.andThenTo inside (by simp)
  refine moves5.place_step rt fun s6 moves6 _ => ?_
  refine (notSupported_reports moves6.sound loc _).mono fun _ s7 ⟨reports, _⟩ => ?_
  exact (moves6.andThen reports.moves).close (by simp) knows_nil

end

lemma discardOption_moves {e : Option Lowered}
    (specs : ∀ code ∈ e, ∃ covered eval, code.Spec rt covered eval) (sound : s.Sound) :
    Runs (discardOption e) s fun _ s' => s.Moves s' {} := by
  cases e with
  | none => exact .pure (.refl sound)
  | some code =>
    obtain ⟨covered, eval, spec⟩ := specs code rfl
    exact (spec.discard sound).mono fun _ _ ⟨moves, _⟩ => moves

lemma returned_moves {a : Operand} (moves1 : s.Moves s1 { given := [a] }) (loc : Location) :
    Runs (do
      if (← get).frame.isTop then
        error loc "return outside of a function"
        release a
      else
        leaveTries 0
        inCode (Routine.ret a)
        release a) s1 fun _ s' => s.Moves s' { leaves := true } := by
  refine .get_step ?_
  have ready := moves1.ready (List.mem_singleton_self a)
  split
  · refine (error_reports moves1.sound loc _).step fun _ s2 ⟨reports, _⟩ => ?_
    have moves2 := moves1.andThen reports.moves
    exact moves2.release_last.mono fun _ _ => .leaving
  · refine (leaveTries_moves moves1.sound (Nat.zero_le _)).step fun _ s2 ⟨left, ends⟩ => ?_
    refine (ret_moves left.sound (left.keeps.fits ready.holds.1)).step fun _ s3
      ⟨returned, flows⟩ => ?_
    have exit := moves1.sound.exit_lt (.inl rfl)
    have both := left.andThenTo returned fun label mem => .inl (by
      rwa [List.mem_singleton.mp mem])
    -- All regions around are ended before the jump to the exit.
    have leaves : s1.Moves s3 { leaves := true } := by
      refine both.leave (fun label mem => .inl ?_) fun aim F charted _ _ leaves => ?_
      · exact List.mem_singleton.mp (by simpa using mem)
      · obtain ⟨rfl, aims⟩ := leaves rfl
        have none_left : s1.frame.flowAt 0 = .regions [] := by simp [Frame.flowAt]
        have outside := ends aim charted
        rw [none_left] at outside
        exact ⟨aim, fun _ _ => rfl, by simp, flows aim _ outside aims.exit⟩
    have moves3 := moves1.andThen leaves
    exact moves3.release_last

lemma returnCode_proceeds {covered : Prop} {eval : Action V V}
    {arg : Option Lowered} (spec : ∀ e ∈ arg, e.Spec rt covered eval) (loc : Location) :
    Proceeds (returnCode loc arg) := by
  intro s sound
  cases arg with
  | none => exact returned_moves ((Moves.refl sound).give_constant .undefined) loc
  | some e => exact ((spec e rfl).value sound).step fun _ _ ⟨moves, _⟩ => returned_moves moves loc

lemma writeBinding_place (sound : s.Sound) {id : BindingId} (visible : s.Visible id)
    (loc : Location) :
    Runs (writeBinding id loc) s fun dest s' => s.Moves s' {} ∧
      ∀ a, dest = some a → ∃ v, a = .var v ∧ s'.Fits (.var v) ∧ s'.Assigned v := by
  refine (writeBinding_moves sound visible loc).mono ?_
  rintro dest s' ⟨moves, -, holds, assigned, meaning, -, rfl⟩
  refine ⟨moves, fun a same => ?_⟩
  cases meaning with
  | stored v readOnly =>
    cases readOnly with
    | true => cases same
    | false =>
      obtain rfl : Operand.var v = a := by simpa [Meaning.place] using same
      exact ⟨v, rfl, (holds _ same).1, assigned v same⟩
  | constant c => cases same

lemma declared_moves {covered : Prop} {eval : Action V V} {e : Lowered}
    (spec : e.Spec rt covered eval) (sound : s.Sound) (name : String) (loc : Location) {α : Type}
    {next : Lower α} {post : α → Lowering → Prop} (rest : ∀ t, s.Moves t {} → Runs next t post) :
    Runs (do
      let id ← declaredBinding name loc
      match ← writeBinding id loc with
      | some dest =>
        let value ← e.value
        assign dest value
        release value
        next
      | none =>
        e.discard
        next) s post := by
  refine (declaredBinding_moves sound name loc).step fun id s1 ⟨moves1, visible⟩ => ?_
  refine (writeBinding_place moves1.sound visible loc).step fun dest s2 ⟨written, places⟩ => ?_
  have moves2 := moves1.andThen written
  cases dest with
  | none =>
    refine (spec.discard moves2.sound).step fun _ s3 ⟨discarded, _⟩ => ?_
    exact rest s3 (moves2.andThen discarded)
  | some dest =>
    obtain ⟨v, rfl, fits, assigned⟩ := places dest rfl
    refine (spec.value moves2.sound).step fun a s3 ⟨done, _⟩ => ?_
    have moves3 : s.Moves s3 { given := [a] } := moves2.andThen done
    refine (assign_moves done.sound (done.keeps.fits fits) (moves3.fits (by simp)) rfl
      (fun other same => ?_) (by simp)).step fun _ s4 ⟨copied, _⟩ => ?_
    · obtain rfl := Operand.var.inj same
      exact done.keeps.assigned assigned
    · have moves4 := moves3.andThen copied
      exact moves4.release_step rest

lemma declaratorsCode_proceeds {ds : List DeclaratorCode}
    (specs : ∀ d ∈ ds, ∀ e ∈ d.init, ∃ covered eval, e.Spec rt covered eval) :
    Proceeds (declaratorsCode ds) := by
  induction ds with
  | nil => exact proceeds_pure
  | cons d rest ih =>
    intro s sound
    have others := ih fun d mem => specs d (.tail _ mem)
    have go (t : Lowering) (moves : s.Moves t {}) :
        Runs (declaratorsCode rest) t fun _ s' => s.Moves s' { leaves := true } :=
      (others t moves.sound).mono fun _ _ more => moves.andThen more
    rw [declaratorsCode]
    cases named : d.target.name? with
    | none =>
      refine (notSupported_reports sound d.loc _).step fun _ s1 ⟨reports, _⟩ => ?_
      refine (discardOption_moves (specs d List.mem_cons_self) reports.moves.sound).step
        fun _ s2 discarded => ?_
      exact go s2 (reports.moves.andThen discarded)
    | some name =>
      cases init : d.init with
      | none => exact go s (.refl sound)
      | some e =>
        obtain ⟨covered, eval, spec⟩ := specs d List.mem_cons_self e init
        exact declared_moves spec sound _ d.loc go

def HeadLowers (rt : Runtime V) : HeadCode → Prop
  | .declaration _ declarators =>
    ∀ d ∈ declarators, ∀ e ∈ d.init, ∃ covered eval, e.Spec rt covered eval
  | .target p => (∃ covered eval, p.whole.Spec rt covered eval) ∧
      ∃ covered evalSite, p.Evaluates rt covered evalSite

lemma initCode_proceeds (specs : ∀ head ∈ init, HeadLowers rt head) : Proceeds (initCode init) := by
  cases init with
  | none => exact proceeds_pure
  | some head =>
    cases head with
    | declaration loc ds => exact declaratorsCode_proceeds (specs _ rfl)
    | target p =>
      obtain ⟨⟨covered, eval, spec⟩, -⟩ := specs _ rfl
      exact discard_proceeds spec

lemma forCode_proceeds (first : ∀ head ∈ init, HeadLowers rt head) {test update : Option Lowered}
    {covered : Prop} {eval : Action V V}
    (spec : ∀ e ∈ test, e.Spec rt covered eval)
    (last : ∀ e ∈ update, ∃ covered eval, e.Spec rt covered eval) (proceeds : StmtProceeds body)
    (labels : List String) : Proceeds (forCode init test update body labels) := by
  intro s sound
  refine (initCode_proceeds first s sound).step fun _ s1 moves1 => ?_
  refine moves1.label_step fun head s2 moves2 _ => ?_
  refine moves2.label_step fun start s3 moves3 _ => ?_
  refine moves3.label_step fun exit s4 moves4 _ => ?_
  refine moves4.label_step fun next s5 moves5 _ => ?_
  refine moves5.place_step rt fun s6 moves6 _ => ?_
  have rest {owed : List Label} (t : Lowering) (tested : s.Moves t
      { made := [start, exit, next], settled := [head], owed, leaves := true })
      (covered : ∀ label ∈ owed, label = start ∨ label = exit) :
      Runs (do
        place start
        loopBody body labels exit next
        place next
        discardOption update
        goto head
        place exit) t fun _ s' => s.Moves s' { leaves := true } := by
    refine tested.place_step rt fun t1 moves1 _ => ?_
    refine (inTarget_moves (proceeds []) moves1.sound labels (moves1.knows_own (by simp)) true).step
      fun _ t2 inside => ?_
    have moves2 := (moves1.andThenTo inside (by simp)).relabel (.swap next exit [])
    refine moves2.place_step rt fun t3 moves3 _ => ?_
    refine (discardOption_moves last moves3.sound).step fun _ t4 updated => ?_
    have moves4 := moves3.andThen updated
    refine moves4.goto_step rt (by simp) fun t5 moves5 _ => ?_
    refine (moves5.place_last rt ?_).mono fun _ _ ⟨moves, _⟩ => moves
    grind
  cases test with
  | none => exact rest s6 moves6 (by simp)
  | some e =>
    refine ((spec e rfl).jump moves6.sound (moves6.knows_own (by simp))).step
      fun _ s7 ⟨tested, _⟩ => ?_
    exact rest s7 (moves6.andThenTo tested (by simp)) (by simp)

lemma bindKey_moves {head : HeadCode} (lowers : HeadLowers rt head) (sound : s.Sound)
    {key : Operand} (ready : s.Ready key) :
    Runs (bindKey head key) s fun _ s' => s.Moves s' {} := by
  -- What follows a declared name, whatever is reported before it.
  have go (t : Lowering) (moves : s.Moves t {}) (name : String) (loc : Location) : Runs (do
        let id ← declaredBinding name loc
        match ← writeBinding id loc with
        | some dest => assign dest key
        | none => pure ()) t fun _ s' => s.Moves s' {} := by
    refine (declaredBinding_moves moves.sound name loc).step fun id s1 ⟨moves1, visible⟩ => ?_
    refine (writeBinding_place moves1.sound visible loc).step fun dest s2 ⟨written, places⟩ => ?_
    have moves2 := (moves.andThen moves1).andThen written
    cases dest with
    | none => exact .pure moves2
    | some dest =>
      obtain ⟨v, rfl, fits, assigned⟩ := places dest rfl
      refine (assign_moves moves2.sound fits (moves2.keeps.fits ready.holds.1) rfl
        (fun other same => ?_) (by simp)).mono fun _ s3 ⟨copied, _⟩ => moves2.andThen copied
      exact Operand.var.inj same ▸ assigned
  unfold bindKey
  split
  next d =>
    split
    next name _ =>
      split
      · exact (error_reports sound d.loc _).step fun _ s1 ⟨reports, _⟩ =>
          go s1 reports.moves name d.loc
      · exact go s (.refl sound) name d.loc
    · exact (notSupported_reports sound d.loc _).mono fun _ _ ⟨reports, _⟩ => reports.moves
  next loc _ _ => exact (error_reports sound loc _).mono fun _ _ ⟨reports, _⟩ => reports.moves
  next p =>
    obtain ⟨-, covered, evalSite, evaluates⟩ := lowers
    refine (evaluates false s sound).step fun target s1 ⟨moves1, place, _⟩ => ?_
    have operands (a : Operand) (mem : a ∈ target.operands) : s1.Ready a := moves1.ready mem
    refine (write_spec rt moves1.sound operands place (moves1.still_ready ready (by simp))).step
      fun _ s2 ⟨written, _⟩ => ?_
    have moves2 := moves1.andThen written
    refine (releaseTarget_moves moves2.sound (fun a mem => moves2.ready mem)
      moves2.apart).mono fun _ s3 ⟨freed, _⟩ => ?_
    have given : s.Moves s2 { given := target.operands ++ [] } := by rwa [List.append_nil]
    exact given.andThen freed

lemma Moves.spliced (moves : s.Moves s' l) (ids : List Operand) (resultCount : Nat)
    (parts : List SplicePart) (mine : ∀ a ∈ ids, a ∈ l.given)
    (places : ∀ a ∈ ids.take resultCount, ∃ id, a = .cell id) (enough : resultCount ≤ ids.length)
    (inside : ∀ index, .binding index ∈ parts → index < ids.length) :
    s.Moves (s'.withCode (s'.code.appended (.splice ids resultCount parts))) l := by
  refine moves.appended ⟨fun a mem => moves.fits (mine a mem), ⟨enough, inside⟩, ?_⟩
    (fun _ => rfl) ?_ fun id touched => mine _ touched
  · intro a mem
    obtain ⟨id, rfl⟩ := places a mem
    rfl
  · intro v written
    obtain ⟨id, absurdly⟩ := places _ written
    cases absurdly

section

variable {covered : Prop} {eval : Action V V} {e : Lowered}
  (spec : e.Spec rt covered eval)
include spec

lemma forInCode_proceeds {head : HeadCode} (lowers : HeadLowers rt head)
    (proceeds : StmtProceeds body) (labels : List String) :
    Proceeds (forInCode head e body labels) := by
  intro s sound
  refine (Moves.refl sound).label_step fun start s1 moves1 _ => ?_
  refine moves1.label_step fun next s2 moves2 _ => ?_
  refine moves2.label_step fun exit s3 moves3 _ => ?_
  refine moves3.label_step fun enumerate s4 moves4 _ => ?_
  refine (spec.value moves4.sound).step fun value s5 ⟨done, _⟩ => ?_
  have moves5 := moves4.andThen done
  have null_fits : s5.Fits (.constant .null) := trivial
  refine (branchCompare_does rt moves5.sound rfl (moves5.fits (by simp)) null_fits
    (moves5.knows_own (by simp))).step fun _ s6 ⟨branched, _⟩ => ?_
  have order : [start, next, exit, enumerate].Perm [enumerate, next, start, exit] := by
    rw [List.perm_iff_count]
    intro label
    simp only [List.count_cons]
    omega
  have moves6 : s.Moves s6
      { made := [enumerate, next, start, exit], owed := [exit, enumerate], given := [value] } :=
    (moves5.andThenTo branched (by simp)).relabel order
  refine moves6.place_step rt fun s7 moves7 _ => ?_
  refine (unaryValue_spec rt moves7.sound rfl (moves7.ready (by simp))).step
    fun source s8 ⟨_, converted, _⟩ => ?_
  have moves8 : s.Moves s8 { made := [next, start, exit], settled := [enumerate],
                             owed := [exit, enumerate], given := [source] } :=
    moves7.andThen converted
  refine (allocTemp_moves moves8.sound).step ?_
  rintro _ s9 ⟨⟨iterator, rfl⟩, fresh, -⟩
  have moves9 := moves8.andThen fresh
  have started := moves9.spliced [.cell iterator, source] 1 enumerateParts (by simp) (by simp)
    (by simp) (by simp [enumerateParts])
  refine push_step moves9.sound ?_
  have swapped := started.reorder (List.Perm.swap source (.cell iterator) [])
  refine swapped.release_step fun s10 moves10 => ?_
  refine moves10.place_step rt fun s11 moves11 _ => ?_
  refine (allocTemp_moves moves11.sound).step ?_
  rintro _ s12 ⟨⟨more, rfl⟩, allocated12, -⟩
  refine (allocTemp_moves allocated12.sound).step ?_
  rintro _ s13 ⟨⟨key, rfl⟩, allocated13, -⟩
  have moves13 := moves11.andThen (allocated12.andThen allocated13)
  have stepped := moves13.spliced [.cell more, .cell key, .cell iterator] 2 nextKeyParts (by simp)
    (by simp) (by simp) (by simp [nextKeyParts])
  refine push_step moves13.sound ?_
  refine (branchTrue_does rt stepped.sound (stepped.fits (by simp))
    (stepped.knows_own (by simp))).step fun _ s14 ⟨branched14, _⟩ => ?_
  have moves14 := (stepped.andThenTo branched14 (by simp)).reorder (List.Perm.swap _ _ _)
  refine moves14.release_step fun s15 moves15 => ?_
  refine moves15.place_step rt fun s16 moves16 _ => ?_
  refine (bindKey_moves lowers moves16.sound (moves16.ready (by simp))).step fun _ s17 bound => ?_
  have moves17 := moves16.andThen bound
  refine moves17.release_step fun s18 moves18 => ?_
  refine (inTarget_moves (proceeds []) moves18.sound labels (moves18.knows_own (by simp)) true).step
    fun _ s19 inside => ?_
  have moves19 := moves18.andThenTo inside (by simp)
  refine moves19.goto_step rt (by simp) fun s20 moves20 _ => ?_
  refine moves20.place_step rt fun s21 moves21 _ => ?_
  have moves21 := moves21.close (by simp) knows_nil
  exact moves21.release_last

end

/-! ## Switches -/

lemma Moves.owing (moves : s.Moves s' l) (more : ∀ label ∈ l.owed, label ∈ owed)
    (known : s'.Knows owed) : s.Moves s' { l with owed } where
  __ := moves
  owed := known
  owes label owes := (moves.owes label owes).imp_right (Or.imp_left (more label))
  flows said aim F charted spared aimed leaves :=
    moves.flows said aim F charted spared (fun label mem => aimed label (more label mem)) leaves

lemma caseLabels_moves (sound : s.Sound) (cases : List CaseCode) :
    Runs (caseLabels cases) s fun pairs s' =>
      s.Moves s' { made := pairs.map (·.2) } ∧ pairs.map (·.1) = cases := by
  induction cases generalizing s with
  | nil => exact .pure ⟨.refl sound, rfl⟩
  | cons c rest ih =>
    refine (newLabel_moves sound).step fun label s1 ⟨made, _⟩ => ?_
    refine (ih made.sound).step fun pairs s2 ⟨moves, same⟩ => ?_
    exact .pure ⟨made.andThen moves, by simp [same]⟩

def CaseLowers (rt : Runtime V) (c : CaseCode) : Prop :=
  (∀ e ∈ c.test, ∃ covered eval, e.Spec rt covered eval) ∧ Proceeds c.body

lemma jumpTable?_labels {table : List (Int × Label)} (known : jumpTable? pairs = some table)
    {label : Label} (mem : label ∈ table.map (·.2)) : label ∈ pairs.map (·.2) := by
  induction pairs generalizing table with
  | nil =>
    obtain rfl : [] = table := by simpa [jumpTable?] using known
    cases mem
  | cons pair rest ih =>
    obtain ⟨c, own⟩ := pair
    rw [jumpTable?] at known
    split at known
    · exact .tail _ (ih known mem)
    · obtain ⟨key, -, rest_known⟩ := Option.bind_eq_some_iff.mp known
      obtain ⟨others, found, same⟩ := Option.bind_eq_some_iff.mp rest_known
      cases same
      rcases List.mem_cons.mp mem with rfl | later
      · exact .head _
      · exact .tail _ (ih found later)

lemma testCases_moves (pairs : List (CaseCode × Label)) (lowers : ∀ p ∈ pairs, CaseLowers rt p.1)
    (sound : s.Sound) (ready : s.Ready value) (known : s.Knows (pairs.map (·.2))) :
    Runs (testCases value pairs) s fun _ s' => s.Moves s' { owed := pairs.map (·.2) } := by
  induction pairs generalizing s with
  | nil => exact .pure (.refl sound)
  | cons pair rest ih =>
    obtain ⟨c, label⟩ := pair
    have others (t : Lowering) (moves : s.Moves t { owed := [label] }) :
        Runs (testCases value rest) t fun _ s' =>
          s.Moves s' { owed := label :: rest.map (·.2) } := by
      have known_rest := moves.knows fun l mem => known l (.tail _ mem)
      refine (ih (fun p mem => lowers p (.tail _ mem)) moves.sound
        (moves.still_ready ready (by simp)) known_rest).mono fun _ s' more => ?_
      have both := moves.andThenTo more fun l mem => .inl (known l (.tail _ mem))
      exact both.close (by simp; tauto) known
    have inside := known label (.head _)
    rw [testCases]
    cases test : c.test with
    | none => exact others s ((Moves.refl sound).owing (by simp) (by simpa [Knows] using inside))
    | some e =>
      obtain ⟨covered, eval, spec⟩ := (lowers _ (.head _)).1 e test
      refine (spec.value sound).step ?_
      rintro v s1 ⟨moves1, _⟩
      refine moves1.label_step fun next s2 moves2 _ => ?_
      have both_known : s2.Knows [label, next] := by
        intro l mem
        rcases List.mem_cons.mp mem with rfl | new
        · exact Nat.lt_of_lt_of_le inside (moves2.keeps.labelCount_le sound)
        · exact moves2.knows_made l new
      refine (branchCompare_does rt moves2.sound rfl (moves2.keeps.fits ready.holds.1)
        (moves2.fits (by simp)) both_known).step fun _ s3 branched => ?_
      have moves3 := moves2.andThenTo branched.1 (by simp [inside])
      refine moves3.release_step fun s4 moves4 => ?_
      refine moves4.place_step rt fun s5 moves5 _ => ?_
      exact others s5 (moves5.close (by simp) (by simpa [Knows] using inside))

lemma caseBodies_moves {t : JumpTarget} (pairs : List (CaseCode × Label))
    (lowers : ∀ p ∈ pairs, Proceeds p.1.body) (depth : t.tryDepth = s.frame.tries.length)
    (single : t.continueLabel = none) {settled : List Label} (own : t.breakLabel ∈ made)
    (owes : t.breakLabel ∈ owed)
    (moves : s.Moves x { made := pairs.map (·.2) ++ made, settled, owed, leaves := true }) :
    Runs (caseBodies pairs) (x.within t) fun _ y => ∃ x', y = x'.within t ∧
      s.Moves x'
        { made, settled := (pairs.map (·.2)).reverse ++ settled, owed, leaves := true } := by
  induction pairs generalizing x settled with
  | nil => exact .pure ⟨x, rfl, moves⟩
  | cons pair rest ih =>
    obtain ⟨c, label⟩ := pair
    have moves := moves
    have depth_x : t.tryDepth = x.frame.tries.length := by rw [moves.keeps.frame, depth]
    -- A label is placed in the code, whatever the frame is.
    obtain ⟨-, x1, -, places, rfl⟩ := place_places moves.sound (moves.made label (by simp)).1
    have placed := moves.place places
    have known : x.Knows (t.breakLabel :: t.continueLabel.toList) := by
      rw [single]
      exact moves.knows_own (by simp [own])
    have ran : place label (x.within t) =
        .ok ⟨⟩ ((x.withCode (x.code.placeAt label)).within t) := by
      have inner := moves.sound.within depth_x known
      exact inCode_run inner (Routine.place_run inner.code_sound.toBuilt
        (moves.made label (by simp)).1)
    refine .after ran ?_
    have known1 : (x.withCode (x.code.placeAt label)).Knows
        (t.breakLabel :: t.continueLabel.toList) := by
      rw [single]
      exact placed.knows_own (by simp [own])
    have depth1 := depth_x
    refine (lowers _ (.head _) _ (placed.sound.within depth1 known1)).step fun _ y body => ?_
    have left := body.leaveTarget placed.sound depth1 known1
    rw [single] at left
    have both := placed.andThenTo left (by simp [own])
    have next : s.Moves { y with frame := x.frame } { made := rest.map (·.2) ++ made,
                                                      settled := label :: settled, owed,
                                                      leaves := true } := by
      have owing := both.owing (by simp [owes]) fun l mem =>
        both.owed l (List.mem_append_right _ mem)
      simp only [List.append_nil, List.nil_append] at owing
      exact owing
    have same : y = { y with frame := x.frame }.within t := by
      have frame : y.frame = { x.frame with targets := t :: x.frame.targets } := body.keeps.frame
      rw [within, ← frame]
    rw [same]
    simpa using ih (fun p mem => lowers p (.tail _ mem)) next

lemma switchBodies_moves (rt : Runtime V) {exit : Label}
    (moves : s.Moves x { made := exit :: pairs.map (·.2), owed, given := [value] })
    (inside : ∀ label ∈ owed, label ∈ exit :: pairs.map (·.2))
    (lowers : ∀ p ∈ pairs, Proceeds p.1.body) (labels : List String) : Runs (do
      release value
      inTarget labels exit none true (caseBodies pairs)
      place exit) x fun _ s' => s.Moves s' { leaves := true } := by
  refine moves.release_step fun x1 moves1 => ?_
  have known := moves1.knows_made
  have order : (exit :: pairs.map (·.2)).Perm (pairs.map (·.2) ++ [exit]) :=
    (List.perm_append_singleton exit _).symm
  have moves2 := ((moves1.relabel order).owing inside known).leaving
  let t : JumpTarget := { names := labels, breakLabel := exit, continueLabel := none,
                          breakable := true, tryDepth := x1.frame.tries.length }
  have depth : t.tryDepth = s.frame.tries.length := by
    show x1.frame.tries.length = _
    rw [moves1.keeps.frame]
  have entered : modifyFrame (fun f => { f with targets :=
      { names := labels, breakLabel := exit, continueLabel := none, breakable := true,
        tryDepth := f.tries.length } :: f.targets }) x1 = .ok ⟨⟩ (x1.within t) := rfl
  have bodies := caseBodies_moves pairs lowers depth rfl (.head _) (.head _) moves2
  have left : Runs (inTarget labels exit none true (caseBodies pairs)) x1 fun _ x2 =>
      s.Moves x2 { made := [exit], settled := (pairs.map (·.2)).reverse ++ [],
                   owed := exit :: pairs.map (·.2), leaves := true } := by
    refine .after entered (bodies.step ?_)
    rintro - _ ⟨x2, rfl, moves3⟩
    exact .modify moves3
  refine left.step fun _ x2 moves3 => ?_
  exact (moves3.place_last rt (by simp)).mono fun _ _ ⟨moves, _⟩ => moves

lemma switchCases_moves (moves1 : s.Moves s1 { given := [value] })
    (lowers : ∀ c ∈ cases, CaseLowers rt c) (labels : List String) : Runs (do
      let exit ← newLabel
      let cases ← caseLabels cases
      let default := ((cases.find? (·.1.test.isNone)).map (·.2)).getD exit
      match usableTable? value cases with
      | some table => inCode (Routine.setJump (.switch value table default))
      | none =>
        testCases value cases
        goto default
      release value
      inTarget labels exit none true (caseBodies cases)
      place exit) s1 fun _ s' => s.Moves s' { leaves := true } := by
  refine moves1.label_step fun exit s2 moves2 _ => ?_
  refine (caseLabels_moves moves2.sound cases).step ?_
  rintro pairs s3 ⟨named, same⟩
  have moves3 := moves2.andThen named
  have each (p : CaseCode × Label) (mem : p ∈ pairs) : CaseLowers rt p.1 :=
    lowers p.1 (same ▸ List.mem_map_of_mem mem)
  have default_mem : ((pairs.find? (·.1.test.isNone)).map (·.2)).getD exit ∈
      exit :: pairs.map (·.2) := by
    cases found : pairs.find? (·.1.test.isNone) with
    | none => exact .head _
    | some p => exact .tail _ (List.mem_map.mpr ⟨p, List.mem_of_find?_eq_some found, rfl⟩)
  have known := moves3.knows_made
  have bodies (p : CaseCode × Label) (mem : p ∈ pairs) : Proceeds p.1.body := (each p mem).2
  simp only
  split
  next table usable =>
    have from_table {label : Label} (mem : label ∈ table.map (·.2)) :
        label ∈ exit :: pairs.map (·.2) := by
      rw [usableTable?] at usable
      split at usable
      · cases usable
      · exact .tail _ (jumpTable?_labels (Option.filter_eq_some_iff.mp usable).1 mem)
    have fits : s3.JumpFits s3.frame.routine (.switch value table
        (((pairs.find? (·.1.test.isNone)).map (·.2)).getD exit)) := by
      refine ⟨fun a mem => ?_, by simp, by simp⟩
      obtain rfl : a = value := by simpa [Jump.operands] using mem
      exact moves3.fits (by simp)
    have inside : ∀ label ∈ (Jump.switch value table
        (((pairs.find? (·.1.test.isNone)).map (·.2)).getD exit)).targets,
          label ∈ exit :: pairs.map (·.2) := by
      intro label mem
      rcases List.mem_append.mp mem with entry | last
      · exact from_table entry
      · rw [List.mem_singleton.mp last]
        exact default_mem
    refine (setJump_moves moves3.sound fits (fun label mem => known label (inside label mem))
      fun _ _ aimed => aimed).step fun _ s4 jumped => ?_
    have moves4 := moves3.andThenTo jumped.1 fun label mem => .inr (.inl (inside label mem))
    simp only [List.append_nil] at moves4
    exact switchBodies_moves rt moves4 inside bodies labels
  next =>
    refine (testCases_moves pairs each moves3.sound (moves3.ready (by simp))
      fun label mem => known label (.tail _ mem)).step fun _ s4 tested => ?_
    have moves4 := moves3.andThenTo tested fun label mem => .inr (.inl (.tail _ mem))
    refine moves4.goto_step rt (.inr (by simpa using default_mem)) fun s5 moves5 _ => ?_
    simp only [List.append_nil] at moves5
    refine switchBodies_moves rt moves5 (fun label mem => ?_) bodies labels
    rcases List.mem_cons.mp mem with rfl | tested
    · exact default_mem
    · exact .tail _ tested

lemma switchCode_proceeds {covered : Prop} {eval : Action V V}
    {scrutinee : Lowered} (spec : scrutinee.Spec rt covered eval)
    (lowers : ∀ c ∈ cases, CaseLowers rt c) (loc : Location) (labels : List String) :
    Proceeds (switchCode loc scrutinee cases labels) := by
  intro s sound
  refine (spec.value sound).step fun value s1 ⟨moves1, _⟩ => ?_
  split
  · refine (warn_reports moves1.sound loc _).step fun _ s2 reports => ?_
    have moves2 := moves1.andThen reports.moves
    exact moves2.release_last.mono fun _ _ => .leaving
  · refine (pin_spec rt moves1.sound (moves1.ready (by simp))).step fun pinned s2 ⟨_,
      moved, _⟩ => ?_
    have moves2 := moves1.andThen moved
    exact switchCases_moves moves2 lowers labels

end Scriptc.Lowering
