import Scriptc.Proofs.Lowering.Bodies

/-!
# Leaving statements and routines

A break, continue or return ends the protected regions between it and its destination, innermost
first. Code in a statement that can be left may jump to the labels of that statement.
-/

namespace Scriptc

open List

namespace JumpTarget

lemma destination_mem {targets : List JumpTarget} {name : Option String} {isContinue : Bool}
    {label : Label} {depth : Nat} (goes : destination targets name isContinue =
      .ok (label, depth)) :
    ∃ t ∈ targets, t.tryDepth = depth ∧ (label = t.breakLabel ∨ t.continueLabel = some label) := by
  simp only [destination] at goes
  split at goes
  · simp only [labeledDestination] at goes
    split at goes
    · cases goes
    next t found =>
      obtain ⟨rfl, rfl⟩ : _ ∧ _ := by simpa using goes
      exact ⟨t, mem_of_find?_eq_some found, rfl, .inl rfl⟩
    next t found =>
      split at goes
      next continues =>
        obtain ⟨rfl, rfl⟩ : _ ∧ _ := by simpa using goes
        exact ⟨t, mem_of_find?_eq_some found, rfl, .inr continues⟩
      · cases goes
  · split at goes
    next found =>
      obtain rfl : _ = (label, depth) := by simpa using goes
      obtain ⟨t, mem, continues⟩ := exists_of_findSome?_eq_some found
      obtain ⟨other, is_label, same⟩ := Option.map_eq_some_iff.mp continues
      obtain ⟨rfl, rfl⟩ : _ ∧ _ := by simpa using same
      exact ⟨t, mem, rfl, .inr is_label⟩
    · cases goes
  · split at goes
    next found =>
      obtain ⟨rfl, rfl⟩ : _ ∧ _ := by simpa using goes
      exact ⟨_, mem_of_find?_eq_some found, rfl, .inl rfl⟩
    · cases goes

end JumpTarget

lemma Flow.eq_regions {F : Flow} {tries : List Nat} (le : F ≤ .regions tries) :
    F = .regions tries := by
  obtain ⟨same, none_held⟩ := le
  have holds : F.holds = fun _ _ => False := by
    funext id origin
    exact eq_false (none_held id origin)
  cases F
  cases same
  cases holds
  rfl

namespace Lowering

variable {frame : Frame} {t : JumpTarget}

variable {s s' : Lowering}

lemma Moves.leave {owed : List Label} {taken given : List Operand}
    (moves : s.Moves s' { owed, uncharted := true, taken, given })
    (exits : ∀ label ∈ owed, s.frame.Exit label)
    (flows : s.FlowsTo s' { leaves := true, taken, given } fun F => F) :
    s.Moves s' { leaves := true, taken, given } where
  __ := moves
  owed _ absent := by cases absent
  owes label owes := by
    rcases moves.owes label owes with before | added | ⟨absurdly, -⟩
    · exact .inl before
    · exact .inr (.inr ⟨rfl, exits label added⟩)
    · cases absurdly
  flows _ := flows

lemma Moves.leaving {l : Ledger} (moves : s.Moves s' l) : s.Moves s' { l with leaves := true } where
  __ := moves
  owes label owes := (moves.owes label owes).imp_right (Or.imp_right fun exit => ⟨rfl, exit.2⟩)
  flows said aim F charted spared aimed leaves :=
    moves.flows said aim F charted spared aimed fun _ => leaves rfl

section

variable {label : Label} {aim : Label → Flow} {value : Operand}

variable (sound : s.Sound)
include sound

lemma Sound.exit_lt (exit : s.frame.Exit label) : label < s.labelCount := by
  obtain ⟨r, found, labels, -⟩ := sound.frame.exits
  cases sound.code_found.symm.trans found
  exact labels label exit

lemma Sound.charted_goto {F : Flow} (charted : s.Charted aim F) (inside : label < s.labelCount)
    (aimed : aim label ≤ F) (next : Flow) :
    (s.withCode (s.code.ended (.goto label))).Charted aim next := by
  have leads : F.Leads aim (.goto label) := by
    intro other mem
    rwa [mem_singleton.mp mem]
  exact sound.charted_ended charted leads
    (fun other mem => by rwa [mem_singleton.mp mem]) next

lemma endTries_moves {indices : List Nat} (inside : ∀ index ∈ indices, index < s.code.tryCount) :
    Runs (endTries indices) s fun _ s' => s.Moves s' { uncharted := true } ∧
      ∀ aim rest, s.Charted aim (.regions (indices ++ rest)) → s'.Charted aim (.regions rest) := by
  induction indices generalizing s with
  | nil => exact Runs.pure ⟨(Moves.refl sound).unchart, fun _ _ charted => charted⟩
  | cons index indices ih =>
    have fits : s.InstructionFits s.frame.routine (.endTry index) :=
      ⟨by simp [Instruction.operands], ⟨s.code, sound.code_found, inside index (by simp)⟩,
        by simp [Instruction.dests]⟩
    have first := (Moves.refl sound).unchart.appended fits (by simp) (by simp [Instruction.dests])
        (by simp [Instruction.touched, Instruction.dests])
    refine push_step sound ((ih first.sound fun i mem => ?_).mono ?_)
    · rw [sound.withCode_code]
      exact inside i (by simp [mem])
    · rintro _ s' ⟨rest, ends⟩
      refine ⟨first.andThen rest, ?_⟩
      rintro aim outer ⟨start, charted⟩
      refine ends aim outer ⟨start, ?_⟩
      have top : (Flow.regions (index :: indices ++ outer)).Admits (.endTry index) := rfl
      rw [sound.withCode_code]
      exact (charted.appended sound.code_sound top).weaken ⟨rfl, fun _ _ absurdly => absurdly.elim⟩

lemma leaveTries_moves {depth : Nat} (within : depth ≤ s.frame.tries.length) :
    Runs (leaveTries depth) s fun _ s' => s.Moves s' { uncharted := true } ∧
      ∀ aim, s.Charted aim s.frame.flow → s'.Charted aim (s.frame.flowAt depth) := by
  refine .get_step ?_
  have enough := Nat.not_lt_of_le within
  simp only [if_neg enough]
  obtain ⟨r, found, -, tries⟩ := sound.frame.exits
  cases sound.code_found.symm.trans found
  refine (endTries_moves sound fun index mem => tries index (mem_of_mem_take mem)).mono
    fun _ s' ⟨moves, ends⟩ => ⟨moves, fun aim charted => ends aim _ ?_⟩
  rwa [take_append_drop]

lemma leave_moves {depth : Nat} (exit : s.frame.Exit label)
    (within : depth ≤ s.frame.tries.length)
    (aimed : ∀ aim, s.frame.Aims aim → aim label = s.frame.flowAt depth) : Runs (do
      leaveTries depth
      goto label) s fun _ s' => s.Moves s' { leaves := true } := by
  refine (leaveTries_moves sound within).step fun _ s1 ⟨left, ends⟩ => ?_
  have inside := Nat.lt_of_lt_of_le (sound.exit_lt exit) (left.keeps.labelCount_le sound)
  refine (goto_moves left.sound inside).mono ?_
  rintro - _ ⟨gone, rfl⟩
  have both := left.andThenTo gone fun other mem => .inl (by
    obtain rfl : other = label := by simpa using mem
    exact sound.exit_lt exit)
  refine both.leave (fun other mem => ?_) fun aim F charted _ _ leaves => ?_
  · obtain rfl : other = label := by simpa using mem
    exact exit
  · obtain ⟨rfl, aims⟩ := leaves rfl
    refine ⟨aim, fun _ _ => rfl, by simp, ?_⟩
    refine left.sound.charted_goto (ends aim charted) inside ?_ _
    rw [aimed aim aims]
    exact Flow.le_refl _

lemma jumpCode_moves (loc : Location) (label : Option Ident) (isContinue : Bool) :
    Runs (jumpCode loc label isContinue) s fun _ s' => s.Moves s' { leaves := true } := by
  refine .get_step ?_
  split
  next destination depth goes =>
    obtain ⟨t, mem, rfl, named⟩ := JumpTarget.destination_mem goes
    refine leave_moves sound (.inr ⟨t, mem, named⟩) (sound.frame.tries t mem)
      fun aim aims => ?_
    rcases named with rfl | continues
    · exact aims.breaks t mem
    · exact aims.continues t mem destination continues
  next => exact (error_reports sound loc _).mono fun _ s' ⟨reports, _⟩ => reports.moves.leaving

lemma moves_result (fits : s.Fits value) :
    s.Moves (s.withCode (s.code.assigned Routine.result value)) {} := by
  rw [Routine.assigned]
  split
  · have edits := Routine.edits_appended sound.code_sound (.assign Routine.result value)
    have keeps := sound.keeps_withCode (.refl s) edits (by simp [Instruction.dests, Routine.result])
    have allowed := instructionFits_assign sound.fits_result fits rfl
    have sound' := sound.withCode edits
      (fun i same => same ▸ keeps.toGrown.instructionFits allowed) (by simp)
      (by simp [Instruction.dests, Routine.result])
    refine moves_of_appended sound sound' keeps (sound.withCode_code _) rfl fun id
      touched used => ?_
    obtain rfl : id = 0 := by
      simpa [Instruction.touched, Instruction.dests, Routine.result] using touched
    cases sound.code_sound.result_local.symm.trans used.1
  · rw [sound.withCode_self]
    exact .refl sound

lemma Sound.charted_result {tries : List Nat} (charted : s.Charted aim (.regions tries))
    (value : Operand) :
    (s.withCode (s.code.assigned Routine.result value)).Charted aim (.regions tries) := by
  obtain ⟨start, charted⟩ := charted
  refine ⟨start, ?_⟩
  rw [sound.withCode_code, Routine.assigned]
  split
  · have admits : (Flow.regions tries).Admits (.assign Routine.result value) := trivial
    exact (charted.appended sound.code_sound admits).weaken ⟨rfl, fun _ _ absurdly => absurdly.elim⟩
  · exact charted

lemma ret_moves (fits : s.Fits value) : Runs (inCode (Routine.ret value)) s fun _ s' =>
      s.Moves s' { owed := [Routine.exitLabel], uncharted := true } ∧
        ∀ aim next, s.Charted aim (.regions []) → aim Routine.exitLabel = .regions [] →
          s'.Charted aim next := by
  have copied := moves_result sound fits
  have exit := sound.exit_lt (.inl rfl)
  have inside := Nat.lt_of_lt_of_le exit (copied.keeps.labelCount_le sound)
  obtain ⟨-, _, -, gone, rfl⟩ := goto_moves copied.sound inside
  have both := copied.andThenTo gone fun label mem => .inl (by rwa [mem_singleton.mp mem])
  rw [sound.withCode_code, withCode_withCode] at both
  refine inCode_runs sound ⟨⟨⟩, _, Routine.ret_run sound.code_sound value, both.unchart, ?_⟩
  intro aim next charted expected
  have aimed : aim Routine.exitLabel ≤ .regions [] := expected ▸ Flow.le_refl _
  have reached := copied.sound.charted_goto (sound.charted_result charted value) inside aimed next
  rwa [sound.withCode_code, withCode_withCode] at reached

end

lemma code_reframe (same : frame.routine = s.frame.routine) : { s with frame }.code = s.code := by
  rw [code, code, same]

lemma Moves.reframe {l : Ledger} (moves : { s with frame }.Moves s' l) (sound : s.Sound)
    (same : frame.routine = s.frame.routine) {more : List Label} (known : s.Knows more)
    (exits : l.leaves = true → ∀ label, frame.Exit label → s.frame.Exit label ∨ label ∈ more) :
    s.Moves { s' with frame := s.frame } { l with owed := more ++ l.owed, uncharted := true } := by
  have keeps := moves.keeps.reframe same.symm
  have routine : s.frame.routine = s'.frame.routine := by rw [moves.keeps.frame, same]
  have before := code_reframe same
  have after := code_reframe routine
  have fits {a : Operand} (fits : s'.Fits a) : { s' with frame := s.frame }.Fits a := by
    rw [Fits, ← routine] at fits
    exact fits
  refine ⟨sound, moves.sound.reframe routine (keeps.toExtends.frameFits sound.frame), keeps, ?_, ?_,
    moves.made_nodup, ?_, ?_, ?_, ?_, ?_, ?_, moves.apart, ?_, by simp⟩
  · intro label pending
    rw [Pending, after]
    rw [Pending, ← before] at pending
    exact moves.pending label pending
  · intro label mem
    rw [Pending, after, labelCount, ← before]
    exact moves.made label mem
  · intro label mem
    rw [Placed, after, labelCount, ← before]
    exact moves.settled label mem
  · intro label mem
    rcases mem_append.mp mem with new | old
    · exact Nat.lt_of_lt_of_le (known label new) (keeps.toExtends.labelCount_le sound)
    · rw [labelCount, after]
      exact moves.owed label old
  · intro label owes
    rw [Owes, after] at owes
    rcases moves.owes label owes with old | owed | ⟨leaves, exit⟩
    · rw [Owes, before] at old
      exact .inl old
    · exact .inr (.inl (mem_append_right _ owed))
    · rcases exits leaves label exit with outer | new
      · exact .inr (.inr ⟨leaves, outer⟩)
      · exact .inr (.inl (mem_append_left _ new))
  · intro id
    rw [InUse, after, InUse, ← before]
    exact moves.inUse id
  · intro id mem
    rw [InUse, ← before]
    exact moves.taken id mem
  · intro id mem
    rw [InUse, ← before]
    exact moves.fresh id mem
  · intro a mem
    exact ⟨fits (moves.holds a mem).1, (moves.holds a mem).2⟩

lemma charted_reframe (same : frame.routine = s.frame.routine) (aim : Label → Flow) (F : Flow) :
    { s with frame }.Charted aim F ↔ s.Charted aim F := by
  rw [Charted, Charted, code_reframe same]

def within (s : Lowering) (t : JumpTarget) : Lowering :=
  { s with frame := { s.frame with targets := t :: s.frame.targets } }

lemma Sound.within (sound : s.Sound) (depth : t.tryDepth = s.frame.tries.length)
    (known : s.Knows (t.breakLabel :: t.continueLabel.toList)) : (s.within t).Sound := by
  have fits := sound.frame
  refine sound.reframe rfl ⟨fits.scope, fits.root, fits.top, fits.shadows, ?_, ?_⟩
  · intro other mem
    rcases mem_cons.mp mem with rfl | outer
    · exact Nat.le_of_eq depth
    · exact fits.tries other outer
  · refine ⟨s.code, sound.code_found, ?_, ?_⟩
    · rintro label (rfl | ⟨other, mem, named⟩)
      · exact sound.exit_lt (.inl rfl)
      · rcases mem_cons.mp mem with rfl | outer
        · exact known label (by rcases named with rfl | continues <;> simp [*])
        · exact sound.exit_lt (.inr ⟨other, outer, named⟩)
    · obtain ⟨r, found, -, tries⟩ := fits.exits
      rwa [Option.some.inj (sound.code_found.symm.trans found)]

lemma Moves.leaveTarget (moves : (s.within t).Moves s' { leaves := true }) (sound : s.Sound)
    (depth : t.tryDepth = s.frame.tries.length)
    (known : s.Knows (t.breakLabel :: t.continueLabel.toList)) :
    s.Moves { s' with frame := s.frame }
      { owed := t.breakLabel :: t.continueLabel.toList, leaves := true } := by
  have outside := moves.reframe sound rfl known fun _ label exit => by
    rcases exit with rfl | ⟨other, mem, named⟩
    · exact .inl (.inl rfl)
    · rcases mem_cons.mp mem with rfl | outer
      · exact .inr (by rcases named with rfl | continues <;> simp [*])
      · exact .inl (.inr ⟨other, outer, named⟩)
  rw [append_nil] at outside
  refine outside.chart fun aim F charted spared aimed leaves => ?_
  obtain ⟨rfl, aims⟩ := leaves rfl
  -- The labels of the statement are reached with the regions that are active here.
  have own (label : Label) (mem : label ∈ t.breakLabel :: t.continueLabel.toList) :
      aim label = s.frame.flowAt t.tryDepth := by
    rw [Flow.eq_regions (aimed label mem (known label mem)), Frame.flowAt, depth,
      Nat.sub_self]
    rfl
  have inner : (s.within t).frame.Aims aim := by
    refine ⟨aims.exit, fun other mem => ?_, fun other mem label continues => ?_⟩
    · rcases mem_cons.mp mem with rfl | outer
      · exact own _ (by simp)
      · exact aims.breaks other outer
    · rcases mem_cons.mp mem with rfl | outer
      · exact own _ (by simp [continues])
      · exact aims.continues other outer label continues
  obtain ⟨aim', same, own', charted'⟩ := moves.flows rfl aim s.frame.flow charted spared (by simp)
    fun _ => ⟨rfl, inner⟩
  refine ⟨aim', same, own', (charted_reframe ?_ aim' _).mpr charted'⟩
  rw [moves.keeps.frame]
  rfl

/-- Code that only makes steps that may leave the statements around it. -/
def Proceeds (code : Lower PUnit) : Prop :=
  ∀ s : Lowering, s.Sound → Runs code s fun _ s' => s.Moves s' { leaves := true }

lemma inTarget_moves {body : Lower PUnit} (proceeds : Proceeds body) (sound : s.Sound)
    (names : List String) {breakLabel : Label} {continueLabel : Option Label}
    (known : s.Knows (breakLabel :: continueLabel.toList)) (breakable : Bool) :
    Runs (inTarget names breakLabel continueLabel breakable body) s fun _ s' =>
      s.Moves s' { owed := breakLabel :: continueLabel.toList, leaves := true } := by
  let t : JumpTarget :=
    { names, breakLabel, continueLabel, breakable, tryDepth := s.frame.tries.length }
  have entered : modifyFrame (fun f => { f with targets :=
      { names, breakLabel, continueLabel, breakable, tryDepth := f.tries.length } :: f.targets }) s
        = .ok ⟨⟩ (s.within t) := rfl
  refine .after entered ((proceeds _ (sound.within rfl known)).step fun _ s' moves => ?_)
  have left := moves.leaveTarget sound rfl known
  have frame : { s'.frame with targets := s'.frame.targets.tail } = s.frame := by
    rw [moves.keeps.frame]
    rfl
  rw [← frame] at left
  exact .modify left

end Lowering
end Scriptc
