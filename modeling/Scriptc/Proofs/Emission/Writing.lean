import Scriptc.Proofs.Emission.Places
import Scriptc.Proofs.Lowering.Routines

/-!
# Writing a unit

Every instruction and jump of a lowered program has its text: operands are in bounds, labels are
placed, and the routines that are called or closed over exist.
-/

namespace Scriptc

namespace Routine

variable {r : Routine}

section

variable (mirrors : ∀ (k : BlockId) (b : Block), r.blocks[k]? = some b → b.Mirrors)
include mirrors

lemma jump_of_followed {k : BlockId} {label : Label} (follows : label ∈ r.followed k) :
    ∃ jump, r.EndsWith jump ∧ label ∈ jump.targets := by
  rw [followed] at follows
  split at follows
  next b found =>
    rw [List.mem_reverse, mirrors k b found] at follows
    cases last : b.jump with
    | none => simp [last] at follows
    | some jump => exact ⟨jump, ⟨k, b, found, last⟩, by simpa [last] using follows⟩
  next => cases follows

lemma Reaches.jump {label : Label} (reached : r.Reaches label) :
    ∃ jump, r.EndsWith jump ∧ label ∈ jump.targets := by
  cases reached with
  | start next | step _ _ next => exact jump_of_followed mirrors next

lemma blockOrder_run {exit : BlockId} (finished : r.Finished exit)
    (has_entry : entry < r.blocks.size)
    (targets : ∀ jump, r.EndsWith jump → ∀ label ∈ jump.targets,
      ∃ k, r.target label = .ok k ∧ k < r.blocks.size) :
    ∃ order, r.blockOrder = .ok order ∧ ∀ k ∈ order, k < r.blocks.size := by
  have placed : ∀ label, r.Reaches label → ∃ k, r.target label = .ok k ∧ k < r.blocks.size := by
    intro label reached
    obtain ⟨jump, ends, member⟩ := reached.jump mirrors
    exact targets jump ends label member
  obtain ⟨order, ordered⟩ := blockOrder_succeeds finished fun label reached =>
    (placed label reached).imp fun _ found => found.1
  obtain ⟨met, walk, rfl⟩ := blockOrder_preorder finished ordered
  refine ⟨_, ordered, fun k member => ?_⟩
  rcases List.mem_cons.mp member with rfl | member
  · exact has_entry
  · rcases List.mem_append.mp member with inner | last
    · obtain ⟨label, reached, target⟩ := walk.reached (fun _ next => .start next) inner
      obtain ⟨k', target', inside⟩ := placed label reached
      obtain rfl := Except.ok.inj (target.symm.trans target')
      exact inside
    · obtain rfl : k = exit := by simpa using last
      obtain ⟨b, found, -⟩ := finished.returns
      exact lt_size found

end

end Routine

lemma CodeUnit.resolveCallee_direct {u : CodeUnit} {callee : Callee} {routine : RoutineId}
    {closure : Operand} (direct : u.resolveCallee callee = .direct routine closure) :
    (∃ v, callee = .indirect (.var v) ∧ closure = .var v ∧ u.knownRoutine? v = some routine) ∨
      (∃ v, callee = .pinned v closure ∧ u.knownRoutine? v = some routine) ∨
        callee = .direct routine closure := by
  unfold resolveCallee at direct
  split at direct
  next v =>
    split at direct
    next known =>
      cases direct
      exact .inl ⟨v, rfl, rfl, known⟩
    next => cases direct
  next v copy =>
    split at direct
    next known =>
      cases direct
      exact .inr (.inl ⟨v, rfl, known⟩)
    next => cases direct
  next => exact .inr (.inr direct)

namespace Lowering

variable {s : Lowering} {i : RoutineId} {e : Emitter}

lemma Coherent.knownRoutine_lt (coherent : s.Coherent) {v : VariableId} {routine : RoutineId}
    (known : s.unit.knownRoutine? v = some routine) : routine < s.unit.routines.size := by
  obtain ⟨r, found, rest⟩ := Option.bind_eq_some_iff.mp known
  obtain ⟨x, var, holds⟩ := Option.bind_eq_some_iff.mp rest
  obtain ⟨k, b, bound, -, -, refers⟩ := coherent.published _ r v.index x routine found var holds
  exact (coherent.bindings k b bound).refers routine refers

lemma Coherent.resolve_lt (coherent : s.Coherent) {callee : Callee} {routine : RoutineId}
    {closure : Operand} (direct : s.unit.resolveCallee callee = .direct routine closure)
    (refers : ∀ routine closure, callee = .direct routine closure →
      routine < s.unit.routines.size) : routine < s.unit.routines.size := by
  rcases CodeUnit.resolveCallee_direct direct with ⟨v, -, -, known⟩ | ⟨v, -, known⟩ | same
  · exact coherent.knownRoutine_lt known
  · exact coherent.knownRoutine_lt known
  · exact refers routine closure same

lemma completed_size (u : CodeUnit) : u.completed.routines.size = u.routines.size := by
  rw [CodeUnit.completed, CodeUnit.internConstants, CodeUnit.foldl_withString_routines,
    CodeUnit.finalized, Array.size_map]

section

variable (written : s.WrittenBy i e) (whole : s.Whole)
include written whole

lemma WrittenBy.refers {j : Instruction} (has : e.routine.Has j) : e.Refers j := by
  obtain ⟨r, layout, found, same, laid, chained⟩ := written.source
  have complete := whole.complete i r layout found laid
  have size : e.unit.routines.size = s.unit.routines.size := by rw [written.unit, completed_size]
  have tries : e.routine.tryCount = r.tryCount := by
    rw [same]
    rfl
  rw [same] at has
  obtain ⟨j0, has0, rfl⟩ := Routine.has_completed has
  have refers := ((whole.fits i r found).instructions j0 has0).refers
  cases j0 with
  | closure dest routine =>
    obtain ⟨inner, inner_found, -⟩ := refers
    show routine < e.unit.routines.size
    rw [size]
    exact lt_size inner_found
  | splice bindings count parts => exact refers.2
  | endTry index =>
    obtain ⟨r', found', inside⟩ := refers
    cases found.symm.trans found'
    show index < e.routine.tryCount
    rwa [tries]
  | call dest callee argc =>
    obtain ⟨⟨r', found', room⟩, direct⟩ := refers
    cases found.symm.trans found'
    refine ⟨?_, fun routine closure resolved => ?_⟩
    · rw [chained]
      exact Nat.le_trans (Nat.add_le_add_left room _) complete.room
    · rw [size]
      exact whole.toCoherent.resolve_lt resolved direct
  | _ => trivial

lemma WrittenBy.instructionText {j : Instruction} (has : e.routine.Has j) :
    e.Gives (e.instructionText j) e.Statement := by
  obtain ⟨r, layout, source, same, -, -⟩ := written.source
  obtain ⟨j0, has0, resolved⟩ := Routine.has_completed (same ▸ has)
  have fits := (whole.fits i r source).instructions j0 has0
  refine Emitter.instructionText_gives has (written.refers whole has) (fun a mem => ?_)
    fun a mem => ?_
  · refine written.value_gives whole (.inl ⟨_, has, mem⟩) (fits.operands a ?_)
    rwa [resolved, Instruction.mapCallee_operands] at mem
  · rw [resolved, Instruction.mapCallee_dests] at mem
    exact written.place_gives whole (fits.operands a (Instruction.dests_subset _ mem))
      (fits.places a mem)

lemma WrittenBy.blockLines
    (targets : ∀ jump, e.routine.EndsWith jump → ∀ label ∈ jump.targets,
      ∃ k, e.routine.target label = .ok k ∧ k < e.routine.blocks.size)
    {k : BlockId} {b : Block} (found : e.routine.blocks[k]? = some b) (closed : b.isClosed = true)
    (next : Option BlockId) :
    e.Gives (e.blockLines k next) fun p => ∀ line ∈ p.lines, e.Proper line := by
  obtain ⟨jump, last⟩ := Option.isSome_iff_exists.mp closed
  have ends : e.routine.EndsWith jump := ⟨k, b, found, last⟩
  have texts : ∀ j ∈ b.body.toList, e.Gives (e.instructionText j) e.Statement := by
    intro j mem
    obtain ⟨place, inside, rfl⟩ := List.mem_iff_getElem.mp mem
    exact written.instructionText whole
      ⟨k, place, b, found, by simp [← Array.getElem?_toList, List.getElem?_eq_getElem inside]⟩
  obtain ⟨r, layout, source, same, -, -⟩ := written.source
  have fits := (whole.fits i r source).jumps jump (Routine.endsWith_completed (same ▸ ends))
  have jumps := Emitter.jumpLines_gives next
    (fun a mem => written.value_gives whole (.inr ⟨jump, ends, mem⟩) (fits.operands a mem))
    (fun label mem => (targets jump ends label mem).imp fun _ target => target.1)
    fits.compares fun index onCatch onBody begins => by
      obtain ⟨r', found', inside⟩ := fits.region index onCatch onBody begins
      cases source.symm.trans found'
      rw [same]
      exact inside
  simp only [Emitter.blockLines, found, last]
  exact (Emitter.instructionLines_gives texts).bind fun _ proper => jumps.bind fun _ own =>
    .ok (List.forall_mem_append.mpr ⟨proper, own⟩)

/-- The function of every routine is written, and each of its lines is proper. -/
lemma WrittenBy.emit : e.Gives (e.routine.emit e.unit) e.Writes := by
  obtain ⟨r, layout, found, same, laid, -⟩ := written.source
  have complete := whole.complete i r layout found laid
  obtain ⟨exit, finished⟩ := complete.exit
  have size : e.routine.blocks.size = r.blocks.size := by
    rw [same]
    exact Array.size_map
  have targets : ∀ jump, e.routine.EndsWith jump → ∀ label ∈ jump.targets,
      ∃ k, e.routine.target label = .ok k ∧ k < e.routine.blocks.size := by
    intro jump ends label mem
    obtain ⟨k, placed, inside⟩ :=
      complete.targets jump (Routine.endsWith_completed (same ▸ ends)) label mem
    refine ⟨k, Routine.target_of_label ?_, by rwa [size]⟩
    rw [same]
    exact placed
  have source {k : BlockId} {b : Block} (here : e.routine.blocks[k]? = some b) :
      b.Mirrors ∧ b.isClosed = true := by
    rw [same] at here
    obtain ⟨b0, found0, rfl⟩ := Routine.block_completed here
    exact ⟨complete.mirrors k b0 found0, complete.blocks k b0 found0⟩
  obtain ⟨b, at_entry, -⟩ := complete.entry_jump
  have ends : e.routine.Finished exit := by
    rw [same]
    exact Routine.finished_completed finished
  obtain ⟨order, ordered, inside⟩ := Routine.blockOrder_run (fun _ _ here => (source here).1) ends
    (by rw [size]; exact (lt_size at_entry)) targets
  have lines := Emitter.orderedLines_gives fun k mem next => by
    obtain ⟨b, here⟩ : ∃ b, e.routine.blocks[k]? = some b :=
      ⟨_, Array.getElem?_eq_getElem (inside k mem)⟩
    exact written.blockLines whole targets here (source here).2 next
  have body : e.Gives (e.routine.bodyLines e.unit e.layout) fun lines =>
      ∀ line ∈ lines, e.Proper line := by
    rw [Routine.bodyLines, ordered]
    exact lines.bind fun out proper => .ok (Emitter.withLabels_proper proper out.2)
  obtain ⟨text, emitted, spells⟩ := Routine.emit_eq written.laid
  rw [emitted]
  exact body.map fun lines proper => ⟨lines, spells lines, proper⟩

end

end Lowering
end Scriptc
