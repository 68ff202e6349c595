import Scriptc.Compilation
import Scriptc.Proofs.Emission.Strings
import Scriptc.Proofs.Emission.Text
import Scriptc.Proofs.Lowering.Program

/-!
# Places in the text

In the unit of a lowered program each operand has its text, and what the text names is there: a
local, a place of an environment, or a string of the table.
-/

namespace Scriptc

open Array

/-! ## Completing a unit -/

namespace Instruction

lemma mapCallee_operands (u : CodeUnit) (i : Instruction) :
    (i.mapCallee u.resolveCallee).operands = i.operands := by
  cases i with
  | call dest callee argc =>
    have same : (u.resolveCallee callee).operand = callee.operand := by
      unfold CodeUnit.resolveCallee
      split
      · split <;> rfl
      · split <;> rfl
      · rfl
    simp only [mapCallee, operands, same]
  | _ => rfl

lemma mapCallee_touched (change : Callee → Callee) (i : Instruction) :
    (i.mapCallee change).touched = i.touched := by
  cases i <;> rfl

lemma mapCallee_dests (change : Callee → Callee) (i : Instruction) :
    (i.mapCallee change).dests = i.dests := by
  cases i <;> rfl

end Instruction

namespace CodeUnit

variable {u : CodeUnit}

/-- A routine with its environment chain and direct calls. -/
abbrev resolved (u : CodeUnit) (r : Routine) : Routine :=
  (u.withChain r).mapCallees u.resolveCallee

def finalized (u : CodeUnit) : CodeUnit :=
  { u with routines := u.routines.map fun r => (u.withChain r).mapCallees u.resolveCallee }

/-- A unit with environment chains, direct calls and numbered strings. -/
def completed (u : CodeUnit) : CodeUnit := u.finalized.internConstants

lemma finalize_run
    (laid : ∀ (i : RoutineId) (r : Routine), u.routines[i]? = some r → r.layout.isSome = true) :
    u.finalize = .ok u.finalized := by
  have none_missing : u.routines.find? (·.layout.isNone) = none := by
    rw [find?_eq_none]
    intro r mem
    obtain ⟨i, inside, rfl⟩ := mem_iff_getElem.mp mem
    simpa using Option.isSome_iff_ne_none.mp (laid i _ (getElem?_eq_getElem inside))
  rw [finalize, none_missing]
  rfl

lemma completed_routines (u : CodeUnit) (i : RoutineId) : u.completed.routines[i]? =
      u.routines[i]?.map fun r => u.resolved r := by
  rw [completed, internConstants, foldl_withString_routines, finalized, getElem?_map]

lemma stringId_of_used {s : String} (used : s ∈ u.finalized.usedStrings) :
    ∃ id, u.completed.stringId? s = some id ∧ id < u.completed.strings.size := by
  have mem : s ∈ u.completed.strings := mem_foldl_withString.mpr (.inr used)
  obtain ⟨id, known⟩ := Option.isSome_iff_exists.mp (isSome_idxOf?.mpr mem)
  have place := List.idxOf?_eq_some_iff.mp ((stringId_toList ..).symm.trans known)
  exact ⟨id, known, by simpa using place.1⟩

lemma mem_chainFrom
    (parents : ∀ (i : RoutineId) (r : Routine) (outer : RoutineId), u.routines[i]? = some r →
      r.parent = some outer → outer < i)
    {owner inner : RoutineId} (within : u.Within owner inner) {r : Routine} {layout : Layout}
    (found : u.routines[owner]? = some r) (laid : r.layout = some layout)
    (some_vars : 0 < layout.envSize) {steps : Nat} (enough : inner < steps) :
    owner ∈ u.chainFrom steps (some inner) := by
  induction within generalizing steps with
  | refl =>
    obtain ⟨steps, rfl⟩ := Nat.exists_eq_succ_of_ne_zero (Nat.ne_of_gt (Nat.zero_lt_of_lt enough))
    simp [chainFrom, found, laid, some_vars]
  | @outwards inner outer r' found' parent _ ih =>
    obtain ⟨steps, rfl⟩ := Nat.exists_eq_succ_of_ne_zero (Nat.ne_of_gt (Nat.zero_lt_of_lt enough))
    have mem := ih (Nat.lt_of_lt_of_le (parents _ _ _ found' parent) (Nat.le_of_lt_succ enough))
    simp only [chainFrom, found', parent]
    split
    · split
      · exact List.mem_cons_of_mem _ mem
      · exact mem
    · exact mem

lemma completed_eq_some {i : RoutineId} {R : Routine} :
    u.completed.routines[i]? = some R ↔ ∃ r, u.routines[i]? = some r ∧
      u.resolved r = R := by
  rw [completed_routines, Option.map_eq_some_iff]

end CodeUnit

namespace Routine

variable {k : BlockId} {i : Instruction}

variable {r : Routine} {u : CodeUnit}

lemma block_completed {b : Block}
    (found : (u.resolved r).blocks[k]? = some b) :
    ∃ b0, r.blocks[k]? = some b0 ∧
      { b0 with body := b0.body.map (Instruction.mapCallee u.resolveCallee) } = b := by
  simpa [CodeUnit.resolved, mapCallees, CodeUnit.withChain] using found

lemma at_completed {j : Nat} (here : (u.resolved r).At k j i) :
    ∃ i0, r.At k j i0 ∧ i = i0.mapCallee u.resolveCallee := by
  obtain ⟨b, found, here⟩ := here
  obtain ⟨b0, found0, rfl⟩ := block_completed found
  obtain ⟨i0, here0, rfl⟩ : ∃ i0, b0.body[j]? = some i0 ∧ i0.mapCallee u.resolveCallee = i := by
    simpa using here
  exact ⟨i0, ⟨b0, found0, here0⟩, rfl⟩

lemma At.completed {j : Nat} (here : r.At k j i) (u : CodeUnit) :
    (u.resolved r).At k j (i.mapCallee u.resolveCallee) := by
  obtain ⟨b, found, here⟩ := here
  exact ⟨{ b with body := b.body.map (Instruction.mapCallee u.resolveCallee) },
    by simp [CodeUnit.resolved, mapCallees, CodeUnit.withChain, found], by simp [here]⟩

lemma has_completed (has : (u.resolved r).Has i) :
    ∃ i0, r.Has i0 ∧ i = i0.mapCallee u.resolveCallee := by
  obtain ⟨k, j, here⟩ := has
  obtain ⟨i0, here0, same⟩ := at_completed here
  exact ⟨i0, ⟨k, j, here0⟩, same⟩

lemma endsWith_completed {jump : Jump}
    (ends : (u.resolved r).EndsWith jump) : r.EndsWith jump := by
  obtain ⟨k, b, found, last⟩ := ends
  obtain ⟨b0, found0, rfl⟩ := block_completed found
  exact ⟨k, b0, found0, last⟩

def Mentions (r : Routine) (a : Operand) : Prop :=
  (∃ i, r.Has i ∧ a ∈ i.operands) ∨ ∃ jump, r.EndsWith jump ∧ a ∈ jump.operands

lemma Mentions.constant_mem {c : Constant} (stands : r.Mentions (.constant c)) :
    c ∈ r.constants := by
  rcases stands with ⟨i, ⟨k, j, b, found, here⟩, mem⟩ | ⟨jump, ⟨k, b, found, last⟩, mem⟩
  · refine List.mem_flatMap.mpr ⟨b, mem_toList_iff.mpr (mem_of_getElem? found), ?_⟩
    refine List.mem_filterMap.mpr ⟨_, List.mem_append_left _ (List.mem_flatMap.mpr ⟨i, ?_, mem⟩),
      rfl⟩
    exact mem_toList_iff.mpr (mem_of_getElem? here)
  · refine List.mem_flatMap.mpr ⟨b, mem_toList_iff.mpr (mem_of_getElem? found), ?_⟩
    refine List.mem_filterMap.mpr ⟨.constant c, List.mem_append_right _ ?_, rfl⟩
    rw [last]
    exact mem

lemma finished_completed {exit : BlockId} (finished : r.Finished exit) :
    (u.resolved r).Finished exit := by
  obtain ⟨b, found, returns⟩ := finished.returns
  refine ⟨finished.placed, finished.not_entry, ?_⟩
  exact ⟨{ b with body := b.body.map (Instruction.mapCallee u.resolveCallee) },
    by simp [CodeUnit.resolved, mapCallees, CodeUnit.withChain, found], returns⟩

end Routine

namespace Lowering

variable {s : Lowering} {i : RoutineId} {e : Emitter}

/-- Whether an emitter writes the routine with a number in the completed unit of a lowered
program. -/
structure WrittenBy (s : Lowering) (i : RoutineId) (e : Emitter) : Prop where
  unit : e.unit = s.unit.completed
  found : s.unit.completed.routines[i]? = some e.routine
  laid : e.routine.layout = some e.layout

lemma WrittenBy.source (written : s.WrittenBy i e) : ∃ r layout, s.unit.routines[i]? = some r ∧
    e.routine = s.unit.resolved r ∧ r.layout = some layout ∧
      e.layout = { layout with envChain := s.unit.chainFrom s.unit.routines.size (some r.id) } := by
  obtain ⟨r, found, same⟩ := CodeUnit.completed_eq_some.mp written.found
  have laid := written.laid
  rw [← same] at laid
  obtain ⟨layout, place, chained⟩ := Option.map_eq_some_iff.mp laid
  exact ⟨r, layout, found, same.symm, place, chained.symm⟩

lemma Whole.completes (whole : s.Whole) : s.complete = .ok s.unit.completed := by
  rw [complete, CodeUnit.finalize_run whole.laid]
  rfl

lemma Whole.written (whole : s.Whole) {R : Routine}
    (found : s.unit.completed.routines[i]? = some R) : ∃ layout, R.layout = some layout ∧
      s.WrittenBy i { unit := s.unit.completed, routine := R, layout } := by
  obtain ⟨r, found0, rfl⟩ := CodeUnit.completed_eq_some.mp found
  obtain ⟨layout, laid⟩ := Option.isSome_iff_exists.mp (whole.laid i r found0)
  have laid' : (s.unit.resolved r).layout = some
      { layout with envChain := s.unit.chainFrom s.unit.routines.size (some r.id) } := by
    simp [CodeUnit.resolved, Routine.mapCallees, CodeUnit.withChain, laid]
  exact ⟨_, laid', rfl, found, laid'⟩

lemma getVariable_completed {u : CodeUnit} {v : VariableId} {r : Routine} {x : Variable}
    (found : u.routines[v.routine]? = some r) (id : r.id = v.routine)
    (var : r.vars[v.index]? = some x) : u.completed.getVariable v = .ok x := by
  have routine : u.completed.routine v.routine =
      .ok (u.resolved r) := by
    rw [CodeUnit.routine, CodeUnit.completed_eq_some.mpr ⟨r, found, rfl⟩]
  have same_id : (u.resolved r).id = v.routine := id
  have same_vars : (u.resolved r).vars = r.vars := rfl
  simp [CodeUnit.getVariable, routine, bind, Except.bind, same_id, same_vars, var]

lemma Coherent.parent_lt (coherent : s.Coherent) (j : RoutineId) (r : Routine) (outer : RoutineId)
    (found : s.unit.routines[j]? = some r) (parent : r.parent = some outer) : outer < j := by
  have fits := coherent.parents j r found
  rwa [parent] at fits

section

variable (written : s.WrittenBy i e)
include written

lemma WrittenBy.hops (coherent : s.Coherent) {owner : RoutineId} (within : s.unit.Within owner i)
    (other : owner ≠ i) {r : Routine} {layout : Layout} (found : s.unit.routines[owner]? = some r)
    (laid : r.layout = some layout) (some_vars : 0 < layout.envSize) :
    ∃ links, e.unit.hops e.routine.id owner = .ok links := by
  obtain ⟨inner, innerLayout, inner_found, same, -, chained⟩ := written.source
  have id := coherent.ids i inner inner_found
  have own_id : e.routine.id = i := by
    rw [same]
    exact id
  have routine : e.unit.routine i = .ok e.routine := by
    rw [CodeUnit.routine, written.unit, written.found]
  have mem : owner ∈ e.layout.envChain := by
    rw [chained, id]
    exact CodeUnit.mem_chainFrom coherent.parent_lt within found laid some_vars
      (lt_size inner_found)
  rw [own_id, CodeUnit.hops, routine]
  simp only [bind, Except.bind, Routine.getLayout, written.laid]
  cases chain : e.layout.envChain with
  | nil => simp [chain] at mem
  | cons first rest =>
    rw [chain] at mem
    have later : owner ∈ if first = i then rest else first :: rest := by
      split
      next at_first =>
        exact (List.mem_cons.mp mem).resolve_left fun here => other (here.trans at_first)
      next => exact mem
    obtain ⟨links, known⟩ := Option.isSome_iff_exists.mp (List.isSome_idxOf?.mpr later)
    exact ⟨links, by simp only [known]⟩

lemma WrittenBy.variable_gives (whole : s.Whole) {v : VariableId} (usable : s.Usable i v) :
    e.Gives (e.variableText v) e.Place := by
  obtain ⟨within, owner, found, placed⟩ := usable
  obtain ⟨layout, laid⟩ := Option.isSome_iff_exists.mp (whole.laid _ _ found)
  rw [laid] at placed
  obtain ⟨x, place, var, stored, reached⟩ := placed
  obtain ⟨inner, innerLayout, inner_found, same, inner_laid, chained⟩ := written.source
  have own_id : e.routine.id = i := by
    rw [same]
    exact whole.ids i inner inner_found
  have known : e.unit.getVariable v = .ok x := by
    rw [written.unit]
    exact getVariable_completed found (whole.ids _ _ found) var
  rw [Emitter.variableText, known]
  simp only [bind, Except.bind, stored, own_id]
  -- A place in the layout of the owner is one in that of the emitter if the owner is its routine.
  have own_layout (own : v.routine = i) :
      e.layout.envSize = layout.envSize ∧ e.layout.localCount = layout.localCount := by
    cases found.symm.trans (own ▸ inner_found)
    cases laid.symm.trans inner_laid
    rw [chained]
    exact ⟨rfl, rfl⟩
  rcases reached with ⟨k, rfl, inside⟩ | ⟨own, k, rfl, inside⟩
  · by_cases own : v.routine = i
    · simp only [own, beq_self_eq_true]
      exact .ok (.own ((own_layout own).1 ▸ inside))
    · obtain ⟨links, hops⟩ := written.hops whole.toCoherent within own found laid
        (Nat.zero_lt_of_lt inside)
      have completed : e.unit.routines[v.routine]? =
          some (s.unit.resolved owner) := by
        rw [written.unit]
        exact CodeUnit.completed_eq_some.mpr ⟨owner, found, rfl⟩
      have chained_layout : (s.unit.resolved owner).layout =
          some
            { layout with envChain := s.unit.chainFrom s.unit.routines.size (some owner.id) } := by
        simp [CodeUnit.resolved, Routine.mapCallees, CodeUnit.withChain, laid]
      have apart := beq_false_of_ne own
      simp only [apart, own_id ▸ hops]
      exact .ok (.outer completed chained_layout inside hops)
  · simp only [own, beq_self_eq_true]
    exact .ok (.cell ((own_layout own.symm).2 ▸ inside))

lemma WrittenBy.string_gives {t : String} (stands : e.routine.Mentions (.constant (.text t))) :
    e.Gives (e.constant (.text t)) e.Value := by
  obtain ⟨r, found, same⟩ := CodeUnit.completed_eq_some.mp written.found
  have finalized : s.unit.finalized.routines[i]? = some e.routine := by
    rw [CodeUnit.finalized, getElem?_map, found, ← same]
    rfl
  obtain ⟨id, known, inside⟩ :=
    CodeUnit.stringId_of_used (CodeUnit.mem_usedStrings (mem_of_getElem? finalized)
      stands.constant_mem)
  rw [← written.unit] at known inside
  simp only [Emitter.constant, known]
  refine .ok (.string ?_)
  rwa [(StringTable.ofStrings_packs _).size, length_toList]

lemma WrittenBy.place_gives (whole : s.Whole) {a : Operand} (fits : s.FitsIn i a)
    (place : a.isPlace = true) : e.Gives (e.operand a) e.Place := by
  obtain ⟨r, layout, found, -, laid, chained⟩ := written.source
  have complete := whole.complete i r layout found laid
  cases a with
  | var v => exact written.variable_gives whole fits
  | cell id =>
    obtain ⟨r', found', inside⟩ := fits
    cases found.symm.trans found'
    refine .ok (.cell ?_)
    rw [chained]
    exact Nat.lt_of_lt_of_le inside complete.locals
  | slot id =>
    obtain ⟨r', found', inside⟩ := fits
    cases found.symm.trans found'
    have bounded : e.layout.argSlotBase + id < e.layout.localCount := by
      rw [chained]
      exact Nat.lt_of_lt_of_le (Nat.add_lt_add_left inside _) complete.room
    rcases Nat.lt_or_ge (e.layout.argSlotBase + id) Emitter.maxLocals with few | many
    · exact .inl ⟨_, if_pos few, .cell bounded⟩
    · exact .inr ⟨Nat.lt_of_le_of_lt many bounded, if_neg (Nat.not_lt.mpr many)⟩
  | param | constant => cases place

lemma WrittenBy.value_gives (whole : s.Whole) {a : Operand} (stands : e.routine.Mentions a)
    (fits : s.FitsIn i a) : e.Gives (e.operand a) e.Value := by
  have value (place : a.isPlace = true) : e.Gives (e.operand a) e.Value :=
    (written.place_gives whole fits place).mono fun _ => .place
  cases a with
  | var | cell | slot => exact value rfl
  | param id =>
    by_cases first : id = 0
    · subst first
      exact .ok .receiver
    · exact .inl ⟨_, congrArg Except.ok (if_neg first), .param first⟩
  | constant c =>
    cases c with
    | text t => exact written.string_gives stands
    | number x => exact .ok .number
    | boolean b => exact .ok (.word (by cases b <;> decide))
    | undefined | null => exact .ok (.word (by decide))

end

end Lowering
end Scriptc
