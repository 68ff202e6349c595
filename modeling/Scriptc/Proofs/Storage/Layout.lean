import Scriptc.Proofs.Code.Chart
import Scriptc.Storage.Layout

/-!
# Where the variables of a laid out routine live

A variable that is accessed has one place: in the environment if a nested routine uses it, and in a
local otherwise. No two variables share a place. The copies of parameters stand in the prologue,
ahead of all other code.
-/

namespace Scriptc

open Variable Array

namespace Storage

def environment? : Storage → Option Nat
  | environment index => some index
  | _ => none

end Storage

namespace FreePlaces

def after (free : FreePlaces) (vars : List Variable) : FreePlaces :=
  { plainLocal := free.plainLocal + vars.countP isPlainLocal
    paramLocal := free.paramLocal + vars.countP isParamLocal
    environment := free.environment + vars.countP inEnvironment }

variable (free : FreePlaces)

lemma after_after (first second : List Variable) :
    (free.after first).after second = free.after (first ++ second) := by
  simp [after, List.countP_append, Nat.add_assoc]

lemma take_eq (v : Variable) : free.take v = (if v.accessed then
      some (if v.escapes then .environment free.environment
        else .cell (if v.param.isSome then free.paramLocal else free.plainLocal))
      else v.param.map .param, free.after [v]) := by
  cases accessed : v.accessed <;> cases escapes : v.escapes <;> cases param : v.param <;>
    simp [take, after, inEnvironment, isPlainLocal, isParamLocal, accessed,
      escapes, param]

lemma getElem?_assign (vars : List Variable) (index : Nat) :
    (free.assign vars)[index]? = vars[index]?.map fun v =>
      { v with storage := ((free.after (vars.take index)).take v).1 } := by
  induction vars generalizing free index with
  | nil => rfl
  | cons v rest ih =>
    cases index with
    | zero => simp [assign, after]
    | succ index => simp [assign, ih, take_eq, after_after]

lemma environment_assign (vars : List Variable) :
    (free.assign vars).filterMap (fun v => v.storage.bind Storage.environment?) =
      List.range' free.environment (vars.countP inEnvironment) := by
  induction vars generalizing free with
  | nil => rfl
  | cons v rest ih =>
    simp only [assign, List.filterMap_cons, ih, take_eq, List.countP_cons]
    cases accessed : v.accessed <;> cases escapes : v.escapes <;> cases param : v.param <;>
      simp [after, inEnvironment, Storage.environment?, accessed, escapes, List.range'_succ]

end FreePlaces

lemma countP_take_lt {kind : Variable → Bool} {vars : List Variable} {i j : Nat} {v : Variable}
    (found : vars[i]? = some v) (is : kind v = true) (earlier : i < j) :
    (vars.take i).countP kind < (vars.take j).countP kind := by
  have next : (vars.take (i + 1)).countP kind = (vars.take i).countP kind + 1 := by
    simp [List.take_add_one, found, List.countP_append, is]
  have later : (vars.take (i + 1)).Sublist (vars.take j) := List.take_sublist_take_left earlier
  exact Nat.lt_of_lt_of_le (next ▸ Nat.lt_succ_self _) later.countP_le

namespace Routine

def paramCopy? (id : RoutineId) : Variable × Nat → Option Instruction
  | (v, index) =>
    if v.accessed then v.param.map fun param => .assign (.var { routine := id, index })
      (.param param)
    else none

lemma paramCopies_eq (id : RoutineId) (index : Nat) (vars : List Variable) :
    paramCopies id index vars = (vars.zipIdx index).filterMap (paramCopy? id) := by
  induction vars generalizing index with
  | nil => rfl
  | cons v rest ih =>
    rw [paramCopies, ih, List.zipIdx_cons]
    cases param : v.param <;> cases accessed : v.accessed <;> simp [paramCopy?, param, accessed]

lemma mem_paramCopies {id : RoutineId} {vars : List Variable} {i : Instruction}
    (mem : i ∈ paramCopies id 0 vars) :
    ∃ k x param, vars[k]? = some x ∧ x.param = some param ∧ x.accessed = true ∧
      i = .assign (.var { routine := id, index := k }) (.param param) := by
  rw [paramCopies_eq] at mem
  obtain ⟨⟨x, k⟩, found, same⟩ := List.mem_filterMap.mp mem
  simp only [paramCopy?, Option.ite_none_right_eq_some, Option.map_eq_some_iff] at same
  obtain ⟨accessed, param, bound, rfl⟩ := same
  exact ⟨k, x, param, List.mem_zipIdx_iff_getElem?.mp found, bound, accessed, rfl⟩

def freePlaces (r : Routine) : FreePlaces :=
  { plainLocal := r.localCount + r.argSlotCount
    paramLocal := r.localCount + r.argSlotCount + r.vars.toList.countP isPlainLocal
    environment := 0 }

def placeOf (r : Routine) (index : Nat) (v : Variable) : Option Storage :=
  ((r.freePlaces.after (r.vars.toList.take index)).take v).1

lemma layOut_var (r : Routine) (index : Nat) :
    r.layOut.vars[index]? = r.vars[index]?.map fun v =>
      { v with storage := r.placeOf index v } := by
  rw [← getElem?_toList, ← getElem?_toList]
  exact r.freePlaces.getElem?_assign _ _

/-- A routine with a place for each variable, by the layout that it records. -/
structure LaidOut (r r' : Routine) (sizes : Layout) : Prop where
  layout : r'.layout = some sizes
  others : r =
    { r' with vars := r.vars, isTemp := r.isTemp, blocks := r.blocks, layout := r.layout }
  vars : ∀ index : Nat, (r'.vars[index]?.map fun v => { v with storage := none }) =
    r.vars[index]?.map fun v => { v with storage := none }
  /-- A variable has the place that its use asks for. -/
  kinds : ∀ v ∈ r'.vars, ((∃ k, v.storage = some (.environment k)) ↔ v.accessed ∧ v.escapes) ∧
    ((∃ k, v.storage = some (.cell k)) ↔ v.accessed ∧ !v.escapes) ∧
    (∀ param, v.storage = some (.param param) ↔ !v.accessed ∧ v.param = some param) ∧
    (v.storage = none ↔ !v.accessed ∧ v.param = none)
  locals : sizes.argSlotBase = r.localCount ∧ r'.localCount = sizes.localCount
  /-- The locals of variables are new and behind the argument slots, with those of parameters
last. -/
  cells : ∀ (i : Nat) v k, r'.vars[i]? = some v → v.storage = some (.cell k) →
    r.localCount + r.argSlotCount ≤ k ∧ k < sizes.localCount ∧
      ∀ (j : Nat) w l, r'.vars[j]? = some w → w.storage = some (.cell l) → (k = l → i = j) ∧
        (k < l ↔ v.param.isSome < w.param.isSome ∨ v.param.isSome = w.param.isSome ∧ i < j)
  environment : r'.vars.toList.filterMap (fun v => v.storage.bind Storage.environment?) =
    List.range sizes.envSize
  /-- Only the entry changes: it gains the copies of parameters. -/
  blocks : ∀ k : Nat, r'.blocks[k]? = r.blocks[k]?.map fun b =>
    if k = entry then
      { b with body := b.body ++ (r.vars.toList.zipIdx.filterMap (paramCopy? r.id)).toArray }
    else b

lemma layOut_kinds (r : Routine) {v : Variable} (mem : v ∈ r.layOut.vars) :
    ((∃ k, v.storage = some (.environment k)) ↔ v.accessed ∧ v.escapes) ∧
    ((∃ k, v.storage = some (.cell k)) ↔ v.accessed ∧ !v.escapes) ∧
    (∀ param, v.storage = some (.param param) ↔ !v.accessed ∧ v.param = some param) ∧
    (v.storage = none ↔ !v.accessed ∧ v.param = none) := by
  obtain ⟨index, found⟩ := mem_iff_getElem?.mp mem
  rw [layOut_var] at found
  obtain ⟨x, -, rfl⟩ := Option.map_eq_some_iff.mp found
  simp only [placeOf, FreePlaces.take_eq]
  cases x.accessed <;> cases x.escapes <;> cases x.param <;> simp

section

variable (r : Routine) {i k : Nat} {v : Variable} (found : r.layOut.vars[i]? = some v)
  (stored : v.storage = some (.cell k))
include r found stored

lemma layOut_cell : ∃ x : Variable, r.vars.toList[i]? = some x ∧
      if v.param.isSome then x.isParamLocal = true ∧ k = r.freePlaces.paramLocal +
        (r.vars.toList.take i).countP isParamLocal
      else x.isPlainLocal = true ∧ k = r.freePlaces.plainLocal +
        (r.vars.toList.take i).countP isPlainLocal := by
  rw [layOut_var] at found
  obtain ⟨x, var, rfl⟩ := Option.map_eq_some_iff.mp found
  refine ⟨x, by simpa using var, ?_⟩
  simp only [placeOf, FreePlaces.take_eq, FreePlaces.after] at stored
  cases accessed : x.accessed <;> cases escapes : x.escapes <;> cases param : x.param <;>
    simp_all [isParamLocal, isPlainLocal]

lemma layOut_cells : r.localCount + r.argSlotCount ≤ k ∧ k < r.freePlaces.paramLocal +
        r.vars.toList.countP isParamLocal ∧
      ∀ (j : Nat) w l, r.layOut.vars[j]? = some w → w.storage = some (.cell l) → (k = l → i = j) ∧
        (k < l ↔ v.param.isSome < w.param.isSome ∨ v.param.isSome = w.param.isSome ∧ i < j) := by
  have below {kind : Variable → Bool} {i : Nat} {x : Variable} (at_i : r.vars.toList[i]? = some x)
      (is : kind x = true) : (r.vars.toList.take i).countP kind < r.vars.toList.countP kind := by
    have less := countP_take_lt at_i is (List.getElem?_eq_some_iff.mp at_i).1
    rwa [List.take_length] at less
  have base : r.freePlaces.paramLocal =
      r.freePlaces.plainLocal + r.vars.toList.countP isPlainLocal := rfl
  have slots : r.freePlaces.plainLocal = r.localCount + r.argSlotCount := rfl
  obtain ⟨x, at_i, first⟩ := r.layOut_cell found stored
  refine ⟨?_, ?_, fun j w l found' stored' => ?_⟩
  · split at first <;> omega
  · split at first
    · have := below at_i first.1
      omega
    · have := below at_i first.1
      omega
  · obtain ⟨y, at_j, second⟩ := r.layOut_cell found' stored'
    cases isParam : v.param.isSome <;> cases isParam' : w.param.isSome <;>
      simp only [isParam, isParam', if_true, Bool.false_eq_true, if_false] at first second
    case false.true =>
      have := below at_i first.1
      exact ⟨fun same => by omega, iff_of_true (by omega) (.inl (by decide))⟩
    case true.false =>
      have := below at_j second.1
      exact ⟨fun same => by omega, iff_of_false (by omega) (not_or.mpr ⟨by decide, by simp⟩)⟩
    all_goals
      rcases Nat.lt_trichotomy i j with less | rfl | more
      · have := countP_take_lt at_i first.1 less
        exact ⟨fun same => by omega, iff_of_true (by omega) (.inr ⟨rfl, less⟩)⟩
      · exact ⟨fun _ => rfl, iff_of_false (by omega) (by simp)⟩
      · have := countP_take_lt at_j second.1 more
        exact ⟨fun same => by omega, iff_of_false (by omega) (by simp; omega)⟩

end

lemma placeOf_accessed (r : Routine) {i : Nat} {x : Variable} (found : r.vars[i]? = some x)
    (accessed : x.accessed = true) : ∃ place, r.placeOf i x = some place ∧
      ((∃ k, place = .environment k ∧ k < r.vars.toList.countP inEnvironment) ∨
        x.escapes = false ∧ ∃ k, place = .cell k ∧
          k < r.freePlaces.paramLocal + r.vars.toList.countP isParamLocal) := by
  cases escapes : x.escapes with
  | true =>
    have less := countP_take_lt (getElem?_toList.trans found)
      (show x.inEnvironment = true by simp [inEnvironment, accessed, escapes])
      (lt_size found)
    rw [← length_toList, List.take_length] at less
    refine ⟨_, by simp [placeOf, FreePlaces.take_eq, accessed, escapes]; rfl, .inl ⟨_, rfl, ?_⟩⟩
    simpa [FreePlaces.after, freePlaces] using less
  | false =>
    have placed : ∃ k, r.placeOf i x = some (.cell k) :=
      ⟨_, by simp [placeOf, FreePlaces.take_eq, accessed, escapes]; rfl⟩
    obtain ⟨k, placed⟩ := placed
    have here : r.layOut.vars[i]? = some { x with storage := some (.cell k) } := by
      rw [layOut_var, found, ← placed]
      rfl
    exact ⟨_, placed, .inr ⟨rfl, k, rfl, (r.layOut_cells here rfl).2.1⟩⟩

/-- Laying out a routine gives a place to every variable that needs one. -/
theorem layOut_laidOut (u : CodeUnit) (id : RoutineId) (r : Routine)
    (found : u.routines[id]? = some r) : ∃ r' sizes, (CodeUnit.layOut id).run u =
        .ok ⟨⟩ { u with routines := u.routines.setIfInBounds id r' } ∧ LaidOut r r' sizes := by
  refine ⟨r.layOut, _, ?_, rfl, rfl, fun index => by rw [layOut_var]; simp [Function.comp_def],
    fun v => r.layOut_kinds,
    ⟨rfl, ?_⟩, ?_, ?_, ?_⟩
  · simp only [CodeUnit.layOut, CodeUnit.inRoutine, EStateM.run, found]
    rfl
  · simp only [localCount, layOut, size_append, size_replicate]
    omega
  · exact fun i v k found stored => r.layOut_cells found stored
  · rw [List.range_eq_range']
    exact r.freePlaces.environment_assign _
  · intro k
    simp only [layOut, ← paramCopies_eq, getElem?_modify, eq_comm]
    split
    · simp
    · simp

/-- A routine with a parameter that a nested routine uses, one that is not accessed, and a variable
between them. -/
def threeVariables : Routine :=
  let v (name : String) (param : Option ParamId) (accessed escapes : Bool) : Variable :=
    { name, level := 0, param, accessed, escapes, routineRef := none, storage := none }
  { Routine.new 0 none 0 none false with
    vars := #[v "a" (some 1) true true, v "b" none true false, v "c" (some 2) false false] }

theorem threeVariables_laidOut : ∃ r' sizes,
    (CodeUnit.layOut 0).run { CodeUnit.empty with routines := #[threeVariables] } =
        .ok ⟨⟩ { CodeUnit.empty with routines := #[r'] } ∧ LaidOut threeVariables r' sizes :=
  layOut_laidOut { CodeUnit.empty with routines := #[threeVariables] } 0 threeVariables rfl

def withPrologues (r : Routine) (instructions : List Instruction) : Routine :=
  instructions.foldl withPrologue r

section

variable {instructions : List Instruction}

variable {r : Routine}

lemma edits_withPrologues (sound : r.Sound) (prologue : ∀ i ∈ instructions, i.isPrologue = true) :
    r.Edits (r.withPrologues instructions) (· ∈ instructions) fun _ => False := by
  induction instructions generalizing r with
  | nil => exact Edits.refl sound _ _
  | cons i rest ih =>
    have first := edits_withPrologue sound (prologue i (by simp))
    have second := ih first.sound fun j mem => prologue j (by simp [mem])
    exact (first.mono (by simp +contextual) fun _ absent => absent).trans
      (second.mono (by simp +contextual) fun _ absent => absent)

lemma withPrologues_eq (r : Routine) (instructions : List Instruction) :
    r.withPrologues instructions = { r with blocks := r.blocks.modify entry fun b =>
          { b with body := b.body ++ instructions.toArray } } := by
  have blocks : (r.withPrologues instructions).blocks =
      r.blocks.modify entry fun b => { b with body := b.body ++ instructions.toArray } := by
    apply ext_getElem?
    intro k
    induction instructions generalizing r with
    | nil =>
      rw [getElem?_modify]
      split <;> simp [withPrologues]
    | cons i rest ih =>
      rw [withPrologues, List.foldl_cons, ← withPrologues, ih, getElem?_modify,
        withPrologue_blocks, getElem?_modify]
      by_cases here : entry = k
      · cases r.blocks[k]? <;> simp [here]
      · simp [here, Ne.symm here]
  have others : r.withPrologues instructions =
      { r with blocks := (r.withPrologues instructions).blocks } := by
    clear blocks
    induction instructions generalizing r with
    | nil => rfl
    | cons i rest ih =>
      rw [withPrologues, List.foldl_cons, ← withPrologues, ih]
      rfl
  rw [others, blocks]

lemma Charted.withPrologues {aim : Label → Flow} {start : BlockId → Flow} {now : Flow}
    (charted : r.Charted aim start now) (sound : r.Sound)
    (prologue : ∀ i ∈ instructions, i.isPrologue = true) :
    (r.withPrologues instructions).Charted aim start now := by
  induction instructions generalizing r with
  | nil => exact charted
  | cons i rest ih =>
    have first := charted.withPrologue sound (prologue i (by simp))
    exact ih first (edits_withPrologue sound (prologue i (by simp))).sound
      fun j mem => prologue j (by simp [mem])

end

end Routine

end Scriptc
