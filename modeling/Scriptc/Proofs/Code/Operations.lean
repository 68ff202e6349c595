import Scriptc.Proofs.Code.Building

/-!
# Operations on routines

The operations that are made of smaller ones end without a fault, and append certain instructions or
end the open block with a certain jump.
-/

namespace Scriptc

open Runs Array

/-! ## Temporaries -/

namespace Operand

lemma beq_cell {a : Operand} {id : LocalId} : (a == .cell id) = true ↔ a = .cell id := by
  cases a with
  | cell | var | param | slot | constant => simp [BEq.beq, instBEqOperand.beq]

lemma bne_cell {a : Operand} {id : LocalId} : (a != .cell id) = true ↔ a ≠ .cell id := by
  rw [bne, Bool.not_eq_true', ← Bool.not_eq_true, beq_cell]

end Operand

namespace Routine

variable {r : Routine} {id : LocalId}

def withTemps (r : Routine) (isTemp : Array Bool) (freeTemps : List LocalId) : Routine :=
  { r with isTemp, freeTemps }

lemma edits_withTemps (sound : r.Sound) {isTemp : Array Bool} {freeTemps : List LocalId}
    (nodup : freeTemps.Nodup) (free : ∀ id ∈ freeTemps, isTemp[id]? = some true)
    (kept : ∀ (id : LocalId) (temp : Bool), r.isTemp[id]? = some temp → isTemp[id]? = some temp) :
    r.Edits (r.withTemps isTemp freeTemps) (fun _ => False) fun _ => False where
  sound := { sound with
    free_nodup := nodup
    free_temp := free
    result_local := kept 0 false sound.result_local }
  grows := { Grows.refl r with temps := kept }
  same_vars := rfl
  stands _ _ _ here := .inl here
  prologue _ _ here := .inl here
  endsWith _ ends := .inl ends

lemma mem_free_of_not_inUse (temp : r.isTemp[id]? = some true) (unused : ¬r.InUse id) :
    id ∈ r.freeTemps := by
  by_contra absent
  exact unused ⟨temp, absent⟩

lemma allocTemp_runs (sound : r.Sound) :
    Runs allocTemp r fun a r' => ∃ id isTemp free, a = .cell id ∧ r' = r.withTemps isTemp free ∧
      r.Edits r' (fun _ => False) (fun _ => False) ∧ ¬r.InUse id ∧
        ∀ other, r'.InUse other ↔ r.InUse other ∨ other = id := by
  cases free : r.freeTemps with
  | nil =>
    have none_free (other : LocalId) : other ∉ r.freeTemps := by simp [free]
    refine ⟨.cell r.isTemp.size, r.withTemps (r.isTemp.push true) r.freeTemps, ?_, r.isTemp.size,
      r.isTemp.push true, r.freeTemps, rfl, rfl, ?_, ?_, ?_⟩
    · have run : allocTemp r = (newLocal true >>= fun id => pure (.cell id)) r := by
        rw [allocTemp, get_bind, free]
      rw [run]
      rfl
    · refine edits_withTemps sound sound.free_nodup (fun id mem => absurd mem (none_free id)) ?_
      intro id temp found
      have inside := (lt_size found)
      rw [getElem?_push_lt inside, ← found, getElem?_eq_getElem inside]
    · simp [InUse]
    · intro other
      simp only [InUse, withTemps, none_free, not_false_iff, and_true, getElem?_push]
      split
      next here => simp [here]
      next elsewhere => simp [elsewhere]
  | cons id rest =>
    have nodup := sound.free_nodup
    rw [free, List.nodup_cons] at nodup
    have temp := sound.free_temp id (by simp [free])
    refine ⟨.cell id, r.withTemps r.isTemp rest, ?_, id, r.isTemp, rest, rfl, rfl, ?_, ?_, ?_⟩
    · rw [allocTemp, get_bind, free]
      rfl
    · exact edits_withTemps sound nodup.2
        (fun other mem => sound.free_temp other (by simp [free, mem])) fun _ _ found => found
    · simp [InUse, free]
    · intro other
      simp only [InUse, withTemps, free, List.mem_cons, not_or]
      by_cases here : other = id
      · simp [here, temp, nodup.1]
      · simp [here]

lemma release_runs (sound : r.Sound) {a : Operand} (held : ∀ id, a = .cell id → r.InUse id) :
    Runs (release a) r fun _ r' => ∃ free, r' = r.withTemps r.isTemp free ∧
      r.Edits r' (fun _ => False) (fun _ => False) ∧
        ∀ other, r'.InUse other ↔ r.InUse other ∧ a ≠ .cell other := by
  have untouched (kind : ∀ id, a ≠ .cell id) (run : release a r = .ok ⟨⟩ r) :
      Runs (release a) r fun _ r' => ∃ free, r' = r.withTemps r.isTemp free ∧
        r.Edits r' (fun _ => False) (fun _ => False) ∧
          ∀ other, r'.InUse other ↔ r.InUse other ∧ a ≠ .cell other :=
    ⟨⟨⟩, r, run, r.freeTemps, rfl,
      edits_withTemps sound sound.free_nodup sound.free_temp fun _ _ found => found,
      fun other => by simp [kind other]⟩
  cases a with
  | cell id =>
    obtain ⟨temp, not_free⟩ := held id rfl
    refine ⟨⟨⟩, r.withTemps r.isTemp (id :: r.freeTemps), ?_, id :: r.freeTemps, rfl, ?_, ?_⟩
    · have asked : ask (·.holdsTemp (.cell id)) r = .ok true r := by simp [ask, holdsTemp, temp]
      rw [release, bind_run asked]
      simp only [if_true]
      rw [get_bind, if_neg (by simpa using not_free)]
      rfl
    · refine edits_withTemps sound (List.nodup_cons.mpr ⟨not_free, sound.free_nodup⟩) ?_
        fun _ _ found => found
      intro other mem
      rcases List.mem_cons.mp mem with rfl | old
      · exact temp
      · exact sound.free_temp other old
    · intro other
      simp only [InUse, withTemps, List.mem_cons, not_or, ne_eq, Operand.cell.injEq, eq_comm]
      tauto
  | var | param | slot | constant => exact untouched (by simp) rfl

lemma allocSpecific_runs (sound : r.Sound) (temp : r.isTemp[id]? = some true)
    (unused : ¬r.InUse id) :
    Runs (allocSpecific (.cell id)) r fun _ r' => ∃ free, r' = r.withTemps r.isTemp free ∧
      r.Edits r' (fun _ => False) (fun _ => False) ∧
        ∀ other, r'.InUse other ↔ r.InUse other ∨ other = id := by
  have free := mem_free_of_not_inUse temp unused
  refine ⟨⟨⟩, r.withTemps r.isTemp (r.freeTemps.erase id), ?_, r.freeTemps.erase id, rfl, ?_, ?_⟩
  · have taken : (!r.freeTemps.contains id) = false := by simpa using free
    rw [allocSpecific, get_bind]
    simp only [taken, Bool.false_eq_true, if_false]
    rfl
  · exact edits_withTemps sound (sound.free_nodup.erase id)
      (fun other mem => sound.free_temp other (List.mem_of_mem_erase mem))
      fun _ _ found => found
  · intro other
    simp only [InUse, withTemps, sound.free_nodup.mem_erase_iff, not_and_or, not_not]
    by_cases here : other = id
    · simp [here, temp]
    · simp [here]

end Routine

/-! ## Operations -/

namespace Constant

lemma foldBinary_succeeds {op : Opcode} (binary : op.isBinary = true) (a b : Constant) :
    ∃ value, foldBinary op a b = .ok value := by
  cases op <;> first | exact ⟨_, rfl⟩ | exact absurd binary (by decide)

lemma foldUnary_succeeds {op : Opcode} (unary : op.isUnary = true) (a : Constant) :
    ∃ value, foldUnary op a = .ok value := by
  cases op <;> first | exact ⟨_, rfl⟩ | exact absurd unary (by decide)

end Constant

namespace Opcode

lemma relational_branch {op : Opcode} (relational : op.isRelational = true) :
    op.isBinary = true ∧ ∃ branch, op.branch = .ok branch ∧ branch.isRelationalBranch = true := by
  cases op <;> first | exact ⟨rfl, _, rfl, rfl⟩ | exact absurd relational (by decide)

end Opcode

namespace Routine

variable {value : Option Constant} {r' : Routine} {new : Instruction → Prop} {ends : Jump → Prop}

variable {r : Routine} {op : Opcode}

lemma foldBinary_succeeds (binary : op.isBinary = true) (left right : Operand) :
    ∃ value : Option Constant, foldBinary op left right = .ok (value.map .constant) := by
  rw [foldBinary]
  split
  next a b _ _ =>
    obtain ⟨value, folded⟩ := Constant.foldBinary_succeeds binary a b
    exact ⟨value, by rw [folded]; rfl⟩
  next => exact ⟨none, rfl⟩

lemma foldUnary_succeeds (unary : op.isUnary = true) (arg : Operand) :
    ∃ value : Option Constant, foldUnary op arg = .ok (value.map .constant) := by
  rw [foldUnary]
  split
  next a _ =>
    obtain ⟨value, folded⟩ := Constant.foldUnary_succeeds unary a
    exact ⟨value, by rw [folded]; rfl⟩
  next => exact ⟨none, rfl⟩

lemma ask_run {α : Type} {question : Routine → Except Fault α} {a : α}
    (answer : question r = .ok a) : ask question r = .ok a r := by
  simp [ask, answer]

def assigned (r : Routine) (dest source : Operand) : Routine :=
  if dest != source then r.appended (.assign dest source) else r

lemma assign_run (sound : r.Sound) (dest source : Operand) :
    assign dest source r = .ok ⟨⟩ (r.assigned dest source) := by
  rw [assign, assigned]
  split
  · exact push_run sound _
  · rfl

/-- The instruction of a binary operator: operands change places to have a constant second or the
destination first. -/
def binaryInstruction (op : Opcode) (dest left right : Operand) : Instruction :=
  if op.isCommutative &&
      ((left.isConstant && !right.isConstant) || (right == dest && left != dest)) then
    .binary op dest right left
  else .binary op dest left right

lemma binary_run (sound : r.Sound) (binary : op.isBinary = true) (dest left right : Operand)
    (folded : foldBinary op left right = .ok (value.map .constant)) :
    Routine.binary op dest left right r = .ok ⟨⟩ (match value with
        | some c => r.assigned dest (.constant c)
        | none => r.appended (binaryInstruction op dest left right)) := by
  simp only [Routine.binary, binary, Bool.not_true, Bool.false_eq_true, if_false]
  rw [bind_run (ask_run folded)]
  cases value with
  | some c => exact assign_run sound dest (.constant c)
  | none =>
    simp only [Option.map_none, binaryInstruction]
    split <;> exact push_run sound _

lemma unary_run (sound : r.Sound) (unary : op.isUnary = true) (dest arg : Operand)
    (folded : foldUnary op arg = .ok (value.map .constant)) :
    Routine.unary op dest arg r = .ok ⟨⟩ (match value with
        | some c => r.assigned dest (.constant c)
        | none => r.appended (.unary op dest arg)) := by
  simp only [Routine.unary, unary, Bool.not_true, Bool.false_eq_true, if_false]
  rw [bind_run (ask_run folded)]
  cases value with
  | some c => exact assign_run sound dest (.constant c)
  | none => exact push_run sound _

lemma branchTaken_run (sound : r.Sound) (taken : Bool) (onTrue onFalse : Label) :
    branchTaken taken onTrue onFalse r =
      .ok (some taken) (r.ended (.goto (if taken then onTrue else onFalse))) := by
  rw [branchTaken, goto, bind_run (setJump_run sound.toBuilt _)]
  rfl

def truthJump (value : Operand) (onTrue onFalse : Label) : Jump :=
  match value.constant? with
  | some c => .goto (if c.toBoolean then onTrue else onFalse)
  | none => .ifTrue value onTrue onFalse

lemma branchTrue_run (sound : r.Sound) (value : Operand) (onTrue onFalse : Label) :
    branchTrue value onTrue onFalse r =
      .ok (value.constant?.map Constant.toBoolean) (r.ended (truthJump value onTrue onFalse)) := by
  rw [branchTrue, truthJump]
  cases value.constant? with
  | some c => exact branchTaken_run sound _ onTrue onFalse
  | none =>
    refine (bind_run (setJump_run sound.toBuilt _)).trans ?_
    rfl

def comparisonJump (op branch : Opcode) (left right : Operand) (onTrue onFalse : Label) : Jump :=
  if op.isCommutative && left.isConstant && !right.isConstant then
    .ifCompare branch right left onTrue onFalse
  else .ifCompare branch left right onTrue onFalse

lemma branchCompare_run (sound : r.Sound) {branch : Opcode} (known : op.branch = .ok branch)
    (left right : Operand) (onTrue onFalse : Label)
    (folded : foldBinary op left right = .ok (value.map .constant)) :
    branchCompare op left right onTrue onFalse r =
      .ok (value.map Constant.toBoolean) (r.ended (match value with
        | some c => .goto (if c.toBoolean then onTrue else onFalse)
        | none => comparisonJump op branch left right onTrue onFalse)) := by
  rw [branchCompare, bind_run (ask_run folded)]
  cases value with
  | some c => exact branchTaken_run sound _ onTrue onFalse
  | none =>
    have asked : ask (fun _ => op.branch) r = .ok branch r := ask_run known
    simp only [Option.map_none]
    rw [bind_run asked, comparisonJump]
    split
    · exact (bind_run (setJump_run sound.toBuilt _)).trans rfl
    · exact (bind_run (setJump_run sound.toBuilt _)).trans rfl

lemma Edits.refl (sound : r.Sound) (new : Instruction → Prop)
    (ends : Jump → Prop) : r.Edits r new ends where
  sound := sound
  grows := .refl r
  same_vars := rfl
  stands _ _ _ here := .inl here
  prologue _ _ here := .inl here
  endsWith _ ends := .inl ends

lemma Edits.trans {r'' : Routine} (first : r.Edits r' new ends) (second : r'.Edits r'' new ends) :
    r.Edits r'' new ends where
  sound := second.sound
  grows := first.grows.trans second.grows
  same_vars := second.same_vars.trans first.same_vars
  stands k j i here := (second.stands k j i here).elim (first.stands k j i) .inr
  prologue j i here := (second.prologue j i here).elim (first.prologue j i) .inr
  endsWith jump ends := (second.endsWith jump ends).elim (first.endsWith jump) .inr

lemma Edits.mono {new' : Instruction → Prop} {ends' : Jump → Prop} (edits : r.Edits r' new ends)
    (weaker : ∀ i, new i → new' i) (weaker_ends : ∀ jump, ends jump → ends' jump) :
    r.Edits r' new' ends' where
  __ := edits
  stands k j i here := (edits.stands k j i here).imp_right (weaker i)
  endsWith jump ends := (edits.endsWith jump ends).imp_right (weaker_ends jump)

lemma edits_assigned (sound : r.Sound) (dest source : Operand) :
    r.Edits (r.assigned dest source) (· = .assign dest source) fun _ => False := by
  rw [assigned]
  split
  · exact edits_appended sound _
  · exact .refl sound _ _

def appendAll (r : Routine) (instructions : List Instruction) : Routine :=
  instructions.foldl appended r

lemma edits_appendAll (sound : r.Sound) (instructions : List Instruction) :
    r.Edits (r.appendAll instructions) (· ∈ instructions) fun _ => False := by
  induction instructions generalizing r with
  | nil => exact .refl sound _ _
  | cons i rest ih =>
    have first := edits_appended sound i
    exact (first.mono (by simp +contextual) fun _ => .elim).trans
      ((ih first.sound).mono (by simp +contextual) fun _ => .elim)

lemma appendAll_fields (r : Routine) (instructions : List Instruction) :
    (r.appendAll instructions).labels = r.labels ∧ (r.appendAll instructions).isTemp = r.isTemp ∧
        (r.appendAll instructions).freeTemps = r.freeTemps ∧
          (r.appendAll instructions).argSlotCount = r.argSlotCount := by
  induction instructions generalizing r with
  | nil => exact ⟨rfl, rfl, rfl, rfl⟩
  | cons i rest ih => exact ih (r.appended i)

def staging (slot : SlotId) : List Operand → List Instruction
  | [] => []
  | a :: rest => .assign (.slot slot) a :: staging (slot + 1) rest

lemma stage_run (sound : r.Sound) (slot : SlotId) (args : List Operand) :
    stage slot args r = .ok ⟨⟩ (r.appendAll (staging slot args)) := by
  induction args generalizing r slot with
  | nil => rfl
  | cons a rest ih =>
    rw [stage, bind_run (push_run sound _)]
    exact ih (edits_appended sound _).sound (slot + 1)

def callInstructions (dest : Option Operand) (callee : Callee) (receiver : Operand)
    (args : List Operand) : List Instruction :=
  staging 0 (receiver :: args) ++ [.call dest callee (args.length + 1)]

def withSlots (r : Routine) (count : Nat) : Routine :=
  { r with argSlotCount := max r.argSlotCount count }

lemma edits_withSlots (sound : r.Sound) (count : Nat) :
    r.Edits (r.withSlots count) (fun _ => False) fun _ => False where
  sound := { sound with }
  grows := { Grows.refl r with slots := Nat.le_max_left _ _ }
  same_vars := rfl
  stands _ _ _ here := .inl here
  prologue _ _ here := .inl here
  endsWith _ ends := .inl ends

lemma call_run (sound : r.Sound) (dest : Option Operand) (callee : Callee)
    (receiver : Operand) (args : List Operand) :
    call dest callee receiver args r = .ok ⟨⟩ ((r.withSlots (args.length + 1)).appendAll
        (callInstructions dest callee receiver args)) := by
  have room := edits_withSlots sound (args.length + 1)
  have staged := stage_run room.sound 0 (receiver :: args)
  have pushed := push_run (edits_appendAll room.sound (staging 0 (receiver :: args))).sound
    (.call dest callee (args.length + 1))
  rw [callInstructions, appendAll, List.foldl_append]
  exact bind_eq_ok.mpr ⟨⟨⟩, r.withSlots (args.length + 1), rfl,
    bind_eq_ok.mpr ⟨⟨⟩, _, staged, pushed⟩⟩

lemma ret_run (sound : r.Sound) (value : Operand) :
    ret value r = .ok ⟨⟩ ((r.assigned result value).ended (.goto exitLabel)) := by
  rw [ret, bind_run (assign_run sound result value)]
  exact setJump_run (edits_assigned sound _ _).sound.toBuilt _

def withLabel (r : Routine) : Routine := { r with labels := r.labels.push none }

lemma edits_withLabel (sound : r.Sound) : r.Edits r.withLabel (fun _ => False) fun _ => False where
  sound := { sound with
    entry_target := by
      have inside := (lt_size sound.entry_target)
      rw [withLabel, getElem?_push_lt inside, ← sound.entry_target,
        getElem?_eq_getElem inside]
    placed := fun label k found => by
      rw [withLabel, getElem?_push] at found
      split at found
      · cases found
      · exact sound.placed label k found }
  grows := { Grows.refl r with
    labels := fun label k found => by
      have inside := (lt_size found)
      rw [withLabel, getElem?_push_lt inside, ← found, getElem?_eq_getElem inside]
    label_count := by simp [withLabel] }
  same_vars := rfl
  stands _ _ _ here := .inl here
  prologue _ _ here := .inl here
  endsWith _ ends := .inl ends

def withPrologue (r : Routine) (i : Instruction) : Routine :=
  { r with blocks := r.blocks.modify entry fun b => { b with body := b.body.push i } }

lemma withPrologue_blocks (r : Routine) (i : Instruction) (k : BlockId) :
    (r.withPrologue i).blocks[k]? =
      if k = entry then r.blocks[k]?.map (fun b => { b with body := b.body.push i })
      else r.blocks[k]? := by
  rw [withPrologue, getElem?_modify]
  by_cases here : k = entry
  · simp [here]
  · simp [here, Ne.symm here]

lemma withPrologue_open (sound : r.Sound) (i : Instruction) :
    (r.withPrologue i).openId = r.openId ∧ (r.withPrologue i).openBody = r.openBody := by
  have same : (r.withPrologue i).currentBlock = r.currentBlock := by
    have found := withPrologue_blocks r i r.current
    rw [if_neg sound.current_ne] at found
    exact congrArg (Option.getD · Block.empty) found
  have size : (r.withPrologue i).blocks.size = r.blocks.size := by simp [withPrologue]
  constructor
  · rw [openId, same, size]
    rfl
  · rw [openBody, same]
    rfl

section

variable (i : Instruction)

/-- A block of the longer routine comes from one with the same jump. -/
lemma withPrologue_origin {k : BlockId} {b : Block}
    (found : (r.withPrologue i).blocks[k]? = some b) : ∃ old, r.blocks[k]? = some old ∧
      b = { old with body := if k = entry then old.body.push i else old.body } := by
  rw [withPrologue_blocks] at found
  split at found
  next here =>
    obtain ⟨old, there, rfl⟩ := Option.map_eq_some_iff.mp found
    exact ⟨old, there, by rw [if_pos here]⟩
  next other => exact ⟨b, found, by rw [if_neg other]⟩

lemma withPrologue_kept {k : BlockId} {b : Block} (found : r.blocks[k]? = some b) :
    (r.withPrologue i).blocks[k]? =
      some { b with body := if k = entry then b.body.push i else b.body } := by
  rw [withPrologue_blocks, found]
  split <;> rfl

lemma Built.withPrologue (built : r.Built) : (r.withPrologue i).Built := by
  have size : (r.withPrologue i).blocks.size = r.blocks.size := by simp [Routine.withPrologue]
  refine { built with
    current_lt := size ▸ built.current_lt
    others_closed := fun k b found other => ?_
    entry_jump := ?_
    mirrors := fun k b found => ?_
    placed := fun label k found => size ▸ built.placed label k found }
  · obtain ⟨old, there, rfl⟩ := withPrologue_origin i found
    exact built.others_closed k old there other
  · obtain ⟨b, found, jump⟩ := built.entry_jump
    exact ⟨_, withPrologue_kept i found, jump⟩
  · obtain ⟨old, there, rfl⟩ := withPrologue_origin i found
    exact built.mirrors k old there

end

lemma edits_withPrologue (sound : r.Sound) {i : Instruction}
    (prologue : i.isPrologue = true) : r.Edits (r.withPrologue i) (· = i) fun _ => False := by
  have origin {k : BlockId} {j : Nat} {other : Instruction}
      (stands : (r.withPrologue i).At k j other) : r.At k j other ∨ other = i := by
    obtain ⟨b, found, here⟩ := stands
    obtain ⟨old, there, rfl⟩ := withPrologue_origin i found
    dsimp only at here
    split at here
    · rw [getElem?_push] at here
      split at here
      · exact .inr (Option.some.inj here).symm
      · exact .inl ⟨old, there, here⟩
    · exact .inl ⟨old, there, here⟩
  refine ⟨{ sound.toBuilt.withPrologue i with unfinished := sound.unfinished },
    { Grows.refl r with blocks := fun k b found => ?_ }, rfl, fun _ _ _ => origin,
    fun j other stands => ?_, fun jump ends => ?_⟩
  · refine ⟨_, withPrologue_kept i found, ?_, fun jump ends => ⟨ends, fun inner => if_neg inner⟩⟩
    dsimp only
    split
    · simp
    · exact List.prefix_refl _
  · refine (origin stands).imp_right ?_
    rintro rfl
    exact prologue
  · obtain ⟨k, b, found, same⟩ := ends
    obtain ⟨old, there, rfl⟩ := withPrologue_origin i found
    exact .inl ⟨k, old, there, same⟩

end Routine
end Scriptc
