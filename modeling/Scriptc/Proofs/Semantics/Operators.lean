import Scriptc.Proofs.Code.Operations
import Scriptc.Proofs.Semantics.Machine

/-!
# Folding and swapping operands

A binary operator is folded if its operands are constants, and may be given its operands in the
other order. Whatever operators mean at run time, this does not change what is computed.
-/

namespace Scriptc

/-- A meaning of operators that agrees with folding, and that is symmetric where operators
commute. -/
structure Operators (V : Type) where
  ofConstant : Constant → V
  truthy : V → Bool
  binary : Opcode → V → V → V
  binary_constant : ∀ {op : Opcode} {a b c : Constant}, Constant.foldBinary op a b = .ok (some c) →
    binary op (ofConstant a) (ofConstant b) = ofConstant c
  binary_comm : ∀ {op : Opcode}, op.isCommutative = true → ∀ x y, binary op x y = binary op y x
  truthy_constant : ∀ c, truthy (ofConstant c) = c.toBoolean

namespace Operators

variable {V : Type} (ops : Operators V) (m : Memory V)

def read : Operand → V
  | .var id => m.world.vars id
  | .cell id => m.cells id
  | .param id => m.params id
  | .slot id => m.slots id
  | .constant c => ops.ofConstant c

def after : Instruction → Option (Memory V)
  | .assign dest source => some (m.write dest (ops.read m source))
  | .binary op dest left right =>
    some (m.write dest (ops.binary op (ops.read m left) (ops.read m right)))
  | _ => none

def next : Jump → Option Label
  | .goto label => some label
  | .ifCompare branch left right onTrue onFalse =>
    branch.comparison?.map fun op =>
      if ops.truthy (ops.binary op (ops.read m left) (ops.read m right)) then onTrue else onFalse
  | _ => none

lemma read_folded {op : Opcode} {left right : Operand} {c : Constant}
    (folded : Routine.foldBinary op left right = .ok (some (.constant c))) :
    ops.binary op (ops.read m left) (ops.read m right) = ops.ofConstant c := by
  unfold Routine.foldBinary at folded
  cases left with
  | constant a =>
    cases right with
    | constant b =>
      obtain ⟨value, known, same⟩ := Result.map_eq_ok.mp folded
      obtain ⟨d, rfl, same_value⟩ := Option.map_eq_some_iff.mp same
      cases same_value
      exact ops.binary_constant known
    | _ => simp [Operand.constant?] at folded
  | _ => simp [Operand.constant?] at folded

lemma write_of_beq {dest : Operand} {c : Constant} (same : (dest == .constant c) = true) (v : V) :
    m.write dest v = m := by
  cases dest with
  | constant => rfl
  | _ => cases same

lemma after_binaryInstruction (op : Opcode) (dest left right : Operand) :
    ops.after m (Routine.binaryInstruction op dest left right) =
      some (m.write dest (ops.binary op (ops.read m left) (ops.read m right))) := by
  unfold Routine.binaryInstruction
  split
  next swapped =>
    have commutes : op.isCommutative = true := (Bool.and_eq_true_iff.mp swapped).1
    rw [ops.binary_comm commutes (ops.read m left)]
    rfl
  next => rfl

lemma next_comparisonJump {op branch : Opcode} (comparison : branch.comparison? = some op)
    (left right : Operand) (onTrue onFalse : Label) :
    ops.next m (Routine.comparisonJump op branch left right onTrue onFalse) =
      some (if ops.truthy (ops.binary op (ops.read m left) (ops.read m right)) then
        onTrue else onFalse) := by
  unfold Routine.comparisonJump
  split
  next swapped =>
    have commutes : op.isCommutative = true :=
      (Bool.and_eq_true_iff.mp (Bool.and_eq_true_iff.mp swapped).1).1
    rw [next, comparison, ops.binary_comm commutes (ops.read m left)]
    rfl
  next =>
    rw [next, comparison]
    rfl

/-- Code that has the value of a binary operator in its destination, whatever operators mean. -/
def Computes (code : Option Instruction) (op : Opcode) (dest left right : Operand) : Prop :=
  ∀ (V : Type) (ops : Operators V) (m : Memory V), code.elim (some m) (ops.after m) =
    some (m.write dest (ops.binary op (ops.read m left) (ops.read m right)))

/-- A jump that goes by the truth of a binary operator, whatever operators mean. -/
def Decides (jump : Jump) (op : Opcode) (left right : Operand) (onTrue onFalse : Label) : Prop :=
  ∀ (V : Type) (ops : Operators V) (m : Memory V), ops.next m jump =
    some (if ops.truthy (ops.binary op (ops.read m left) (ops.read m right)) then
      onTrue else onFalse)

end Operators

namespace Routine

variable {op : Opcode}

lemma binary_appends (binary : op.isBinary = true) (dest left right : Operand) :
    ∃ code : Option Instruction,
      (∀ r, Routine.binary op dest left right r = code.elim (pure ⟨⟩) push r) ∧
        Operators.Computes code op dest left right := by
  obtain ⟨value, folded⟩ := foldBinary_succeeds binary left right
  simp only [Routine.binary, binary, Bool.not_true, Bool.false_eq_true, if_false]
  cases value with
  | none =>
    refine ⟨some (binaryInstruction op dest left right), fun r => ?_, fun _ ops m =>
      ops.after_binaryInstruction m op dest left right⟩
    rw [Runs.bind_run (ask_run folded)]
    simp only [Option.map_none, binaryInstruction]
    split <;> rfl
  | some c =>
    cases same : dest == .constant c with
    | true =>
      refine ⟨none, fun r => ?_, fun _ ops m =>
        congrArg some (Operators.write_of_beq m same _).symm⟩
      rw [Runs.bind_run (ask_run folded)]
      simp only [Option.map_some, assign, bne, same]
      rfl
    | false =>
      refine ⟨some (.assign dest (.constant c)), fun r => ?_, fun _ ops m => ?_⟩
      · rw [Runs.bind_run (ask_run folded)]
        simp only [Option.map_some, assign, bne, same]
        rfl
      · rw [ops.read_folded m folded]
        rfl

lemma branchCompare_ends (relational : op.isRelational = true) (left right : Operand)
    (onTrue onFalse : Label) :
    ∃ (jump : Jump) (taken : Option Bool),
      (∀ r, branchCompare op left right onTrue onFalse r = (setJump jump >>= fun _ =>
        pure taken) r) ∧ Operators.Decides jump op left right onTrue onFalse := by
  obtain ⟨binary, branch, known, -⟩ := Opcode.relational_branch relational
  obtain ⟨value, folded⟩ := foldBinary_succeeds binary left right
  cases value with
  | some c =>
    refine ⟨.goto (if c.toBoolean then onTrue else onFalse), some c.toBoolean, fun r => ?_,
      fun _ ops m => ?_⟩
    · rw [branchCompare, Runs.bind_run (ask_run folded)]
      rfl
    · rw [ops.read_folded m folded, ops.truthy_constant]
      rfl
  | none =>
    have comparison : branch.comparison? = some op := by cases op <;> cases known <;> rfl
    refine ⟨comparisonJump op branch left right onTrue onFalse, none, fun r => ?_, fun _ ops m =>
      ops.next_comparisonJump m comparison left right onTrue onFalse⟩
    have asked : ask (fun _ => op.branch) r = .ok branch r := ask_run known
    rw [branchCompare, Runs.bind_run (ask_run folded)]
    simp only [Option.map_none]
    rw [Runs.bind_run asked, comparisonJump]
    split <;> rfl

/-- Operators that commute fold to the same in both orders. Whether it is folded, swapped or
neither, a binary operator computes its value into the destination, and a branch goes by its
comparison. -/
theorem operands_swap : (∀ op : Opcode, op.isCommutative = true → ∀ a b : Constant,
      Constant.foldBinary op a b = Constant.foldBinary op b a) ∧
    (∀ op : Opcode, op.isBinary = true → ∀ dest left right : Operand, ∃ code : Option Instruction,
      (∀ r, Routine.binary op dest left right r = code.elim (pure ⟨⟩) push r) ∧
        Operators.Computes code op dest left right) ∧
    ∀ op : Opcode, op.isRelational = true → ∀ (left right : Operand) (onTrue onFalse : Label),
      ∃ (jump : Jump) (taken : Option Bool),
        (∀ r, branchCompare op left right onTrue onFalse r = (setJump jump >>= fun _ =>
          pure taken) r) ∧ Operators.Decides jump op left right onTrue onFalse :=
  ⟨fun _ commutes => Constant.foldBinary_comm commutes, fun _ binary => binary_appends binary,
    fun _ relational => branchCompare_ends relational⟩

theorem increment_swaps : Constant.foldBinary .looseEq (.text "1") (.boolean true) =
      Constant.foldBinary .looseEq (.boolean true) (.text "1") ∧
    (∃ code, Operators.Computes code .addNumbers (.cell 1) (.ofNumber 1) (.cell 1)) ∧
    ∃ jump, Operators.Decides jump .strictEq (.ofNumber 1) (.cell 1) 2 3 := by
  refine ⟨operands_swap.1 _ rfl _ _, ?_, ?_⟩
  · obtain ⟨code, -, computes⟩ := operands_swap.2.1 .addNumbers rfl (.cell 1)
      (.ofNumber 1) (.cell 1)
    exact ⟨code, computes⟩
  · obtain ⟨jump, _, -, decides⟩ := operands_swap.2.2 .strictEq rfl (.ofNumber 1) (.cell 1) 2 3
    exact ⟨jump, decides⟩

end Routine
end Scriptc
