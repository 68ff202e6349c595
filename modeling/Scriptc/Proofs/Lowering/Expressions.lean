import Scriptc.Proofs.Lowering.Tree
import Scriptc.Proofs.Syntax.Nodes
import Scriptc.Syntax.Construct

/-!
# Expressions of lowered code

The code of every covered expression executes it, whatever is wanted from the expression.
-/

namespace Scriptc

open Scriptc.Expr

/-- Whether an expression or a list of them is covered with the heap and has no empty sequence if it
is covered without the heap. -/
def Node.Scalar : Node → Prop
  | expr e => e.isCovered false = true → e.isCovered true = true ∧ e.isProper = true
  | exprs es => areCovered false es = true → areCovered true es = true ∧ areProper es = true
  | _ => True

theorem Node.scalar (n : Node) : n.Scalar := by
  induction n using Node.induction with
  | step n ih =>
    unfold parts at ih
    split at ih <;> simp only [All, and_true] at ih
    all_goals simp_all [Scalar, Expr.isCovered, isProper, areCovered, areProper]

lemma Expr.covered_of_scalar (e : Expr) (covered : e.isCovered false = true) :
    e.isCovered true = true ∧ e.isProper = true :=
  (Node.expr e).scalar covered

namespace Evaluation

variable {V α β : Type} {rt : Runtime V} {ctx : Context V}

def Total (c : Evaluation V α) : Prop := ∀ w, ∃ a w', c w = .ok a w'

namespace Total

lemma pure (a : α) : (Pure.pure a : Evaluation V α).Total := fun w => ⟨a, w, rfl⟩

lemma bind {first : Evaluation V α} {next : α → Evaluation V β} (here : first.Total)
    (after : ∀ a, (next a).Total) : (first >>= next).Total := by
  intro w
  obtain ⟨a, w', run⟩ := here w
  obtain ⟨b, w'', run'⟩ := after a w'
  exact ⟨b, w'', by simp [Bind.bind, EStateM.bind, run, run']⟩

lemma read_name (name : String) : (Evaluation.read rt ctx (.name name)).Total := by
  rw [Evaluation.read]
  split
  · exact .pure _
  · exact fun w => ⟨_, w, rfl⟩

lemma write_name (name : String) (v : V) : (Evaluation.write rt ctx v (.name name)).Total := by
  rw [Evaluation.write]
  split
  · exact fun w => ⟨_, _, rfl⟩
  · exact .pure _

lemma assignTo_name (name : String) {right : Evaluation V V} (total : right.Total) :
    (assignTo rt ctx (.name name) right).Total :=
  total.bind fun _ => (write_name name _).bind fun _ => .pure _

lemma assign_name (op : AssignOp) (name : String) {right : Evaluation V V} (total : right.Total) :
    (assign rt ctx op (.name name) right).Total := by
  rw [assign_eq]
  cases op.plan with
  | plain => exact assignTo_name name total
  | combined op =>
    exact (read_name name).bind fun _ => assignTo_name name (total.bind fun _ => .pure _)
  | logical op =>
    refine (read_name name).bind fun _ => ?_
    rw [unlessDecided]
    split
    · exact .pure _
    · exact assignTo_name name total

lemma update_name (op : UpdateOp) (keepsOld : Bool) (name : String) :
    (update rt ctx op keepsOld (.name name)).Total :=
  (read_name name).bind fun _ => (write_name name _).bind fun _ => .pure _

end Total

end Evaluation

section

variable {V : Type} (rt : Runtime V) (ctx : Context V)

lemma Expr.evalSite_name {e : Expr} (named : e.name?.isSome = true) :
    ∃ name, e.evalSite rt ctx = pure (.name name) := by
  cases e with
  | ident loc name => exact ⟨name, by rw [evalSite]⟩
  | _ => cases named

/-- A covered expression that needs nothing of the run time but its operators has a value. -/
def Node.Total : Node → Prop
  | expr e => e.isCovered false = true → (e.eval rt ctx).Total
  | exprs es => es ≠ [] → areCovered false es = true → (evalSequence rt ctx es).Total
  | _ => True

lemma Expr.total {e : Expr} (ih : ∀ part ∈ (Node.expr e).parts.2, part.Total rt ctx) :
    (Node.expr e).Total rt ctx := by
  intro covered
  cases e with
  | ident loc name => exact .read_name name
  | literal | receiver => exact .pure _
  | unary loc op arg =>
    obtain ⟨other, inner⟩ : op ≠ .delete ∧ arg.isCovered false = true := by
      simpa [Expr.isCovered] using covered
    rw [eval]
    · exact (ih _ (.head _) inner).bind fun _ => .pure _
    · exact other
  | update loc op keepsOld arg =>
    have named : arg.name?.isSome = true := by
      cases arg <;> simp_all [Expr.isCovered, name?, isMember]
    obtain ⟨name, site⟩ := evalSite_name rt ctx named
    rw [eval, site, pure_bind]
    exact .update_name op keepsOld name
  | binary loc op left right =>
    simp only [Expr.isCovered, Bool.and_eq_true] at covered
    exact (ih _ (.head _) covered.1.2).bind fun _ =>
      (ih _ (.tail _ (.head _)) covered.2).bind fun _ => .pure _
  | logical loc op left right =>
    simp only [Expr.isCovered, Bool.and_eq_true] at covered
    refine (ih _ (.head _) covered.1).bind fun _ => ?_
    rw [Evaluation.unlessDecided]
    split
    · exact .pure _
    · exact ih _ (.tail _ (.head _)) covered.2
  | assign loc op left right =>
    simp only [Expr.isCovered, Bool.and_eq_true] at covered
    have named : left.name?.isSome = true := by
      cases left <;> simp_all [Expr.isCovered, name?, isMember]
    obtain ⟨name, site⟩ := evalSite_name rt ctx named
    rw [eval, site, pure_bind]
    exact .assign_name op name (ih _ (.tail _ (.head _)) covered.2)
  | conditional loc test whenTrue whenFalse =>
    simp only [Expr.isCovered, Bool.and_eq_true] at covered
    refine (ih _ (.head _) covered.1.1).bind fun _ => ?_
    split
    · exact ih _ (.tail _ (.head _)) covered.1.2
    · exact ih _ (.tail _ (.tail _ (.head _))) covered.2
  | sequence loc items =>
    obtain ⟨some_item, all⟩ : items ≠ [] ∧ areCovered false items = true := by
      simpa [Expr.isCovered] using covered
    exact ih _ (.head _) some_item all
  | _ => simp [Expr.isCovered] at covered

theorem Node.total (n : Node) : n.Total rt ctx := by
  induction n using Node.induction with
  | step n ih =>
    rw [all_iff] at ih
    cases n with
    | expr e => exact Expr.total rt ctx ih
    | exprs es =>
      intro some_item covered
      rcases es with _ | ⟨first, _ | ⟨second, rest⟩⟩
      · exact absurd rfl some_item
      · exact ih _ (.head _) (by simpa [areCovered] using covered)
      · rw [areCovered, Bool.and_eq_true] at covered
        rw [evalSequence]
        · exact (ih _ (.head _) covered.1).bind fun _ =>
            ih _ (.tail _ (.head _)) (by simp) covered.2
        · simp
    | _ => trivial

lemma Expr.eval_total (e : Expr) (covered : e.isCovered false = true) : (e.eval rt ctx).Total :=
  (Node.expr e).total rt ctx covered

end

namespace Lowering

variable {V : Type} {s : Lowering}

def context (s : Lowering) (m : Memory V) : Context V where
  names name := (s.meaning? name).getD (.constant .undefined)
  receiver := m.params 0
  native := (s.boundTo spliceName).isNone

lemma stored_of_context {m : Memory V} {name : String} {v : VariableId} {fixed : Bool}
    (means : (s.context m).names name = .stored v fixed) :
    ∃ id b, s.boundTo name = some id ∧ s.scopes.bindings[id]? = some b ∧ b.storedIn = some v := by
  have known : s.meaning? name = some (.stored v fixed) := by
    simp only [context] at means
    cases meaning : s.meaning? name with
    | none => simp [meaning] at means
    | some other => simpa [meaning] using means
  obtain ⟨id, bound, meaning⟩ := Option.bind_eq_some_iff.mp known
  obtain ⟨b, found, meaning⟩ := Option.bind_eq_some_iff.mp meaning
  refine ⟨id, b, bound, found, ?_⟩
  rw [Binding.meaning?] at meaning
  split at meaning
  · cases meaning
  · obtain ⟨held, stored, same⟩ := Option.map_eq_some_iff.mp meaning
    obtain ⟨rfl, -⟩ := Meaning.stored.inj same
    exact stored

lemma Sound.suits (sound : s.Sound) (m : Memory V) : s.Suits (s.context m) m where
  names name meaning means := by simp [context, means]
  distinct name other v fixed fixed' first second := by
    obtain ⟨id, b, bound, found, stored⟩ := stored_of_context first
    obtain ⟨id', b', bound', found', stored'⟩ := stored_of_context second
    obtain rfl := sound.stored_once id id' b b' v found found' stored stored'
    cases found.symm.trans found'
    exact (boundTo_name sound bound found).symm.trans (boundTo_name sound bound' found)
  receiver := rfl
  native unbound := by simpa [context] using unbound

/-- The code of an expression of names, literals, the receiver, operators, choices and assignments
means what the expression means: from the current block, for every memory, it goes on to where the
code stops, or to the label for the truth of the value if a jump to labels of the routine is wanted;
it leaves the variables that evaluation from left to right leaves and the temporaries that were in
use, and what it returns holds the value if the value is wanted. -/
theorem exprCode_executes (rt : Runtime V) {e : Expr} (covered : e.isCovered false = true)
    (sound : s.Sound) (d : Demand) (labels : s.Knows d.labels) :
    ∃ a s', exprCode e d s = .ok a s' ∧ ∀ m : Memory V, ∃ v m',
      e.eval rt (s'.context m) m.world = .ok v m'.world ∧
        s'.Goes rt ⟨s.point, m⟩ ⟨d.arrival rt s'.point v, m'⟩ ∧
          (∀ id, s.InUse id → m'.cells id = m.cells id) ∧ d.Met rt a v m' := by
  obtain ⟨known, proper⟩ := e.covered_of_scalar covered
  obtain ⟨a, s', run, moves, executes⟩ := (expr_lowers rt e proper).spec.runs d s sound labels
  refine ⟨a, s', run, fun m => ?_⟩
  obtain ⟨v, w, value⟩ := Expr.eval_total rt (s'.context m) e covered m.world
  have performs := (executes known).performs (s'.context m) m (moves.sound.suits m)
  rw [value] at performs
  obtain ⟨m', goes, rfl, same, met⟩ := performs
  exact ⟨v, m', value, goes, same.cells, met⟩

open Build in
/-- A sum whose second operand assigns the variable of the first, as the second operand of a logical
expression. -/
def guardedSum : Expr :=
  logical .or (ident "x") (binary .add (ident "x") (Build.assign (ident "x") (number 2.0)))

/-- The code of the guarded sum means it, at the start of a program. -/
theorem guardedSum_executes :
    guardedSum.isCovered false = true ∧ (opened (Log.empty 0) "main" false).Sound ∧
      ∃ a s', exprCode guardedSum .value (opened (Log.empty 0) "main" false) = .ok a s' ∧
        ∀ m : Memory Constant, ∃ v m',
          guardedSum.eval .constants (s'.context m) m.world = .ok v m'.world ∧
            s'.Goes .constants ⟨(opened (Log.empty 0) "main" false).point, m⟩
              ⟨Demand.value.arrival .constants s'.point v, m'⟩ ∧
              (∀ id, (opened (Log.empty 0) "main" false).InUse id → m'.cells id = m.cells id) ∧
                Demand.value.Met .constants a v m' :=
  ⟨by decide, opened_sound _ _ _,
    exprCode_executes .constants (by decide) (opened_sound _ _ _) .value
      (by simp [Demand.labels, Knows])⟩

/-- The code of an expression with objects, calls and native code asks the run time for what
evaluation from left to right asks it for, in the same order and with the same values, and leaves
the same variables, or raises what evaluation throws. Only the computed key of an object literal has
to be held in no variable that the code of its value assigns, since nothing copies it. -/
theorem exprCode_asks (rt : Runtime V) {e : Expr} (covered : e.isCovered true = true)
    (proper : e.isProper = true) (sound : s.Sound) (d : Demand) (labels : s.Knows d.labels) :
    ∃ a s', exprCode e d s = .ok a s' ∧ ∀ m : Memory V,
      s'.Performs rt s.InUse ⟨s.point, m⟩ (e.eval rt (s'.context m) m.world)
        (d.arrival rt s'.point) (d.Met rt a) := by
  obtain ⟨a, s', run, moves, executes⟩ := (expr_lowers rt e proper).spec.runs d s sound labels
  exact ⟨a, s', run, fun m => (executes covered).performs (s'.context m) m (moves.sound.suits m)⟩

open Build in
/-- A member with a computed key, where the assigned value assigns the variable of the key. -/
def keyedWrite : Expr :=
  Build.assign (index (ident "list") (ident "key")) (Build.assign (ident "key") (text "b"))

/-- The code of the write asks for it with the key from before. -/
theorem keyedWrite_asks : keyedWrite.isCovered true = true ∧ keyedWrite.isProper = true ∧
      (opened (Log.empty 0) "main" false).Sound ∧
        ∃ a s', exprCode keyedWrite .value (opened (Log.empty 0) "main" false) = .ok a s' ∧
          ∀ m : Memory Constant, s'.Performs .constants (opened (Log.empty 0) "main" false).InUse
              ⟨(opened (Log.empty 0) "main" false).point, m⟩
              (keyedWrite.eval .constants (s'.context m) m.world)
              (Demand.value.arrival .constants s'.point) (Demand.value.Met .constants a) :=
  ⟨by decide, by decide, opened_sound _ _ _,
    exprCode_asks .constants (by decide) (by decide) (opened_sound _ _ _) .value
      (by simp [Demand.labels, Knows])⟩

/-- An object literal whose computed key is held in the variable that the value assigns. -/
def keyedLiteral : Expr :=
  let key := Expr.ident .nowhere "key"
  let text := Expr.literal .nowhere { value := .text "b", isRegex := false, isBigint := false }
  .object .nowhere [.property .nowhere key (.assign .nowhere .assign key text) .init true]

/-- The key of the literal is not copied: the code assigns the variable and then puts under it. -/
theorem keyedLiteral_reassigned :
    (match exprCode keyedLiteral .value (opened (Log.empty 0) "main" false) with
    | .ok a s' =>
      s'.code.currentBlock.body.toList == [.newObject a,
        .assign (.var ⟨0, 0⟩) (.constant (.text "b")), .put a (.var ⟨0, 0⟩) (.constant (.text "b"))]
    | .error .. => false) = true := by
  decide +kernel

end Lowering
end Scriptc
