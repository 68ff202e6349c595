import Scriptc.Lowering.Tree
import Scriptc.Proofs.Lowering.Literals
import Scriptc.Proofs.Semantics.Assigned

/-!
# What values are held in

The value of a name, an assignment or a sequence may be held in a variable that a name of the
expression means. Other values are constants or in temporaries.
-/

namespace Scriptc.Lowering

variable {a : Operand}

section

variable {α β σ : Type}

def Always (code : EStateM Fault σ α) (holds : α → Prop) : Prop :=
  ∀ s a s', code s = .ok a s' → holds a

namespace Always

variable {first : EStateM Fault σ α} {next : α → EStateM Fault σ β}

variable {holds : α → Prop} {further : β → Prop}

lemma pure {a : α} (here : holds a) : Always (Pure.pure a : EStateM Fault σ α) holds := by
  intro s b s' run
  cases run
  exact here

lemma given (after : ∀ s a s', first s = .ok a s' → Always (next a) further) :
    Always (first >>= next) further := by
  intro s b s'' run
  obtain ⟨a, s', given, rest⟩ := Runs.bind_eq_ok.mp run
  exact after s a s' given s' b s'' rest

lemma bind (after : ∀ a, Always (next a) further) : Always (first >>= next) further :=
  .given fun _ a _ _ => after a

section

variable (always : Always first holds)
include always

lemma andThen (after : ∀ a, holds a → Always (next a) further) : Always (first >>= next) further :=
  .given fun s a s' run => after a (always s a s' run)

lemma kept {use : α → EStateM Fault σ β} :
    Always (first >>= fun a => use a >>= fun _ => Pure.pure a) holds :=
  always.andThen fun _ here => .bind fun _ => .pure here

end

end Always

abbrev Copies (code : EStateM Fault σ Operand) : Prop := Always code fun a => ∀ v, a ≠ .var v

end

lemma copies_newTemp : Copies Routine.allocTemp := by
  refine .bind fun r => ?_
  split
  · exact .bind fun _ => .pure (by simp)
  · exact .bind fun _ => .pure (by simp)

lemma firstTemp?_var {operands : List Operand} {r r' : Routine}
    (run : firstTemp? operands r = .ok (some a) r') (v : VariableId) : a ≠ .var v := by
  induction operands generalizing r with
  | nil => cases run
  | cons b rest ih =>
    obtain ⟨temp, r1, asked, after⟩ := Runs.bind_eq_ok.mp run
    split at after
    next holds =>
      obtain ⟨same, -⟩ := EStateM.Result.ok.inj after
      cases same
      rintro rfl
      cases asked
      cases holds
    · exact ih after

lemma ran_of_inCode {α : Type} {edit : Routine.Edit α} {s s' : Lowering} {a : α}
    (run : inCode edit s = .ok a s') : ∃ r r', edit r = .ok a r' := by
  obtain ⟨state, s1, -, rest⟩ := Runs.bind_eq_ok.mp run
  simp only [inUnit, CodeUnit.inRoutine, EStateM.run] at rest
  cases found : s1.unit.routines[state.frame.routine]? with
  | none => simp [found] at rest
  | some r =>
    cases ran : edit r with
    | error fault r' => simp [found, ran] at rest
    | ok b r' =>
      obtain ⟨rfl, -⟩ : b = a ∧ _ := by simpa [found, ran] using rest
      exact ⟨r, r', ran⟩

lemma Copies.inCode {edit : Routine.Edit Operand} (copies : Copies edit) :
    Copies (Lowering.inCode edit) := by
  intro s a s' run
  obtain ⟨r, r', ran⟩ := ran_of_inCode run
  exact copies r a r' ran

lemma copies_resultTemp (operands : List Operand) : Copies (resultTemp operands) := by
  refine .inCode (.given fun r first r' asked => ?_)
  cases first with
  | some b => exact (Always.pure (firstTemp?_var asked)).kept
  | none => exact copies_newTemp.kept

lemma answer_of_ask {α : Type} {question : Except Fault α} {s s' : Lowering} {a : α}
    (run : inCode (Routine.ask fun _ => question) s = .ok a s') : question = .ok a := by
  obtain ⟨r, r', ran⟩ := ran_of_inCode run
  cases question with
  | error fault => cases ran
  | ok b =>
    cases ran
    rfl

lemma folded_var {question : Except Fault (Option Constant)}
    (folded : (·.map Operand.constant) <$> question = .ok (some a)) (v : VariableId) :
    a ≠ .var v := by
  obtain ⟨value, -, same⟩ := Result.map_eq_ok.mp folded
  obtain ⟨c, -, rfl⟩ := Option.map_eq_some_iff.mp same
  simp

lemma foldUnary_var {op : Opcode} {arg : Operand}
    (folded : Routine.foldUnary op arg = .ok (some a)) : ∀ v, a ≠ .var v := by
  rw [Routine.foldUnary] at folded
  split at folded
  · exact folded_var folded
  · cases folded

lemma foldBinary_var {op : Opcode} {left right : Operand}
    (folded : Routine.foldBinary op left right = .ok (some a)) : ∀ v, a ≠ .var v := by
  rw [Routine.foldBinary] at folded
  split at folded
  · exact folded_var folded
  · cases folded

lemma copies_unaryValue (op : Opcode) (arg : Operand) : Copies (unaryValue op arg) := by
  refine .given fun s folded s' asked => ?_
  cases folded with
  | some value => exact .pure (foldUnary_var (answer_of_ask asked))
  | none => exact (copies_resultTemp _).kept

lemma copies_binaryValue (op : Opcode) (left right : Operand) :
    Copies (binaryValue op left right) := by
  refine .given fun s folded s' asked => ?_
  cases folded with
  | some value =>
    exact .bind fun _ => .bind fun _ => .pure (foldBinary_var (answer_of_ask asked))
  | none => exact (copies_resultTemp _).kept

lemma copies_allocTemp : Copies allocTemp := copies_newTemp.inCode

lemma copies_undefined : Copies (pure .undefined : Lower Operand) :=
  .pure (by simp [Operand.undefined])

lemma copies_applyBinary (op : BinaryOp) (left right : Operand) (loc : Location) :
    Copies (applyBinary op left right loc .value) := by
  have planned (plan : BinaryPlan) (a b : Operand) : Copies (applyPlan plan a b loc .value) :=
    copies_binaryValue plan.op a b
  have rest (plan : BinaryPlan) : Copies (if plan.numeric then do
      let left ← toNumber left
      let right ← toNumber right
      applyPlan plan left right loc .value
    else if plan.swapped then applyPlan plan right left loc .value
    else applyPlan plan left right loc .value) := by
    split
    · exact .bind fun _ => .bind fun _ => planned plan _ _
    · split
      · exact planned plan right left
      · exact planned plan left right
  unfold applyBinary
  split
  · exact .bind fun _ => .bind fun _ => .bind fun _ => copies_undefined
  next plan _ =>
    dsimp only
    split
    · exact .bind fun _ => rest plan
    · exact rest plan

variable (loc : Location)

lemma copies_literalValue (lit : LiteralSyntax) :
    Copies (literalValue loc lit) := by
  have refused (what : String) : Copies (refuse loc what) := .bind fun _ => copies_undefined
  unfold literalValue
  split
  · exact refused _
  · split
    · exact refused _
    · split
      · exact .pure (by simp)
      · exact .pure (by simp)
      · exact .pure (by simp [Operand.ofNumber])
      · exact .pure (by simp [Operand.ofText])
      · exact refused _

lemma copies_operatorCode (op : UnaryOp) (arg : Lowered) :
    Copies (operatorCode loc op arg .value) := by
  have settled (a : Operand) (kind : ∀ v, a ≠ .var v) :
      Copies (settleUnary loc a .value) := .pure kind
  have numeric (op : Opcode) (numeric : Bool) : Copies (unaryCode loc op numeric arg .value) := by
    refine .bind fun a => ?_
    have last (b : Operand) : Copies (do settleUnary loc (← unaryValue op b) .value) :=
      (copies_unaryValue op b).andThen settled
    split
    · exact .bind fun b => last b
    · exact .bind fun b => last b
  cases op with
  | negate => exact numeric .negate true
  | bitNot => exact numeric .bitNot true
  | typeOf => exact numeric .typeOf false
  | plus => exact .bind fun a => (copies_unaryValue .toNumber a).andThen settled
  | logicalNot => exact .bind fun a => (copies_unaryValue .logicalNot a).andThen settled
  | void | delete => exact .bind fun _ => settled _ (by simp [Operand.undefined])

lemma copies_deleteCode (arg : Place) :
    Copies (deleteCode loc arg .value) := by
  have deletes : Copies arg.delete := by
    unfold Place.delete
    split
    next m =>
      exact .bind fun _ => .bind fun _ => (copies_resultTemp _).kept
    · exact .bind fun _ => .pure (by simp)
    · exact .bind fun _ => .pure (by simp)
    · exact .bind fun _ => .pure (by simp)
  exact deletes.andThen fun _ kind => .pure kind

lemma copies_updateCode (op : UpdateOp) (keepsOld : Bool) (arg : Place) :
    Copies (updateCode loc op keepsOld arg .value) := by
  have settled (a : Operand) (kind : ∀ v, a ≠ .var v) :
      Copies (settle (some loc) a .value) := .pure kind
  refine .bind fun target => .bind fun old => (copies_unaryValue .toNumber old).andThen ?_
  intro number kind
  have last := (Always.pure kind).andThen settled
  split
  · refine .bind fun value => .bind fun _ => .bind fun _ => ?_
    split
    · exact .bind fun _ => last
    · exact last
  · refine (copies_binaryValue op.opcode number (.ofNumber 1.0)).andThen fun value apart =>
      .bind fun _ => .bind fun _ => ?_
    exact (Always.pure apart).andThen settled

lemma copies_logicalValue (op : LogicalOp) (left right : Lowered) :
    Copies (logicalValue op left right) :=
  .bind fun _ => .bind fun _ => copies_allocTemp.andThen fun _ kind => .bind fun _ =>
    .bind fun _ => .bind fun _ => .bind fun _ => .bind fun _ => .bind fun _ => .bind fun _ =>
      .bind fun _ => .bind fun _ => .pure kind

lemma copies_conditionalCode (test whenTrue whenFalse : Lowered) :
    Copies (conditionalCode test whenTrue whenFalse .value) := by
  have kept (a : Operand) : Copies (inTemp a) := by
    refine .given fun s temp s' asked => ?_
    cases temp with
    | true =>
      refine .pure ?_
      rintro v rfl
      cases answer_of_ask asked
    | false => exact copies_allocTemp.kept
  exact .bind fun _ => .bind fun _ => .bind fun _ => .bind fun _ => .bind fun _ => .bind fun a =>
    (kept a).andThen fun _ kind => .bind fun _ => .bind fun _ => .bind fun _ => .bind fun _ =>
      .bind fun _ => .bind fun _ => .pure kind

lemma copies_assignLogical (op : LogicalOp) (left : Place) (right : Lowered) :
    Copies (assignLogical op left right true) :=
  .bind fun _ => .bind fun _ => .bind fun _ => copies_allocTemp.andThen fun _ kind =>
    .bind fun _ => .bind fun _ => .bind fun _ => .bind fun _ => .bind fun _ => .bind fun _ =>
      .bind fun _ => .bind fun _ => .bind fun _ => .bind fun _ => .bind fun _ => .pure kind

lemma copies_arrayValue (es : List (Option Lowered)) : Copies (arrayValue es) :=
  copies_allocTemp.andThen fun _ kind => .bind fun _ => .bind fun _ => .pure kind

lemma copies_objectValue (ms : List LiteralMember) : Copies (objectValue ms) :=
  copies_allocTemp.andThen fun _ kind => .bind fun _ => .bind fun _ => .pure kind

lemma copies_read (m : MemberCode) (loc : Location) : Copies (m.read loc) := by
  unfold MemberCode.read
  split
  · exact .bind fun _ => .bind fun _ => .bind fun _ => (copies_resultTemp _).kept
  · exact .bind fun _ => .bind fun _ => (copies_resultTemp _).kept

lemma copies_emitCall (callee : Callee) (function receiver : Operand) (args : List Operand) :
    Copies (emitCall callee function receiver args true) :=
  .bind fun _ => .bind fun _ => .bind fun _ => copies_allocTemp.kept

lemma copies_callCode (callee : Place) (args : List Expr)
    (values : List ArgumentCode) (lists : List SpliceList) (opt : Bool) :
    Copies (callCode loc callee args values lists opt .value) := by
  have settled (a : Operand) (kind : ∀ v, a ≠ .var v) :
      Copies (settle (some loc) a .value) := .pure kind
  have called : Copies (callValue callee values true) :=
    .bind fun c => .bind fun operands => copies_emitCall _ _ _ _
  unfold callCode
  split
  · refine .bind fun _ => .bind fun native => ?_
    split
    · exact .bind fun _ => copies_undefined.andThen settled
    · exact called.andThen settled
  · refine .bind fun native => ?_
    split
    · exact .bind fun _ => copies_undefined.andThen settled
    · exact called.andThen settled

/-! ## Names whose variables hold a value -/

variable {V : Type} {rt : Runtime V} {s s' s'' : Lowering}

/-- Whether an operand that is a variable is that of one of some names, in all that follows. -/
def Named (V : Type) (s : Lowering) (names : List String) (a : Operand) : Prop :=
  ∀ (s' : Lowering) (ctx : Context V) (m : Memory V), s.Follows s' → s'.Suits ctx m →
    ∀ v, a = .var v → ∃ name ∈ names, ∃ fixed, ctx.names name = .stored v fixed

/-- Whether code leaves its value in a variable only if one of some names means it. -/
def HeldBy (V : Type) (code : Lower Operand) (names : List String) : Prop :=
  ∀ s a s', s.Sound → code s = .ok a s' → s'.Named V names a

lemma Named.mono {names more : List String} (named : s.Named V names a)
    (subset : ∀ name ∈ names, name ∈ more) : s.Named V more a := by
  intro s' ctx m follows suits v same
  obtain ⟨name, mem, means⟩ := named s' ctx m follows suits v same
  exact ⟨name, subset name mem, means⟩

lemma Copies.heldBy {code : Lower Operand} (copies : Copies code) (names : List String) :
    HeldBy V code names :=
  fun s a s' _ run _ _ _ _ _ v same => absurd same (copies s a s' run v)

lemma name_heldBy (name : String) :
    HeldBy V (do readBinding (← resolve name loc)) [name] := by
  intro s a s' sound run s'' ctx m follows suits v same
  obtain ⟨id, s1, resolved, read⟩ := Runs.bind_eq_ok.mp run
  obtain ⟨moves1, quiet1, bound⟩ := (resolve_moves sound name loc).holds_of_run resolved
  obtain ⟨moves2, quiet2, meaning, means, rfl⟩ :=
    (readBinding_moves moves1.sound (boundTo_visible moves1.sound bound)).holds_of_run read
  have known : s'.meaning? name = some meaning := by
    rw [meaning?, quiet2.steady name id bound]
    exact means
  have names := (suits.back follows).names name meaning known
  cases meaning with
  | constant value => cases same
  | stored id fixed =>
    obtain rfl := Operand.var.inj same
    exact ⟨name, by simp, fixed, names⟩

lemma evaluated_member {p : Place} {m : MemberCode} (refers : p.reference = .member m)
    {stable : Bool} {t : Target} (run : p.evaluate stable s = .ok t s') (v : Operand) :
    t ≠ .stored v := by
  have ms : Always (p.evaluate stable) fun t => ∀ v, t ≠ .stored v := by
    unfold Place.evaluate
    simp only [refers]
    split
    · exact .bind fun _ => .bind fun _ => .bind fun _ => .bind fun _ => .pure (by simp)
    · exact .bind fun _ => .bind fun _ => .bind fun _ => .pure (by simp)
  exact ms s t s' run v

lemma Assigns.named {e : Expr} {code : Operand → Lower Operand} {names : List String}
    (assigns : s.Assigns rt s' { whole := ⟨e, exprCode e⟩, reference := referenceOf e } (fun ctx =>
      e.evalSite rt ctx) code a)
    (place : (e.name?.isSome || e.isMember) = true) (held : ∀ old, HeldBy V (code old) names) :
    s'.Named V (e.name?.toList ++ names) a := by
  obtain ⟨stable, t, s1, done, reaches, follows1, old, s2, b, s3, sound2, run, follows3, rfl⟩ :=
    assigns
  intro s'' ctx m follows suits v same
  by_cases own : t = .stored (.var v)
  · subst own
    have performs := reaches.performs ctx m (suits.back (follows1.trans follows))
    cases e with
    | ident loc name =>
      obtain ⟨m', -, -, -, denotes⟩ := performs
      cases denotes with
      | stored means => exact ⟨name, by simp [Expr.name?], false, means⟩
    | member loc object property computed opt =>
      exact absurd rfl (evaluated_member (by rw [referenceOf]) done (.var v))
    | _ => cases place
  · have value : b = .var v := by
      unfold Target.holder at same
      split at same
      · exact same
      · split at same
        next w => exact absurd (by rw [same]) own
        · exact same
    obtain ⟨name, mem, means⟩ := held old s2 b s3 sound2 run s'' ctx m (follows3.trans follows)
      suits v value
    exact ⟨name, List.mem_append_right _ mem, means⟩

lemma spares_of_heldBy {key value : Expr} {covered : Prop} {evalKey : Action V V}
    (key_spec : Lowered.Spec rt ⟨key, exprCode key⟩ covered evalKey)
    (held : HeldBy V (exprCode key .value) key.aliases)
    (apart : ∀ name ∈ key.aliases, value.assigns name = false) :
    Spares ⟨key, exprCode key⟩ fun ctx => value.eval rt ctx := by
  intro s sound
  obtain ⟨k, s', run, -⟩ := key_spec.value sound
  refine ⟨k, s', run, fun s'' follows ctx m suits v mem x w done => ?_⟩
  obtain ⟨name, own, fixed, means⟩ := held s k s' sound run s'' ctx m follows suits v
    (List.mem_singleton.mp mem).symm
  refine Expr.eval_spares rt value (fun other fixed' assigns means' => ?_) _ _ _ done
  have same := suits.distinct other name v fixed' fixed means' means
  simp only [same, apart name own, Bool.false_eq_true] at assigns

end Scriptc.Lowering
