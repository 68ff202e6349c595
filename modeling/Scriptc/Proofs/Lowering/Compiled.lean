import Scriptc.Proofs.Lowering.Control
import Scriptc.Proofs.Lowering.Holders
import Scriptc.Proofs.Lowering.Splice

/-!
# Kinds of expressions

What the code of each kind of expression does, from what the code of its parts does. The code of one
that is not covered still keeps the state in order.
-/

namespace Scriptc

namespace Lowering

variable {V : Type} {rt : Runtime V} {s s' : Lowering}
variable {covered fewer : Prop} {eval : Action V V}

/-! ## Conditions -/

lemma Meets.of_eq {code code' : ExprCode} {eval' : Action V V}
    (meets : Meets rt code covered eval) (same : ∀ d, code' d = code d)
    (means : ∀ ctx, eval' ctx = eval ctx) : Meets rt code' covered eval' := by
  obtain rfl : code' = code := funext same
  obtain rfl : eval' = eval := funext means
  exact meets

lemma Meets.weaken {code : ExprCode}
    (meets : Meets rt code covered eval) (stronger : fewer → covered) : Meets rt code fewer eval :=
  fun d s sound labels => (meets d s sound labels).mono fun _ _ ⟨moves, executes⟩ =>
    ⟨moves, fun known => executes (stronger known)⟩

lemma Gives.weaken {code : Lower Operand} (gives : Gives rt code covered eval)
    (stronger : fewer → covered) : Gives rt code fewer eval :=
  fun s sound => (gives s sound).mono fun _ _ ⟨moves, executes⟩ =>
    ⟨moves, fun known => executes (stronger known)⟩

lemma CalleeReady.weaken {constructs argsSimple : Bool} {c : CalleeValue}
    {eval : Action V (V × V)}
    (ready : s.CalleeReady rt s' constructs argsSimple c covered eval)
      (stronger : fewer → covered) :
    s.CalleeReady rt s' constructs argsSimple c fewer eval :=
  { ready with computes := fun known => ready.computes (stronger known) }

lemma PutsMembers.weaken {ms : List LiteralMember}
    {eval : V → Action V PUnit} (puts : PutsMembers rt ms covered eval)
    (stronger : fewer → covered) : PutsMembers rt ms fewer eval :=
  fun id s sound used => (puts id s sound used).mono fun _ _ ⟨moves, computes⟩ =>
    ⟨moves, fun known => computes (stronger known)⟩

lemma ArgumentsSpec.weaken {args : List ArgumentCode}
    {eval : Action V (List V)} (spec : ArgumentsSpec rt args covered eval)
    (stronger : fewer → covered) : ArgumentsSpec rt args fewer eval where
  runs s sound := (spec.runs s sound).mono fun _ _ ⟨moves, computes⟩ =>
    ⟨moves, fun known => computes (stronger known)⟩
  simple known := spec.simple (stronger known)

lemma gives_uncovered {code : Lower Operand} (never : ¬covered)
    (runs : ∀ s : Lowering, s.Sound → Runs code s fun a s' => s.Moves s' { given := [a] }) :
    Gives rt code covered eval :=
  fun s sound => (runs s sound).mono fun _ _ moves => ⟨moves, fun known => absurd known never⟩

end Lowering

namespace Place

variable {V : Type} {rt : Runtime V}

lemma Evaluates.weaken {p : Place} {covered fewer : Prop}
    {evalSite : Action V (Site V)} (evaluates : p.Evaluates rt covered evalSite)
    (stronger : fewer → covered) : p.Evaluates rt fewer evalSite :=
  fun stable s sound => (evaluates stable s sound).mono
    fun _ _ ⟨moves, place, other, pinned, reaches⟩ =>
      ⟨moves, place, other, pinned, fun known => reaches (stronger known)⟩

end Place

namespace Lowering

variable {V : Type} (rt : Runtime V)

/-! ## Names, literals and operators -/

lemma nameValue_gives (loc : Location) (name : String) :
    Gives rt (do readBinding (← resolve name loc)) True fun ctx =>
      Evaluation.read rt ctx (.name name) := by
  intro s sound
  refine (resolve_moves sound name loc).step fun id s1 ⟨resolved, quiet1, bound⟩ => ?_
  refine (readBinding_moves resolved.sound (boundTo_visible resolved.sound bound)).mono ?_
  rintro a s2 ⟨read, quiet2, meaning, means, rfl⟩
  refine ⟨resolved.andThen read, fun _ => ?_⟩
  refine (resolved.andThen read).executes (quiet1.trans quiet2) fun ctx m suits => ?_
  have known : s2.meaning? name = some meaning := by
    rw [meaning?, quiet2.steady name id bound]
    exact means
  rw [Evaluation.read, suits.names name meaning known]
  cases meaning <;> rfl

lemma literalValue_gives (loc : Location) (lit : LiteralSyntax) :
    Gives rt (literalValue loc lit) (lit.isPlain = true) fun _ => pure (rt.literal lit) := by
  intro s sound
  refine (literalValue_spec rt sound loc lit).mono fun a s' ⟨moves, plain⟩ =>
    ⟨moves, fun known => ?_⟩
  obtain ⟨quiet, value⟩ := plain known
  refine moves.executes quiet fun ctx m _ => ?_
  rw [value m]
  rfl

lemma receiver_gives : Gives rt (pure Routine.receiver) True fun ctx => pure ctx.receiver := by
  intro s sound
  have moves : s.Moves s { given := [Routine.receiver] } :=
    (Moves.refl sound).give (by simp [Routine.receiver]) ⟨trivial, by simp [Routine.receiver]⟩
  refine .pure ⟨moves, fun _ => ?_⟩
  refine moves.executes (.refl s) fun ctx m suits => ?_
  rw [show m.read rt Routine.receiver = ctx.receiver from suits.receiver]
  rfl

lemma operatorCode_meets {arg : Lowered} {covered : Prop}
    {eval : Action V V} (spec : arg.Spec rt covered eval) (loc : Location)
    {op : UnaryOp} (other : op ≠ .delete) :
    Meets rt (operatorCode loc op arg) covered fun ctx =>
      eval ctx >>= fun x => pure (rt.applyUnary op x) := by
  cases op with
  | negate | bitNot => exact numericCode_meets spec loc rfl
  | typeOf => exact unaryCode_meets spec loc rfl
  | plus => exact plusCode_meets spec loc
  | logicalNot => exact notCode_meets spec loc
  | void => exact voidCode_meets spec loc
  | delete => exact absurd rfl other

end Lowering

namespace Expr

variable {V : Type} {rt : Runtime V}

lemma eval_simple {e : Expr} {heap : Bool} (covered : e.isCovered heap = true)
    (simple : e.isSimple = true) (ctx : Context V) (w : World V) :
    ∃ v, e.eval rt ctx w = .ok v w := by
  cases e with
  | ident loc name =>
    simp only [Expr.eval, Evaluation.read]
    cases ctx.names name with
    | constant | stored => exact ⟨_, rfl⟩
  | literal | receiver => exact ⟨_, by rw [Expr.eval]; rfl⟩
  | function loc func => simp [Expr.isCovered] at covered
  | _ => cases simple

abbrev lowered (e : Expr) : Lowered := ⟨e, Lowering.exprCode e⟩

abbrev asPlace (e : Expr) : Place := { whole := e.lowered, reference := Lowering.referenceOf e }

def Executed (rt : Runtime V) (e : Expr) : Prop :=
  e.lowered.Spec rt (e.isCovered true = true) fun ctx => e.eval rt ctx

/-- What the code of an expression does, and the code of the parts that the code around it may look
at: those of a member, and what is spread. -/
structure Compiled (rt : Runtime V) (e : Expr) : Prop where
  spec : e.Executed rt
  held : e.isCovered true = true → Lowering.HeldBy V (Lowering.exprCode e .value) e.aliases
  parts : ∀ loc object property computed isOptional,
    e = .member loc object property computed isOptional → object.Executed rt ∧ property.Executed rt
  inner : ∀ loc argument, e = .spread loc argument → argument.Executed rt

def isWhole : Expr → Bool
  | .member .. | .spread .. => false
  | _ => true

lemma compiled_of_meets {e : Expr}
    (meets : Lowering.Meets rt (Lowering.exprCode e) (e.isCovered true = true) fun ctx =>
      e.eval rt ctx)
    (held : e.isCovered true = true → Lowering.HeldBy V (Lowering.exprCode e .value) e.aliases)
    (whole : e.isWhole = true) : e.Compiled rt where
  spec := ⟨meets, fun covered simple => eval_simple covered simple⟩
  held := held
  parts loc object property computed opt same := by simp [same, isWhole] at whole
  inner loc arg same := by simp [same, isWhole] at whole

lemma compiled_of_refused {e : Expr} (never : e.isCovered true = false) (loc : Location)
    {code : Lower Operand}
    (runs : ∀ s : Lowering, s.Sound → Runs code s fun a s' => s.Moves s' { given := [a] })
    (same : ∀ d, Lowering.exprCode e d = (do Lowering.settle (some loc) (← code) d))
    (whole : e.isWhole = true) : e.Compiled rt := by
  have refused : ¬e.isCovered true = true := by simp [never]
  exact compiled_of_meets ((Lowering.settle_meets rt (Lowering.gives_uncovered refused runs)
    (some loc)).of_eq same fun _ => rfl) (fun known => absurd known refused) whole

end Expr

namespace Lowering

variable {V : Type} {rt : Runtime V} {s s' : Lowering}

lemma ident_compiled (rt : Runtime V) (loc : Location) (name : String) :
    (Expr.ident loc name).Compiled rt := by
  refine Expr.compiled_of_meets (((settle_meets rt (nameValue_gives rt loc name) (some loc)).weaken
    fun _ => trivial).of_eq (fun d => ?_) fun _ => ?_) (fun _ => ?_) rfl
  · simp only [exprCode, bind_assoc]
  · rw [Expr.eval]
  · simpa only [exprCode, settle, bind_pure, Expr.aliases] using name_heldBy (V := V) loc name

lemma literal_compiled (rt : Runtime V) (loc : Location) (lit : LiteralSyntax) :
    (Expr.literal loc lit).Compiled rt := by
  refine Expr.compiled_of_meets (((settle_meets rt (literalValue_gives rt loc lit) none).weaken
    fun known => ?_).of_eq (fun d => ?_) fun _ => ?_) (fun _ => ?_) rfl
  · simpa only [Expr.isCovered] using known
  · rw [exprCode]
  · rw [Expr.eval]
  · simpa only [exprCode, settle, bind_pure] using (copies_literalValue loc lit).heldBy _

lemma receiver_compiled (rt : Runtime V) (loc : Location) : (Expr.receiver loc).Compiled rt := by
  refine Expr.compiled_of_meets (((settle_meets rt (receiver_gives rt) (some loc)).weaken
    fun _ => trivial).of_eq (fun d => ?_) fun _ => ?_) (fun _ => ?_) rfl
  · simp only [exprCode, pure_bind]
  · rw [Expr.eval]
  · have copies : Copies (exprCode (.receiver loc) .value) := by
      exact .pure (by simp [Routine.receiver])
    exact copies.heldBy _

/-! ## Places -/

lemma memberCode_spec {object property : Expr} (object_spec : object.Executed rt)
    (property_spec : property.Executed rt) (computed isOptional : Bool) :
    MemberCode.Spec rt
      { object := object.lowered, property := property.lowered, computed, isOptional }
      (object.isCovered true = true)
      ((if computed then property.isCovered true else property.name?.isSome) = true)
      (fun ctx => object.eval rt ctx) (property.evalProperty rt computed) where
  object := object_spec
  key s sound := by
    cases computed with
    | true => exact property_spec.value sound
    | false =>
      simp only [MemberCode.evalKey, Bool.false_eq_true, ↓reduceIte]
      cases named : property.name? with
      | some name =>
        refine Runs.pure ⟨(Moves.refl sound).give_constant _, fun _ => ?_⟩
        refine (Moves.refl sound).executes (Quiet.refl s) fun ctx m _ => ?_
        rw [Expr.evalProperty, named]
        rfl
      | none =>
        refine (error_reports sound _ _).step ?_
        rintro _ s' ⟨reports, _⟩
        exact Runs.pure ⟨reports.moves.give_constant .undefined, fun known => by cases known⟩
  simple covered simple ctx w := by
    cases computed with
    | true =>
      refine property_spec.simple covered ?_ ctx w
      simpa using simple
    | false => exact ⟨_, rfl⟩

/-- Whether an expression names no place. -/
structure Placeless (rt : Runtime V) (e : Expr) : Prop where
  unnamed : e.name? = none
  other : e.isMember = false
  reference : e.asPlace.reference = .pattern ∨ e.asPlace.reference = .other
  site : ∀ ctx : Context V, e.evalSite rt ctx = pure .nowhere

lemma place_cases (rt : Runtime V) (e : Expr) : (∃ loc name, e = .ident loc name) ∨
      (∃ loc object property computed opt,
        e = .member loc object property computed opt) ∨ Placeless rt e := by
  cases e with
  | ident loc name => exact .inl ⟨loc, name, rfl⟩
  | member loc object property computed opt => exact .inr (.inl ⟨_, _, _, _, _, rfl⟩)
  | _ =>
    refine .inr (.inr ⟨rfl, rfl, ?_, fun ctx => ?_⟩)
    · simp [referenceOf]
    · simp only [Expr.evalSite]

def evalCalled (rt : Runtime V) (callee : Expr) : Action V (V × V) := fun ctx => do
  match ← callee.evalSite rt ctx with
  | .member object key => pure (← Evaluation.request rt (.get object key), object)
  | _ => pure (← callee.eval rt ctx, rt.undefined)

section

variable {e : Expr} (compiled : e.Compiled rt)
include compiled

lemma place_evaluates :
    e.asPlace.Evaluates rt (e.isCovered true = true ∧ (e.name?.isSome || e.isMember) = true)
      fun ctx => e.evalSite rt ctx := by
  obtain ⟨loc, name, rfl⟩ | ⟨loc, object, property, computed, opt, rfl⟩ | placeless :=
    place_cases rt e
  · have evaluates := Place.evaluates_name rt (Expr.ident loc name).lowered name
    exact evaluates.weaken fun _ => trivial
  · obtain ⟨object_spec, property_spec⟩ := compiled.parts _ _ _ _ _ rfl
    have evaluates := Place.evaluates_member
      (Expr.member loc object property computed opt).lowered
      (memberCode_spec object_spec property_spec computed opt)
    simp only [Expr.asPlace, referenceOf, Expr.evalSite_member]
    refine evaluates.weaken fun known => ?_
    simpa [Expr.isCovered, and_assoc] using known.1
  · have invalid : e.asPlace.isPlace = false := by
      rcases placeless.reference with pattern | other
      · rw [Place.isPlace, pattern]
      · rw [Place.isPlace, other]
    refine (Place.evaluates_invalid (p := e.asPlace) compiled.spec invalid).weaken fun known => ?_
    simp [placeless.unnamed, placeless.other] at known

lemma callee_ready (argsSimple : Bool) (sound : s.Sound) :
    Runs (evalCallee e.asPlace argsSimple) s fun c s' =>
      s.CalleeReady rt s' false argsSimple c (e.isCovered true = true) (evalCalled rt e) := by
  unfold evalCalled
  obtain ⟨loc, name, rfl⟩ | ⟨loc, object, property, computed, opt, rfl⟩ | placeless :=
    place_cases rt e
  · have ready := evalCallee_value (p := (Expr.ident loc name).asPlace)
      (by simp [referenceOf]) compiled.spec argsSimple sound
    exact ready
  · obtain ⟨object_spec, property_spec⟩ := compiled.parts _ _ _ _ _ rfl
    have ready := evalCallee_member (Expr.member loc object property computed opt).lowered
      (memberCode_spec object_spec property_spec computed opt) argsSimple sound
    simp only [Expr.asPlace, referenceOf, Expr.evalSite_member, bind_assoc, pure_bind]
    refine ready.mono fun c s' ready => ready.weaken fun known => ?_
    have parts := known
    simp only [Expr.isCovered, Bool.and_eq_true] at parts
    exact ⟨parts.1.2, parts.2⟩
  · have other (m : MemberCode) : e.asPlace.reference ≠ .member m := by
      rcases placeless.reference with same | same <;> rw [same] <;> simp
    have ready := evalCallee_value (p := e.asPlace) other compiled.spec argsSimple sound
    simp only [placeless.site, pure_bind]
    exact ready

lemma delete_gives : Gives rt e.asPlace.delete (e.isCovered true = true) (fun ctx => do
      match ← e.evalSite rt ctx with
      | .member object key => Evaluation.request rt (.delete object key)
      | .name _ => pure (rt.ofConstant (.boolean false))
      | .nowhere =>
        let _ ← e.eval rt ctx
        pure (rt.ofConstant (.boolean true))) := by
  obtain ⟨loc, name, rfl⟩ | ⟨loc, object, property, computed, opt, rfl⟩ | placeless :=
    place_cases rt e
  · intro s sound
    refine (strictError_reports sound _ _).step ?_
    rintro _ s' ⟨moves, quiet, _, _⟩
    refine .pure ⟨moves.give_constant _, fun _ => ?_⟩
    exact moves.executes quiet fun ctx m _ => rfl
  · obtain ⟨object_spec, property_spec⟩ := compiled.parts _ _ _ _ _ rfl
    have gives := (memberCode_spec object_spec property_spec computed opt).delete
    simp only [Place.delete, referenceOf, Expr.evalSite_member, bind_assoc, pure_bind]
    refine gives.weaken fun known => ?_
    simp only [Expr.isCovered, Bool.and_eq_true] at known
    exact ⟨known.1.2, known.2⟩
  · have same : e.asPlace.delete = (do
        e.lowered.discard
        pure (.constant (.boolean true))) := by
      rcases placeless.reference with same | same <;> rw [Place.delete, same]
    intro s sound
    simp only [same, placeless.site, pure_bind]
    refine (compiled.spec.discard sound).step ?_
    rintro _ s' ⟨moves, executes⟩
    refine .pure ⟨moves.give_constant _, fun known => ?_⟩
    refine ⟨(executes known).follows, fun ctx m suits => ?_⟩
    refine ((executes known).performs ctx m suits).bind fun x m1 _ _ _ => ?_
    exact .stays moves.sound rfl

end

/-! ## Operators and assignments -/

lemma unary_compiled {arg : Expr} (compiled : arg.Compiled rt) (loc : Location)
    (op : UnaryOp) : (Expr.unary loc op arg).Compiled rt := by
  have inner (known : (Expr.unary loc op arg).isCovered true = true) :
      arg.isCovered true = true := by
    simp only [Expr.isCovered, Bool.and_eq_true] at known
    exact known.2
  by_cases deletes : op = .delete
  · subst deletes
    refine Expr.compiled_of_meets (((settleUnary_meets (delete_gives compiled) loc).weaken
      inner).of_eq (fun d => ?_) fun ctx => ?_) (fun _ => ?_) rfl
    · rw [exprCode, deleteCode]
    · rfl
    · exact (copies_deleteCode loc arg.asPlace).heldBy _
  · refine Expr.compiled_of_meets (((operatorCode_meets rt compiled.spec loc deletes).weaken
      inner).of_eq (fun d => ?_) fun ctx => ?_) (fun _ => ?_) rfl
    · rw [exprCode]
      exact deletes
    · rw [Expr.eval]
      exact deletes
    · rw [exprCode]
      · exact (copies_operatorCode loc op arg.lowered).heldBy _
      · exact deletes

lemma update_compiled {arg : Expr} (compiled : arg.Compiled rt) (loc : Location)
    (op : UpdateOp) (keepsOld : Bool) : (Expr.update loc op keepsOld arg).Compiled rt := by
  refine Expr.compiled_of_meets ((updateCode_meets (place_evaluates compiled) loc op
    keepsOld).weaken fun known => ?_) (fun _ => ?_) rfl
  · simp only [Expr.isCovered, Bool.and_eq_true] at known
    exact ⟨known.2, known.1⟩
  · exact (copies_updateCode loc op keepsOld arg.asPlace).heldBy _

section

variable {left right : Expr} (left_compiled : left.Compiled rt) (right_compiled : right.Compiled rt)
include left_compiled right_compiled

variable (loc : Location)

lemma binary_compiled (op : BinaryOp) :
    (Expr.binary loc op left right).Compiled rt := by
  refine Expr.compiled_of_meets ((binaryCode_meets left_compiled.spec right_compiled.spec loc
    op).weaken fun known => ?_) (fun _ => ?_) rfl
  · simpa [Expr.isCovered, and_assoc] using known
  · have copies : Copies (binaryCode loc op left.lowered right.lowered .value) :=
      .bind fun _ => .bind fun a => .bind fun b => copies_applyBinary op a b loc
    exact copies.heldBy _

lemma logical_compiled (op : LogicalOp) :
    (Expr.logical loc op left right).Compiled rt := by
  refine Expr.compiled_of_meets ((logicalCode_meets left_compiled.spec right_compiled.spec loc
    op).weaken fun known => ?_) (fun _ => ?_) rfl
  · simpa [Expr.isCovered] using known
  · exact (copies_logicalValue op left.lowered right.lowered).heldBy _

lemma assign_heldBy (op : AssignOp)
    (covered : (Expr.assign loc op left right).isCovered true = true) :
    HeldBy V (exprCode (.assign loc op left right) .value)
      (Expr.assign loc op left right).aliases := by
  obtain ⟨⟨⟨other, place⟩, first⟩, second⟩ :
      ((op ≠ .power ∧ (left.name?.isSome || left.isMember) = true) ∧
        left.isCovered true = true) ∧ right.isCovered true = true := by
    simpa [Expr.isCovered] using covered
  rw [exprCode, assignCode]
  simp only [settle, bind_pure, Demand.needsValue, Expr.aliases]
  cases plan : op.plan with
  | plain =>
    intro s a s' sound run
    obtain ⟨-, assigned⟩ := (assignPlain_spec (place_evaluates left_compiled) right_compiled.spec
      sound true).holds_of_run run
    obtain ⟨-, assigns⟩ := assigned ⟨⟨first, place⟩, second⟩
    exact (assigns rfl).named place fun _ => right_compiled.held second
  | combined binary =>
    intro s a s' sound run
    obtain ⟨-, assigned⟩ := (assignCombined_spec (place_evaluates left_compiled)
      right_compiled.spec sound loc binary true).holds_of_run run
    obtain ⟨-, assigns⟩ := assigned ⟨AssignOp.combined_ne_power plan other, ⟨first, place⟩, second⟩
    have copies (old : Operand) : Copies (do
        let value ← right.lowered.value
        applyBinary binary old value loc .value) := .bind fun b =>
          copies_applyBinary binary old b loc
    refine ((assigns rfl).named place fun old => (copies old).heldBy []).mono ?_
    simp
  | logical op => exact (copies_assignLogical op left.asPlace right.lowered).heldBy _

lemma assign_compiled (op : AssignOp) :
    (Expr.assign loc op left right).Compiled rt := by
  refine Expr.compiled_of_meets ((assignCode_meets (place_evaluates left_compiled)
    right_compiled.spec loc op).weaken fun known => ?_)
      (assign_heldBy left_compiled right_compiled loc op) rfl
  · simp only [Expr.isCovered, Bool.and_eq_true, bne_iff_ne] at known
    exact ⟨known.1.1.1, ⟨known.1.2, known.1.1.2⟩, known.2⟩

end

lemma conditional_compiled {test whenTrue whenFalse : Expr} (test_compiled : test.Compiled rt)
    (true_compiled : whenTrue.Compiled rt) (false_compiled : whenFalse.Compiled rt)
    (loc : Location) : (Expr.conditional loc test whenTrue whenFalse).Compiled rt := by
  refine Expr.compiled_of_meets ((conditionalCode_meets test_compiled.spec true_compiled.spec
    false_compiled.spec).weaken fun known => ?_) (fun _ => ?_) rfl
  · simpa [Expr.isCovered, and_assoc] using known
  · exact (copies_conditionalCode test.lowered whenTrue.lowered whenFalse.lowered).heldBy _

section

variable {items : List Expr} (compiled : ∀ e ∈ items, e.Compiled rt)
include compiled

lemma sequenceCode_listCodes (some_item : items ≠ []) :
    Meets rt (sequenceCode (listCodes items)) (areCovered true items = true)
      fun ctx => evalSequence rt ctx items := by
  induction items with
  | nil => exact absurd rfl some_item
  | cons first rest ih =>
    cases rest with
    | nil =>
      refine ((compiled first (by simp)).spec.runs.weaken fun known => ?_).of_eq (fun d => ?_)
        fun ctx => ?_
      · simpa [areCovered] using known
      · simp only [listCodes, sequenceCode]
      · rw [evalSequence]
    | cons second rest =>
      have rest_meets := ih (fun e mem => compiled e (by simp_all)) (by simp)
      refine ((sequenceCode_meets (compiled first (by simp)).spec rest_meets).weaken
        fun known => ?_).of_eq (fun d => ?_) fun ctx => ?_
      · simpa only [areCovered, Bool.and_eq_true] using known
      · simp only [listCodes]
      · rw [evalSequence]
        simp

lemma sequenceCode_heldBy (covered : areCovered true items = true) :
    HeldBy V (sequenceCode (listCodes items) .value) (lastAliases items) := by
  induction items with
  | nil =>
    intro s a s' _ run
    cases run
  | cons first rest ih =>
    obtain ⟨here, after⟩ : first.isCovered true = true ∧ areCovered true rest = true := by
      simpa only [areCovered, Bool.and_eq_true] using covered
    have held := ih (fun e mem => compiled e (by simp [mem])) after
    cases rest with
    | nil =>
      simpa only [listCodes, sequenceCode, lastAliases] using (compiled first (by simp)).held here
    | cons second rest =>
      intro s a s' sound run
      obtain ⟨_, s1, discarded, run⟩ := Runs.bind_eq_ok.mp run
      obtain ⟨moves, -⟩ := ((compiled first (by simp)).spec.discard sound).holds_of_run discarded
      exact held s1 a s' moves.sound run

lemma sequence_compiled (some_item : items ≠ []) (loc : Location) :
    (Expr.sequence loc items).Compiled rt := by
  have inner (known : (Expr.sequence loc items).isCovered true = true) :
      areCovered true items = true := by
    simp only [Expr.isCovered, Bool.and_eq_true] at known
    exact known.2
  refine Expr.compiled_of_meets ((sequenceCode_listCodes compiled some_item).weaken inner)
    (fun known => ?_) rfl
  · simpa only [exprCode, Expr.aliases] using sequenceCode_heldBy compiled (inner known)

end

/-! ## Members, literals and constructors -/

lemma member_compiled {object property : Expr} (object_compiled : object.Compiled rt)
    (property_compiled : property.Compiled rt) (loc : Location) (computed isOptional : Bool) :
    (Expr.member loc object property computed isOptional).Compiled rt := by
  have spec := memberCode_spec object_compiled.spec property_compiled.spec computed isOptional
  refine ⟨⟨((settle_meets rt (spec.read loc) (some loc)).weaken fun known => ?_).of_eq (fun d => ?_)
    fun ctx => ?_, fun covered simple => Expr.eval_simple covered simple⟩, fun _ => ?_, ?_, nofun⟩
  · simp only [Expr.isCovered, Bool.and_eq_true, Bool.not_eq_true'] at known
    exact ⟨known.1.1.2, known.1.2, known.2⟩
  · simp only [exprCode]
  · rw [Expr.eval_member]
  · simpa only [exprCode, settle, bind_pure] using (copies_read _ loc).heldBy _
  · rintro _ _ _ _ _ ⟨⟩
    exact ⟨object_compiled.spec, property_compiled.spec⟩

lemma length_elementCodes (elements : List (Option Expr)) :
    (elementCodes elements).length = elements.length := by
  induction elements with
  | nil => simp [elementCodes]
  | cons first rest ih => cases first <;> simp [elementCodes, ih]

section

variable {elements : List (Option Expr)} (compiled : ∀ e, some e ∈ elements → e.Compiled rt)
include compiled

lemma elementCodes_puts :
    PutsElements rt (elementCodes elements) (areElementsCovered true elements = true)
      fun array index ctx => evalElements rt ctx array index elements := by
  induction elements with
  | nil => simpa only [elementCodes, evalElements] using PutsElements.nil
  | cons first rest ih =>
    have puts := ih fun e mem => compiled e (by simp [mem])
    cases first with
    | none => simpa only [elementCodes, evalElements, areElementsCovered] using puts.hole
    | some e =>
      have plain (known : e.isCovered true = true) : e.isSpread = false := by
        cases e <;> simp_all [Expr.isCovered, Expr.isSpread]
      have puts := PutsElements.cons (compiled e (by simp)).spec puts plain
      simpa only [elementCodes, evalElements, areElementsCovered, Bool.and_eq_true] using puts

lemma array_compiled (loc : Location) : (Expr.array loc elements).Compiled rt := by
  refine Expr.compiled_of_meets (((settle_meets rt (arrayValue_gives (elementCodes_puts compiled))
    (some loc)).weaken fun known => ?_).of_eq (fun d => ?_) fun ctx => ?_) (fun _ => ?_) rfl
  · simpa [Expr.isCovered] using known
  · rw [exprCode]
  · rw [Expr.eval, length_elementCodes]
  · simpa only [exprCode, settle, bind_pure] using (copies_arrayValue _).heldBy _

end

end Lowering

def Member.Compiled {V : Type} (rt : Runtime V) : Member → Prop
  | .property _ key value _ _ => key.Compiled rt ∧ value.Compiled rt
  | .spread _ argument => argument.Compiled rt

namespace Lowering

variable {V : Type} {rt : Runtime V} {s s' : Lowering}

lemma keyCovered_of_isCovered {key value : Expr} (compiled : key.Compiled rt) {computed : Bool}
    (covered : (if computed then
      key.isCovered true && key.aliases.all fun name => !value.assigns name
      else key.plainKey?.isSome) = true) :
    KeyCovered key.lowered computed (key.isCovered true = true) fun ctx => value.eval rt ctx := by
  cases computed with
  | true =>
    obtain ⟨known, apart⟩ : key.isCovered true = true ∧
        ∀ name ∈ key.aliases, value.assigns name = false := by simpa using covered
    exact ⟨known, spares_of_heldBy compiled.spec (compiled.held known) apart⟩
  | false => simpa [KeyCovered] using covered

lemma evalMembers_property (ctx : Context V) (object : V) (loc : Location) (key value : Expr)
    (kind : PropertyKind) (computed : Bool) (rest : List Member) :
    evalMembers rt ctx object (.property loc key value kind computed :: rest) = (do
      let k ← keyOf rt key.lowered computed (fun ctx => key.eval rt ctx) ctx
      let x ← value.eval rt ctx
      let _ ← Evaluation.ask rt (.put object k x)
      evalMembers rt ctx object rest) := by
  cases computed <;> simp [evalMembers, keyOf]

lemma memberCodes_puts {members : List Member} (compiled : ∀ m ∈ members, m.Compiled rt) :
    PutsMembers rt (memberCodes members) (areMembersCovered true members = true)
      fun object ctx => evalMembers rt ctx object members := by
  induction members with
  | nil => simpa only [memberCodes, evalMembers] using PutsMembers.nil
  | cons first rest ih =>
    have puts := ih fun m member => compiled m (by simp [member])
    cases first with
    | property loc key value kind computed =>
      obtain ⟨key_compiled, value_compiled⟩ :
          key.Compiled rt ∧ value.Compiled rt := compiled _ List.mem_cons_self
      have property : PutsMembers rt
          (.property loc key.lowered value.lowered kind computed :: memberCodes rest) _ _ :=
        .property key_compiled.spec value_compiled.spec puts loc kind
      have covers (known : areMembersCovered true (.property loc key value kind computed :: rest) =
          true) : kind = .init ∧ value.isCovered true = true ∧ areMembersCovered true rest = true ∧
            KeyCovered key.lowered computed (key.isCovered true = true) fun ctx =>
              value.eval rt ctx := by
        simp only [areMembersCovered, Bool.and_eq_true, beq_iff_eq] at known
        obtain ⟨⟨⟨plain, covered⟩, after⟩, keys⟩ := known
        exact ⟨plain, covered, after, keyCovered_of_isCovered key_compiled keys⟩
      simp only [memberCodes, evalMembers_property]
      exact property.weaken covers
    | spread loc argument =>
      have argument_compiled : argument.Compiled rt := compiled _ List.mem_cons_self
      refine puts.refused (fun a s sound => ?_) (by simp [areMembersCovered])
      refine (argument_compiled.spec.discard sound).step fun _ s1 ⟨moves, _⟩ => ?_
      exact (notSupported_reports moves.sound _ _).mono fun _ s2 ⟨reports, _⟩ =>
        moves.andThen reports.moves

lemma object_compiled {ms : List Member} (compiled : ∀ m ∈ ms, m.Compiled rt)
    (loc : Location) : (Expr.object loc ms).Compiled rt := by
  refine Expr.compiled_of_meets ((settle_meets rt (objectValue_gives (memberCodes_puts compiled))
    (some loc)).weaken fun known => ?_) (fun _ => ?_) rfl
  · simpa [Expr.isCovered] using known
  · simpa only [exprCode, settle, bind_pure] using (copies_objectValue _).heldBy _

lemma argumentCodes_spec {args : List Expr} (compiled : ∀ e ∈ args, e.Compiled rt) :
    ArgumentsSpec rt (argumentCodes args) (areCovered true args = true)
      fun ctx => evalAll rt ctx args := by
  induction args with
  | nil => simpa only [argumentCodes, evalAll] using ArgumentsSpec.nil
  | cons first rest ih =>
    have others := ih fun e mem => compiled e (by simp [mem])
    have first_compiled := compiled first (by simp)
    by_cases spreads : ∃ loc arg, first = .spread loc arg
    · obtain ⟨loc, arg, rfl⟩ := spreads
      exact .spread (first_compiled.inner _ _ rfl) others loc
        (by simp [areCovered, Expr.isCovered]) _
    · have value : argumentCode first (exprCode first) = .value first.lowered := by
        cases first with
        | spread loc arg => exact absurd ⟨loc, arg, rfl⟩ spreads
        | _ => simp [argumentCode]
      simpa only [argumentCodes, value, evalAll, areCovered, Bool.and_eq_true] using
        ArgumentsSpec.cons first_compiled.spec others

lemma construct_compiled {callee : Expr} {args : List Expr} (compiled : callee.Compiled rt)
    (args_compiled : ∀ e ∈ args, e.Compiled rt) (loc : Location) :
    (Expr.construct loc callee args).Compiled rt := by
  have yields := constructValue_yields compiled.spec (argumentCodes_spec args_compiled)
  refine Expr.compiled_of_meets ((settleNeeded_meets yields (some loc)).weaken fun known =>
    ?_) (fun _ => ?_) rfl
  · simpa [Expr.isCovered] using known
  · have copies : Copies (constructValue callee.lowered (argumentCodes args) true) :=
      .bind fun _ => .bind fun a => .bind fun operands => copies_emitCall _ _ _ _
    simp only [exprCode, settle, bind_pure]
    exact copies.heldBy _

/-! ## Expressions that are refused -/

lemma discardAll_moves {items : List Expr} (executed : ∀ e ∈ items, e.Executed rt)
    {s : Lowering} (sound : s.Sound) :
    Runs (discardAll (listCodes items)) s fun _ s' => s.Moves s' {} := by
  induction items generalizing s with
  | nil => exact .pure (.refl sound)
  | cons first rest ih =>
    refine ((executed first (by simp)).discard sound).step fun _ s1 ⟨moves, _⟩ => ?_
    exact (ih (fun e mem => executed e (by simp [mem])) moves.sound).mono fun _ s2 after =>
      moves.andThen after

lemma refused_moves {before : Lower PUnit}
    (runs : ∀ s : Lowering, s.Sound → Runs before s fun _ s' => s.Moves s' {}) (loc : Location)
    (what : String) (s : Lowering) (sound : s.Sound) :
    Runs (do before; refuse loc what) s fun a s' => s.Moves s' { given := [a] } := by
  refine (runs s sound).step fun _ s1 moves => ?_
  exact (refuse_moves moves.sound loc what).mono fun a s2 ⟨_, refused⟩ => moves.andThen refused

end Lowering
end Scriptc
