import Scriptc.Proofs.Lowering.Functions
import Scriptc.Proofs.Lowering.NativeCalls
import Scriptc.Proofs.Lowering.Regions

/-!
# Syntax trees

If no sequence is empty, the code of an expression executes it as far as it is covered, the code of
a statement leaves the state in order, and the code of a function makes a routine.
-/

namespace Scriptc

open List

/-! ## Trees without empty sequences -/

mutual

def Expr.isProper : Expr → Bool
  | .ident .. | .literal .. | .receiver .. | .arrow .. => true
  | .objectPattern .. | .arrayPattern .. => true
  | .array _ elements => areElementsProper elements
  | .object _ members => areMembersProper members
  | .function _ func => func.isProper
  | .classDef _ _ superClass => isOptionProper superClass
  | .unary _ _ argument | .update _ _ _ argument | .spread _ argument => argument.isProper
  | .awaitValue _ argument => argument.isProper
  | .binary _ _ left right | .logical _ _ left right => left.isProper && right.isProper
  | .assign _ _ left right => left.isProper && right.isProper
  | .conditional _ test whenTrue whenFalse =>
    test.isProper && whenTrue.isProper && whenFalse.isProper
  | .call _ callee args _ | .construct _ callee args => callee.isProper && areProper args
  | .member _ object property _ _ => object.isProper && property.isProper
  | .sequence _ items => !items.isEmpty && areProper items
  | .template _ values => areProper values
  | .taggedTemplate _ tag values => tag.isProper && areProper values
  | .yieldValue _ argument => isOptionProper argument

def isOptionProper : Option Expr → Bool
  | none => true
  | some e => e.isProper

def areProper : List Expr → Bool
  | [] => true
  | e :: rest => e.isProper && areProper rest

def areElementsProper : List (Option Expr) → Bool
  | [] => true
  | none :: rest => areElementsProper rest
  | some e :: rest => e.isProper && areElementsProper rest

def areMembersProper : List Member → Bool
  | [] => true
  | .property _ key value _ _ :: rest => key.isProper && value.isProper && areMembersProper rest
  | .spread _ argument :: rest => argument.isProper && areMembersProper rest

def Func.isProper : Func → Bool
  | .mk _ _ body _ _ => isBodyProper body

def Stmt.isProper : Stmt → Bool
  | .empty _ | .breakTo .. | .continueTo .. | .debugger _ => true
  | .block _ body => isBodyProper body
  | .expression _ e _ => e.isProper
  | .ifElse _ test whenTrue whenFalse =>
    test.isProper && whenTrue.isProper && isBranchProper whenFalse
  | .labeled _ _ body => body.isProper
  | .withObject _ object body => object.isProper && body.isProper
  | .switch _ discriminant cases => discriminant.isProper && areCasesProper cases
  | .returnValue _ argument => isOptionProper argument
  | .throwValue _ argument => argument.isProper
  | .tryCatch _ block handler finalizer =>
    isBodyProper block && isHandlerProper handler && isFinalizerProper finalizer
  | .whileLoop _ test body | .doWhile _ body test => test.isProper && body.isProper
  | .forLoop _ init test update body =>
    isInitProper init && isOptionProper test && isOptionProper update && body.isProper
  | .forIn _ head object body => head.isProper && object.isProper && body.isProper
  | .forOf _ _ object body => object.isProper && body.isProper
  | .function _ func => func.isProper
  | .varDecl _ _ declarators => areDeclaratorsProper declarators
  | .classDef _ _ superClass => isOptionProper superClass

def isBodyProper : List Stmt → Bool
  | [] => true
  | s :: rest => s.isProper && isBodyProper rest

def isBranchProper : Option Stmt → Bool
  | none => true
  | some s => s.isProper

def isFinalizerProper : Option (List Stmt) → Bool
  | none => true
  | some body => isBodyProper body

def areCasesProper : List SwitchCase → Bool
  | [] => true
  | .mk test body :: rest => isOptionProper test && isBodyProper body && areCasesProper rest

def isHandlerProper : Option Handler → Bool
  | none => true
  | some (.mk _ body) => isBodyProper body

def ForHead.isProper : ForHead → Bool
  | .declaration _ _ declarators => areDeclaratorsProper declarators
  | .target e => e.isProper

def isInitProper : Option ForHead → Bool
  | none => true
  | some head => head.isProper

def areDeclaratorsProper : List Declarator → Bool
  | [] => true
  | .mk _ _ init :: rest => isOptionProper init && areDeclaratorsProper rest

end

/-! ## What is known of the code of each kind of tree -/

namespace Lowering

open Bool (and_elim_left and_elim_right)

variable {V : Type} (rt : Runtime V)

/-- What the code of an expression does, also where it is a list of bindings or an entry of one. -/
structure Lowers (e : Expr) : Prop extends e.Compiled rt where
  second : ∀ x, e.second? = some x → x.Compiled rt
  entries : SecondsCompiled rt (e.elements?.getD [])

/-- What the code of a statement does, and that of the functions it declares. -/
structure StmtLowers (s : Stmt) : Prop where
  proceeds : StmtProceeds (stmtCode s)
  functions : ∀ lower ∈ declaredFunctions s, Nesting lower

/-- What the code of statements does, and that of the functions they declare. -/
structure BodyLowers (body : List Stmt) : Prop where
  proceeds : Proceeds (stmtsCode body)
  functions : ∀ lower ∈ functionCodes body, Nesting lower

variable {rt}

lemma lowers_of_compiled {e : Expr} (compiled : e.Compiled rt) (plain : e.elements? = none) :
    Lowers rt e where
  toCompiled := compiled
  second x same := by simp [Expr.second?, plain] at same
  entries := by simp [plain, SecondsCompiled]

lemma array_lowers {elements : List (Option Expr)}
    (lowers : ∀ e, some e ∈ elements → Lowers rt e) (loc : Location) :
    Lowers rt (.array loc elements) where
  toCompiled := array_compiled (fun e member => (lowers e member).toCompiled) loc
  second x same := by
    obtain ⟨_, a, same⟩ := array_of_second same
    obtain ⟨-, rfl⟩ := Expr.array.inj same
    exact (lowers x (by simp)).toCompiled
  entries e member := (lowers e member).second

lemma argumentsCompiled {args : List Expr} (lowers : ∀ e ∈ args, Lowers rt e) :
    ArgumentsCompiled rt args where
  values e member := (lowers e member).toCompiled
  lists e member := (lowers e member).entries

lemma optionCode_eq (e : Option Expr) : optionCode e = e.map Expr.lowered := by
  cases e <;> rw [optionCode] <;> rfl

section

variable {e : Option Expr} (lowers : ∀ x ∈ e, Lowers rt x)
include lowers

lemma option_spec {code : Lowered} (mem : code ∈ optionCode e) :
    ∃ covered eval, code.Spec rt covered eval := by
  rw [optionCode_eq] at mem
  obtain ⟨x, found, rfl⟩ := Option.map_eq_some_iff.mp mem
  exact ⟨_, _, (lowers x found).spec⟩

lemma same_spec : ∃ covered eval, ∀ code ∈ optionCode e, code.Spec rt covered eval := by
  cases e with
  | none => exact ⟨True, fun _ => pure rt.undefined, nofun⟩
  | some x =>
    refine ⟨x.isCovered true = true, fun ctx => x.eval rt ctx, fun code mem => ?_⟩
    cases mem
    exact (lowers x rfl).spec

lemma optionEffects_moves {s : Lowering} (sound : s.Sound) :
    Runs (discardOption (optionCode e)) s fun _ s' => s.Moves s' {} :=
  discardOption_moves (fun _ mem => option_spec lowers mem) sound

end

lemma nothing_moves {s : Lowering} (sound : s.Sound) :
    Runs (pure () : Lower PUnit) s fun _ s' => s.Moves s' {} :=
  Runs.pure (Moves.refl sound)

lemma funcCode_nesting {func : Func} (lowers : BodyLowers func.body) : Nesting (funcCode func) := by
  obtain ⟨name, params, body, isGenerator, isAsync⟩ := func
  have nesting : Nesting (lowerFunction (.mk name params body isGenerator isAsync)
      ⟨declarationsOf body, functionCodes body, stmtsCode body⟩) :=
    lowerFunction_nesting _ ⟨lowers.functions, lowers.proceeds⟩
  intro title loc scope
  exact nesting title loc scope

lemma function_compiled {func : Func} (nesting : Nesting (funcCode func)) (loc : Location) :
    (Expr.function loc func).Compiled rt := by
  refine Expr.compiled_of_refused (by simp [Expr.isCovered]) loc
    (fun s sound => functionValue_moves rt func loc nesting sound) (fun d => ?_) rfl
  rw [exprCode]

lemma refused_lowers {e : Expr}
    (plain : e.isCovered true = false ∧ e.isWhole = true ∧ e.elements? = none)
      {before : Lower PUnit}
    (runs : ∀ s : Lowering, s.Sound → Runs before s fun _ s' => s.Moves s' {}) (loc : Location)
    (what : String)
    (same : ∀ d, exprCode e d = (do before; settle (some loc) (← refuse loc what) d)) :
    Lowers rt e :=
  lowers_of_compiled (Expr.compiled_of_refused plain.1 loc (refused_moves runs loc what)
    (fun d => by rw [same, bind_assoc]) plain.2.1) plain.2.2

lemma spread_compiled {arg : Expr} (compiled : arg.Compiled rt) (loc : Location) :
    (Expr.spread loc arg).Compiled rt := by
  have never : ¬(Expr.spread loc arg).isCovered true = true := by simp [Expr.isCovered]
  have all : ∀ e ∈ [arg], e.Executed rt := by simpa using compiled.spec
  have discards (s : Lowering) (sound : s.Sound) :
      Runs (discardAll [arg.lowered]) s fun _ s' => s.Moves s' {} := by
    simpa only [listCodes] using discardAll_moves all sound
  have gives : Gives rt _ _ fun ctx => (Expr.spread loc arg).eval rt ctx :=
    gives_uncovered never (refused_moves discards loc "spread element")
  refine ⟨⟨(settle_meets rt gives (some loc)).of_eq (fun d => ?_) fun _ => rfl,
    fun covered => absurd covered never⟩, fun covered => absurd covered never, by simp, ?_⟩
  · simp only [exprCode, bind_assoc]
  · rintro _ _ ⟨⟩
    exact compiled.spec

lemma proceeds_of_moves {code : Lower PUnit}
    (runs : ∀ s : Lowering, s.Sound → Runs code s fun _ s' => s.Moves s' {}) : Proceeds code :=
  fun s sound => (runs s sound).mono fun _ _ moves => moves.leaving

lemma notSupported_proceeds (loc : Location) (what : String) : Proceeds (notSupported loc what) :=
  proceeds_of_moves fun _ sound =>
    (notSupported_reports sound loc what).mono fun _ _ ⟨reports, _⟩ => reports.moves

lemma stmtLowers_of_proceeds {s : Stmt} (proceeds : StmtProceeds (stmtCode s))
    (none_declared : declaredFunctions s = []) : StmtLowers s :=
  ⟨proceeds, by simp [none_declared]⟩

lemma target_lowers {e : Expr} (lowers : Lowers rt e) : HeadLowers rt (headCode (.target e)) := by
  exact ⟨⟨_, _, lowers.spec⟩, _, _, place_evaluates lowers.toCompiled⟩

lemma returnValue_proceeds {arg : Option Expr} (lowers : ∀ x ∈ arg, Lowers rt x)
    (loc : Location) : Proceeds (returnCode loc (optionCode arg)) := by
  obtain ⟨covered, eval, spec⟩ := same_spec lowers
  exact returnCode_proceeds spec loc

lemma forLoop_proceeds {init : Option ForHead}
    (init_lowers : ∀ head ∈ headOption init, HeadLowers rt head) {test update : Option Expr}
    (test_lowers : ∀ x ∈ test, Lowers rt x) (update_lowers : ∀ x ∈ update, Lowers rt x)
    {body : StmtCode} (proceeds : StmtProceeds body) (labels : List String) :
    Proceeds (forCode (headOption init) (optionCode test) (optionCode update) body labels) := by
  obtain ⟨covered, eval, spec⟩ := same_spec test_lowers
  exact forCode_proceeds init_lowers spec (fun _ mem => option_spec update_lowers mem)
    proceeds labels

variable (rt)
include rt

set_option linter.unusedSectionVars false in
mutual

theorem expr_lowers : (e : Expr) → e.isProper = true → Lowers rt e
  | .ident loc name, _ => lowers_of_compiled (ident_compiled rt loc name) rfl
  | .literal loc lit, _ => lowers_of_compiled (literal_compiled rt loc lit) rfl
  | .receiver loc, _ => lowers_of_compiled (receiver_compiled rt loc) rfl
  | .array loc es, proper => array_lowers (elements_lower es proper) loc
  | .object loc ms, proper =>
    lowers_of_compiled (object_compiled (members_lower ms proper) loc) rfl
  | .function loc func, proper =>
    lowers_of_compiled (function_compiled (func_nests func proper) loc) rfl
  | .arrow loc params body, _ =>
    refused_lowers ⟨rfl, rfl, rfl⟩ (fun _ => nothing_moves) loc "arrow function" fun _ => rfl
  | .classDef loc name superClass, proper => refused_lowers ⟨rfl, rfl, rfl⟩
      (fun _ => optionEffects_moves (option_lowers superClass proper)) loc "class" fun _ => rfl
  | .unary loc op arg, proper =>
    lowers_of_compiled (unary_compiled (expr_lowers arg proper).toCompiled loc op) rfl
  | .update loc op keepsOld arg, proper =>
    lowers_of_compiled (update_compiled (expr_lowers arg proper).toCompiled loc op keepsOld) rfl
  | .binary loc op left right, proper =>
    lowers_of_compiled (binary_compiled (expr_lowers left (and_elim_left proper)).toCompiled
      (expr_lowers right (and_elim_right proper)).toCompiled loc op) rfl
  | .logical loc op left right, proper =>
    lowers_of_compiled (logical_compiled (expr_lowers left (and_elim_left proper)).toCompiled
      (expr_lowers right (and_elim_right proper)).toCompiled loc op) rfl
  | .assign loc op left right, proper =>
    lowers_of_compiled (assign_compiled (expr_lowers left (and_elim_left proper)).toCompiled
      (expr_lowers right (and_elim_right proper)).toCompiled loc op) rfl
  | .conditional loc test whenTrue whenFalse, proper => by
    simp only [Expr.isProper, Bool.and_eq_true] at proper
    exact lowers_of_compiled (conditional_compiled (expr_lowers test proper.1.1).toCompiled
      (expr_lowers whenTrue proper.1.2).toCompiled (expr_lowers whenFalse proper.2).toCompiled loc)
        rfl
  | .call loc callee args opt, proper =>
    lowers_of_compiled (call_compiled (expr_lowers callee (and_elim_left proper)).toCompiled
      (argumentsCompiled (exprs_lower args (and_elim_right proper))) loc opt) rfl
  | .construct loc callee args, proper =>
    lowers_of_compiled (construct_compiled (expr_lowers callee (and_elim_left proper)).toCompiled
      (argumentsCompiled (exprs_lower args (and_elim_right proper))).values loc) rfl
  | .member loc object property computed opt, proper =>
    lowers_of_compiled (member_compiled (expr_lowers object (and_elim_left proper)).toCompiled
      (expr_lowers property (and_elim_right proper)).toCompiled loc computed opt) rfl
  | .sequence loc items, proper => by
    obtain ⟨some_item, all⟩ : items ≠ [] ∧ areProper items = true := by
      simpa [Expr.isProper] using proper
    exact lowers_of_compiled (sequence_compiled
      (fun e mem => (exprs_lower items all e mem).toCompiled) some_item loc) rfl
  | .template loc values, proper => by
    have lowers := exprs_lower values proper
    exact refused_lowers ⟨rfl, rfl, rfl⟩ (fun _ => discardAll_moves fun e mem =>
      (lowers e mem).spec) loc "template literal" fun _ => rfl
  | .taggedTemplate loc tag values, proper => by
    have lowers := exprs_lower values (and_elim_right proper)
    have all : ∀ e ∈ tag :: values, e.Executed rt := forall_mem_cons.mpr
      ⟨(expr_lowers tag (and_elim_left proper)).spec, fun e mem => (lowers e mem).spec⟩
    exact refused_lowers ⟨rfl, rfl, rfl⟩ (fun _ => discardAll_moves all) loc "tagged template"
      fun _ => rfl
  | .spread loc arg, proper =>
    lowers_of_compiled (spread_compiled (expr_lowers arg proper).toCompiled loc) rfl
  | .yieldValue loc arg, proper => refused_lowers ⟨rfl, rfl, rfl⟩
      (fun _ => optionEffects_moves (option_lowers arg proper)) loc "yield" fun _ => rfl
  | .awaitValue loc arg, proper => by
    have all : ∀ e ∈ [arg], e.Executed rt := by simpa using (expr_lowers arg proper).spec
    exact refused_lowers ⟨rfl, rfl, rfl⟩ (fun _ => discardAll_moves all) loc "await" fun _ => rfl
  | .objectPattern loc _, _ | .arrayPattern loc _, _ =>
    refused_lowers ⟨rfl, rfl, rfl⟩ (fun _ => nothing_moves) loc "destructuring pattern" fun _ => rfl

theorem option_lowers : (e : Option Expr) → isOptionProper e = true → ∀ x ∈ e, Lowers rt x
  | none, _ => nofun
  | some e, proper => by
    rintro _ ⟨⟩
    exact expr_lowers e proper

theorem exprs_lower : (es : List Expr) → areProper es = true → ∀ e ∈ es, Lowers rt e
  | [], _ => nofun
  | first :: rest, proper => by
    simp only [areProper, Bool.and_eq_true] at proper
    exact forall_mem_cons.mpr ⟨expr_lowers first proper.1, exprs_lower rest proper.2⟩

theorem elements_lower : (es : List (Option Expr)) → areElementsProper es = true →
    ∀ e, some e ∈ es → Lowers rt e
  | [], _ => nofun
  | none :: rest, proper => by
    have lowers := elements_lower rest proper
    intro e mem
    exact lowers e (by simpa using mem)
  | some first :: rest, proper => by
    simp only [areElementsProper, Bool.and_eq_true] at proper
    have here := expr_lowers first proper.1
    have lowers := elements_lower rest proper.2
    intro e mem
    rcases mem_cons.mp mem with same | after
    · cases same
      exact here
    · exact lowers e after

theorem members_lower : (ms : List Member) → areMembersProper ms = true →
    ∀ m ∈ ms, m.Compiled rt
  | [], _ => nofun
  | .property loc key value kind computed :: rest, proper => by
    simp only [areMembersProper, Bool.and_eq_true] at proper
    exact forall_mem_cons.mpr
      ⟨⟨(expr_lowers key proper.1.1).toCompiled, (expr_lowers value proper.1.2).toCompiled⟩,
        members_lower rest proper.2⟩
  | .spread loc arg :: rest, proper => by
    simp only [areMembersProper, Bool.and_eq_true] at proper
    exact forall_mem_cons.mpr
      ⟨(expr_lowers arg proper.1).toCompiled, members_lower rest proper.2⟩

theorem func_nests : (func : Func) → func.isProper = true → Nesting (funcCode func)
  | .mk _ _ body _ _, proper => funcCode_nesting (body_lowers body proper)

theorem stmt_lowers : (s : Stmt) → s.isProper = true → StmtLowers s
  | .block loc body, proper => by
    have lowers := body_lowers body proper
    exact ⟨labeledCode_proceeds lowers.proceeds, lowers.functions⟩
  | .empty loc, _ => stmtLowers_of_proceeds (labeledCode_proceeds proceeds_pure) rfl
  | .expression loc e directive, proper => stmtLowers_of_proceeds
      (labeledCode_proceeds (expressionCode_proceeds (expr_lowers e proper).spec loc directive)) rfl
  | .ifElse loc test whenTrue whenFalse, proper => by
    simp only [Stmt.isProper, Bool.and_eq_true] at proper
    have test_lowers := expr_lowers test proper.1.1
    have true_lowers := stmt_lowers whenTrue proper.1.2
    have false_lowers := branch_lowers whenFalse proper.2
    exact ⟨labeledCode_proceeds
        (ifCode_proceeds test_lowers.spec true_lowers.proceeds false_lowers.1),
      forall_mem_append.mpr ⟨true_lowers.functions, false_lowers.2⟩⟩
  | .labeled loc label body, proper => by
    have lowers := stmt_lowers body proper
    exact ⟨labelCode_proceeds lowers.proceeds label, lowers.functions⟩
  | .breakTo loc label, _ =>
    stmtLowers_of_proceeds
      (labeledCode_proceeds fun _ sound => jumpCode_moves sound loc label false) rfl
  | .continueTo loc label, _ =>
    stmtLowers_of_proceeds
      (labeledCode_proceeds fun _ sound => jumpCode_moves sound loc label true) rfl
  | .withObject loc object body, proper => by
    have lowers := stmt_lowers body (and_elim_right proper)
    have all : ∀ e ∈ [object], e.Executed rt := by
      simpa using (expr_lowers object (and_elim_left proper)).spec
    have discards : Proceeds (discardAll (listCodes [object])) :=
      proceeds_of_moves fun _ => discardAll_moves all
    exact ⟨labeledCode_proceeds (discards.andThen
      ((lowers.proceeds []).andThen (notSupported_proceeds loc "with statement"))),
        lowers.functions⟩
  | .switch loc scrutinee cases, proper =>
    have lowers := cases_lower cases (and_elim_right proper)
    ⟨switchCode_proceeds (expr_lowers scrutinee (and_elim_left proper)).spec lowers.1 loc, lowers.2⟩
  | .returnValue loc arg, proper => stmtLowers_of_proceeds
      (labeledCode_proceeds (returnValue_proceeds (option_lowers arg proper) loc)) rfl
  | .throwValue loc arg, proper => stmtLowers_of_proceeds
      (labeledCode_proceeds (throwCode_proceeds (expr_lowers arg proper).spec)) rfl
  | .tryCatch loc block handler finalizer, proper => by
    simp only [Stmt.isProper, Bool.and_eq_true] at proper
    have block_lowers := body_lowers block proper.1.1
    have handler_lowers := handler_lowers handler proper.1.2
    have finalizer_lowers := finalizer_lowers finalizer proper.2
    exact ⟨labeledCode_proceeds
        (tryCode_proceeds block_lowers.proceeds handler_lowers.1 finalizer_lowers.1 loc),
      forall_mem_append.mpr
        ⟨forall_mem_append.mpr ⟨block_lowers.functions, handler_lowers.2⟩, finalizer_lowers.2⟩⟩
  | .whileLoop loc test body, proper =>
    have lowers := stmt_lowers body (and_elim_right proper)
    ⟨whileCode_proceeds (expr_lowers test (and_elim_left proper)).spec lowers.proceeds,
      lowers.functions⟩
  | .doWhile loc body test, proper =>
    have lowers := stmt_lowers body (and_elim_right proper)
    ⟨doWhileCode_proceeds (expr_lowers test (and_elim_left proper)).spec lowers.proceeds,
      lowers.functions⟩
  | .forLoop loc init test update body, proper => by
    simp only [Stmt.isProper, Bool.and_eq_true] at proper
    have init_lowers := init_lowers init proper.1.1.1
    have test_lowers := option_lowers test proper.1.1.2
    have update_lowers := option_lowers update proper.1.2
    have lowers := stmt_lowers body proper.2
    exact ⟨forLoop_proceeds init_lowers test_lowers update_lowers lowers.proceeds, lowers.functions⟩
  | .forIn loc head object body, proper => by
    simp only [Stmt.isProper, Bool.and_eq_true] at proper
    have lowers := stmt_lowers body proper.2
    exact ⟨forInCode_proceeds (expr_lowers object proper.1.2).spec (head_lowers head proper.1.1)
      lowers.proceeds, lowers.functions⟩
  | .forOf loc head object body, proper =>
    have lowers := stmt_lowers body (and_elim_right proper)
    ⟨forOfCode_proceeds (expr_lowers object (and_elim_left proper)).spec lowers.proceeds loc,
      lowers.functions⟩
  | .debugger loc, _ =>
    have warns : Proceeds (warn loc "debugger statement is ignored") :=
      proceeds_of_moves fun _ sound => (warn_reports sound loc _).mono fun _ _ reports =>
        reports.moves
    stmtLowers_of_proceeds (labeledCode_proceeds warns) rfl
  | .function loc func, proper => by
    have nesting := func_nests func proper
    refine ⟨labeledCode_proceeds proceeds_pure, ?_⟩
    · rw [declaredFunctions]
      split
      · simpa using nesting
      · simp
  | .varDecl loc kind ds, proper => stmtLowers_of_proceeds
      (labeledCode_proceeds (declaratorsCode_proceeds (declarators_lower ds proper))) rfl
  | .classDef loc name superClass, proper => stmtLowers_of_proceeds (labeledCode_proceeds
      ((proceeds_of_moves fun _ => optionEffects_moves (option_lowers superClass proper)).andThen
        (notSupported_proceeds loc "class declaration"))) rfl

theorem body_lowers : (body : List Stmt) → isBodyProper body = true → BodyLowers body
  | [], _ => ⟨proceeds_pure, nofun⟩
  | first :: rest, proper => by
    simp only [isBodyProper, Bool.and_eq_true] at proper
    have here := stmt_lowers first proper.1
    have after := body_lowers rest proper.2
    exact ⟨(here.proceeds []).andThen after.proceeds,
      forall_mem_append.mpr ⟨here.functions, after.functions⟩⟩

theorem branch_lowers : (s : Option Stmt) → isBranchProper s = true →
    (∀ code ∈ stmtOption s, StmtProceeds code) ∧ ∀ lower ∈ functionsOption s, Nesting lower
  | none, _ => by simp [stmtOption, functionsOption]
  | some s, proper => by
    have lowers := stmt_lowers s proper
    simpa [stmtOption, functionsOption] using ⟨lowers.proceeds, lowers.functions⟩

theorem finalizer_lowers : (body : Option (List Stmt)) → isFinalizerProper body = true →
    (∀ code ∈ bodyOption body, Proceeds code) ∧ ∀ lower ∈ bodyFunctions body, Nesting lower
  | none, _ => by simp [bodyOption, bodyFunctions]
  | some body, proper => by
    have lowers := body_lowers body proper
    simpa [bodyOption, bodyFunctions] using ⟨lowers.proceeds, lowers.functions⟩

theorem handler_lowers : (handler : Option Handler) → isHandlerProper handler = true →
    (∀ h ∈ handlerOption handler, Proceeds h.body) ∧
      ∀ lower ∈ handlerFunctions handler, Nesting lower
  | none, _ => by simp [handlerOption, handlerFunctions]
  | some (.mk param body), proper => by
    have lowers := body_lowers body proper
    simpa [handlerOption, handlerFunctions] using ⟨lowers.proceeds, lowers.functions⟩

theorem cases_lower : (cases : List SwitchCase) → areCasesProper cases = true →
    (∀ c ∈ caseCodes cases, CaseLowers rt c) ∧ ∀ lower ∈ caseFunctions cases, Nesting lower
  | [], _ => by simp [caseCodes, caseFunctions]
  | .mk test body :: rest, proper => by
    simp only [areCasesProper, Bool.and_eq_true] at proper
    have test_lowers := option_lowers test proper.1.1
    have lowers := body_lowers body proper.1.2
    have after := cases_lower rest proper.2
    exact ⟨forall_mem_cons.mpr
      ⟨⟨fun _ mem => option_spec test_lowers mem, lowers.proceeds⟩, after.1⟩,
        forall_mem_append.mpr ⟨lowers.functions, after.2⟩⟩

theorem head_lowers : (head : ForHead) → head.isProper = true → HeadLowers rt (headCode head)
  | .declaration loc kind ds, proper => by
    have lowers := declarators_lower ds proper
    exact lowers
  | .target e, proper => target_lowers (expr_lowers e proper)

theorem init_lowers : (init : Option ForHead) → isInitProper init = true →
    ∀ head ∈ headOption init, HeadLowers rt head
  | none, _ => by simp [headOption]
  | some head, proper => by
    have lowers := head_lowers head proper
    simpa [headOption] using lowers

theorem declarators_lower : (ds : List Declarator) →
    areDeclaratorsProper ds = true →
      ∀ d ∈ declaratorCodes ds, ∀ e ∈ d.init, ∃ covered eval, e.Spec rt covered eval
  | [], _ => by simp [declaratorCodes]
  | .mk loc target init :: rest, proper => by
    simp only [areDeclaratorsProper, Bool.and_eq_true] at proper
    have lowers := option_lowers init proper.1
    exact forall_mem_cons.mpr
      ⟨fun _ mem => option_spec lowers mem, declarators_lower rest proper.2⟩

end

end Lowering
end Scriptc
