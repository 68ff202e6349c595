import Scriptc.Proofs.Variation.Control

/-!
# Code of varied programs

The code of a varied tree matches that of the tree itself, by induction on the tree.
-/

open List Option

namespace Scriptc.Variation

open Lowering

variable {c : Variation}

/-- What matches when an expression is varied: its code, the place it names, and its code as an
argument or as part of a binding list. -/
structure Matches (c : Variation) (e : Expr) : Prop where
  code : ∀ demand, c.Same (exprCode e demand) (exprCode (e.vary c) demand)
  reference : c.References (referenceOf e) (referenceOf (e.vary c))
  argument :
    c.Arguments (argumentCode e (exprCode e)) (argumentCode (e.vary c) (exprCode (e.vary c)))
  second : Option.Rel c.Places (entrySecond e) (entrySecond (e.vary c))
  list : c.Lists (spliceList e) (spliceList (e.vary c))

structure StmtMatches (c : Variation) (s : Stmt) : Prop where
  code : c.Stmts (stmtCode s) (stmtCode (s.vary c))
  functions : List.Forall₂ c.Functions (declaredFunctions s) (declaredFunctions (s.vary c))

structure BodyMatches (c : Variation) (body : List Stmt) : Prop where
  code : c.Same (stmtsCode body) (stmtsCode (varyStmts c body))
  functions : List.Forall₂ c.Functions (functionCodes body) (functionCodes (varyStmts c body))

/-! ## Expressions -/

namespace Matches

lemma codes {e : Expr} (m : c.Matches e) : c.Codes ⟨e, exprCode e⟩ ⟨e.vary c,
    exprCode (e.vary c)⟩ :=
  ⟨rfl, m.code⟩

lemma places {e : Expr} (m : c.Matches e) :
    c.Places { whole := ⟨e, exprCode e⟩, reference := referenceOf e }
      { whole := ⟨e.vary c, exprCode (e.vary c)⟩, reference := referenceOf (e.vary c) } :=
  ⟨m.codes, m.reference⟩

/-- Whether an expression means nothing special as an argument. -/
def isPlain : Expr → Bool
  | .spread .. | .array .. => false
  | _ => true

/-- Whether an expression names no place either. -/
def isOrdinary : Expr → Bool
  | .ident .. | .member .. | .objectPattern .. | .arrayPattern .. | .spread .. | .array .. => false
  | _ => true

section

variable {e : Expr} (same : ∀ demand, c.Same (exprCode e demand) (exprCode (e.vary c) demand))
include same

lemma of_reference (plain : isPlain e = true)
    (reference : c.References (referenceOf e) (referenceOf (e.vary c))) : c.Matches e where
  code := same
  reference := reference
  argument := by cases e <;> cases plain <;> exact .value ⟨rfl, same⟩
  second := by cases e <;> cases plain <;> exact .none
  list := by cases e <;> cases plain <;> exact .none

lemma of_code (ordinary : isOrdinary e = true) : c.Matches e :=
  of_reference same (by cases e <;> first | rfl | cases ordinary)
    (by cases e <;> cases ordinary <;> exact .other)

end

end Matches

lemma refused_sim {before before' : Lower PUnit} (befores : c.Same before before') (loc : Location)
    (what : String) (demand : Demand) :
    c.Same (do before; settle (some loc) (← refuse loc what) demand)
      (do before'; settle (some (c.location loc)) (← refuse (c.location loc) what) demand) :=
  befores.seq <| settled_sim (refuse_sim loc what) loc demand

section

variable {es : List Expr} (all : ∀ e ∈ es, c.Matches e)
include all

lemma listCodes_match : Forall₂ c.Codes (listCodes es) (listCodes (varyExprs c es)) := by
  induction es with
  | nil => exact .nil
  | cons e rest ih =>
    exact .cons (all e (by simp)).codes (ih fun x mem => all x (by simp [mem]))

lemma argumentCodes_match :
    Forall₂ c.Arguments (argumentCodes es) (argumentCodes (varyExprs c es)) := by
  induction es with
  | nil => exact .nil
  | cons e rest ih =>
    exact .cons (all e (by simp)).argument (ih fun x mem => all x (by simp [mem]))

lemma spliceLists_match : Forall₂ c.Lists (spliceLists es) (spliceLists (varyExprs c es)) := by
  induction es with
  | nil => exact .nil
  | cons e rest ih =>
    exact .cons (all e (by simp)).list (ih fun x mem => all x (by simp [mem]))

end

lemma optionCode_matches {e : Option Expr} (all : ∀ x ∈ e, c.Matches x) :
    Rel c.Codes (optionCode e) (optionCode (varyOption c e)) := by
  cases e with
  | none => exact .none
  | some e => exact .some (all e rfl).codes

section

variable {es : List (Option Expr)} (all : ∀ e, some e ∈ es → c.Matches e)

include all

lemma elementCodes_match :
    Forall₂ (Rel c.Codes) (elementCodes es) (elementCodes (varyElements c es)) := by
  induction es with
  | nil => exact .nil
  | cons e rest ih =>
    have others := ih fun x mem => all x (by simp [mem])
    cases e with
    | none => exact .cons .none others
    | some e => exact .cons (.some (all e (by simp)).codes) others

lemma spliceEntries_match :
    Forall₂ c.Entries (spliceEntries es) (spliceEntries (varyElements c es)) := by
  induction es with
  | nil => exact .nil
  | cons e rest ih =>
    have others := ih fun x mem => all x (by simp [mem])
    cases e with
    | none => exact others
    | some e => exact .cons ⟨rfl, (all e (by simp)).second⟩ others

lemma secondOf_matches : Rel c.Places (secondOf es) (secondOf (varyElements c es)) := by
  match es with
  | [] | [none] | [some _] | [none, none] | [some _, none] => exact .none
  | none :: none :: third :: _ | none :: some _ :: third :: _ => cases third <;> exact .none
  | some _ :: none :: third :: _ | some _ :: some _ :: third :: _ => cases third <;> exact .none
  | [none, some e] | [some _, some e] => exact .some (all e (by simp)).places

lemma array_matches (loc : Location) : c.Matches (.array loc es) := by
  have code (demand : Demand) :
      c.Same (exprCode (.array loc es) demand) (exprCode (Expr.vary c (.array loc es)) demand) :=
    settled_sim (arrayValue_sim (elementCodes_match all)) loc demand
  exact ⟨code, .other, .value ⟨rfl, code⟩, secondOf_matches all, .some (spliceEntries_match all)⟩

end

lemma member_matches {object property : Expr} (objects : c.Matches object)
    (properties : c.Matches property) (loc : Location) (computed opt : Bool) :
    c.Matches (.member loc object property computed opt) := by
  have ms : c.Members ⟨⟨object, exprCode object⟩, ⟨property, exprCode property⟩, computed, opt⟩
      ⟨⟨object.vary c, exprCode (object.vary c)⟩, ⟨property.vary c, exprCode (property.vary c)⟩,
        computed, opt⟩ :=
    ⟨objects.codes, properties.codes, rfl, rfl⟩
  exact .of_reference (settled_sim (ms.read_sim loc) loc) rfl (.member ms)

lemma spread_matches {arg : Expr} (arguments : c.Matches arg) (loc : Location) :
    c.Matches (.spread loc arg) where
  code demand := refused_sim (discardAll_sim (.cons arguments.codes .nil)) loc _ demand
  reference := .other
  argument := .spread loc arguments.codes
  second := .none
  list := .none

lemma callCode_sim {callee : Expr} (callees : c.Matches callee) {args : List Expr}
    (all : ∀ e ∈ args, c.Matches e) (loc : Location) (opt : Bool) (demand : Demand) :
    c.Same (exprCode (.call loc callee args opt) demand)
      (exprCode (Expr.vary c (.call loc callee args opt)) demand) := by
  show c.Same (callCode loc _ args _ _ opt demand)
    (callCode (c.location loc) _ (varyExprs c args) _ _ opt demand)
  unfold callCode
  rw [Expr.vary_name?]
  exact .when (notSupported_sim loc _) ((isNative_sim callee).seq <| .ite
    ((nativeCode_sim loc _ args (spliceLists_match all)).seq <| settle_sim (some loc) _ demand)
    (settled_sim (callValue_sim callees.places (argumentCodes_match all) _) loc demand))

lemma sequence_matches {items : List Expr} (all : ∀ e ∈ items, c.Matches e) (loc : Location) :
    c.Matches (.sequence loc items) := by
  refine .of_code (fun demand => ?_) rfl
  show c.Same (sequenceCode (listCodes items) demand)
    (sequenceCode (listCodes (c.items (varyExprs c items))) demand)
  cases items with
  | cons e rest => exact sequenceCode_sim (listCodes_match all) demand
  | nil =>
    cases filled : c.fill with
    | true => exact Sim.stops filled _
    | false =>
      rw [varyExprs, items, filled]
      exact .throw _

lemma unary_matches {arg : Expr} (arguments : c.Matches arg) (loc : Location) (op : UnaryOp) :
    c.Matches (.unary loc op arg) := by
  refine .of_code (fun demand => ?_) rfl
  cases op with
  | delete => exact deleteCode_sim arguments.places loc demand
  | negate | bitNot | typeOf => exact unaryCode_sim arguments.codes loc demand _ _
  | plus => exact plusCode_sim arguments.codes loc demand
  | logicalNot => exact notCode_sim arguments.codes loc demand
  | void => exact voidCode_sim arguments.codes loc demand

/-! ## Functions and statements -/

lemma funcCode_sim {func : Func} (bodies : c.BodyMatches func.body) :
    c.Functions (funcCode func) (funcCode (func.vary c)) := by
  obtain ⟨name, params, body, isGenerator, isAsync⟩ := func
  exact lowerFunction_sim (.mk name params body isGenerator isAsync)
    ⟨varyStmts_declarations body, bodies.functions, bodies.code⟩

lemma function_matches {func : Func} (functions : c.Functions (funcCode func)
    (funcCode (func.vary c))) (loc : Location) : c.Matches (.function loc func) :=
  .of_code (settled_sim (functionValue_sim func loc functions) loc) rfl

namespace StmtMatches

lemma of_code {s : Stmt} {code code' : Lower PUnit} (same : stmtCode s = fun labels =>
    labeledCode labels code)
    (same' : stmtCode (s.vary c) = fun labels => labeledCode labels code')
      (codes : c.Same code code')
    (functions : Forall₂ c.Functions (declaredFunctions s) (declaredFunctions (s.vary c))) :
    c.StmtMatches s where
  code labels := by
    rw [same, same']
    exact labeledCode_sim labels codes
  functions := functions

end StmtMatches

mutual

theorem expr_matches : (e : Expr) → c.Matches e
  | .ident loc name => .of_reference (fun demand => .bind (resolve_sim name loc) fun id =>
      settled_sim (readBinding_sim id) loc demand) rfl (.name name)
  | .literal loc lit => .of_code (fun demand =>
      .bind (literalValue_sim loc lit) fun value => settle_sim none value demand) rfl
  | .receiver loc => .of_code (settle_sim (some loc) _) rfl
  | .array loc es => array_matches (elements_match es) loc
  | .object loc ms =>
    .of_code (settled_sim (objectValue_sim (members_match ms)) loc) rfl
  | .function loc func => function_matches (func_matches func) loc
  | .arrow loc _ _ => .of_code (settled_sim (refuse_sim loc _) loc) rfl
  | .classDef loc _ superClass => .of_code
    (refused_sim (discardOption_sim (optionCode_matches (option_matches superClass))) loc _) rfl
  | .unary loc op arg => unary_matches (expr_matches arg) loc op
  | .update loc op keepsOld arg => .of_code (fun demand =>
      updateCode_sim (expr_matches arg).places loc demand op keepsOld) rfl
  | .binary loc op left right => .of_code (fun demand =>
      binaryCode_sim (expr_matches left).codes (expr_matches right).codes loc demand op) rfl
  | .logical loc op left right => .of_code (fun demand =>
      logicalCode_sim (expr_matches left).codes (expr_matches right).codes loc demand op) rfl
  | .assign loc op left right => .of_code (fun demand =>
      assignCode_sim (expr_matches left).places (expr_matches right).codes loc demand op) rfl
  | .conditional _ test whenTrue whenFalse => .of_code (conditionalCode_sim
      (expr_matches test).codes (expr_matches whenTrue).codes (expr_matches whenFalse).codes) rfl
  | .call loc callee args opt => .of_code
    (callCode_sim (expr_matches callee) (exprs_match args) loc opt) rfl
  | .construct loc callee args => .of_code (fun demand => settled_sim (constructValue_sim
      (expr_matches callee).codes (argumentCodes_match (exprs_match args)) _) loc demand) rfl
  | .member loc object property computed opt =>
    member_matches (expr_matches object) (expr_matches property) loc computed opt
  | .sequence loc items => sequence_matches (exprs_match items) loc
  | .template loc values => .of_code
    (refused_sim (discardAll_sim (listCodes_match (exprs_match values))) loc _) rfl
  | .taggedTemplate loc tag values => .of_code (refused_sim (discardAll_sim
      (.cons (expr_matches tag).codes (listCodes_match (exprs_match values)))) loc _) rfl
  | .spread loc arg => spread_matches (expr_matches arg) loc
  | .yieldValue loc arg => .of_code
    (refused_sim (discardOption_sim (optionCode_matches (option_matches arg))) loc _) rfl
  | .awaitValue loc arg => .of_code
    (refused_sim (discardAll_sim (.cons (expr_matches arg).codes .nil)) loc _) rfl
  | .objectPattern loc _ => .of_reference (settled_sim (refuse_sim loc _) loc) rfl .pattern
  | .arrayPattern loc _ => .of_reference (settled_sim (refuse_sim loc _) loc) rfl .pattern

theorem option_matches : (e : Option Expr) → ∀ x ∈ e, c.Matches x
  | none => nofun
  | some e => by
    rintro _ ⟨⟩
    exact expr_matches e

theorem exprs_match : (es : List Expr) → ∀ e ∈ es, c.Matches e
  | [] => nofun
  | first :: rest => forall_mem_cons.mpr ⟨expr_matches first, exprs_match rest⟩

theorem elements_match : (es : List (Option Expr)) → ∀ e, some e ∈ es → c.Matches e
  | [] => nofun
  | none :: rest => fun e mem => elements_match rest e (by simpa using mem)
  | some first :: rest => by
    have here := expr_matches first
    have others := elements_match rest
    intro e mem
    rcases mem_cons.mp mem with same | after
    · cases same
      exact here
    · exact others e after

theorem members_match : (ms : List Member) →
    Forall₂ c.LiteralMembers (memberCodes ms) (memberCodes (varyMembers c ms))
  | [] => .nil
  | .property loc key value kind computed :: rest =>
    .cons (.property loc kind computed (expr_matches key).codes (expr_matches value).codes)
      (members_match rest)
  | .spread loc arg :: rest => .cons (.spread loc (expr_matches arg).codes) (members_match rest)

theorem func_matches : (func : Func) → c.Functions (funcCode func) (funcCode (func.vary c))
  | .mk _ _ body _ _ => funcCode_sim (body_matches body)

theorem stmt_matches : (s : Stmt) → c.StmtMatches s
  | .block _ body =>
    have bodies := body_matches body
    .of_code rfl rfl bodies.code bodies.functions
  | .empty _ => .of_code rfl rfl (.pure _) .nil
  | .expression loc e directive =>
    .of_code rfl rfl (expressionCode_sim loc (expr_matches e).codes directive) .nil
  | .ifElse _ test whenTrue whenFalse =>
    have first := stmt_matches whenTrue
    have second := branch_matches whenFalse
    .of_code rfl rfl (ifCode_sim (expr_matches test).codes first.code second.1)
      (rel_append first.functions second.2)
  | .labeled _ label body =>
    have bodies := stmt_matches body
    ⟨labelCode_sim label bodies.code, bodies.functions⟩
  | .breakTo loc label => .of_code rfl rfl (jumpCode_sim loc label false) .nil
  | .continueTo loc label => .of_code rfl rfl (jumpCode_sim loc label true) .nil
  | .withObject loc object body =>
    have bodies := stmt_matches body
    .of_code rfl rfl ((discardAll_sim (.cons (expr_matches object).codes .nil)).seq <|
      (bodies.code []).seq <| notSupported_sim loc _) bodies.functions
  | .switch loc scrutinee cases =>
    have all := cases_match cases
    ⟨switchCode_sim loc (expr_matches scrutinee).codes all.1, all.2⟩
  | .returnValue loc arg =>
    .of_code rfl rfl (returnCode_sim loc (optionCode_matches (option_matches arg))) .nil
  | .throwValue _ arg => .of_code rfl rfl (throwCode_sim (expr_matches arg).codes) .nil
  | .tryCatch loc block handler finalizer =>
    have blocks := body_matches block
    have handlers := handler_matches handler
    have finalizers := finalizer_matches finalizer
    .of_code rfl rfl (tryCode_sim loc blocks.code handlers.1 finalizers.1)
      (rel_append (rel_append blocks.functions handlers.2) finalizers.2)
  | .whileLoop _ test body =>
    have bodies := stmt_matches body
    ⟨whileCode_sim (expr_matches test).codes bodies.code, bodies.functions⟩
  | .doWhile _ body test =>
    have bodies := stmt_matches body
    ⟨doWhileCode_sim (expr_matches test).codes bodies.code, bodies.functions⟩
  | .forLoop _ init test update body =>
    have bodies := stmt_matches body
    ⟨fun labels => forCode_sim bodies.code labels (init_matches init)
      (optionCode_matches (option_matches test)) (optionCode_matches (option_matches update)),
      bodies.functions⟩
  | .forIn _ head object body =>
    have bodies := stmt_matches body
    ⟨fun labels => forInCode_sim (expr_matches object).codes bodies.code labels (head_matches head),
      bodies.functions⟩
  | .forOf loc _ object body =>
    have bodies := stmt_matches body
    ⟨fun labels => forOfCode_sim (expr_matches object).codes bodies.code labels loc,
      bodies.functions⟩
  | .debugger loc => .of_code rfl rfl (warn_sim loc _) .nil
  | .function loc func => ⟨fun labels => labeledCode_sim labels (.pure _), by
      have functions := func_matches func
      simp only [Stmt.vary, declaredFunctions, Func.vary_name?, isSome_map]
      split
      · exact .cons functions .nil
      · exact .nil⟩
  | .varDecl _ _ ds =>
    .of_code rfl rfl (declaratorsCode_sim (declarators_match ds)) .nil
  | .classDef loc _ superClass =>
    .of_code rfl rfl ((discardOption_sim (optionCode_matches
      (option_matches superClass))).seq <| notSupported_sim loc _) .nil

theorem body_matches : (body : List Stmt) → c.BodyMatches body
  | [] => ⟨.pure _, .nil⟩
  | s :: rest =>
    have first := stmt_matches s
    have others := body_matches rest
    ⟨(first.code []).seq <| others.code, rel_append first.functions others.functions⟩

theorem branch_matches : (s : Option Stmt) →
    Rel c.Stmts (stmtOption s) (stmtOption (varyStmtOption c s)) ∧
      Forall₂ c.Functions (functionsOption s) (functionsOption (varyStmtOption c s))
  | none => ⟨.none, .nil⟩
  | some s =>
    have here := stmt_matches s
    ⟨.some here.code, here.functions⟩

theorem finalizer_matches : (body : Option (List Stmt)) →
    Rel c.Same (bodyOption body) (bodyOption (varyBodyOption c body)) ∧
      Forall₂ c.Functions (bodyFunctions body) (bodyFunctions (varyBodyOption c body))
  | none => ⟨.none, .nil⟩
  | some body =>
    have here := body_matches body
    ⟨.some here.code, here.functions⟩

theorem handler_matches : (handler : Option Handler) →
    Rel c.Handlers (handlerOption handler) (handlerOption (varyHandler c handler)) ∧
      Forall₂ c.Functions (handlerFunctions handler) (handlerFunctions (varyHandler c handler))
  | none => ⟨.none, .nil⟩
  | some (.mk _ body) =>
    have here := body_matches body
    ⟨.some ⟨rfl, here.code⟩, here.functions⟩

theorem cases_match : (cases : List SwitchCase) →
    Forall₂ c.Cases (caseCodes cases) (caseCodes (varyCases c cases)) ∧
      Forall₂ c.Functions (caseFunctions cases) (caseFunctions (varyCases c cases))
  | [] => ⟨.nil, .nil⟩
  | .mk test body :: rest =>
    have here := body_matches body
    have others := cases_match rest
    ⟨.cons ⟨optionCode_matches (option_matches test), here.code⟩ others.1,
      rel_append here.functions others.2⟩

theorem head_matches : (head : ForHead) → c.Heads (headCode head) (headCode (head.vary c))
  | .declaration loc _ ds => .declaration loc (declarators_match ds)
  | .target e => .target (expr_matches e).places

theorem init_matches : (head : Option ForHead) →
    Rel c.Heads (headOption head) (headOption (varyHeadOption c head))
  | none => .none
  | some head => .some (head_matches head)

theorem declarators_match : (ds : List Declarator) →
    Forall₂ c.Declarators (declaratorCodes ds) (declaratorCodes (varyDeclarators c ds))
  | [] => .nil
  | .mk _ _ init :: rest =>
    .cons ⟨rfl, rfl, optionCode_matches (option_matches init)⟩ (declarators_match rest)

end

end Scriptc.Variation
