import Scriptc.Proofs.Variation.Code

/-!
# Statements and functions of varied trees

Statements, functions and native code are put together from parts as expressions are. A function may
get a routine that is less strict.
-/

namespace Scriptc.Variation

variable {b b' : BodyCode} {es es' : List NamedEntry}

open Lowering

variable {c : Variation} {α β : Type}

/-! ## Statements -/

def Stmts (c : Variation) (body body' : StmtCode) : Prop :=
  ∀ labels, c.Same (body labels) (body' labels)

structure Declarators (c : Variation) (d d' : DeclaratorCode) : Prop where
  loc : d'.loc = c.location d.loc
  target : d'.target = d.target.vary c
  init : Option.Rel c.Codes d.init d'.init

/-- Whether the code of two loop heads matches. -/
inductive Heads (c : Variation) : HeadCode → HeadCode → Prop where
  | declaration (loc : Location) {ds ds' : List DeclaratorCode} :
    List.Forall₂ c.Declarators ds ds' → Heads c (.declaration loc ds)
      (.declaration (c.location loc) ds')
  | target {p p' : Place} : c.Places p p' → Heads c (.target p) (.target p')

structure Cases (c : Variation) (k k' : CaseCode) : Prop where
  test : Option.Rel c.Codes k.test k'.test
  body : c.Same k.body k'.body

structure Handlers (c : Variation) (h h' : HandlerCode) : Prop where
  param : h'.param = varyPatternOption c h.param
  body : c.Same h.body h'.body

lemma frame_sim {change : Frame → Frame}
    (same : ∀ f b, change { f with strict := b } = { change f with strict := b } := by intros; rfl)
    (keeps : ∀ f, (change f).strict = f.strict := by intros; rfl) : c.Stable (modifyFrame change) :=
  modifyFrame_sim same keeps

lemma inTarget_sim (names : List String) (breakLabel : Label) (continueLabel : Option Label)
    (breakable : Bool) {body body' : Lower PUnit} (bodies : c.Same body body') :
    c.Same (inTarget names breakLabel continueLabel breakable body)
      (inTarget names breakLabel continueLabel breakable body') :=
  .bind frame_sim fun _ => bodies.seq <| frame_sim

lemma loopBody_sim {body body' : StmtCode} (bodies : c.Stmts body body') (labels : List String)
    (exit next : Label) :
    c.Same (loopBody body labels exit next) (loopBody body' labels exit next) :=
  inTarget_sim _ _ _ _ (bodies [])

lemma labeledCode_sim (labels : List String) {code code' : Lower PUnit}
    (codes : c.Same code code') : c.Same (labeledCode labels code) (labeledCode labels code') :=
  .ite codes (newLabel_sim.seq <| (inTarget_sim _ _ _ _ codes).seq <| place_sim)

lemma labelCode_sim (label : Ident) {body body' : StmtCode} (bodies : c.Stmts body body')
    (labels : List String) :
    c.Same (labelCode label body labels) (labelCode (label.vary c) body' labels) :=
  .look fun _ s s' alike => by
    have targets : s'.frame.targets = s.frame.targets := by rw [alike.frame]
    rw [targets]
    exact .when (error_sim label.loc _) (bodies _)

lemma expressionCode_sim (loc : Location) {e e' : Lowered} (codes : c.Codes e e')
    (directive : Option String) :
    c.Same (expressionCode loc e directive) (expressionCode (c.location loc) e' directive) := by
  unfold expressionCode
  rw [codes.expr, Expr.vary_isPure]
  exact .ite (.when (warn_sim loc _) codes.discard) (.pure _)

section

variable {head head' : Option HeadCode}

variable {e e' : Lowered} (codes : c.Codes e e') {body body' : StmtCode}
  (bodies : c.Stmts body body') (labels : List String) (loc : Location)

include codes bodies in
lemma ifCode_sim {other other' : Option StmtCode} (others : Option.Rel c.Stmts other other') :
    c.Same (ifCode e body other) (ifCode e' body' other') := by
  refine newLabel_sim.seq <| newLabel_sim.seq <| newLabel_sim.seq <|
    (codes.jump _ _).seq <| place_sim.seq <| (bodies []).seq ?_
  cases others with
  | none => exact place_sim
  | some other => exact goto_sim.seq <| place_sim.seq <| (other []).seq <| place_sim

include codes bodies in
lemma whileCode_sim : c.Same (whileCode e body labels) (whileCode e' body' labels) :=
  newLabel_sim.seq <| newLabel_sim.seq <| newLabel_sim.seq <| place_sim.seq <|
    (codes.jump _ _).seq <| place_sim.seq <| (loopBody_sim bodies _ _ _).seq <| goto_sim.seq <|
    place_sim

include codes bodies in
lemma doWhileCode_sim : c.Same (doWhileCode body e labels) (doWhileCode body' e' labels) :=
  newLabel_sim.seq <| newLabel_sim.seq <| newLabel_sim.seq <| place_sim.seq <|
    (loopBody_sim bodies _ _ _).seq <| place_sim.seq <| (codes.jump _ _).seq <| place_sim

lemma declaratorsCode_sim {ds ds' : List DeclaratorCode} (all : List.Forall₂ c.Declarators ds ds') :
    c.Same (declaratorsCode ds) (declaratorsCode ds') := by
  induction all with
  | nil => exact .pure _
  | @cons d d' rest rest' first _ ih =>
    unfold declaratorsCode
    rw [first.loc, first.target, Pattern.vary_name?]
    obtain ⟨loc, target, init⟩ := d
    obtain ⟨loc', target', init'⟩ := d'
    have inits : Option.Rel c.Codes init init' := first.init
    cases target.name? with
    | none => exact (notSupported_sim loc _).seq <| (discardOption_sim inits).seq <| ih
    | some name =>
      cases inits with
      | none => exact ih
      | some codes =>
        refine .bind (declaredBinding_sim name loc) fun id =>
          .bind (writeBinding_sim id loc) fun written => ?_
        cases written with
        | none => exact codes.discard.seq <| ih
        | some dest => exact codes.value.seq <| assign_sim.seq <| release_sim.seq <| ih

lemma initCode_sim (heads : Option.Rel c.Heads head head') :
    c.Same (initCode head) (initCode head') := by
  cases heads with
  | none => exact .pure _
  | some heads =>
    cases heads with
    | declaration loc all => exact declaratorsCode_sim all
    | target places => exact places.whole.discard

include bodies in
lemma forCode_sim (heads : Option.Rel c.Heads head head')
    {test test' update update' : Option Lowered} (tests : Option.Rel c.Codes test test')
    (updates : Option.Rel c.Codes update update') :
    c.Same (forCode head test update body labels) (forCode head' test' update' body' labels) := by
  refine (initCode_sim heads).seq <| .bind newLabel_sim fun next =>
    .bind newLabel_sim fun start => .bind newLabel_sim fun exit => .bind newLabel_sim fun head =>
      .bind place_sim fun _ => ?_
  have rest := fun onStart onExit onNext onHead : Label =>
    (@place_sim c onStart).seq <| (loopBody_sim bodies labels onExit onNext).seq <|
      (@place_sim c onNext).seq <| (discardOption_sim updates).seq <|
      (@goto_sim c onHead).bind fun _ => @place_sim c onExit
  cases tests with
  | none => exact rest _ _ _ _
  | some codes => exact (codes.jump _ _).seq <| rest _ _ _ _

lemma bindKey_sim {head head' : HeadCode} (heads : c.Heads head head') (key : Operand) :
    c.Same (bindKey head key) (bindKey head' key) := by
  cases heads with
  | target places =>
    exact (places.evaluate_sim _).seq <| (target_write_sim _ _).seq <| target_release_sim _
  | declaration loc all =>
    cases all with
    | nil => exact error_sim loc _
    | @cons d d' _ _ first others =>
      cases others with
      | cons => exact error_sim loc _
      | nil =>
        unfold bindKey
        dsimp only
        rw [first.loc, first.target, Pattern.vary_name?]
        have given : d'.init.isSome = d.init.isSome := by
          obtain ⟨_, _, init⟩ := d
          obtain ⟨_, _, init'⟩ := d'
          have inits : Option.Rel c.Codes init init' := first.init
          cases inits <;> rfl
        rw [given]
        cases d.target.name? with
        | none => exact notSupported_sim _ _
        | some name =>
          refine .when (error_sim _ _) (.bind (declaredBinding_sim name _) fun id =>
            .bind (writeBinding_sim id _) fun written => ?_)
          cases written with
          | none => exact .pure _
          | some dest => exact assign_sim

include codes bodies in
lemma forInCode_sim {head head' : HeadCode} (heads : c.Heads head head') :
    c.Same (forInCode head e body labels) (forInCode head' e' body' labels) :=
  newLabel_sim.seq <| newLabel_sim.seq <| newLabel_sim.seq <| newLabel_sim.seq <| codes.value.seq <|
    (inCode_sim (Routine.branchCompare_plain _ _ _ _ _)).seq <| place_sim.seq <|
    unaryValue_sim.seq <| allocTemp_sim.seq <| (push_sim
      rfl).seq <| release_sim.seq <| place_sim.seq <|
    allocTemp_sim.seq <| allocTemp_sim.seq <| (push_sim rfl).seq <|
    (inCode_sim (Routine.branchTrue_plain _ _ _)).seq <| release_sim.seq <| place_sim.seq <|
    (bindKey_sim heads _).seq <| release_sim.seq <| (loopBody_sim bodies _ _ _).seq <|
    goto_sim.seq <| place_sim.seq <| release_sim

include codes bodies in
lemma forOfCode_sim :
    c.Same (forOfCode loc e body labels) (forOfCode (c.location loc) e' body' labels) :=
  codes.discard.seq <| newLabel_sim.seq <| newLabel_sim.seq <| place_sim.seq <|
    (loopBody_sim bodies _ _ _).seq <| place_sim.seq <| notSupported_sim loc _

lemma leaveTries_sim (depth : Nat) : c.Stable (leaveTries depth) :=
  .look fun _ s s' alike => by
    have tries : s'.frame.tries = s.frame.tries := by rw [alike.frame]
    have ends (indices : List Nat) : c.Stable (endTries indices) := by
      induction indices with
      | nil => exact .pure _
      | cons index rest ih => exact (push_sim rfl).seq <| ih
    rw [tries]
    exact .when (.throw _) (ends _)

lemma jumpCode_sim (label : Option Ident) (isContinue : Bool) :
    c.Same (jumpCode loc label isContinue)
      (jumpCode (c.location loc) (label.map (Ident.vary c)) isContinue) :=
  .look fun _ s s' alike => by
    have targets : s'.frame.targets = s.frame.targets := by rw [alike.frame]
    have name : (label.map (Ident.vary c)).map (·.name) = label.map (·.name) := by
      cases label <;> rfl
    rw [targets, name]
    cases JumpTarget.destination s.frame.targets (label.map (·.name)) isContinue with
    | ok destination => exact (leaveTries_sim _).seq <| goto_sim
    | error e => exact error_sim loc _

lemma returnCode_sim {arg argument' : Option Lowered}
    (arguments : Option.Rel c.Codes arg argument') :
    c.Same (returnCode loc arg) (returnCode (c.location loc) argument') := by
  have rest (value : Operand) : c.Same (do
      if (← get).frame.isTop then
        error loc "return outside of a function"
        release value
      else
        leaveTries 0
        inCode (Routine.ret value)
        release value) (do
      if (← get).frame.isTop then
        error (c.location loc) "return outside of a function"
        release value
      else
        leaveTries 0
        inCode (Routine.ret value)
        release value) :=
    .look fun _ s s' alike => by
      have frame : s'.frame.isTop = s.frame.isTop := by rw [alike.frame]; rfl
      rw [frame]
      exact .ite ((error_sim loc _).seq <| release_sim)
        ((leaveTries_sim _).seq <| (inCode_sim (Routine.ret_plain _)).seq <| release_sim)
  cases arguments with
  | none => exact rest _
  | some codes => exact .bind codes.value rest

include codes in
lemma throwCode_sim : c.Same (throwCode e) (throwCode e') :=
  codes.value.seq <| (inCode_sim (Routine.setJump_plain _)).seq <| release_sim

end

/-! ### Switches -/

inductive Labelled (c : Variation) : CaseCode × Label → CaseCode × Label → Prop
  | test {e e' : Lowered} {body body' : Lower PUnit} {label : Label} (codes : c.Codes e e')
      (bodies : c.Same body body') : Labelled c (⟨some e, body⟩, label) (⟨some e', body'⟩, label)
  | default {body body' : Lower PUnit} {label : Label} (bodies : c.Same body body') :
      Labelled c (⟨none, body⟩, label) (⟨none, body'⟩, label)

lemma Cases.labelled {k k' : CaseCode} (same : c.Cases k k') (label : Label) :
    c.Labelled (k, label) (k', label) := by
  obtain ⟨_ | _, body⟩ := k <;> obtain ⟨_ | _, body'⟩ := k' <;> obtain ⟨tests, bodies⟩ := same <;>
    cases tests
  · exact .default bodies
  case some.some.some codes => exact .test codes bodies

lemma vary_tableKey? (e : Expr) : tableKey? (e.vary c) = tableKey? e := by
  cases e with
  | literal _ lit =>
    obtain ⟨value, _⟩ := lit
    cases value <;> rfl
  | _ => rfl

section

variable {cases cases' : List (CaseCode × Label)} (all : List.Forall₂ c.Labelled cases cases')

include all

lemma jumpTable?_eq : jumpTable? cases' = jumpTable? cases := by
  induction all with
  | nil => rfl
  | cons first _ ih =>
    rw [jumpTable?, jumpTable?, ih]
    cases first with
    | default => rfl
    | test codes => dsimp only; rw [codes.expr, vary_tableKey?]

lemma default_eq :
    (cases'.find? (·.1.test.isNone)).map (·.2) = (cases.find? (·.1.test.isNone)).map (·.2) := by
  induction all with
  | nil => rfl
  | cons first _ ih =>
    cases first with
    | default => rfl
    | test => simpa [List.find?_cons] using ih

lemma testCases_sim (value : Operand) :
    c.Same (testCases value cases) (testCases value cases') := by
  induction all with
  | nil => exact .pure _
  | cons first _ ih =>
    cases first with
    | default => exact ih
    | test codes =>
      exact codes.value.seq <| newLabel_sim.seq <|
        (inCode_sim (Routine.branchCompare_plain _ _ _ _ _)).seq <| release_sim.seq <|
        place_sim.seq <| ih

lemma caseBodies_sim : c.Same (caseBodies cases) (caseBodies cases') := by
  induction all with
  | nil => exact .pure _
  | cons first _ ih =>
    cases first with
    | test _ bodies | default bodies => exact place_sim.seq <| bodies.seq <| ih

end

lemma caseLabels_sim {cases cases' : List CaseCode} (all : List.Forall₂ c.Cases cases cases') :
    c.Sim (List.Forall₂ c.Labelled) (caseLabels cases) (caseLabels cases') := by
  induction all with
  | nil => exact .pure .nil
  | cons first _ ih =>
    exact newLabel_sim.sim fun label => ih.bind fun _ _ rest =>
      .pure (.cons (first.labelled label) rest)

variable (loc : Location)

lemma switchCode_sim {e e' : Lowered} (codes : c.Codes e e')
    {cases cases' : List CaseCode} (all : List.Forall₂ c.Cases cases cases')
      (labels : List String) :
    c.Same (switchCode loc e cases labels) (switchCode (c.location loc) e' cases' labels) := by
  have empty : cases'.isEmpty = cases.isEmpty := by cases all <;> rfl
  unfold switchCode
  rw [empty]
  refine .bind codes.value fun value => .ite ((warn_sim loc _).seq <| release_sim)
    (.bind (pin_sim _) fun value => .bind newLabel_sim fun exit =>
      .after (caseLabels_sim all) fun ks ks' all => ?_)
  have table : usableTable? value ks' = usableTable? value ks := by
    rw [usableTable?, usableTable?, jumpTable?_eq all]
  rw [table, default_eq all]
  have rest : c.Same (do
      release value; inTarget labels exit none true (caseBodies ks); place exit) (do
      release value; inTarget labels exit none true (caseBodies ks'); place exit) :=
    release_sim.seq <| (inTarget_sim _ _ _ _ (caseBodies_sim all)).seq <| place_sim
  cases usableTable? value ks with
  | some table => exact (inCode_sim (Routine.setJump_plain _)).seq <| rest
  | none => exact (testCases_sim all _).seq <| goto_sim.seq <| rest

/-! ### Handlers -/

lemma bindThrown_sim (scope : ScopeId) (param : Option Pattern) :
    c.Same (bindThrown scope param) (bindThrown scope (varyPatternOption c param)) := by
  cases param with
  | none => exact .pure _
  | some p =>
    rw [varyPatternOption, bindThrown, bindThrown, Pattern.vary_name?, Pattern.vary_loc]
    cases p.name? with
    | none => exact notSupported_sim _ _
    | some name =>
      refine .bind (newVariable_sim _ _ _) fun id =>
        .bind (modifyBinding_sim id fun _ => rfl) fun _ =>
        .bind (writeBinding_sim id _) fun written => ?_
      cases written with
      | none => exact .pure _
      | some dest => exact push_sim rfl

lemma handlerCode_sim {h h' : HandlerCode} (handlers : c.Handlers h h') :
    c.Same (handlerCode h) (handlerCode h') :=
  .look fun _ s s' alike => by
    have scope : s'.frame.scope = s.frame.scope := by rw [alike.frame]
    have routine : s'.frame.routine = s.frame.routine := by rw [alike.frame]
    dsimp only
    rw [scope, routine, handlers.param]
    exact (newScope_sim _ _ _).seq <| .bind frame_sim fun _ => (bindThrown_sim _ _).seq <|
      handlers.body.seq <| frame_sim

lemma rethrow_sim : c.Stable rethrow :=
  allocTemp_sim.seq <| (push_sim rfl).seq <| (inCode_sim
    (Routine.setJump_plain _)).seq <| release_sim

lemma tryCode_sim {block block' : Lower PUnit} (blocks : c.Same block block')
    {handler handler' : Option HandlerCode} (handlers : Option.Rel c.Handlers handler handler')
    {finalizer finalizer' : Option (Lower PUnit)} (finalizers : Option.Rel c.Same
      finalizer finalizer') :
    c.Same (tryCode loc block handler finalizer)
      (tryCode (c.location loc) block' handler' finalizer') := by
  refine .bind (inCode_sim Routine.newTryIndex_plain) fun index => newLabel_sim.seq <|
    newLabel_sim.seq <| .bind newLabel_sim fun done =>
      (inCode_sim (Routine.setJump_plain _)).seq <| place_sim.seq <| .bind frame_sim fun _ =>
        blocks.seq <|
        .bind frame_sim fun _ => (push_sim rfl).seq <| goto_sim.seq <| place_sim.seq ?_
  cases handlers with
  | none =>
    refine rethrow_sim.seq <| place_sim.seq ?_
    cases finalizers with
    | none => exact .pure _
    | some bodies => exact bodies.seq <| notSupported_sim loc _
  | some handlers =>
    refine (handlerCode_sim handlers).seq <| place_sim.seq ?_
    cases finalizers with
    | none => exact .pure _
    | some bodies => exact bodies.seq <| notSupported_sim loc _

/-! ## Functions -/

def Functions (c : Variation) (f f' : FunctionCode) : Prop :=
  ∀ name loc scope, c.Makes (f name loc scope) (f' name (c.location loc) scope)

structure Bodies (c : Variation) (b b' : BodyCode) : Prop where
  declarations : b'.declarations = b.declarations.map (Declaration.vary c)
  functions : List.Forall₂ c.Functions b.functions b'.functions
  statements : c.Same b.statements b'.statements

lemma publishAll_sim (bs : List Binding) :
    c.Same (publishAll bs) (publishAll (bs.map c.movedBinding)) := by
  induction bs with
  | nil => exact .pure _
  | cons b rest ih =>
    refine .bind ?_ fun _ => ih
    rw [publish, publish, show (c.movedBinding b).storedIn = b.storedIn from rfl]
    cases b.storedIn with
    | none => exact .pure _
    | some id => exact inUnit_sim (CodeUnit.modifyVariable_plain _ _)

lemma finishRoutine_sim : c.Stable finishRoutine := .look fun _ s s' alike => by
    have routine : s'.frame.routine = s.frame.routine := by rw [alike.frame]
    have owned : s'.scopes.bindings.toList.filter (·.owner == s.frame.routine) =
        (s.scopes.bindings.toList.filter (·.owner == s.frame.routine)).map c.movedBinding := by
      rw [alike.scopes, movedScopes, Array.toList_map, List.filter_map]
      rfl
    dsimp only
    rw [routine, owned]
    exact (inCode_sim Routine.finish_plain).seq <| (publishAll_sim _).seq <|
      inUnit_sim (CodeUnit.layOut_plain _)

lemma instantiate_sim {fs fs' : List FunctionCode} (functions : List.Forall₂ c.Functions fs fs')
    (hs : List Hoisted) :
    c.Same (instantiate (hs.zip fs)) (instantiate ((hs.map c.movedHoisted).zip fs')) := by
  induction functions generalizing hs with
  | nil => cases hs <;> exact .pure _
  | cons first _ ih =>
    cases hs with
    | nil => exact .pure _
    | cons h hs =>
      refine .look fun _ s s' alike => ?_
      have root : s'.frame.root = s.frame.root := by rw [alike.frame]
      rw [root]
      exact (first _ _ _).closed fun routine => (variableOf_sim _).closes fun v =>
        (access_sim _).closes fun _ => Same.closes (modifyBinding_sim _ fun _ => rfl) fun _ =>
          closure_closes.seq (ih hs)

lemma lowerBody_sim (bodies : c.Bodies b b') : c.Same (lowerBody b) (lowerBody b') := by
  rw [lowerBody, lowerBody, bodies.declarations]
  refine .after (hoist_sim _) fun hs _ moved => ?_
  subst moved
  exact (instantiate_sim bodies.functions hs).seq <| bodies.statements

lemma bindParams_sim (root : ScopeId) (params : List Pattern) :
    c.Same (bindParams root params) (bindParams root (varyPatterns c params)) := by
  induction params with
  | nil => exact .pure _
  | cons p rest ih =>
    rw [varyPatterns, bindParams, bindParams, Pattern.vary_name?, Pattern.vary_loc]
    cases p.name? with
    | none =>
      exact (notSupported_sim _ _).seq <| (inCode_sim Routine.addParam_plain).seq <|
        (newAnonymous_sim _ _ _).seq <| ih
    | some name =>
      exact (lookupLocal_sim _ _).seq <| .when (strictError_sim _ _)
        ((inCode_sim Routine.addParam_plain).seq <| .bind (newVariable_sim _ _ _) fun id =>
          .bind (modifyBinding_sim id fun _ => rfl) fun _ => ih)

/-- Whether two frames agree up to strictness. -/
structure Frames (c : Variation) (f f' : Frame) : Prop where
  same : f' = { f with strict := f'.strict }
  laxer : f'.strict = true → f.strict = true
  strict : c.lax = false → f'.strict = f.strict

lemma setFrame_sim {f f' : Frame} (frames : c.Frames f f') :
    c.Same (modifyFrame fun _ => f) (modifyFrame fun _ => f') :=
  fun _ => .modify fun _ _ alike => { alike with
    frame := frames.same, laxer := frames.laxer, strict := frames.strict }

lemma inFrame_sim {f f' : Frame} (frames : c.Frames f f') {code code' : Lower α}
    (codes : c.Same code code') : c.Same (inFrame f code) (inFrame f' code') :=
  .look fun _ _ _ alike => (setFrame_sim frames).seq <| codes.seq <|
    (setFrame_sim ⟨alike.frame, alike.laxer, alike.strict⟩).last

lemma new_frames (routine : RoutineId) (root : ScopeId) {strict strict' : Bool}
    (laxer : strict' = true → strict = true) (same : c.lax = false → strict' = strict) :
    c.Frames (.new routine root strict) (.new routine root strict') :=
  ⟨rfl, laxer, same⟩

lemma lowerFunction_sim (func : Func) (bodies : c.Bodies b b') :
    c.Functions (lowerFunction func b) (lowerFunction (func.vary c) b') := by
  intro name loc scope
  refine .look fun _ s s' alike => ?_
  have routine : s'.frame.routine = s.frame.routine := by rw [alike.frame]
  dsimp only
  rw [routine, Func.vary_body, varyStmts_startStrict, Func.vary_isGenerator, Func.vary_isAsync,
    Func.vary_params]
  have laxer : (s'.frame.strict || Stmt.startStrict func.body) = true →
      (s.frame.strict || Stmt.startStrict func.body) = true := by
    simp only [Bool.or_eq_true]
    exact Or.imp_left alike.laxer
  have same (exact : c.lax = false) : (s'.frame.strict || Stmt.startStrict func.body) =
      (s.frame.strict || Stmt.startStrict func.body) := by
    rw [alike.strict exact]
  exact .when (notSupported_sim loc _) (.when (notSupported_sim loc _)
    ((newRoutine_makes _ _ same).bind fun routine => (newScope_sim _ _ _).sim fun root =>
      (inFrame_sim (new_frames routine root laxer same) <| (bindParams_sim _ _).seq <|
        (lowerBody_sim bodies).seq <| finishRoutine_sim).sim fun _ => .pure ⟨rfl, rfl⟩))

lemma lowerNamed_sim (name : String) (loc : Location) {f f' : FunctionCode}
    (functions : c.Functions f f') :
    c.Makes (lowerNamed name loc f) (lowerNamed name (c.location loc) f') :=
  .look fun _ s s' alike => by
    have routine : s'.frame.routine = s.frame.routine := by rw [alike.frame]
    have scope : s'.frame.scope = s.frame.scope := by rw [alike.frame]
    dsimp only
    rw [routine, scope]
    exact (newRoutine_makes _ _ alike.strict).bind fun routine =>
      (newScope_sim _ _ _).sim fun root =>
        Same.sim (inFrame_sim (new_frames routine root alike.laxer alike.strict)
          (.bind (newVariable_sim _ _ _) fun id =>
            .bind (modifyBinding_sim id fun _ => rfl) fun _ =>
            (functions _ _ _).closed fun _ =>
              Same.closes (modifyBinding_sim id fun _ => rfl) fun _ =>
                (readBinding_sim id).closes fun _ => closure_closes.seq <|
                (inCode_sim (Routine.ret_plain _)).seq <| finishRoutine_sim)) fun _ =>
          .pure ⟨rfl, rfl⟩

lemma closureOf_closes (routine : RoutineId) :
    c.Closes routine (closureOf routine) (closureOf routine) :=
  allocTemp_sim.closes fun _ => closure_closes.seq <| .pure _

lemma functionValue_sim (func : Func) (loc : Location) {f f' : FunctionCode}
    (functions : c.Functions f f') :
    c.Same (functionValue func loc f) (functionValue (func.vary c) (c.location loc) f') := by
  have name : (func.vary c).name?.map (·.name) = func.name?.map (·.name) := by
    rw [Func.vary_name?]
    cases func.name? <;> rfl
  have inside : (func.vary c).mentionsInside = func.mentionsInside :=
    funext fun name => Func.vary_mentionsInside func name
  unfold functionValue
  dsimp only
  rw [name, inside]
  cases (func.name?.map (·.name)).filter func.mentionsInside with
  | none =>
    refine .look fun _ s s' alike => ?_
    have scope : s'.frame.scope = s.frame.scope := by rw [alike.frame]
    rw [scope]
    exact (functions _ _ _).closed closureOf_closes
  | some own =>
    exact (lowerNamed_sim own loc functions).closed fun routine =>
      (closureOf_closes routine).seq <| emitCall_sim _ _ _ _ _

/-! ## Native code -/

structure Entries (c : Variation) (e e' : SpliceEntry) : Prop where
  entry : e'.entry = e.entry.vary c
  second : Option.Rel c.Places e.second e'.second

structure NamedEntries (c : Variation) (e e' : NamedEntry) : Prop where
  name : e'.name = e.name
  loc : e'.loc = c.location e.loc
  place : c.Places e.place e'.place

abbrev Lists (c : Variation) : SpliceList → SpliceList → Prop := Option.Rel (List.Forall₂ c.Entries)

def movedSplice (c : Variation) (b : SpliceBinding) : SpliceBinding :=
  { b with loc := c.location b.loc }

def movedName (c : Variation) (n : String × Location) : String × Location := (n.1, c.location n.2)

lemma varyElements_length (es : List (Option Expr)) :
    (varyElements c es).length = es.length := by
  induction es with
  | nil => rfl
  | cons e rest ih => cases e <;> simp [varyElements, ih]

lemma varyElements_head (es : List (Option Expr)) :
    elementName? ((varyElements c es).head?.getD none) =
      elementName? (es.head?.getD none) := by
  cases es with
  | nil => rfl
  | cons e rest =>
    cases e with
    | none => rfl
    | some e => exact Expr.vary_constantText? e

lemma entryName_sim (e : Expr) (arity : Nat) :
    c.Same (entryName e arity) (entryName (e.vary c) arity) := by
  have refused (message : String) : c.Same (do error e.loc message; pure (none : Option String))
      (do error (e.vary c).loc message; pure none) := by
    rw [Expr.vary_loc]
    exact (error_sim _ _).last
  have es : (e.vary c).elements? = e.elements?.map (varyElements c) := by cases e <;> rfl
  unfold entryName
  rw [es]
  cases e.elements? with
  | none => exact refused _
  | some es =>
    simp only [Option.map_some, varyElements_length, varyElements_head]
    refine .ite ?_ (refused _)
    cases elementName? (es.head?.getD none) with
    | none => exact refused _
    | some name => exact .pure _

lemma listEntries_sim (whole : Expr) {list list' : SpliceList} (lists : c.Lists list list') :
    c.Sim (List.Forall₂ c.Entries) (listEntries whole list) (listEntries (whole.vary c) list') := by
  cases lists with
  | some entries => exact .pure entries
  | none =>
    rw [listEntries, listEntries, Expr.vary_loc]
    exact (error_sim _ _).sim fun _ => .pure .nil

lemma pairEntries_sim {es es' : List SpliceEntry} (entries : List.Forall₂ c.Entries es es') :
    c.Sim (List.Forall₂ c.NamedEntries) (pairEntries es) (pairEntries es') := by
  induction entries with
  | nil => exact .pure .nil
  | @cons e e' rest rest' first _ ih =>
    obtain ⟨entry, second⟩ := e
    obtain ⟨entry', second'⟩ := e'
    obtain rfl : entry' = entry.vary c := first.entry
    have seconds : Option.Rel c.Places second second' := first.second
    refine (entryName_sim entry 2).sim fun name => ?_
    cases name with
    | none => cases seconds <;> exact ih
    | some name =>
      cases seconds with
      | none =>
        rw [Expr.vary_loc]
        exact (error_sim _ _).sim fun _ => ih
      | some places =>
        exact ih.bind fun _ _ rest => .pure (.cons ⟨rfl, Expr.vary_loc entry, places⟩ rest)

lemma nameEntries_sim {es es' : List SpliceEntry} (entries : List.Forall₂ c.Entries es es') :
    c.Sim (fun ns ns' => ns' = ns.map c.movedName) (nameEntries es) (nameEntries es') := by
  induction entries with
  | nil => exact .pure rfl
  | @cons e e' rest rest' first _ ih =>
    rw [nameEntries, nameEntries, first.entry, Expr.vary_loc]
    refine (entryName_sim _ 1).sim fun name => ?_
    cases name with
    | none => exact ih
    | some name =>
      refine ih.bind fun ns _ moved => .pure ?_
      rw [moved]
      rfl

lemma tempBindings_sim (ns : List (String × Location)) :
    c.Sim (fun bs bs' => bs' = bs.map c.movedSplice) (tempBindings ns)
      (tempBindings (ns.map c.movedName)) := by
  induction ns with
  | nil => exact .pure rfl
  | cons n rest ih =>
    refine allocTemp_sim.sim fun _ => ih.bind fun bs _ moved => .pure ?_
    rw [moved]
    rfl

lemma inputBindings_sim (entries : List.Forall₂ c.NamedEntries es es') :
    c.Sim (fun bs bs' => bs' = bs.map c.movedSplice) (inputBindings es) (inputBindings es') := by
  induction entries with
  | nil => exact .pure rfl
  | @cons e e' rest rest' first others ih =>
    have simple : rest'.all (·.place.whole.isSimple) = rest.all (·.place.whole.isSimple) := by
      clear ih
      induction others with
      | nil => rfl
      | cons next _ ih => rw [List.all_cons, List.all_cons, ih, next.place.whole.isSimple]
    rw [inputBindings, inputBindings, simple, first.name, first.loc]
    refine first.place.whole.value.sim fun _ => (pinIf_sim _ _).sim fun _ =>
      ih.bind fun bs _ moved => .pure ?_
    rw [moved]
    rfl

lemma reportDuplicates_sim (earlier : List String) (bs : List SpliceBinding) :
    c.Same (reportDuplicates earlier bs) (reportDuplicates earlier (bs.map c.movedSplice)) := by
  induction bs generalizing earlier with
  | nil => exact .pure _
  | cons b rest ih =>
    rw [List.map_cons, reportDuplicates, reportDuplicates]
    exact .when (error_sim b.loc _) (ih _)

lemma reportUses_sim (bs : List SpliceBinding) (uses : List Nat) :
    c.Same (reportUses (bs.zip uses)) (reportUses ((bs.map c.movedSplice).zip uses)) := by
  induction bs generalizing uses with
  | nil => exact .pure _
  | cons b rest ih =>
    cases uses with
    | nil => exact .pure _
    | cons count uses =>
      cases count with
      | zero => exact (error_sim b.loc _).seq <| ih uses
      | succ more =>
        cases more with
        | zero => exact ih uses
        | succ => exact (warn_sim b.loc _).seq <| ih uses

lemma writeResults_sim (entries : List.Forall₂ c.NamedEntries es es') (bs : List SpliceBinding) :
    c.Same (writeResults (es.zip bs)) (writeResults (es'.zip (bs.map c.movedSplice))) := by
  induction entries generalizing bs with
  | nil => exact .pure _
  | cons first _ ih =>
    cases bs with
    | nil => exact .pure _
    | cons b bs =>
      exact (first.place.evaluate_sim _).seq <| (target_write_sim _ _).seq <|
        (target_release_sim _).seq <| ih bs

lemma releaseBindings_sim (bs : List SpliceBinding) :
    c.Same (releaseBindings bs) (releaseBindings (bs.map c.movedSplice)) := by
  induction bs with
  | nil => exact .pure _
  | cons b rest ih => exact release_sim.seq <| ih

def boolean? : Expr → Option Bool
  | .literal _ { value := .boolean b, .. } => some b
  | _ => none

def statedPurity (name : Option String) (value : Expr) : Option Bool :=
  if name = some "pure" then boolean? value else none

lemma readOptions_property (isPure computed : Bool) (loc : Location) (key value : Expr)
    (kind : PropertyKind) (rest : List Member) :
    readOptions isPure (.property loc key value kind computed :: rest) =
      match statedPurity (optionKey? key computed) value with
      | some b => readOptions b rest
      | none => error loc "invalid __asm__ option" >>= fun _ => readOptions isPure rest := by
  unfold statedPurity
  by_cases named : optionKey? key computed = some "pure"
  · cases value with
    | literal _ lit =>
      obtain ⟨value, _⟩ := lit
      cases value <;> simp [readOptions, named, boolean?]
    | _ => simp [readOptions, named, boolean?]
  · rw [if_neg named, readOptions]
    exact fun _ _ _ _ found => absurd found named

lemma vary_statedPurity (name : Option String) (value : Expr) :
    statedPurity name (value.vary c) = statedPurity name value := by
  have same : boolean? (value.vary c) = boolean? value := by
    cases value with
    | literal _ lit =>
      obtain ⟨value, _⟩ := lit
      cases value <;> rfl
    | _ => rfl
  rw [statedPurity, statedPurity, same]

lemma vary_optionKey? (key : Expr) (computed : Bool) :
    optionKey? (key.vary c) computed = optionKey? key computed := by
  cases key with
  | literal _ lit =>
    obtain ⟨value, _⟩ := lit
    cases value <;> rfl
  | _ => cases computed <;> rfl

lemma readOptions_sim (isPure : Bool) (ms : List Member) :
    c.Same (readOptions isPure ms) (readOptions isPure (varyMembers c ms)) := by
  induction ms generalizing isPure with
  | nil => exact .pure _
  | cons m rest ih =>
    cases m with
    | spread loc e => exact (error_sim loc _).seq <| ih _
    | property loc key value kind computed =>
      rw [varyMembers, readOptions_property, readOptions_property, vary_optionKey?,
        vary_statedPurity]
      cases statedPurity (optionKey? key computed) value with
      | some b => exact ih b
      | none => exact (error_sim loc _).seq <| ih _

lemma splicePurity_sim (e : Expr) : c.Same (splicePurity e) (splicePurity (e.vary c)) := by
  cases e with
  | object loc ms => exact readOptions_sim false ms
  | _ => exact (error_sim _ _).last

lemma note_sim (message : String) :
    c.Same (modifyLog (·.report .note loc.range message))
      (modifyLog (·.report .note (c.location loc).range message)) :=
  report_sim .note loc message

lemma emitSplice_sim (isPure : Bool)
    (entries : List.Forall₂ c.NamedEntries es es') (bs : List SpliceBinding)
    (parts : List SplicePart) (uses : List Nat) : c.Same (emitSplice loc isPure es bs parts uses)
      (emitSplice (c.location loc) isPure es' (bs.map c.movedSplice) parts uses) := by
  have empty : es'.isEmpty = es.isEmpty := by cases entries <;> rfl
  have values : (bs.map c.movedSplice).map (·.value) = bs.map (·.value) := by
    rw [List.map_map]
    rfl
  rw [emitSplice, emitSplice, empty, values, entries.length_eq]
  exact (reportUses_sim _ _).seq <| .ite (note_sim loc _)
    ((push_sim rfl).seq <| writeResults_sim entries bs)

structure SpliceCalls (c : Variation) (k k' : SpliceCall) : Prop where
  options : k'.options = k.options.vary c
  results : k'.results.1 = k.results.1.vary c ∧ c.Lists k.results.2 k'.results.2
  inputs : k'.inputs.1 = k.inputs.1.vary c ∧ c.Lists k.inputs.2 k'.inputs.2
  scratch : k'.scratch.1 = k.scratch.1.vary c ∧ c.Lists k.scratch.2 k'.scratch.2
  template : k'.template = k.template.vary c

lemma spliceCode_sim {k k' : SpliceCall} (calls : c.SpliceCalls k k') :
    c.Same (spliceCode loc k) (spliceCode (c.location loc) k') := by
  unfold spliceCode
  rw [calls.options, calls.template, calls.results.1, calls.inputs.1, calls.scratch.1,
    Expr.vary_constantText?, Expr.vary_loc]
  refine .bind (splicePurity_sim _) fun isPure => ?_
  cases k.template.constantText? with
  | none => exact error_sim _ _
  | some template =>
    refine .after (listEntries_sim _ calls.results.2) fun _ _ entries =>
      .after (pairEntries_sim entries) fun results results' resultEntries => ?_
    have names : results'.map (fun e => (e.name, e.loc)) =
        (results.map fun e => (e.name, e.loc)).map c.movedName := by
      clear entries
      induction resultEntries with
      | nil => rfl
      | cons first _ ih => simp only [List.map_cons, ih, first.name, first.loc, movedName]
    rw [names]
    refine .after (tempBindings_sim _) fun resultBindings _ moved =>
      .after (listEntries_sim _ calls.inputs.2) fun _ _ entries =>
        .after (pairEntries_sim entries) fun _ _ inputEntries =>
          .after (inputBindings_sim inputEntries) fun inputs _ moved' =>
            .after (listEntries_sim _ calls.scratch.2) fun _ _ entries =>
              .after (nameEntries_sim entries) fun _ _ moved'' => ?_
    subst moved moved' moved''
    refine .after (tempBindings_sim _) fun scratch _ moved => ?_
    subst moved
    dsimp only
    rw [← List.map_append, ← List.map_append]
    generalize resultBindings ++ inputs ++ scratch = bindings
    have same : (bindings.map c.movedSplice).map (·.name) = bindings.map (·.name) := by
      rw [List.map_map]
      rfl
    rw [same]
    refine (reportDuplicates_sim _ _).seq ?_
    cases SplicePart.ofTemplate (bindings.map (·.name)) template with
    | error e => exact (error_sim _ _).seq <| releaseBindings_sim _
    | ok read =>
      exact (emitSplice_sim loc isPure resultEntries bindings read.1
        read.2).seq <| releaseBindings_sim _

lemma headerCode_sim (args : List Expr) :
    c.Same (headerCode loc args) (headerCode (c.location loc) (varyExprs c args)) := by
  match args with
  | [] => exact error_sim loc _
  | _ :: _ :: _ => exact error_sim loc _
  | [text] =>
    simp only [varyExprs, headerCode, Expr.vary_constantText?, Expr.vary_loc]
    cases text.constantText? with
    | none => exact error_sim _ _
    | some header => exact inUnit_sim (CodeUnit.addHeader_plain header)

lemma nativeCode_sim (name : String) (args : List Expr)
    {lists lists' : List SpliceList} (all : List.Forall₂ c.Lists lists lists') :
    c.Same (nativeCode loc name args lists)
      (nativeCode (c.location loc) name (varyExprs c args) lists') := by
  refine .ite (headerCode_sim loc args) ?_
  match args, all with
  | [options, results, inputs, scratch, template],
      .cons _ (.cons second (.cons third (.cons fourth (.cons _ .nil)))) =>
    exact spliceCode_sim loc ⟨rfl, ⟨rfl, second⟩, ⟨rfl, third⟩, ⟨rfl, fourth⟩, rfl⟩
  | [], _ | [_], _ | [_, _], _ | [_, _, _], _ | [_, _, _, _],
      _ | _ :: _ :: _ :: _ :: _ :: _ :: _, _ =>
    exact error_sim loc _
  | [_, _, _, _, _], .nil => exact error_sim loc _
  | [_, _, _, _, _], .cons _ .nil => exact error_sim loc _
  | [_, _, _, _, _], .cons _ (.cons _ .nil) => exact error_sim loc _
  | [_, _, _, _, _], .cons _ (.cons _ (.cons _ .nil)) => exact error_sim loc _
  | [_, _, _, _, _], .cons _ (.cons _ (.cons _ (.cons _ .nil))) => exact error_sim loc _
  | [_, _, _, _, _], .cons _ (.cons _ (.cons _ (.cons _ (.cons _ (.cons _ _))))) =>
    exact error_sim loc _

lemma isNative_sim (callee : Expr) : c.Same (isNative callee) (isNative (callee.vary c)) := by
  unfold isNative
  rw [Expr.vary_name?]
  cases callee.name? with
  | none => exact .pure _
  | some name =>
    refine .ite (.look fun _ s s' alike => ?_) (.pure _)
    have scope : s'.frame.scope = s.frame.scope := by rw [alike.frame]
    rw [scope]
    exact (lookup_sim _ _).last

end Scriptc.Variation
