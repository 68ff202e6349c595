import Scriptc.Proofs.Variation.States

/-!
# Code of varied trees

Each way to put code together from the code of parts gives matching code for matching parts.
-/

namespace Scriptc.Variation

open Lowering Routine

variable {c : Variation} {α β : Type} {args args' : List ArgumentCode}

/-! ## Operations on the routine -/

lemma release_sim {a : Operand} : c.Stable (release a) := inCode_sim (release_plain a)

lemma push_sim {i : Instruction} (plain : i.created? = none) : c.Stable (push i) :=
  inCode_sim (push_plain plain)

lemma newLabel_sim : c.Stable newLabel := inCode_sim newLabel_plain

lemma place_sim {label : Label} : c.Stable (place label) := inCode_sim (place_plain label)

lemma goto_sim {label : Label} : c.Stable (goto label) := inCode_sim (goto_plain label)

lemma allocTemp_sim : c.Stable allocTemp := inCode_sim allocTemp_plain

lemma assign_sim {dest source : Operand} : c.Stable (assign dest source) :=
  inCode_sim (assign_plain dest source)

/-! ## Bindings and names -/

lemma binding_sim (id : BindingId) :
    c.Sim (fun b b' => b' = c.movedBinding b) (binding id) (binding id) :=
  askScopes_sim fun t => by
    simp only [ScopeTree.binding, movedScopes, Array.getElem?_map]
    cases t.bindings[id]? <;> rfl

lemma scope_sim (id : ScopeId) : c.Stable (askScopes (·.scope id)) := askScopes_same fun _ => rfl

lemma lookupLocal_sim (id : ScopeId) (name : String) :
    c.Stable (askScopes (·.lookupLocal id name)) := askScopes_same fun _ => rfl

lemma scopes_lookup (t : ScopeTree) (id : ScopeId) (name : String) :
    (c.movedScopes t).lookup id name = t.lookup id name := by
  have within (steps : Nat) (id : ScopeId) :
      (c.movedScopes t).lookupWithin name steps id = t.lookupWithin name steps id := by
    induction steps generalizing id with
    | zero => rfl
    | succ steps ih => simp only [ScopeTree.lookupWithin, ih]; rfl
  exact within _ _

lemma lookup_sim (id : ScopeId) (name : String) : c.Stable (askScopes (·.lookup id name)) :=
  askScopes_same fun t => scopes_lookup t id name

section

variable (id : BindingId) {change change' : Binding → Binding}
  (same : ∀ b, change' (c.movedBinding b) = c.movedBinding (change b))
include id same

lemma modifyBinding_twin :
    Twin False (fun t t' => t' = c.movedScopes t) Eq (ScopeTree.modifyBinding id change)
      (ScopeTree.modifyBinding id change') := by
  rintro t _ rfl
  simp only [ScopeTree.modifyBinding, ScopeTree.ask, ScopeTree.binding, bind,
    EStateM.bind, movedScopes, Array.getElem?_map]
  cases t.bindings[id]? with
  | none => exact .inr ⟨_, rfl⟩
  | some b =>
    refine ⟨_, _, rfl, trivial, ?_⟩
    have moves : (t.bindings.map c.movedBinding).modify id change' =
        (t.bindings.modify id change).map c.movedBinding := by
      apply Array.ext_getElem?
      intro k
      simp only [Array.getElem?_modify, Array.getElem?_map]
      split <;> cases t.bindings[k]? <;> simp [same]
    exact congrArg (fun bindings => ({ t with bindings } : ScopeTree)) moves

lemma modifyBinding_sim : c.Same (modifyBinding id change) (modifyBinding id change') :=
  inScopes_sim (modifyBinding_twin id same)

end

variable (scope : ScopeId)

variable (name : String)

lemma declareAnonymous_twin :
    Twin False (fun t t' => t' = c.movedScopes t) Eq (ScopeTree.declareAnonymous scope name)
      (ScopeTree.declareAnonymous scope name) := by
  refine .bind (ask_twin fun _ => rfl) ?_
  rintro sc _ rfl
  refine .modifyGet ?_
  rintro t _ rfl
  exact ⟨Array.size_map.symm, by simp [movedScopes, movedBinding, Binding.new]⟩

lemma declare_twin :
    Twin False (fun t t' => t' = c.movedScopes t) Eq (ScopeTree.declare scope name)
      (ScopeTree.declare scope name) := by
  refine .bind (declareAnonymous_twin scope name) ?_
  rintro id _ rfl
  refine .bind (.modify ?_) fun _ _ _ => .pure rfl
  rintro t _ rfl
  rfl

lemma newScope_sim (parent : Option ScopeId) (owner : RoutineId) (whole : Bool) :
    c.Stable (inScopes (ScopeTree.newScope parent owner whole)) := by
  refine inScopes_sim (.get_bind ?_)
  rintro t _ rfl
  have add (s : Scope) : Twin False (fun t t' => t' = c.movedScopes t) Eq
      (do modify fun t => { t with scopes := t.scopes.push s }; pure t.scopes.size)
      (do modify fun t => { t with scopes := t.scopes.push s }; pure t.scopes.size) := by
    refine .bind (.modify ?_) fun _ _ _ => .pure rfl
    rintro t _ rfl
    rfl
  cases parent with
  | none => exact add _
  | some p =>
    refine .bind (ask_twin fun _ => rfl) ?_
    rintro outer _ rfl
    exact add _

variable (id : BindingId)

lemma attachVariable_sim (scope : ScopeId) (name : String)
    (param : Option ParamId) : c.Stable (attachVariable id scope name param) :=
  .bind (scope_sim scope) fun sc =>
    (inUnit_sim (CodeUnit.inRoutine_adds sc.owner (.look (fun _ _ => rfl) fun _ =>
      .guard (newVariable_plain name param)))).seq <| modifyBinding_sim id fun _ => rfl

lemma newVariable_sim (param : Option ParamId) :
    c.Stable (newVariable scope name param) :=
  .bind (inScopes_sim (declare_twin scope name)) fun id =>
    (attachVariable_sim id scope name param).seq <| .pure id

lemma newAnonymous_sim (param : Option ParamId) :
    c.Stable (newAnonymous scope name param) :=
  .bind (inScopes_sim (declareAnonymous_twin scope name)) fun id =>
    (attachVariable_sim id scope name param).seq <| .pure id

lemma variableOf_sim : c.Stable (variableOf id) :=
  .after (binding_sim id) fun b _ moved => by
    subst moved
    rw [show (c.movedBinding b).storedIn = b.storedIn from rfl]
    cases b.storedIn with
    | some v => exact .pure _
    | none => exact .throw _

lemma lookupOwn_sim (routine : RoutineId) (steps : Nat) (id : ScopeId) :
    c.Stable (lookupOwn name routine steps id) := by
  induction steps generalizing id with
  | zero => exact .pure none
  | succ steps ih =>
    refine .bind (scope_sim id) fun sc => .ite (.pure _) ?_
    split
    · exact .pure _
    · exact ih _
    · exact .pure _

lemma access_sim : c.Stable (access id) := .look fun _ s s' alike => by
    rw [alike.frame]
    exact modifyBinding_sim id fun _ => rfl

lemma argumentsBinding_sim : c.Stable argumentsBinding :=
  .look fun _ s s' alike => by
    rw [alike.frame, alike.scopes]
    refine .bind (lookupOwn_sim _ _ _ _) fun found => ?_
    cases found with
    | some id => exact .pure id
    | none =>
      exact .bind (newVariable_sim _ _ _) fun id =>
        .bind (modifyBinding_sim id fun _ => rfl) fun _ => (variableOf_sim id).seq <|
          (inCode_sim (pushPrologue_plain rfl)).seq <|
          .bind (modifyBinding_sim id fun _ => rfl) fun _ => .pure id

lemma resolve_sim (loc : Location) :
    c.Same (resolve name loc) (resolve name (c.location loc)) :=
  .look fun _ s s' alike => by
    have frame : s'.frame.isTop = s.frame.isTop := by rw [alike.frame]; rfl
    have scope : s'.frame.scope = s.frame.scope := by rw [alike.frame]
    rw [frame, scope, alike.topScope]
    refine .ite argumentsBinding_sim (.bind (lookup_sim _ _) fun found => ?_)
    cases found with
    | some id => exact .pure id
    | none =>
      rw [← Result.ite_bind, ← Result.ite_bind]
      exact (strictly_sim alike loc _ (fun _ => rfl) (warn_sim loc _)).seq <|
        .bind (newVariable_sim _ _ _) fun id => .bind (modifyBinding_sim id fun _ => rfl) fun _ =>
        .pure id

lemma readBinding_sim : c.Stable (readBinding id) :=
  .after (binding_sim id) fun b _ moved => by
    subst moved
    rw [show (c.movedBinding b).constant = b.constant from rfl]
    cases b.constant with
    | some value => exact .pure _
    | none => exact (access_sim id).seq <| variableOf_sim id

lemma writeBinding_sim (loc : Location) :
    c.Same (writeBinding id loc) (writeBinding id (c.location loc)) :=
  .after (binding_sim id) fun b _ moved => by
    subst moved
    exact .ite ((strictError_sim loc _).last)
      ((access_sim id).seq <| .bind (modifyBinding_sim id fun _ => rfl) fun _ =>
        (variableOf_sim id).last)

lemma declaredBinding_sim (loc : Location) :
    c.Same (declaredBinding name loc) (declaredBinding name (c.location loc)) :=
  .look fun _ s s' alike => by
    have shadows : s'.frame.shadows = s.frame.shadows := by rw [alike.frame]
    rw [shadows]
    cases s.frame.shadows.lookup name with
    | some id => exact .pure id
    | none => exact resolve_sim name loc

/-! ## Hoisting -/

def movedHoisted (c : Variation) (h : Hoisted) : Hoisted := { h with loc := c.location h.loc }

lemma pointAtDeclaration_sim (b : Binding) :
    c.Same (pointAtDeclaration b) (pointAtDeclaration (c.movedBinding b)) := by
  rw [pointAtDeclaration, movedBinding]
  cases b.declaredAt with
  | none => exact .pure _
  | some range => exact pointLast_sim range _

lemma varScope_sim : c.Stable varScope := .look fun _ s s' alike => by
    have scope : s'.frame.scope = s.frame.scope := by rw [alike.frame]
    rw [scope]
    exact (scope_sim _).last

lemma shadow_sim : c.Stable (shadow scope name) :=
  .bind (newAnonymous_sim scope name none) fun id =>
    .bind (modifyFrame_sim (fun _ _ => rfl) fun _ => rfl) fun _ => .pure id

lemma movedBinding_declareAt (b : Binding) (r : TextRange) :
    (c.movedBinding b).declareAt (c.range r) = c.movedBinding (b.declareAt r) := by
  rw [movedBinding, Binding.declareAt, Binding.declareAt]
  cases b.declaredAt <;> rfl

lemma functionBinding_sim (ident : Ident) :
    c.Same (functionBinding ident) (functionBinding (ident.vary c)) := by
  refine .bind varScope_sim fun scope => .bind (lookupLocal_sim scope _) fun found => ?_
  cases found with
  | none => exact newVariable_sim _ _ _
  | some id =>
    refine .after (binding_sim id) fun b _ moved => ?_
    subst moved
    exact .ite ((strictError_sim ident.loc _).seq <| shadow_sim scope _)
      (.when ((warn_sim ident.loc _).seq <| pointAtDeclaration_sim b) (.pure id))

lemma declareFunction_sim (loc : Location) (func : Func) :
    c.Sim (fun h h' => h' = h.map c.movedHoisted) (declareFunction loc func)
      (declareFunction (c.location loc) (func.vary c)) := by
  rw [declareFunction, declareFunction, Func.vary_name?]
  cases func.name? with
  | none => exact (error_sim loc _).sim fun _ => .pure rfl
  | some ident =>
    refine (functionBinding_sim ident).sim fun id => ?_
    refine (modifyBinding_sim id fun b => ?_).sim fun _ => .pure rfl
    dsimp only [Ident.vary]
    rw [location_range, movedBinding_declareAt]
    rfl

lemma declareVariable_sim (loc : Location) :
    c.Same (declareVariable name loc) (declareVariable name (c.location loc)) := by
  have declare (id : BindingId) : c.Same (modifyBinding id (·.declareAt loc.range))
      (modifyBinding id (·.declareAt (c.location loc).range)) :=
    modifyBinding_sim id fun b => by rw [location_range, movedBinding_declareAt]
  refine .bind varScope_sim fun scope => .bind (lookupLocal_sim scope name) fun found => ?_
  cases found with
  | none => exact .bind (newVariable_sim _ _ _) declare
  | some id =>
    refine .after (binding_sim id) fun b _ moved => ?_
    subst moved
    refine .ite ((strictError_sim loc _).seq <| .look fun _ s s' alike => ?_)
      (.when ((warn_sim loc _).seq <| pointAtDeclaration_sim b) (declare id))
    have shadows : s'.frame.shadows = s.frame.shadows := by rw [alike.frame]
    rw [shadows]
    exact .ite (.bind (shadow_sim scope name) fun id => modifyBinding_sim id fun _ => rfl) (.pure _)

lemma declareAll_sim (ds : List Declarator) :
    c.Same (declareAll ds) (declareAll (varyDeclarators c ds)) := by
  induction ds with
  | nil => exact .pure _
  | cons d rest ih =>
    obtain ⟨loc, target, init⟩ := d
    rw [declareAll, varyDeclarators, declareAll, Pattern.vary_name?]
    cases target.name? with
    | none => exact ih
    | some name => exact (declareVariable_sim name loc).seq <| ih

lemma hoist_sim (ds : List Declaration) :
    c.Sim (fun hs hs' => hs' = hs.map c.movedHoisted) (hoist ds)
      (hoist (ds.map (Declaration.vary c))) := by
  induction ds with
  | nil => exact .pure rfl
  | cons d rest ih =>
    cases d with
    | function loc func =>
      refine (declareFunction_sim loc func).bind fun h _ moved =>
        ih.bind fun hs _ moved' => .pure ?_
      subst moved moved'
      cases h <;> rfl
    | varDecl loc kind declarators =>
      have rest : c.Sim _ (do declareAll declarators; hoist rest) (do
          declareAll (varyDeclarators c declarators); hoist (rest.map (Declaration.vary c))) :=
        (declareAll_sim declarators).sim fun _ => ih
      exact .ite ((error_sim loc _).sim fun _ => rest) rest

/-! ## Values -/

/-- Whether the code of two expressions matches. -/
structure Codes (c : Variation) (e e' : Lowered) : Prop where
  expr : e'.expr = e.expr.vary c
  code : ∀ demand, c.Same (e.code demand) (e'.code demand)

namespace Codes

variable {e e' : Lowered} (codes : c.Codes e e')

include codes

lemma value : c.Same e.value e'.value := codes.code .value

lemma discard : c.Same e.discard e'.discard := (codes.code .effect).seq <| release_sim

lemma jump (onTrue onFalse : Label) : c.Same (e.jump onTrue onFalse) (e'.jump onTrue onFalse) :=
  (codes.code (.branch onTrue onFalse)).last

lemma loc : e'.loc = c.location e.loc := by rw [Lowered.loc, Lowered.loc, codes.expr, Expr.vary_loc]

lemma isSimple : e'.isSimple = e.isSimple := by
  rw [Lowered.isSimple, Lowered.isSimple, codes.expr, Expr.vary_isSimple]

end Codes

lemma discardOption_sim {e e' : Option Lowered} (codes : Option.Rel c.Codes e e') :
    c.Same (discardOption e) (discardOption e') := by
  cases codes with
  | none => exact .pure _
  | some codes => exact codes.discard

lemma discardAll_sim {es es' : List Lowered} (codes : List.Forall₂ c.Codes es es') :
    c.Same (discardAll es) (discardAll es') := by
  induction codes with
  | nil => exact .pure _
  | cons first _ ih => exact first.discard.seq <| ih

lemma refuse_sim (loc : Location) (what : String) :
    c.Same (refuse loc what) (refuse (c.location loc) what) :=
  (notSupported_sim loc what).last

variable (warnAt : Option Location)

lemma reportDecided_sim (taken : Option Bool) :
    c.Same (reportDecided warnAt taken) (reportDecided (warnAt.map c.location) taken) := by
  cases warnAt with
  | none => cases taken <;> exact .pure _
  | some loc =>
    cases taken with
    | none => exact .pure _
    | some taken => exact warn_sim loc _

lemma branchOn_sim (value : Operand) (onTrue onFalse : Label) :
    c.Same (branchOn warnAt value onTrue onFalse)
      (branchOn (warnAt.map c.location) value onTrue onFalse) :=
  .bind (inCode_sim (branchTrue_plain value onTrue onFalse)) fun taken =>
    release_sim.seq <| reportDecided_sim warnAt taken

lemma settle_sim (value : Operand) (demand : Demand) :
    c.Same (settle warnAt value demand) (settle (warnAt.map c.location) value demand) := by
  cases demand with
  | branch onTrue onFalse => exact (branchOn_sim warnAt value onTrue onFalse).last
  | _ => exact .pure _

lemma settled_sim {code code' : Lower Operand} (values : c.Same code code') (loc : Location)
    (demand : Demand) : c.Same (do settle (some loc) (← code) demand)
      (do settle (some (c.location loc)) (← code') demand) :=
  .bind values fun value => settle_sim (some loc) value demand

lemma pin_sim (value : Operand) : c.Stable (pin value) := by
  cases value with
  | var v => exact allocTemp_sim.seq <| assign_sim.last
  | _ => exact .pure _

lemma pinIf_sim (keep : Bool) (value : Operand) : c.Stable (pinIf keep value) :=
  .ite (pin_sim value) (.pure value)

lemma resultTemp_sim {operands : List Operand} : c.Stable (resultTemp operands) := by
  have first : (firstTemp? operands).Plain := by
    induction operands with
    | nil => exact .pure _
    | cons a rest ih => exact (holdsTemp_plain a).seq <| .ite (.pure _) ih
  have others (kept : Operand) : (releaseOthers kept operands).Plain := by
    clear first
    induction operands with
    | nil => exact .pure _
    | cons a rest ih => exact .ite ((release_plain a).seq <| ih) ih
  refine inCode_sim (.bind first fun found => ?_)
  have rest (dest : Operand) : Edit.Plain (do releaseOthers dest operands; pure dest) :=
    (others dest).seq <| .pure dest
  cases found with
  | some a => exact rest a
  | none => exact .bind allocTemp_plain rest

lemma unaryValue_sim {op : Opcode} {argument : Operand} : c.Stable (unaryValue op argument) := by
  refine .bind (inCode_sim (.ask fun _ _ => rfl)) fun folded => ?_
  cases folded with
  | some value => exact .pure _
  | none => exact resultTemp_sim.seq <| (inCode_sim (unary_plain _ _ _)).last

lemma toNumber_sim {argument : Operand} : c.Stable (toNumber argument) := unaryValue_sim

lemma binaryValue_sim (op : Opcode) (left right : Operand) :
    c.Stable (binaryValue op left right) := by
  refine .bind (inCode_sim (.ask fun _ _ => rfl)) fun folded => ?_
  cases folded with
  | some value => exact release_sim.seq <| release_sim.last
  | none => exact resultTemp_sim.seq <| (inCode_sim (binary_plain _ _ _ _)).last

lemma literalValue_sim (loc : Location) (lit : LiteralSyntax) :
    c.Same (literalValue loc lit) (literalValue (c.location loc) lit) := by
  refine .ite (refuse_sim loc _) (.ite (refuse_sim loc _) ?_)
  cases lit.value with
  | other => exact refuse_sim loc _
  | _ => exact .pure _

/-! ## Operators -/

lemma applyPlan_sim (plan : BinaryPlan) (left right : Operand) (loc : Location) (demand : Demand) :
    c.Same (applyPlan plan left right loc demand) (applyPlan plan left right
      (c.location loc) demand) := by
  cases demand with
  | branch onTrue onFalse =>
    exact .ite (.bind (inCode_sim (branchCompare_plain _ _ _ _ _)) fun taken =>
        release_sim.seq <| release_sim.seq <| (reportDecided_sim (some loc) taken).last)
      (settled_sim (binaryValue_sim _ _ _) loc _)
  | _ => exact binaryValue_sim _ _ _

lemma applyBinary_sim (op : BinaryOp) (left right : Operand) (loc : Location) (demand : Demand) :
    c.Same (applyBinary op left right loc demand)
      (applyBinary op left right (c.location loc) demand) := by
  unfold applyBinary
  cases op.plan? with
  | none =>
    exact release_sim.seq <| release_sim.seq <|
      (notSupported_sim loc _).seq <| settle_sim (some loc) _ demand
  | some plan =>
    exact .when (warn_sim loc _) (.ite
      (toNumber_sim.seq <| toNumber_sim.seq <| applyPlan_sim _ _ _ loc demand)
      (.ite (applyPlan_sim _ _ _ loc demand) (applyPlan_sim _ _ _ loc demand)))

lemma settleUnary_sim (loc : Location) (value : Operand) (demand : Demand) :
    c.Same (settleUnary loc value demand) (settleUnary (c.location loc) value demand) := by
  cases demand with
  | effect => exact release_sim.last
  | value => exact settle_sim (some loc) value .value
  | branch onTrue onFalse => exact settle_sim (some loc) value (.branch onTrue onFalse)

lemma testLeft_sim {op : LogicalOp} {value : Operand} {rhs done : Label} :
    c.Stable (testLeft op value rhs done) := by
  refine .bind ?_ fun _ => .pure _
  cases op with
  | and | or => exact inCode_sim (branchTrue_plain _ _ _)
  | nullish => exact inCode_sim (branchCompare_plain _ _ _ _ _)

lemma joinInto_sim {dest value : Operand} : c.Stable (joinInto dest value) :=
  .ite ((inCode_sim (allocSpecific_plain _)).seq <| assign_sim.seq <| release_sim) (.pure _)

lemma inTemp_sim {value : Operand} : c.Stable (inTemp value) :=
  (inCode_sim (holdsTemp_plain value)).seq <| .ite (.pure _)
    (allocTemp_sim.seq <| assign_sim.last)

section

variable {e e' l l' r r' : Lowered} (argument : c.Codes e e') (left : c.Codes l l')
  (right : c.Codes r r') (loc : Location) (demand : Demand)

include left right in
lemma binaryCode_sim (op : BinaryOp) :
    c.Same (binaryCode loc op l r demand) (binaryCode (c.location loc) op l' r' demand) := by
  rw [binaryCode, binaryCode, right.isSimple]
  exact left.value.seq <| (pinIf_sim _ _).seq <| right.value.seq <| applyBinary_sim _ _ _ loc demand

include argument in
lemma notCode_sim : c.Same (notCode loc e demand) (notCode (c.location loc) e' demand) := by
  cases demand with
  | branch onTrue onFalse => exact argument.code _
  | _ => exact argument.value.seq <| unaryValue_sim.seq <| settleUnary_sim loc _ _

include argument in
lemma unaryCode_sim (op : Opcode) (numeric : Bool) :
    c.Same (unaryCode loc op numeric e demand) (unaryCode (c.location loc) op numeric e' demand) :=
  have rest (a : Operand) : c.Same (do settleUnary loc (← unaryValue op a) demand)
      (do settleUnary (c.location loc) (← unaryValue op a) demand) :=
    unaryValue_sim.seq <| settleUnary_sim loc _ _
  .bind argument.value fun a => .ite (.bind toNumber_sim rest) (.bind (.pure a) rest)

include argument in
lemma plusCode_sim : c.Same (plusCode loc e demand) (plusCode (c.location loc) e' demand) :=
  argument.value.seq <| toNumber_sim.seq <| settleUnary_sim loc _ _

include argument in
lemma voidCode_sim : c.Same (voidCode loc e demand) (voidCode (c.location loc) e' demand) :=
  argument.discard.seq <| settleUnary_sim loc _ _

include left right in
lemma logicalValue_sim (op : LogicalOp) : c.Same (logicalValue op l r) (logicalValue op l' r') :=
  left.value.seq <| release_sim.seq <| allocTemp_sim.seq <| assign_sim.seq <| newLabel_sim.seq <|
    newLabel_sim.seq <| testLeft_sim.seq <| place_sim.seq <| release_sim.seq <| right.value.seq <|
    joinInto_sim.seq <| place_sim.last

include left right in
lemma logicalEffect_sim (op : LogicalOp) :
    c.Same (logicalEffect op l r) (logicalEffect op l' r') := by
  refine .bind newLabel_sim fun rhs => .bind newLabel_sim fun done => ?_
  have rest : c.Same (do place rhs; r.discard; place done) (do place rhs; r'.discard; place done) :=
    place_sim.seq <| right.discard.seq <| place_sim
  cases op with
  | and | or => exact (left.jump _ _).seq <| rest
  | nullish => exact left.value.seq <| testLeft_sim.seq <| release_sim.seq <| rest

include left right in
lemma logicalCode_sim (op : LogicalOp) :
    c.Same (logicalCode loc op l r demand) (logicalCode (c.location loc) op l' r' demand) := by
  cases demand with
  | value => exact logicalValue_sim left right op
  | effect => exact (logicalEffect_sim left right op).last
  | branch onTrue onFalse =>
    refine .bind (newLabel_sim.seq ?_) fun _ => .pure _
    cases op with
    | and | or => exact (left.jump _ _).seq <| place_sim.seq <| right.jump _ _
    | nullish => exact (logicalValue_sim left right _).seq <| branchOn_sim (some loc) _ _ _

include argument left right in
lemma conditionalCode_sim :
    c.Same (conditionalCode e l r demand) (conditionalCode e' l' r' demand) := by
  refine .bind newLabel_sim fun first => .bind newLabel_sim fun second =>
    .bind newLabel_sim fun done => (argument.jump _ _).seq <| place_sim.seq ?_
  cases demand with
  | branch onTrue onFalse =>
    exact (left.jump _ _).seq <| place_sim.seq <| (right.jump _ _).last
  | effect =>
    exact left.discard.seq <| goto_sim.seq <| place_sim.seq <|
      right.discard.seq <| place_sim.last
  | value =>
    exact left.value.seq <| inTemp_sim.seq <| goto_sim.seq <| release_sim.seq <| place_sim.seq <|
      right.value.seq <| joinInto_sim.seq <| place_sim.last

end

lemma sequenceCode_sim {es es' : List Lowered} (codes : List.Forall₂ c.Codes es es')
    (demand : Demand) : c.Same (sequenceCode es demand) (sequenceCode es' demand) := by
  induction codes with
  | nil => exact .throw _
  | cons first others ih =>
    cases others with
    | nil => exact first.code demand
    | cons => exact first.discard.seq <| ih

/-! ## Places -/

structure Members (c : Variation) (m m' : MemberCode) : Prop where
  object : c.Codes m.object m'.object
  property : c.Codes m.property m'.property
  computed : m'.computed = m.computed
  isOptional : m'.isOptional = m.isOptional

/-- Whether two references name matching places. -/
inductive References (c : Variation) : Reference → Reference → Prop where
  | name (name : String) : References c (.name name) (.name name)
  | member {m m' : MemberCode} : c.Members m m' → References c (.member m) (.member m')
  | pattern : References c .pattern .pattern
  | other : References c .other .other

/-- Whether the code of two expressions that may name places matches. -/
structure Places (c : Variation) (p p' : Place) : Prop where
  whole : c.Codes p.whole p'.whole
  reference : c.References p.reference p'.reference

namespace Members

variable {m m' : MemberCode} (members : c.Members m m')

include members

lemma evalObject_sim (keep : Bool) : c.Same (m.evalObject keep) (m'.evalObject keep) := by
  rw [MemberCode.evalObject, MemberCode.evalObject, members.computed, members.property.isSimple]
  exact members.object.value.seq <| pinIf_sim _ _

lemma evalKey_sim : c.Same m.evalKey m'.evalKey := by
  unfold MemberCode.evalKey
  rw [members.computed, members.property.expr, Expr.vary_name?, members.property.loc]
  refine .ite members.property.value ?_
  cases m.property.expr.name? with
  | some name => exact .pure _
  | none => exact (error_sim _ _).last

lemma read_sim (loc : Location) : c.Same (m.read loc) (m'.read (c.location loc)) := by
  unfold MemberCode.read
  rw [members.isOptional]
  exact .when (notSupported_sim loc _) ((members.evalObject_sim _).seq <| members.evalKey_sim.seq <|
    resultTemp_sim.seq <| (push_sim rfl).last)

lemma delete_sim : c.Same m.delete m'.delete :=
  (members.evalObject_sim _).seq <| members.evalKey_sim.seq <|
    resultTemp_sim.seq <| (push_sim rfl).last

end Members

namespace Places

variable {p p' : Place} (places : c.Places p p')

include places

lemma evaluate_sim (stable : Bool) : c.Same (p.evaluate stable) (p'.evaluate stable) := by
  obtain ⟨whole, reference⟩ := p
  obtain ⟨whole', reference'⟩ := p'
  have references : c.References reference reference' := places.reference
  unfold Place.evaluate
  rw [places.whole.loc]
  cases references with
  | name name =>
    refine .bind (resolve_sim _ _) fun id => .bind (writeBinding_sim _ _) fun written => ?_
    cases written with
    | some v => exact .pure _
    | none => exact (readBinding_sim _).last
  | member members =>
    dsimp only
    rw [members.isOptional]
    exact .when (error_sim _ _) ((members.evalObject_sim _).seq <|
      members.evalKey_sim.seq <| (pinIf_sim _ _).last)
  | pattern => exact (notSupported_sim _ _).last
  | other => exact (error_sim _ _).seq <| places.whole.discard.last

lemma delete_sim : c.Same p.delete p'.delete := by
  obtain ⟨whole, reference⟩ := p
  obtain ⟨whole', reference'⟩ := p'
  have references : c.References reference reference' := places.reference
  unfold Place.delete
  rw [places.whole.loc]
  cases references with
  | name name => exact (strictError_sim _ _).last
  | member members => exact members.delete_sim
  | pattern | other => exact places.whole.discard.last

end Places

variable (t : Target)

lemma target_read_sim : c.Stable t.read := by
  cases t with
  | member object key => exact allocTemp_sim.seq <| (push_sim rfl).last
  | _ => exact .pure _

lemma target_write_sim (value : Operand) : c.Stable (t.write value) := by
  cases t with
  | stored v => exact assign_sim
  | member object key => exact push_sim rfl
  | _ => exact .pure _

lemma target_release_sim : c.Stable t.release := by
  cases t with
  | member object key => exact release_sim.seq <| release_sim
  | invalid => exact .pure _
  | _ => exact release_sim

lemma assignedValue_sim (value : Operand) (needed : Bool) :
    c.Stable (t.assignedValue value needed) := by
  have rest (result : Operand) : c.Stable (do t.release; pure result) :=
    (target_release_sim t).last
  refine .ite (release_sim.seq <| rest _) (.ite (rest _) ?_)
  cases t with
  | stored v => exact release_sim.seq <| rest _
  | _ => exact rest _

section

variable {p p' : Place} {r r' : Lowered} (left : c.Places p p') (right : c.Codes r r')
  (loc : Location) (demand : Demand) (needed : Bool)

include left right in
lemma assignPlain_sim : c.Same (assignPlain p r needed) (assignPlain p' r' needed) := by
  rw [assignPlain, assignPlain, right.isSimple]
  exact (left.evaluate_sim _).seq <| right.value.seq <|
    (target_write_sim _ _).seq <| assignedValue_sim _ _ _

include left right in
lemma assignCombined_sim (op : BinaryOp) :
    c.Same (assignCombined loc op p r needed) (assignCombined (c.location loc)
      op p' r' needed) := by
  rw [assignCombined, assignCombined, right.isSimple]
  exact (left.evaluate_sim _).seq <| (target_read_sim _).seq <| (pinIf_sim _ _).seq <|
    right.value.seq <| (applyBinary_sim _ _ _ loc _).seq <| (target_write_sim _ _).seq <|
    assignedValue_sim _ _ _

include left right in
lemma assignLogical_sim (op : LogicalOp) :
    c.Same (assignLogical op p r needed) (assignLogical op p' r' needed) :=
  (left.evaluate_sim _).seq <| (target_read_sim _).seq <| release_sim.seq <| allocTemp_sim.seq <|
    assign_sim.seq <| newLabel_sim.seq <| newLabel_sim.seq <| testLeft_sim.seq <| place_sim.seq <|
    right.value.seq <| (target_write_sim _ _).seq <| assign_sim.seq <| release_sim.seq <|
    place_sim.seq <| (target_release_sim _).seq <| .ite (.pure _) (release_sim.last)

include left right in
lemma assignCode_sim (op : AssignOp) :
    c.Same (assignCode loc op p r demand) (assignCode (c.location loc) op p' r' demand) := by
  unfold assignCode
  cases op.plan with
  | plain => exact settled_sim (assignPlain_sim left right _) loc demand
  | combined op => exact settled_sim (assignCombined_sim left right loc _ op) loc demand
  | logical op => exact settled_sim (assignLogical_sim left right _ op) loc demand

lemma countApart_sim (op : Opcode) (old : Operand) : c.Stable (countApart op old) := by
  refine .bind (inCode_sim (.ask fun _ _ => rfl)) fun folded => ?_
  cases folded with
  | some value => exact .pure _
  | none => exact allocTemp_sim.seq <| (inCode_sim (binary_plain _ _ _ _)).last

include left in
lemma updateCode_sim (op : UpdateOp) (keepsOld : Bool) :
    c.Same (updateCode loc op keepsOld p demand)
      (updateCode (c.location loc) op keepsOld p' demand) := by
  have rest (value : Operand) : c.Same (settle (some loc) value demand)
      (settle (some (c.location loc)) value demand) := settle_sim (some loc) value demand
  exact .bind (left.evaluate_sim _) fun target => (target_read_sim target).seq <|
    .bind toNumber_sim fun old => .ite ((countApart_sim _ _).seq <| (target_write_sim _ _).seq <|
        (target_release_sim _).seq <| .when release_sim (rest _))
      ((binaryValue_sim _ _ _).seq <| (target_write_sim _ _).seq <|
        (target_release_sim _).seq <| .ite (rest _) (release_sim.seq <| rest _))

include left in
lemma deleteCode_sim : c.Same (deleteCode loc p demand) (deleteCode (c.location loc) p' demand) :=
  left.delete_sim.seq <| settleUnary_sim loc _ demand

end

/-! ## Calls and literals -/

/-- Whether the code of two arguments matches. -/
inductive Arguments (c : Variation) : ArgumentCode → ArgumentCode → Prop where
  | value {e e' : Lowered} : c.Codes e e' → Arguments c (.value e) (.value e')
  | spread (loc : Location) {e e' : Lowered} :
    c.Codes e e' → Arguments c (.spread loc e) (.spread (c.location loc) e')

/-- Whether the code of two members of object literals matches. -/
inductive LiteralMembers (c : Variation) : LiteralMember → LiteralMember → Prop where
  | property (loc : Location) {key key' value value' : Lowered} (kind : PropertyKind)
      (computed : Bool) : c.Codes key key' → c.Codes value value' →
    LiteralMembers c (.property loc key value kind computed)
      (.property (c.location loc) key' value' kind computed)
  | spread (loc : Location) {e e' : Lowered} :
    c.Codes e e' → LiteralMembers c (.spread loc e) (.spread (c.location loc) e')

@[simp] lemma vary_isSpread (e : Expr) : (e.vary c).isSpread = e.isSpread := by
  cases e <;> rfl

@[simp] lemma vary_plainKey? (e : Expr) : (e.vary c).plainKey? = e.plainKey? := by
  cases e with
  | literal loc lit =>
    obtain ⟨value, _⟩ := lit
    cases value <;> rfl
  | _ => rfl

lemma arguments_simple (codes : List.Forall₂ c.Arguments args args') :
    args'.all ArgumentCode.isSimple = args.all ArgumentCode.isSimple := by
  induction codes with
  | nil => rfl
  | cons first _ ih =>
    rw [List.all_cons, List.all_cons, ih]
    cases first with
    | value codes => rw [ArgumentCode.isSimple, ArgumentCode.isSimple, codes.isSimple]
    | spread => rfl

section

variable {es es' : List (Option Lowered)} (codes : List.Forall₂ (Option.Rel c.Codes) es es')
include codes

lemma putElements_sim (array : Operand) (index : Nat) :
    c.Same (putElements array index es) (putElements array index es') := by
  induction codes generalizing index with
  | nil => exact .pure _
  | cons first _ ih =>
    cases first with
    | none => exact ih (index + 1)
    | @some e e' codes =>
      rw [putElements, putElements, codes.expr, vary_isSpread]
      exact .ite (codes.discard.seq <| ih (index + 1))
        (codes.value.seq <| (push_sim rfl).seq <| release_sim.seq <| ih (index + 1))

lemma arrayValue_sim : c.Same (arrayValue es) (arrayValue es') := by
  rw [arrayValue, codes.length_eq]
  exact allocTemp_sim.seq <| (push_sim rfl).seq <| (putElements_sim codes _ _).last

end

lemma literalKey_sim {e e' : Lowered} (codes : c.Codes e e') (computed : Bool) :
    c.Same (literalKey e computed) (literalKey e' computed) := by
  unfold literalKey
  rw [codes.expr, vary_plainKey?, codes.loc]
  refine .ite (codes.value.last) ?_
  cases e.expr.plainKey? with
  | some name => exact .pure _
  | none => exact (error_sim _ _).last

lemma putMember_sim {m m' : LiteralMember} (codes : c.LiteralMembers m m') (object : Operand) :
    c.Same (putMember object m) (putMember object m') := by
  cases codes with
  | spread loc codes => exact codes.discard.seq <| notSupported_sim _ _
  | property loc kind computed keys values =>
    refine .ite (notSupported_sim _ _) (.bind (literalKey_sim keys computed) fun key => ?_)
    cases key with
    | none => exact .pure _
    | some key => exact values.value.seq <| (push_sim rfl).seq <| release_sim.seq <| release_sim

lemma objectValue_sim {ms ms' : List LiteralMember} (codes : List.Forall₂ c.LiteralMembers ms ms') :
    c.Same (objectValue ms) (objectValue ms') := by
  have members (object : Operand) : c.Same (putMembers object ms) (putMembers object ms') := by
    induction codes with
    | nil => exact .pure _
    | cons first _ ih => exact (putMember_sim first object).seq <| ih
  exact allocTemp_sim.seq <| (push_sim rfl).seq <| (members _).last

lemma evalArguments_sim (codes : List.Forall₂ c.Arguments args args') :
    c.Same (evalArguments args) (evalArguments args') := by
  induction codes with
  | nil => exact .pure _
  | cons first others ih =>
    cases first with
    | spread loc codes => exact codes.discard.seq <| (notSupported_sim _ _).seq <| ih.last
    | value codes =>
      rw [evalArguments, evalArguments, arguments_simple others]
      exact codes.value.seq <| (pinIf_sim _ _).seq <| ih.last

lemma emitCall_sim (callee : Callee) (function receiver : Operand) (args : List Operand)
    (needed : Bool) : c.Stable (emitCall callee function receiver args needed) := by
  have all : c.Stable (releaseAll args) := by
    induction args with
    | nil => exact .pure _
    | cons a rest ih => exact release_sim.seq <| ih
  exact release_sim.seq <| release_sim.seq <| all.seq <| .ite
    (allocTemp_sim.seq <| (inCode_sim (call_plain _ _ _ _)).last)
    ((inCode_sim (call_plain _ _ _ _)).last)

lemma evalCallee_sim {p p' : Place} (places : c.Places p p') (argsSimple : Bool) :
    c.Same (evalCallee p argsSimple) (evalCallee p' argsSimple) := by
  have plain : c.Same (plainCallee p argsSimple) (plainCallee p' argsSimple) := by
    refine .bind places.whole.value fun value => ?_
    cases value <;> cases argsSimple <;>
      first | exact .pure _ | exact (pin_sim _).last
  obtain ⟨whole, reference⟩ := p
  obtain ⟨whole', reference'⟩ := p'
  have references : c.References reference reference' := places.reference
  cases references with
  | member members =>
    exact (members.evalObject_sim _).seq <| members.evalKey_sim.seq <|
      allocTemp_sim.seq <| (push_sim rfl).seq <| release_sim.last
  | name | pattern | other => exact plain

lemma callValue_sim {p p' : Place} (places : c.Places p p')
    (codes : List.Forall₂ c.Arguments args args') (needed : Bool) :
    c.Same (callValue p args needed) (callValue p' args' needed) := by
  rw [callValue, callValue, arguments_simple codes]
  exact (evalCallee_sim places _).seq <| (evalArguments_sim codes).seq <| emitCall_sim _ _ _ _ _

lemma constructValue_sim {e e' : Lowered} (callee : c.Codes e e')
    (codes : List.Forall₂ c.Arguments args args') (needed : Bool) :
    c.Same (constructValue e args needed) (constructValue e' args' needed) := by
  rw [constructValue, constructValue, arguments_simple codes]
  exact callee.value.seq <| (pinIf_sim _ _).seq <|
    (evalArguments_sim codes).seq <| emitCall_sim _ _ _ _ _

end Scriptc.Variation
