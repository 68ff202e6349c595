import Scriptc.Proofs.Semantics.Expression

/-!
# Variables that an evaluation leaves

The evaluation of an expression changes a variable only if the expression assigns a name that means
it.
-/

namespace Scriptc

open Evaluation Context

namespace Evaluation

variable {V α β : Type} {rt : Runtime V} {ctx : Context V} {var : VariableId}

lemma parts_of_bind {first : Evaluation V α} {next : α → Evaluation V β} {b : β}
    {w w'' : World V} (run : (first >>= next) w = .ok b w'') :
    ∃ a w', first w = .ok a w' ∧ next a w' = .ok b w'' := by
  simp only [Bind.bind, EStateM.bind] at run
  split at run
  next a w' given => exact ⟨a, w', given, run⟩
  · cases run

/-- Whether a computation that gives a value leaves a variable. -/
def Spares (var : VariableId) (c : Evaluation V α) : Prop :=
  ∀ w a w', c w = .ok a w' → w'.vars var = w.vars var

namespace Spares

lemma pure (a : α) : (Pure.pure a : Evaluation V α).Spares var := by
  intro w b w' run
  cases run
  rfl

lemma bind {first : Evaluation V α} {next : α → Evaluation V β} (here : first.Spares var)
    (after : ∀ w a w', first w = .ok a w' → (next a).Spares var) : (first >>= next).Spares var := by
  intro w b w'' run
  obtain ⟨a, w', given, rest⟩ := parts_of_bind run
  exact (after w a w' given w' b w'' rest).trans (here w a w' given)

lemma next {first : Evaluation V α} {rest : α → Evaluation V β} (here : first.Spares var)
    (after : ∀ a, (rest a).Spares var) : (first >>= rest).Spares var :=
  here.bind fun _ a _ _ => after a

lemma map {c : Evaluation V α} (here : c.Spares var) (f : α → β) :
    (c >>= fun a => Pure.pure (f a)).Spares var :=
  here.next fun _ => .pure _

lemma unspecified : (unspecified : Evaluation V α).Spares var := by
  intro w a w' run
  cases run

lemma ask (event : Event V) : (Evaluation.ask rt event).Spares var := by
  intro w a w' run
  simp only [Evaluation.ask] at run
  split at run
  · cases run
    rfl
  · cases run

lemma request (event : Event V) : (request rt event).Spares var := (ask event).map _

lemma read (site : Site V) : (Evaluation.read rt ctx site).Spares var := by
  cases site with
  | name name =>
    rw [Evaluation.read]
    split
    · exact .pure _
    · intro w a w' run
      cases run
      rfl
  | member object key => exact .request _
  | nowhere => exact .unspecified

section

variable {site : Site V}
  (other : ∀ name fixed, site = .name name → ctx.names name ≠ .stored var fixed)
include other

lemma write (v : V) : (Evaluation.write rt ctx v site).Spares var := by
  cases site with
  | name name =>
    rw [Evaluation.write]
    split
    next there means =>
      intro w a w' run
      cases run
      have ne : var ≠ there := by
        rintro rfl
        exact other name false rfl means
      exact Function.update_of_ne ne v w.vars
    · exact .pure _
  | member object key => exact (ask _).map _
  | nowhere => exact .unspecified

lemma assignTo {right : Evaluation V V} (here : right.Spares var) :
    (assignTo rt ctx site right).Spares var :=
  here.next fun v => (write other v).map _

lemma assign (op : AssignOp) {right : Evaluation V V} (here : right.Spares var) :
    (Evaluation.assign rt ctx op site right).Spares var := by
  rw [assign_eq]
  cases op.plan with
  | plain => exact assignTo other here
  | combined op => exact (read site).next fun _ => assignTo other (here.map _)
  | logical op =>
    refine (read site).next fun _ => ?_
    rw [unlessDecided]
    split
    · exact .pure _
    · exact assignTo other here

lemma update (op : UpdateOp) (keepsOld : Bool) :
    (update rt ctx op keepsOld site).Spares var :=
  (read site).next fun _ => (write other _).map _

end

end Spares

end Evaluation

section

variable {e : Expr} {name : String} {V : Type} (rt : Runtime V) {ctx : Context V} {var : VariableId}

lemma Expr.name_of_evalSite {w w' : World V} (run : e.evalSite rt ctx w = .ok (.name name) w') :
    e.name? = some name := by
  cases e with
  | ident loc own =>
    obtain ⟨same, -⟩ := EStateM.Result.ok.inj run
    rw [← Site.name.inj same]
    rfl
  | member loc object property computed opt =>
    rw [Expr.evalSite_member] at run
    obtain ⟨x, w1, -, rest⟩ := parts_of_bind run
    obtain ⟨k, w2, -, last⟩ := parts_of_bind rest
    cases last
  | _ => cases run

/-- Whether a variable is not meant by any of the names that satisfy a condition. -/
def Context.Avoids (ctx : Context V) (var : VariableId) (assigned : String → Bool) : Prop :=
  ∀ name fixed, assigned name = true → ctx.names name ≠ .stored var fixed

lemma Context.avoids_or {f g : String → Bool} :
    ctx.Avoids var (fun name => f name || g name) ↔ ctx.Avoids var f ∧ ctx.Avoids var g := by
  simp only [Context.Avoids, Bool.or_eq_true, or_imp, forall_and]

lemma Context.Avoids.site {site : Site V} {w w' : World V}
    (avoids : ctx.Avoids var (e.name? == some ·)) (run : e.evalSite rt ctx w = .ok site w') :
    ∀ name fixed, site = .name name → ctx.names name ≠ .stored var fixed := by
  rintro name fixed rfl
  exact avoids name fixed (by simp [Expr.name_of_evalSite rt run])

open Evaluation (Spares)

lemma Expr.name_of_evalResult {w w' : World V} (run : e.evalResult rt ctx w = .ok (.name name) w') :
    e.second?.bind Expr.name? = some name := by
  unfold Expr.evalResult at run
  split at run
  next es =>
    unfold evalSecondSite at run
    split at run
    next inner => exact Expr.name_of_evalSite rt run
    · cases run
  · cases run

lemma Expr.evalProperty_spares {property : Expr} (computed : Bool)
    (spares : (property.eval rt ctx).Spares var) :
    (property.evalProperty rt computed ctx).Spares var := by
  cases computed with
  | true => exact spares
  | false => exact .pure _

mutual

/-- The value of an expression is evaluated without a change of variables it does not assign. -/
theorem Expr.eval_spares (e : Expr) (avoids : ctx.Avoids var (e.assigns ·)) :
    (e.eval rt ctx).Spares var := by
  cases e with
  | ident => exact .read _
  | literal | receiver => exact .pure _
  | array loc es =>
    exact (Spares.request _).next fun array => (evalElements_spares array 0 es avoids).map _
  | object loc ms =>
    exact (Spares.request _).next fun object => (evalMembers_spares object ms avoids).map _
  | unary loc op arg =>
    by_cases deletes : op = .delete
    · subst deletes
      refine (evalSite_spares arg avoids).next fun site => ?_
      cases site with
      | name => exact .pure _
      | member => exact .request _
      | nowhere => exact (Expr.eval_spares arg avoids).map _
    · rw [Expr.eval]
      · exact (Expr.eval_spares arg avoids).map _
      · exact deletes
  | update loc op keepsOld arg =>
    simp only [Expr.assigns, avoids_or] at avoids
    exact (evalSite_spares arg avoids.2).bind fun _ _ _ run =>
      .update (avoids.1.site rt run) op keepsOld
  | binary loc op left right =>
    simp only [Expr.assigns, avoids_or] at avoids
    exact (Expr.eval_spares left avoids.1).next fun _ => (Expr.eval_spares right avoids.2).map _
  | logical loc op left right =>
    simp only [Expr.assigns, avoids_or] at avoids
    refine (Expr.eval_spares left avoids.1).next fun _ => ?_
    rw [unlessDecided]
    split
    · exact .pure _
    · exact Expr.eval_spares right avoids.2
  | assign loc op left right =>
    simp only [Expr.assigns, avoids_or] at avoids
    exact (evalSite_spares left avoids.1.2).bind fun _ _ _ run =>
      .assign (avoids.1.1.site rt run) op (Expr.eval_spares right avoids.2)
  | conditional loc test whenTrue whenFalse =>
    simp only [Expr.assigns, avoids_or] at avoids
    refine (Expr.eval_spares test avoids.1.1).next fun _ => ?_
    split
    · exact Expr.eval_spares whenTrue avoids.1.2
    · exact Expr.eval_spares whenFalse avoids.2
  | sequence loc items => exact evalSequence_spares items avoids
  | member loc object property computed opt =>
    simp only [Expr.assigns, avoids_or] at avoids
    rw [Expr.eval_member]
    exact (Expr.eval_spares object avoids.1).next fun _ =>
      (Expr.evalProperty_spares rt computed (Expr.eval_spares property avoids.2)).next
        fun _ => .request _
  | call loc callee args opt =>
    simp only [Expr.assigns, avoids_or] at avoids
    obtain ⟨⟨first, others⟩, written⟩ := avoids
    rw [Expr.eval]
    split
    next native =>
      split
      · exact evalSplice_spares args others (by simpa [native] using written)
      · exact .unspecified
    next =>
      have call (x : V × V) : Spares var (do
          let operands ← evalAll rt ctx args
          request rt (.call false x.1 (x.2 :: operands))) :=
        (evalAll_spares args others).next fun _ => .request _
      refine (evalSite_spares callee first).next fun site => ?_
      dsimp only
      split
      · exact (Spares.request _).next fun _ => (Spares.pure _).next call
      · exact (Expr.eval_spares callee first).next fun _ => (Spares.pure _).next call
  | construct loc callee args =>
    simp only [Expr.assigns, avoids_or] at avoids
    exact (Expr.eval_spares callee avoids.1).next fun _ =>
      (evalAll_spares args avoids.2).next fun _ => .request _
  | _ => exact .unspecified

/-- A place is evaluated without a change of variables that its parts do not assign. -/
theorem evalSite_spares (e : Expr) (avoids : ctx.Avoids var (e.assigns ·)) :
    (e.evalSite rt ctx).Spares var := by
  cases e with
  | member loc object property computed opt =>
    simp only [Expr.assigns, avoids_or] at avoids
    rw [Expr.evalSite_member]
    exact (Expr.eval_spares object avoids.1).next fun _ =>
      (Expr.evalProperty_spares rt computed (Expr.eval_spares property avoids.2)).map _
  | _ => exact .pure _

theorem evalSequence_spares (items : List Expr) (avoids : ctx.Avoids var
    (expressionsAssign · items)) : (evalSequence rt ctx items).Spares var := by
  match items with
  | [] => exact .unspecified
  | [last] =>
    simp only [expressionsAssign, avoids_or] at avoids
    exact Expr.eval_spares last avoids.1
  | first :: second :: rest =>
    rw [evalSequence]
    · rw [funext fun name => expressionsAssign.eq_2 name first _, avoids_or] at avoids
      exact (Expr.eval_spares first avoids.1).next fun _ =>
        evalSequence_spares (second :: rest) avoids.2
    · simp

theorem evalAll_spares (args : List Expr) (avoids : ctx.Avoids var (expressionsAssign · args)) :
    (evalAll rt ctx args).Spares var := by
  cases args with
  | nil => exact .pure _
  | cons e rest =>
    simp only [expressionsAssign, avoids_or] at avoids
    exact (Expr.eval_spares e avoids.1).next fun _ => (evalAll_spares rest avoids.2).map _

theorem evalElements_spares (array : V) (index : Nat) (es : List (Option Expr))
    (avoids : ctx.Avoids var (elementsAssign · es)) :
    (evalElements rt ctx array index es).Spares var := by
  match es with
  | [] => exact .pure _
  | none :: rest => exact evalElements_spares array (index + 1) rest avoids
  | some e :: rest =>
    simp only [elementsAssign, avoids_or] at avoids
    exact (Expr.eval_spares e avoids.1).next fun _ => (Spares.ask _).next fun _ =>
      evalElements_spares array (index + 1) rest avoids.2

theorem evalMembers_spares (object : V) (ms : List Member)
    (avoids : ctx.Avoids var (membersAssign · ms)) :
    (evalMembers rt ctx object ms).Spares var := by
  match ms with
  | [] => exact .pure _
  | .property loc key value kind computed :: rest =>
    simp only [membersAssign, avoids_or] at avoids
    rw [evalMembers]
    have others (k : V) : Spares var (do
        let v ← value.eval rt ctx
        let _ ← Evaluation.ask rt (.put object k v)
        evalMembers rt ctx object rest) :=
      (Expr.eval_spares value avoids.1.2).next fun _ => (Spares.ask _).next fun _ =>
        evalMembers_spares object rest avoids.2
    split
    · exact (Expr.eval_spares key avoids.1.1).next others
    · exact (Spares.pure _).next others
  | .spread .. :: rest => exact .unspecified

/-- Native code is run without a change of variables that its inputs do not assign and its results
are not written to. -/
theorem evalSplice_spares (args : List Expr) (avoids : ctx.Avoids var (expressionsAssign · args))
    (written : ctx.Avoids var fun name => args[1]?.any fun results =>
      results.resultNames.contains name) :
    (evalSplice rt ctx args).Spares var := by
  match args with
  | [options, results, inputs, scratch, template] =>
    simp only [expressionsAssign, avoids_or] at avoids
    refine (evalInputs_spares inputs avoids.2.2.1).next fun _ => ?_
    have results_spared (value : Nat → V) : Spares var (do
          results.evalResults rt ctx value
          pure rt.undefined) :=
      (evalResults_spares value results avoids.2.1 (by simpa using written)).map _
    split
    · exact .unspecified
    · dsimp only
      split
      · exact .pure _
      · split
        · exact (Spares.ask _).next results_spared
        · exact .unspecified
  | [] | [_] | [_, _] | [_, _, _] | [_, _, _, _] | _ :: _ :: _ :: _ :: _ :: _ :: _ =>
    exact .unspecified

theorem evalInputs_spares (e : Expr) (avoids : ctx.Avoids var (e.assigns ·)) :
    (e.evalInputs rt ctx).Spares var := by
  cases e with
  | array loc es => exact evalInputList_spares es avoids
  | _ => exact .unspecified

theorem evalInputList_spares (es : List (Option Expr))
    (avoids : ctx.Avoids var (elementsAssign · es)) :
    (evalInputList rt ctx es).Spares var := by
  match es with
  | [] => exact .pure _
  | none :: rest => exact evalInputList_spares rest avoids
  | some e :: rest =>
    simp only [elementsAssign, avoids_or] at avoids
    exact (evalInput_spares e avoids.1).next fun _ => (evalInputList_spares rest avoids.2).map _

theorem evalInput_spares (e : Expr) (avoids : ctx.Avoids var (e.assigns ·)) :
    (e.evalInput rt ctx).Spares var := by
  cases e with
  | array loc es => exact evalSecond_spares es avoids
  | _ => exact .unspecified

theorem evalSecond_spares (es : List (Option Expr))
    (avoids : ctx.Avoids var (elementsAssign · es)) :
    (evalSecond rt ctx es).Spares var := by
  match es with
  | [first, some e] =>
    exact Expr.eval_spares e (by cases first <;> simp_all [elementsAssign, avoids_or])
  | [] | [_] | [_, none] | _ :: none :: _ :: _ | _ :: some _ :: _ :: _ => exact .unspecified

theorem evalResults_spares (value : Nat → V) (e : Expr) (avoids : ctx.Avoids var (e.assigns ·))
    (written : ctx.Avoids var fun name => e.resultNames.contains name) :
    (e.evalResults rt ctx value).Spares var := by
  cases e with
  | array loc es => exact evalResultList_spares value 0 es avoids written
  | _ => exact .unspecified

theorem evalResultList_spares (value : Nat → V) (index : Nat) (es : List (Option Expr))
    (avoids : ctx.Avoids var (elementsAssign · es))
    (written : ctx.Avoids var fun name => ((es.filterMap id).filterMap fun entry =>
      entry.second?.bind Expr.name?).contains name) :
    (evalResultList rt ctx value index es).Spares var := by
  match es with
  | [] => exact .pure _
  | none :: rest => exact evalResultList_spares value index rest avoids written
  | some e :: rest =>
    simp only [elementsAssign, avoids_or] at avoids
    refine (evalResult_spares e avoids.1).bind fun w site w' run =>
      (Spares.write ?_ _).next fun _ =>
      evalResultList_spares value (index + 1) rest avoids.2 fun name fixed mem =>
        written name fixed ?_
    · rintro name fixed rfl
      refine written name fixed ?_
      simp [Expr.name_of_evalResult rt run]
    · simp only [List.filterMap_cons, id, List.contains_eq_mem, decide_eq_true_eq] at mem ⊢
      cases e.second?.bind Expr.name? with
      | none => exact mem
      | some other => exact List.mem_cons_of_mem _ mem

theorem evalResult_spares (e : Expr) (avoids : ctx.Avoids var (e.assigns ·)) :
    (e.evalResult rt ctx).Spares var := by
  cases e with
  | array loc es => exact evalSecondSite_spares es avoids
  | _ => exact .unspecified

theorem evalSecondSite_spares (es : List (Option Expr))
    (avoids : ctx.Avoids var (elementsAssign · es)) :
    (evalSecondSite rt ctx es).Spares var := by
  match es with
  | [first, some e] =>
    exact evalSite_spares e (by cases first <;> simp_all [elementsAssign, avoids_or])
  | [] | [_] | [_, none] | _ :: none :: _ :: _ | _ :: some _ :: _ :: _ => exact .unspecified

end

end

end Scriptc
