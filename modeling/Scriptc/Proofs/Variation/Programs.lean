import Scriptc.Compilation
import Scriptc.Proofs.Lowering.Program
import Scriptc.Proofs.Variation.Trees

/-!
# Lowering of varied programs

A varied program is lowered to a unit that differs in strictness at most, with the same reports at
varied places.
-/

namespace Scriptc

/-! ## Stages of a compilation -/

namespace Program

variable {options : CompileOptions}

open Lowering

lemma lower_eq_some_iff {p : Program} {log log1 : Log} {u : CodeUnit} :
    p.lower options log = .ok (some u, log1) ↔ ∃ d s,
      declare p options.moduleName options.strict log = .ok d ∧ d.state.log.errorCount = 0 ∧
        d.lower p = .ok s ∧ s.log.errorCount = 0 ∧ s.complete = .ok u ∧ s.log = log1 := by
  constructor
  · intro lowers
    simp only [lower, bind, Except.bind] at lowers
    cases declared : declare p options.moduleName options.strict log with
    | error fault => simp [declared] at lowers
    | ok d =>
      simp only [declared] at lowers
      split at lowers
      · simp [pure, Except.pure] at lowers
      next none =>
        cases lowered : d.lower p with
        | error fault => simp [lowered] at lowers
        | ok s =>
          simp only [lowered] at lowers
          split at lowers
          · simp [pure, Except.pure] at lowers
          next none' =>
            cases completed : s.complete with
            | error fault => simp [completed] at lowers
            | ok v =>
              simp only [completed, pure, Except.pure, Except.ok.injEq, Prod.mk.injEq,
                Option.some.injEq] at lowers
              exact ⟨d, s, rfl, by omega, lowered, by omega, lowers.1 ▸ completed, lowers.2⟩
  · rintro ⟨d, s, declared, none, lowered, none', completed, rfl⟩
    simp [lower, bind, Except.bind, declared, none, lowered, none', completed, pure, Except.pure]

lemma compile_eq_ok_iff {p : Program} {answers : Requests.Answers} {file : Nat}
    {compiled : Compiled} : p.compile options answers file = .ok (.ok compiled) ↔ ∃ u log text,
      (p.answerRequests answers).1.lower options
          ((p.answerRequests answers).2.report (Log.empty file)) = .ok (some u, log) ∧
        u.emit options.unitOptions = .ok text ∧
          compiled = ⟨text, log.sorted, (p.answerRequests answers).2.dependencies.toList⟩ := by
  simp only [compile, analyze, bind, Except.bind]
  cases lowers : (p.answerRequests answers).1.lower options
      ((p.answerRequests answers).2.report (Log.empty file)) with
  | error fault => simp
  | ok result =>
    obtain ⟨unit, log⟩ := result
    cases unit with
    | none => simp [pure, Except.pure]
    | some u =>
      cases written : u.emit options.unitOptions with
      | error fault => simp [pure, Except.pure, written]
      | ok text => simp [pure, Except.pure, written, eq_comm]

end Program

namespace Variation

open Lowering

variable {c : Variation} {α β : Type}

/-! ## Reports of two runs -/

lemma movedDiagnostic_eq (kept : c.erase = false) (d : Diagnostic) : c.movedDiagnostic d = d := by
  have ranges (r : TextRange) : c.range r = r := by simp [range, kept]
  simp [movedDiagnostic, ranges]

lemma reports_refl {c : Variation} (kept : c.erase = false) (log : Log) : c.Reports log log where
  file := rfl
  entries := List.forall₂_same.mpr fun d _ => .inl (movedDiagnostic_eq kept d).symm

section

variable {log log' : Log} (reports : c.Reports log log')
include reports

lemma Reports.entries_eq (exact : c.lax = false) :
    log'.entries.toList = log.entries.toList.map c.movedDiagnostic := by
  have entries := reports.entries
  generalize log.entries.toList = ds at entries
  generalize log'.entries.toList = ds' at entries
  induction entries with
  | nil => rfl
  | cons same _ ih => rw [List.map_cons, ih, same.resolve_right (by simp [exact])]

lemma Reports.errorCount_eq (exact : c.lax = false) : log'.errorCount = log.errorCount := by
  rw [Log.errorCount, Log.errorCount, ← Array.countP_toList, ← Array.countP_toList,
    reports.entries_eq exact, List.countP_map]
  rfl

lemma Reports.eq_of_errorless (kept : c.erase = false) (none : log.errorCount = 0) :
    log' = log := by
  obtain ⟨file, ⟨ds⟩⟩ := log
  obtain ⟨file', ⟨ds'⟩⟩ := log'
  obtain rfl : file' = file := reports.file
  have entries := reports.entries
  dsimp only at entries
  have errorless : ∀ d ∈ ds, ¬d.isError = true := by
    simpa [Log.errorCount, List.countP_eq_zero] using none
  suffices ds' = ds by rw [this]
  clear none reports
  induction entries with
  | nil => rfl
  | @cons d d' rest rest' same _ ih =>
    rw [ih fun d mem => errorless d (List.mem_cons_of_mem _ mem),
      same.resolve_right fun both => errorless d (by simp) both.2, movedDiagnostic_eq kept]

end

/-! ## The run of a whole program -/

lemma declareConstants_twin (scope : ScopeId) (constants : List (String × Constant)) :
    Twin False (fun t t' => t' = c.movedScopes t) Eq (declareConstants scope constants)
      (declareConstants scope constants) := by
  induction constants with
  | nil => exact .pure rfl
  | cons first rest ih =>
    have one : Twin False (fun t t' => t' = c.movedScopes t) Eq
        (ScopeTree.declareConstant scope first.1 first.2)
        (ScopeTree.declareConstant scope first.1 first.2) := by
      refine .bind (declare_twin scope first.1) ?_
      rintro id _ rfl
      exact .bind (modifyBinding_twin id fun _ => rfl) fun _ _ _ => .pure rfl
    exact .bind one fun _ _ _ => ih

variable (p : Program)

lemma declareProgram_leads (name : String) (past : Past) :
    Leads (c.fill = true) (c.Alike past)
      (fun hs hs' s s' => hs' = hs.map c.movedHoisted ∧ ∃ top, c.Alike (past.with top) s s')
      (declareProgram p name) (declareProgram (p.vary c) name) := by
  refine .get_bind fun s s' alike => ?_
  rintro _ _ ⟨rfl, rfl⟩
  refine (newRoutine_makes none (some name) alike.strict past).bind ?_ _ _ alike
  rintro routine _ t t' ⟨rfl, made⟩
  have names : c.Sim (fun hs hs' => hs' = hs.map c.movedHoisted)
      (do let top ← inScopes (ScopeTree.newScope none routine true)
          inScopes (declareConstants top builtInConstants)
          hoist (declarationsOf p.body))
      (do let top ← inScopes (ScopeTree.newScope none routine true)
          inScopes (declareConstants top builtInConstants)
          hoist (declarationsOf (p.vary c).body)) := by
    refine (newScope_sim none routine true).sim fun top =>
      Same.sim (inScopes_sim (declareConstants_twin top builtInConstants)) fun _ => ?_
    show c.Sim _ (hoist (declarationsOf p.body)) (hoist (declarationsOf (varyStmts c p.body)))
    rw [varyStmts_declarations]
    exact hoist_sim _
  exact Leads.weaken (names (past.with routine)) (fun hs hs' s s' both => ⟨both.1, routine, both.2⟩)
    _ _ made

lemma lowerCode_sim (hs : List Hoisted) :
    c.Same (lowerCode p hs) (lowerCode (p.vary c) (hs.map c.movedHoisted)) :=
  have bodies := body_matches p.body
  (instantiate_sim bodies.functions hs).seq <| bodies.code.seq <| finishRoutine_sim

lemma start_alike {log log' : Log} (reports : c.Reports log log') {strict strict' : Bool}
    (laxer : strict' = true → strict = true) (same : c.lax = false → strict' = strict) :
    c.Alike ⟨log.errorCount, []⟩ (start log strict) (start log' strict') where
  unit := CodeUnit.similar_refl _ _
  scopes := by simp [start, ScopeTree.empty, movedScopes]
  log := reports
  frame := rfl
  laxer := laxer
  strict := same
  topScope := rfl
  errors := Nat.le_refl _
  lacks := .refl _

/-- The declarations of a varied program fail together, or leave states alike. -/
lemma declare_alike (name : String) {log log' : Log} (reports : c.Reports log log')
    {strict strict' : Bool} (laxer : strict' = true → strict = true)
    (same : c.lax = false → strict' = strict) :
    match declare p name strict log with
    | .ok d => ∃ d' top, declare (p.vary c) name strict' log' = .ok d' ∧
        d'.hoisted = d.hoisted.map c.movedHoisted ∧
        c.Alike ⟨log.errorCount, [top]⟩ d.state d'.state
    | .error fault => c.fill = true ∨ declare (p.vary c) name strict' log' = .error fault := by
  have strictness : isStrict (p.vary c) strict' = (strict' || Stmt.startStrict p.body) := by
    rw [isStrict, Program.vary, varyStmts_startStrict]
  have started : c.Alike ⟨log.errorCount, []⟩ (start log (isStrict p strict))
      (start log' (isStrict (p.vary c) strict')) := by
    rw [strictness, isStrict]
    refine start_alike reports ?_ fun exact => by rw [same exact]
    simp only [Bool.or_eq_true]
    exact Or.imp_left laxer
  have step := declareProgram_leads p name _ _ _ started
  simp only [declare, EStateM.run]
  cases run : declareProgram p name (start log (isStrict p strict)) with
  | ok hoisted s =>
    rw [run] at step
    obtain ⟨hoisted', s', run', moved, top, alike⟩ := step
    exact ⟨⟨hoisted', s'⟩, top, by rw [run'], moved, alike⟩
  | error fault s =>
    rw [run] at step
    exact step.imp_right (Exists.elim · fun s' run' => by rw [run'])

lemma Alike.counted {past : Past} {s s' : Lowering} (alike : c.Alike past s s') :
    c.Alike { past with errors := s.log.errorCount } s s' :=
  { alike with errors := Nat.le_refl _ }

/-- So does the lowering of its code. -/
lemma lower_alike {past : Past} {d d' : Declared}
    (hoisted : d'.hoisted = d.hoisted.map c.movedHoisted) (alike : c.Alike past d.state d'.state) :
    match d.lower p with
    | .ok s => ∃ s', d'.lower (p.vary c) = .ok s' ∧
        c.Alike { past with errors := d.state.log.errorCount } s s'
    | .error fault => c.fill = true ∨ d'.lower (p.vary c) = .error fault := by
  have step := lowerCode_sim p d.hoisted _ _ _ alike.counted
  simp only [Declared.lower, EStateM.run, hoisted]
  cases run : lowerCode p d.hoisted d.state with
  | ok _ s =>
    rw [run] at step
    obtain ⟨_, s', run', -, alike'⟩ := step
    exact ⟨s', by rw [run'], alike'⟩
  | error fault s =>
    rw [run] at step
    exact step.imp_right (Exists.elim · fun s' run' => by rw [run'])

end Variation

/-! ## Lowerings that go through -/

def Variation.filling : Variation := { erase := false, fill := true, lax := false }

/-- A filled sequence is not empty, and its filling is proper. -/
lemma Variation.filling_items (es : List Expr) :
    filling.items es ≠ [] ∧ areProper (filling.items es) = areProper es := by
  cases es with
  | nil => simp [items, filling, areProper, Expr.isProper]
  | cons => simp [items]

namespace Node

def isProper : Node → Bool
  | expr e => e.isProper
  | option e => isOptionProper e
  | exprs es => areProper es
  | elements es => areElementsProper es
  | members ms => areMembersProper ms
  | func f => f.isProper
  | stmt s => s.isProper
  | branch s => isBranchProper s
  | body b => isBodyProper b
  | finalizer b => isFinalizerProper b
  | cases cs => areCasesProper cs
  | handler h => isHandlerProper h
  | head h => h.isProper
  | init h => isInitProper h
  | declarators ds => areDeclaratorsProper ds
  | _ => true

/-- A filled node has no empty sequence. -/
lemma filled (n : Node) : (n.vary .filling).isProper = true := by
  induction n using Node.induction with
  | step n ih =>
    unfold parts at ih
    split at ih <;> simp only [All, and_true] at ih
    all_goals simp_all [vary, isProper, Expr.vary, Variation.filling_items,
      Expr.isProper, Stmt.vary,
      Stmt.isProper, Func.vary, Func.isProper, ForHead.vary, ForHead.isProper, varyHandler,
      isHandlerProper, varyExprs, varyStmts, varyOption, varyStmtOption, varyBodyOption,
      varyHeadOption, areProper, isBodyProper, isOptionProper, isBranchProper, isFinalizerProper,
      isInitProper, varyElements, varyMembers, varyCases, varyDeclarators, areElementsProper,
      areMembersProper, areCasesProper, areDeclaratorsProper]

end Node

namespace Variation

lemma Alike.eq_of_kept {c : Variation} {past : Past} {s s' : Lowering} (alike : c.Alike past s s')
    (kept : c.erase = false) (exact : c.lax = false) : s' = s := by
  have unit : s'.unit = s.unit := by simpa [CodeUnit.Similar, exact] using alike.unit
  have bindings : c.movedBinding = id := by
    have ranges : c.range = id := by
      funext r
      simp [range, kept]
    funext b
    simp [movedBinding, ranges]
  have scopes : s'.scopes = s.scopes := by rw [alike.scopes, movedScopes, bindings, Array.map_id]
  have frame : s'.frame = s.frame := by rw [alike.frame, alike.strict exact]
  have log : s'.log = s.log := by
    have entries := alike.log.entries_eq exact
    rw [funext (movedDiagnostic_eq kept), List.map_id'] at entries
    have file := alike.log.file
    cases log' : s'.log
    cases log : s.log
    simp_all
  exact congr (congr (congr (congr (congrArg Lowering.mk unit) scopes) log) frame) alike.topScope

end Variation

namespace Lowering

open Variation

variable {p : Program} {name : String} {strict : Bool} {log : Log} {d : Declared} {s : Lowering}

lemma alike_of_lowered (declares : declare p name strict log = .ok d) (lowers : d.lower p = .ok s) :
    ∃ d' s' past, declare (p.vary filling) name strict log = .ok d' ∧
      d'.lower (p.vary filling) = .ok s' ∧ filling.Alike past s s' ∧ ∃ top, past.bare = [top] := by
  have declared := declare_alike (c := filling) p name (reports_refl rfl log)
    (id : strict = true → strict = true) fun _ => rfl
  simp only [declares] at declared
  obtain ⟨d', top, declares', hoisted, alike⟩ := declared
  have lowered := lower_alike p hoisted alike
  simp only [lowers] at lowered
  obtain ⟨s', lowers', alike'⟩ := lowered
  exact ⟨d', s', _, declares', lowers', alike', top, rfl⟩

/-- A lowering that goes through ends in a whole state, with empty sequences or without. -/
lemma whole_of_lowered (declares : declare p name strict log = .ok d) (lowers : d.lower p = .ok s) :
    s.Whole := by
  obtain ⟨d', s', _, declares', lowers', alike, -⟩ := alike_of_lowered declares lowers
  obtain ⟨d'', s'', declares'', lowers'', whole⟩ :=
    lowers_whole (p.vary filling) (Node.body p.body).filled name strict log
  obtain rfl : d' = d'' := Except.ok.inj (declares'.symm.trans declares'')
  obtain rfl : s' = s'' := Except.ok.inj (lowers'.symm.trans lowers'')
  exact alike.eq_of_kept rfl rfl ▸ whole

end Lowering

end Scriptc
