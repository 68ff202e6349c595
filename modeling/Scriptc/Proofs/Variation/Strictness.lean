import Scriptc.Proofs.Variation.Programs
import Scriptc.Syntax.Construct

/-!
# Strictness and generated code

Strict code forbids more, but what it does not forbid means the same.
-/

namespace Scriptc

/-! ## Trees that stay as they are -/

def Variation.relaxing : Variation := { erase := false, fill := false, lax := true }

lemma Program.vary_relaxing (p : Program) : p.vary .relaxing = p := by
  have body := (Node.body p.body).vary_eq_self (c := .relaxing) (fun _ => rfl) fun es => by
    cases es <;> rfl
  rw [vary, Node.body.inj body]
  rfl

/-! ## Text without strictness -/

namespace CodeUnit

variable (u : CodeUnit)

lemma relaxed_routine (id : RoutineId) :
    u.relaxed.routine id = (·.withStrict false) <$> u.routine id := by
  simp only [routine, relaxed, Array.getElem?_map]
  cases u.routines[id]? <;> rfl

@[simp] lemma relaxed_getVariable : u.relaxed.getVariable = u.getVariable := by
  funext id
  rw [getVariable, getVariable, relaxed_routine]
  cases u.routine id.routine <;> rfl

lemma relaxed_chainFrom (steps : Nat) (id : Option RoutineId) :
    u.relaxed.chainFrom steps id = u.chainFrom steps id := by
  induction steps generalizing id with
  | zero => rfl
  | succ steps ih =>
    cases id with
    | none => rfl
    | some id =>
      have found : u.relaxed.routines[id]? = u.routines[id]?.map (·.withStrict false) := by
        simp [relaxed]
      simp only [chainFrom, found, ih]
      cases u.routines[id]? <;> rfl

@[simp] lemma relaxed_resolveCallee : u.relaxed.resolveCallee = u.resolveCallee := by
  have known (id : VariableId) : u.relaxed.knownRoutine? id = u.knownRoutine? id := by
    simp only [knownRoutine?, relaxed, Array.getElem?_map]
    cases u.routines[id.routine]? <;> rfl
  funext callee
  simp only [resolveCallee, known]

@[simp] lemma relaxed_hops : u.relaxed.hops = u.hops := by
  funext inner owner
  rw [hops, hops, relaxed_routine]
  cases u.routine inner <;> rfl

lemma relaxed_finalize : u.relaxed.finalize = relaxed <$> u.finalize := by
  have missing : u.relaxed.routines.find? (·.layout.isNone) =
      (u.routines.find? (·.layout.isNone)).map (·.withStrict false) := by
    simp only [relaxed, Array.find?_map]
    rfl
  have chains (r : Routine) : (u.relaxed.withChain (r.withStrict false)).mapCallees
      u.relaxed.resolveCallee = ((u.withChain r).mapCallees u.resolveCallee).withStrict false := by
    rw [relaxed_resolveCallee]
    simp only [withChain, relaxed_chainFrom, Routine.mapCallees, Routine.withStrict]
    rw [show u.relaxed.routines.size = u.routines.size by simp [relaxed]]
  rw [finalize, finalize, missing]
  cases u.routines.find? (·.layout.isNone) with
  | some r => rfl
  | none =>
    refine congrArg Except.ok ?_
    simp only [relaxed, Array.map_map, mk.injEq, and_true]
    exact Array.map_congr_left fun r _ => chains r

lemma relaxed_internConstants : u.relaxed.internConstants = u.internConstants.relaxed := by
  have known (v : CodeUnit) (s : String) : v.relaxed.withString s = (v.withString s).relaxed := by
    unfold withString
    by_cases old : v.strings.contains s = true
    · rw [dif_pos old]
      exact dif_pos old
    · rw [dif_neg old]
      exact dif_neg old
  have fold (strings : List String) (v : CodeUnit) :
      strings.foldl withString v.relaxed = (strings.foldl withString v).relaxed := by
    induction strings generalizing v with
    | nil => rfl
    | cons first rest ih => rw [List.foldl_cons, List.foldl_cons, known, ih]
  have used : u.relaxed.usedStrings = u.usedStrings := by
    simp only [usedStrings, relaxed, Array.toList_map, List.flatMap_map]
    rfl
  rw [internConstants, internConstants, used, fold]

end CodeUnit

namespace Emitter

/-- What the text of a routine depends on, without strictness. -/
def relaxed (e : Emitter) : Emitter :=
  { e with unit := e.unit.relaxed, routine := e.routine.withStrict false }

variable (e : Emitter)

@[simp] lemma relaxed_operand : e.relaxed.operand = e.operand := by
  funext a
  cases a with
  | var id =>
    simp only [operand, variableText, relaxed, CodeUnit.relaxed_getVariable, CodeUnit.relaxed_hops]
    rfl
  | constant value => cases value <;> rfl
  | _ => rfl

@[simp] lemma relaxed_routineName : e.relaxed.routineName = e.routineName := by
  funext id
  simp only [routineName, relaxed, CodeUnit.relaxed_routine]
  cases e.unit.routine id <;> rfl

@[simp] lemma relaxed_spliceText (bindings : List Operand) (parts : List SplicePart) :
    e.relaxed.spliceText bindings parts = e.spliceText bindings parts := by
  induction parts with
  | nil => rfl
  | cons part rest ih => cases part <;> simp only [spliceText, relaxed_operand, ih]

@[simp] lemma relaxed_instructionText (i : Instruction) :
    e.relaxed.instructionText i = e.instructionText i := by
  have call (callee : Callee) (argc : Nat) : e.relaxed.callText callee argc =
      e.callText callee argc := by
    cases callee with
    | direct routine closure => simp only [callText, relaxed_operand, relaxed_routineName]; rfl
    | _ => simp only [callText, relaxed_operand]; rfl
  cases i with
  | closure dest routine => simp only [instructionText, relaxed_operand, relaxed_routineName]; rfl
  | _ => simp only [instructionText, relaxed_operand, relaxed_spliceText, call]

@[simp] lemma relaxed_jumpLines (jump : Jump) (next : Option BlockId) :
    e.relaxed.jumpLines jump next = e.jumpLines jump next := by
  have target : e.relaxed.routine.target = e.routine.target := rfl
  have choices (rows : List (Int × Label)) : e.relaxed.choiceLines rows = e.choiceLines rows := by
    induction rows with
    | nil => rfl
    | cons row rest ih => simp only [choiceLines, ih, target]
  cases jump <;> simp only [jumpLines, relaxed_operand, choices, target]

lemma relaxed_orderedLines (blocks : List BlockId) :
    e.relaxed.orderedLines blocks = e.orderedLines blocks := by
  have instructions (is : List Instruction) : e.relaxed.instructionLines is =
      e.instructionLines is := by
    induction is with
    | nil => rfl
    | cons i rest ih => simp only [instructionLines, ih, relaxed_instructionText]
  have block (id : BlockId) (next : Option BlockId) : e.relaxed.blockLines id next =
      e.blockLines id next := by
    simp only [blockLines, instructions, relaxed_jumpLines]
    rfl
  induction blocks with
  | nil => rfl
  | cons id rest ih => simp only [orderedLines, block, ih]

end Emitter

namespace CodeUnit

variable (u : CodeUnit)

lemma relaxed_emitRoutine (r : Routine) : (r.withStrict false).emit u.relaxed = r.emit u := by
  have lines (layout : Layout) :
      (r.withStrict false).bodyLines u.relaxed layout = r.bodyLines u layout := by
    have walks (exit : BlockId) (steps : Nat) (pending : List Label) (visited : List BlockId) :
        (r.withStrict false).walk exit steps pending visited =
          r.walk exit steps pending visited := by
      induction steps generalizing pending visited with
      | zero => cases pending <;> rfl
      | succ steps ih =>
        cases pending with
        | nil => rfl
        | cons label rest => simp only [Routine.walk, ih]; rfl
    have order : (r.withStrict false).blockOrder = r.blockOrder := by
      simp only [Routine.blockOrder, walks]
      rfl
    rw [Routine.bodyLines, order]
    congr 1
    funext blocks
    exact congrArg (· >>= _) (Emitter.relaxed_orderedLines ⟨u, r, layout⟩ blocks)
  rw [Routine.emit]
  simp only [lines]
  rfl

lemma relaxed_emit (options : UnitOptions) : u.relaxed.emit options = u.emit options := by
  have defined (rs : List Routine) :
      u.relaxed.definitions (rs.map (·.withStrict false)) = u.definitions rs := by
    induction rs with
    | nil => rfl
    | cons r rest ih => rw [List.map_cons, definitions, definitions, relaxed_emitRoutine, ih]
  have prototypes (rs : List Routine) :
      (rs.map (·.withStrict false)).map Routine.prototype = rs.map Routine.prototype := by
    rw [List.map_map]
    rfl
  have routines : u.relaxed.routines.toList = u.routines.toList.map (·.withStrict false) := by
    simp [relaxed]
  simp only [emit, relaxed_routine, routines, defined, prototypes]
  cases u.routine 0 <;> rfl

end CodeUnit

/-! ## Compilation -/

namespace Variation

open Lowering

lemma complete_relaxed {s s' : Lowering} (similar : s'.unit.relaxed = s.unit.relaxed) {u : CodeUnit}
    (completes : s.complete = .ok u) : ∃ u', s'.complete = .ok u' ∧ u'.relaxed = u.relaxed := by
  simp only [complete] at completes ⊢
  have finals := s'.unit.relaxed_finalize
  rw [similar, s.unit.relaxed_finalize] at finals
  cases final : s.unit.finalize with
  | error fault => simp [final, bind, Except.bind] at completes
  | ok v =>
    cases final' : s'.unit.finalize with
    | error fault => simp [final, final', Functor.map, Except.map] at finals
    | ok v' =>
      have same : v'.relaxed = v.relaxed := by
        simpa [final, final', Functor.map, Except.map] using finals.symm
      obtain rfl : v.internConstants = u := by simpa [final, bind, Except.bind, pure,
        Except.pure] using completes
      exact ⟨v'.internConstants, rfl, by
        rw [← CodeUnit.relaxed_internConstants, same, CodeUnit.relaxed_internConstants]⟩

end Variation

namespace Program

open Lowering Variation

/-- A program that is lowered without errors when all its code is strict is lowered to the same unit
and with the same reports when it is not, up to the strictness of routines. -/
lemma lower_relaxed (p : Program) (options : CompileOptions) (log log1 : Log) {u : CodeUnit}
    (lowers : p.lower { options with strict := true } log = .ok (some u, log1)) :
    ∃ u', p.lower { options with strict := false } log = .ok (some u', log1) ∧
      u'.relaxed = u.relaxed := by
  obtain ⟨d, s, declared, errorless, lowered, errorless', completed, rfl⟩ :=
    lower_eq_some_iff.mp lowers
  have declares := declare_alike p options.moduleName (reports_refl (c := relaxing) rfl log)
    (fun impossible : false = true => (rfl : true = true)) (nofun : relaxing.lax =
      false → false = true)
  simp only [declared, p.vary_relaxing] at declares
  obtain ⟨d', _, declared', hoisted, alike⟩ := declares
  have runs := lower_alike p hoisted alike
  simp only [lowered, p.vary_relaxing] at runs
  obtain ⟨s', lowered', alike'⟩ := runs
  have log' : d'.state.log = d.state.log := alike.log.eq_of_errorless rfl errorless
  have log'' : s'.log = s.log := alike'.log.eq_of_errorless rfl errorless'
  obtain ⟨u', completed', same⟩ := complete_relaxed alike'.unit completed
  exact ⟨u', lower_eq_some_iff.mpr ⟨d', s', declared', by rw [log', errorless], lowered',
    by rw [log'', errorless'], completed', log''⟩, same⟩

/-- A program that compiles with all its code strict compiles to the same text otherwise, with the
same dependencies and diagnostics. -/
theorem compile_relaxed (p : Program) (options : CompileOptions) (answers : Requests.Answers)
    (file : Nat) {compiled : Compiled}
    (succeeds : p.compile { options with strict := true } answers file = .ok (.ok compiled)) :
    p.compile { options with strict := false } answers file = .ok (.ok compiled) := by
  obtain ⟨u, log, text, lowers, written, rfl⟩ := compile_eq_ok_iff.mp succeeds
  obtain ⟨u', lowers', same⟩ := lower_relaxed _ options _ _ lowers
  refine compile_eq_ok_iff.mpr ⟨u', log, text, lowers', ?_, rfl⟩
  rw [← u'.relaxed_emit, same, u.relaxed_emit]
  exact written

open Build in
/-- Statements that strict code may hold, with a function and a name that is declared twice. -/
def declaredTwice : Program :=
  program [varDecl [("a", none)], varDecl [("a", ident "f")],
    funcDecl "f" ["b"] [returnValue (assignWith .add (ident "a") (ident "b"))]]

theorem declaredTwice_relaxed :
    ∃ compiled, declaredTwice.compile { CompileOptions.standard with strict := true }
        ⟨.ofTable [], ""⟩ 0 = .ok (.ok compiled) ∧
      declaredTwice.compile { CompileOptions.standard with strict := false }
        ⟨.ofTable [], ""⟩ 0 = .ok (.ok compiled) := by
  obtain ⟨compiled, run⟩ := @Result.ok_of_succeeds _ _ _ (declaredTwice.compile
    { CompileOptions.standard with strict := true } ⟨.ofTable [], ""⟩ 0) (by decide +kernel)
  exact ⟨compiled, run, compile_relaxed _ _ _ _ run⟩

end Program

end Scriptc
