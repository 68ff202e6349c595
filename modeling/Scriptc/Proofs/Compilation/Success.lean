import Scriptc.Proofs.Emission.Writing
import Scriptc.Proofs.Module.Requests
import Scriptc.Syntax.Construct

/-!
# Compilation without faults

No fault stops the compilation of a program without empty sequences: there is a text, or diagnostics
say why not. In the text every place is within the storage that is declared for it.
-/

namespace Scriptc

open CodeUnit

def UnitOptions.entryName (o : UnitOptions) : String :=
  if o.emitMain then "main" else "jsmod_" ++ Literal.identifierPart o.moduleName

/-- The function by which a unit is entered, which calls the function that is named. -/
def UnitOptions.entryText (o : UnitOptions) (strings : Nat) (top : String) : String :=
  let start := "  js_init_strings(s_strbuf, s_strconst, " ++ toString strings ++ ");\n"
  if o.emitMain then
    "int " ++ o.entryName ++ " (int argc, char ** argv)\n\x7b\n" ++ start ++
      "  return js_main(argc, argv, " ++ top ++ ");\n\x7d\n"
  else
    "TaggedValue " ++ o.entryName ++ " (StackFrame * caller, Env * env)\n\x7b\n" ++ start ++
      "  TaggedValue thisArg = JS_UNDEFINED_VALUE;\n" ++
      "  return " ++ top ++ "(caller, env, 1, &thisArg);\n\x7d\n"

namespace CodeUnit

variable {u : CodeUnit} {options : UnitOptions} {routines : List Routine} {text : String}

/-- What stands before the functions in the text of a unit. -/
def preface (u : CodeUnit) (options : UnitOptions) : String :=
  "/* Generated from " ++ Literal.comment options.moduleName ++ ". */\n" ++
    "#include " ++ Literal.ofString options.runtimeHeader ++ "\n" ++
    String.join (u.headers.toList.map headerLine) ++ "\n" ++
    (StringTable.ofStrings u.strings.toList).emit ++ "\n"

/-- Whether a text declares all functions of a unit by their names, then defines them in the same
order, with lines that name only what is there, and then has an entry point that calls the first
one. -/
def Emits (u : CodeUnit) (options : UnitOptions) (text : String) : Prop :=
  ∃ definitions top, u.functionNames.head? = some top ∧
    List.Forall₂ (fun r d => ∃ layout, r.layout = some layout ∧
      Emitter.Writes { unit := u, routine := r, layout } d) u.routines.toList definitions ∧
    text = u.preface options ++
      String.join (u.functionNames.map fun name => "static TaggedValue " ++ name ++ " " ++
        "(StackFrame * caller, Env * env, unsigned argc, const TaggedValue * argv)" ++ ";\n") ++
      String.join (definitions.map ("\n" ++ ·)) ++ "\n" ++
      options.entryText (StringTable.ofStrings u.strings.toList).entries.size top

lemma entryPoint_eq (options : UnitOptions) (strings : Nat) (top : String) :
    entryPoint options strings top = options.entryText strings top := by
  have main : "int main (int argc, char ** argv)\n\x7b\n" =
      "int " ++ "main" ++ " (int argc, char ** argv)\n\x7b\n" := by decide
  have module : "TaggedValue jsmod_" = "TaggedValue " ++ "jsmod_" := by decide
  unfold entryPoint UnitOptions.entryText UnitOptions.entryName
  split
  · rw [main]
  · rw [module]
    simp only [String.append_assoc]

lemma definitions_eq (written : u.definitions routines = .ok text) :
    ∃ texts, List.Forall₂ (fun r text => r.emit u = .ok text) routines texts ∧
      text = String.join (texts.map ("\n" ++ ·)) := by
  induction routines generalizing text with
  | nil =>
    cases written
    exact ⟨[], .nil, rfl⟩
  | cons first rest ih =>
    obtain ⟨one, emitted, later⟩ := Result.bind_eq_ok.mp written
    obtain ⟨others, defined, joined⟩ := Result.bind_eq_ok.mp later
    obtain ⟨texts, all, rfl⟩ := ih defined
    cases joined
    exact ⟨one :: texts, .cons emitted all, by simp [String.join_cons]⟩

lemma definitions_run
    (texts : ∀ r ∈ routines, ∃ text, r.emit u = .ok text) :
    ∃ text, u.definitions routines = .ok text := by
  induction routines with
  | nil => exact ⟨_, rfl⟩
  | cons first rest ih =>
    obtain ⟨later, shown⟩ := ih fun r mem => texts r (List.mem_cons_of_mem _ mem)
    obtain ⟨text, first_shown⟩ := texts first List.mem_cons_self
    exact ⟨_, by simp only [definitions, first_shown, shown]; rfl⟩

def isCountable (u : CodeUnit) : Bool :=
  u.routines.all fun r => r.layout.all fun layout => layout.localCount ≤ Emitter.maxLocals

end CodeUnit

namespace Lowering

variable {s : Lowering}

lemma Whole.emits_run (whole : s.Whole) (countable : s.unit.completed.isCountable = true)
    (options : UnitOptions) : ∃ text, s.unit.completed.emit options = .ok text := by
  have routines : ∀ R ∈ s.unit.completed.routines.toList,
      ∃ text, R.emit s.unit.completed = .ok text := by
    intro R mem
    obtain ⟨i, inside, rfl⟩ := List.mem_iff_getElem.mp mem
    have found : s.unit.completed.routines[i]? = some s.unit.completed.routines.toList[i] := by simp
    obtain ⟨layout, laid, written⟩ := whole.written found
    have bound := Array.all_eq_true.mp countable i inside
    rw [← Array.getElem_toList, laid] at bound
    exact (written.emit whole).succeeds (by simpa using bound)
  obtain ⟨definitions, defined⟩ := definitions_run routines
  obtain ⟨top, at_top⟩ := whole.top
  have first : s.unit.completed.routine 0 =
      .ok (s.unit.resolved top) := by
    rw [routine, completed_eq_some.mpr ⟨top, at_top, rfl⟩]
  exact ⟨_, by simp only [emit, defined, first]; rfl⟩

lemma Whole.emits (whole : s.Whole) {options : UnitOptions} {text : String}
    (written : s.unit.completed.emit options = .ok text) :
    s.unit.completed.Emits options text := by
  unfold emit at written
  obtain ⟨_, defined, rest⟩ := Result.bind_eq_ok.mp written
  obtain ⟨definitions, all, rfl⟩ := definitions_eq defined
  obtain ⟨top, found, rest⟩ := Result.bind_eq_ok.mp rest
  cases rest
  refine ⟨definitions, top.functionName, ?_, ?_, ?_⟩
  · have first : s.unit.completed.routines[0]? = some top := by
      unfold routine at found
      split at found
      next stands =>
        cases found
        exact stands
      next => cases found
    rw [functionNames, List.head?_map, List.head?_eq_getElem?, Array.getElem?_toList, first]
    rfl
  · refine List.forall₂_iff_get.mpr ⟨all.length_eq, fun i inside inside' => ?_⟩
    obtain ⟨layout, laid, by_unit⟩ := whole.written
      (Array.getElem?_toList ▸ List.getElem?_eq_getElem inside)
    exact ⟨layout, laid, (by_unit.emit whole).holds (all.get inside inside')⟩
  · rw [entryPoint_eq, functionNames, List.map_map]
    rfl

end Lowering

namespace Program

variable {options : CompileOptions} {answers : Requests.Answers} {compiled : Compiled}

/-- Whether the unit of a program has no routine with more locals than can be told apart. -/
def isCountable (p : Program) (options : CompileOptions) (answers : Requests.Answers) (file : Nat) :
    Bool :=
  match p.analyze options answers file with
  | .ok { unit := some unit, .. } => unit.isCountable
  | _ => true

/-- Without empty sequences, a program is lowered to a complete unit, whether there are errors or
not, and its compilation ends with a text or with diagnostics. -/
theorem compile_succeeds (p : Program) (proper : isBodyProper p.body = true)
    (options : CompileOptions) (answers : Requests.Answers) (file : Nat)
    (countable : p.isCountable options answers file = true) :
    (∃ result, p.compile options answers file = .ok result) ∧
      ∀ name strict log, ∃ d s unit, Lowering.declare p name strict log = .ok d ∧
        d.lower p = .ok s ∧ s.complete = .ok unit := by
  refine ⟨?_, fun name strict log => ?_⟩
  · obtain ⟨d, s, declares, lowers, whole⟩ := Lowering.lowers_whole (p.answerRequests answers).1
      (Requests.answerRequests_proper proper answers) options.moduleName options.strict
      ((p.answerRequests answers).2.report (Log.empty file))
    have lowered : ∃ unit log, (p.answerRequests answers).1.lower options
        ((p.answerRequests answers).2.report (Log.empty file)) = .ok (unit, log) ∧
          (unit = none ∨ unit = some s.unit.completed) := by
      simp only [lower, declares, bind, Except.bind]
      split
      · exact ⟨_, _, rfl, .inl rfl⟩
      · simp only [lowers]
        split
        · exact ⟨_, _, rfl, .inl rfl⟩
        · simp only [whole.completes]
          exact ⟨_, _, rfl, .inr rfl⟩
    obtain ⟨unit, log, run, cases⟩ := lowered
    have analyzed : p.analyze options answers file =
        .ok { unit, dependencies := (p.answerRequests answers).2.dependencies.toList, log } := by
      simp only [analyze, run, bind, Except.bind]
      rfl
    rcases cases with rfl | rfl
    · exact ⟨_, by simp only [compile, analyzed, bind, Except.bind]; rfl⟩
    · rw [isCountable, analyzed] at countable
      obtain ⟨text, written⟩ := whole.emits_run countable options.unitOptions
      exact ⟨_, by simp only [compile, analyzed, bind, Except.bind, written]; rfl⟩
  · obtain ⟨d, s, declares, lowers, whole⟩ := Lowering.lowers_whole p proper name strict log
    exact ⟨d, s, _, declares, lowers, whole.completes⟩

theorem guardedLoop_compiles : isBodyProper Lowering.guardedLoop.body = true ∧
      Lowering.guardedLoop.isCountable .standard ⟨.ofTable [], ""⟩ 0 = true ∧
        ∃ result, Lowering.guardedLoop.compile .standard ⟨.ofTable [], ""⟩ 0 = .ok result :=
  ⟨by decide, by decide +kernel,
    (compile_succeeds Lowering.guardedLoop (by decide) .standard ⟨.ofTable [], ""⟩ 0
      (by decide +kernel)).1⟩

/-! ## Storage -/

lemma lowered_of_compile {p : Program} {file : Nat}
    (succeeds : p.compile options answers file = .ok (.ok compiled)) :
    ∃ (d : Lowering.Declared) (s : Lowering) (a : Analysis) (log : Log),
      Lowering.declare (p.answerRequests answers).1 options.moduleName options.strict log = .ok d ∧
        d.lower (p.answerRequests answers).1 = .ok s ∧ p.analyze options answers file = .ok a ∧
          a.unit = some s.unit.completed ∧
            s.unit.completed.emit options.unitOptions = .ok compiled.text := by
  obtain ⟨u, log, text, lowered, written, rfl⟩ := compile_eq_ok_iff.mp succeeds
  obtain ⟨d, s, declares, -, lowers, -, completes, rfl⟩ := lower_eq_some_iff.mp lowered
  obtain rfl := Except.ok.inj
    ((Lowering.whole_of_lowered declares lowers).completes.symm.trans completes)
  exact ⟨d, s, _, _, declares, lowers, by simp only [analyze, lowered, bind, Except.bind]; rfl, rfl,
    written⟩

lemma unit_of_compile {p : Program} {file : Nat}
    (succeeds : p.compile options answers file = .ok (.ok compiled)) :
    ∃ (s : Lowering) (a : Analysis), s.Whole ∧ p.analyze options answers file = .ok a ∧
      a.unit = some s.unit.completed ∧ s.unit.completed.emit options.unitOptions =
        .ok compiled.text := by
  obtain ⟨d, s, a, _, declares, lowers, rest⟩ := lowered_of_compile succeeds
  exact ⟨s, a, Lowering.whole_of_lowered declares lowers, rest⟩

/-- In the text of a compiled program, every function names only what is there: its locals, places
of its own environment and of those around it, arguments of calls, protected regions and strings.
What is assigned is a local or a place of an environment. -/
theorem compile_inBounds {p : Program} {options : CompileOptions} {answers : Requests.Answers}
    {file : Nat} {compiled : Compiled}
    (succeeds : p.compile options answers file = .ok (.ok compiled)) :
    ∃ a u, p.analyze options answers file = .ok a ∧ a.unit = some u ∧
      u.emit options.unitOptions = .ok compiled.text ∧
        u.Emits options.unitOptions compiled.text := by
  obtain ⟨s, a, whole, analyzed, unit, written⟩ := unit_of_compile succeeds
  exact ⟨a, _, analyzed, unit, written, whole.emits written⟩

open Build in
/-- A function that counts with a variable of the function around it, called with two arguments. -/
def nestedCounter : Program :=
  program [funcDecl "outer" [] [varDecl [("count", text "a")],
    funcDecl "step" ["by"] [returnValue (assignWith .add (ident "count") (ident "by"))],
    returnValue (call (ident "step") [ident "count", receiver])]]

theorem nestedCounter_inBounds :
    ∃ compiled a u, nestedCounter.compile .standard ⟨.ofTable [], ""⟩ 0 = .ok (.ok compiled) ∧
      nestedCounter.analyze .standard ⟨.ofTable [], ""⟩ 0 = .ok a ∧ a.unit = some u ∧
        u.Emits CompileOptions.standard.unitOptions compiled.text := by
  obtain ⟨compiled, run⟩ := @Result.ok_of_succeeds _ _ _
    (nestedCounter.compile .standard ⟨.ofTable [], ""⟩ 0) (by decide +kernel)
  obtain ⟨a, u, analyzed, unit, -, bounds⟩ := compile_inBounds run
  exact ⟨compiled, a, u, run, analyzed, unit, bounds⟩

end Program
end Scriptc
