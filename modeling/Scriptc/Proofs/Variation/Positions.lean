import Scriptc.Proofs.Module.Requests
import Scriptc.Proofs.Variation.Programs

/-!
# Places and generated code

Programs that differ only in the places of their nodes compile alike, and what is reported differs
in its places only.
-/

namespace Scriptc

def Diagnostic.wording (d : Diagnostic) : Severity × String × String × List String :=
  (d.severity, d.code, d.message, d.notes)

def Log.wordings (log : Log) : List (Severity × String × String × List String) :=
  log.toList.map Diagnostic.wording

namespace Variation

lemma Reports.wordings_eq {log log' : Log} (reports : erasing.Reports log log') :
    log'.wordings = log.wordings := by
  rw [Log.wordings, Log.toList, reports.entries_eq rfl, List.map_map]
  rfl

lemma report_reports (requests : Requests) (log log' : Log) (reports : erasing.Reports log log') :
    erasing.Reports (requests.report log) (requests.erased.report log') := by
  obtain ⟨dependencies, ⟨warnings⟩⟩ := requests
  simp only [Requests.report, Requests.erased, List.map_toArray, List.foldl_toArray]
  induction warnings generalizing log log' with
  | nil => exact reports
  | cons first rest ih =>
    refine ih _ _ (reports.push (.inl ?_))
    simp [movedDiagnostic, reports.file]

end Variation

namespace Program

open Lowering Variation

def erased (p : Program) : Program := p.vary .erasing

lemma answerRequests_erased (p : Program) (answers : Requests.Answers) :
    p.erased.answerRequests answers =
      ((p.answerRequests answers).1.erased, (p.answerRequests answers).2.erased) := by
  have same := (Requests.program_walks answers p .none).2.2
  rw [show Requests.none.erased = Requests.none by simp [Requests.erased, Requests.none]] at same
  simp only [answerRequests, erased, vary, statementsDeclare_vary, same]
  rfl

lemma lower_erased (p : Program) (options : CompileOptions) {log log' : Log}
    (reports : erasing.Reports log log') :
    match p.lower options log with
    | .ok (unit, log1) => ∃ log2, p.erased.lower options log' = .ok (unit, log2) ∧
        log2.wordings = log1.wordings
    | .error fault => p.erased.lower options log' = .error fault := by
  have declares := declare_alike (c := erasing) p options.moduleName reports
    (id : options.strict = true → options.strict = true) fun _ => rfl
  simp only [lower, bind, Except.bind]
  cases declared : declare p options.moduleName options.strict log with
  | error fault =>
    simp only [declared] at declares
    rw [erased, declares.resolve_left Bool.false_ne_true]
  | ok d =>
    simp only [declared] at declares
    obtain ⟨d', _, declared', hoisted, alike⟩ := declares
    simp only [erased, declared', alike.log.errorCount_eq rfl]
    by_cases refused : 0 < d.state.log.errorCount
    · simp only [if_pos refused]
      exact ⟨_, rfl, alike.log.wordings_eq⟩
    · simp only [if_neg refused]
      have runs := lower_alike p hoisted alike
      cases lowered : d.lower p with
      | error fault =>
        simp only [lowered] at runs
        rw [runs.resolve_left Bool.false_ne_true]
      | ok s =>
        simp only [lowered] at runs
        obtain ⟨s', lowered', alike'⟩ := runs
        have unit : s'.unit = s.unit := alike'.unit
        simp only [lowered', alike'.log.errorCount_eq rfl, complete, unit]
        by_cases refused' : 0 < s.log.errorCount
        · simp only [if_pos refused']
          exact ⟨_, rfl, alike'.log.wordings_eq⟩
        · simp only [if_neg refused']
          cases s.unit.finalize with
          | error fault => rfl
          | ok u => exact ⟨_, rfl, alike'.log.wordings_eq⟩

lemma analyze_erased (p : Program) (options : CompileOptions) (answers : Requests.Answers)
    (file : Nat) :
    match p.analyze options answers file with
    | .ok a => ∃ log, p.erased.analyze options answers file = .ok { a with log } ∧
        log.wordings = a.log.wordings
    | .error fault => p.erased.analyze options answers file = .error fault := by
  have reports : erasing.Reports ((p.answerRequests answers).2.report (Log.empty file))
      ((p.answerRequests answers).2.erased.report (Log.empty file)) :=
    report_reports _ _ _ ⟨rfl, .nil⟩
  have lowers := lower_erased (p.answerRequests answers).1 options reports
  simp only [analyze, answerRequests_erased, bind, Except.bind]
  cases lowered : (p.answerRequests answers).1.lower options
      ((p.answerRequests answers).2.report (Log.empty file)) with
  | error fault =>
    simp only [lowered] at lowers
    rw [lowers]
  | ok result =>
    simp only [lowered] at lowers
    obtain ⟨log2, lowered', same⟩ := lowers
    exact ⟨log2, by rw [lowered']; rfl, same⟩

/-- Programs that are equal but for the places of their nodes compile alike: both to the same text,
or neither to any, with the same dependencies and with reports that say the same in the same
order. -/
theorem compile_ignores_places (p q : Program) (same : p.erased = q.erased)
    (options : CompileOptions) (answers : Requests.Answers) (file : Nat) :
    (∃ fault, p.compile options answers file = .error fault ∧
        q.compile options answers file = .error fault) ∨
      ∃ a b, p.analyze options answers file = .ok a ∧ q.analyze options answers file = .ok b ∧
        a.dependencies = b.dependencies ∧ a.log.wordings = b.log.wordings ∧ ((∃ text,
              p.compile options answers file = .ok (.ok ⟨text, a.log.sorted, a.dependencies⟩) ∧
                q.compile options answers file = .ok (.ok ⟨text, b.log.sorted, b.dependencies⟩)) ∨
            p.compile options answers file = .ok (.error a.log.sorted) ∧
              q.compile options answers file = .ok (.error b.log.sorted)) := by
  have first := analyze_erased p options answers file
  have second := analyze_erased q options answers file
  rw [same] at first
  simp only [compile, bind, Except.bind]
  cases left : p.analyze options answers file with
  | error fault =>
    simp only [left] at first
    cases right : q.analyze options answers file with
    | error fault' =>
      simp only [right, first] at second
      exact .inl ⟨fault, rfl, by rw [Except.error.inj second]⟩
    | ok b => simp [right, first] at second
  | ok a =>
    simp only [left] at first
    obtain ⟨log, analyzed, wordings⟩ := first
    cases right : q.analyze options answers file with
    | error fault => simp [right, analyzed] at second
    | ok b =>
      simp only [right, analyzed] at second
      obtain ⟨log', equal, wordings'⟩ := second
      obtain ⟨unit, dependencies, reported⟩ := a
      obtain ⟨unit', dependencies', reported'⟩ := b
      obtain ⟨rfl, rfl, rfl⟩ : unit = unit' ∧ dependencies = dependencies' ∧ log = log' := by
        simpa using equal
      have reports : reported.wordings = reported'.wordings := wordings.symm.trans wordings'
      cases unit with
      | none => exact .inr ⟨_, _, rfl, rfl, rfl, reports, .inr ⟨rfl, rfl⟩⟩
      | some u =>
        dsimp only
        cases u.emit options.unitOptions with
        | error fault => exact .inl ⟨fault, rfl, rfl⟩
        | ok text => exact .inr ⟨_, _, rfl, rfl, rfl, reports, .inl ⟨text, rfl, rfl⟩⟩

def warnedTwice (first second third : Location) : Program :=
  { loc := first
    body := [.varDecl first .var [.mk first (.ident first "a") none],
      .function second (.mk (some ⟨second, "a"⟩) [] [] false false),
      .expression third (.assign third .assign (.ident second "b") (.ident third "a")) none]
    sourceType := none }

theorem warnedTwice_ignores_places :
    (warnedTwice (.ofRange 1 2) (.ofRange 3 4) (.ofRange 5 6)).erased =
        (warnedTwice (.ofRange 9 9) (.ofRange 7 8) .nowhere).erased ∧
      ∃ a b, (warnedTwice (.ofRange 1 2) (.ofRange 3 4) (.ofRange 5 6)).analyze .standard
          ⟨.ofTable [], ""⟩ 0 = .ok a ∧
        (warnedTwice (.ofRange 9 9) (.ofRange 7 8) .nowhere).analyze .standard ⟨.ofTable [], ""⟩ 0 =
          .ok b ∧ a.log.wordings = b.log.wordings := by
  refine ⟨rfl, ?_⟩
  rcases compile_ignores_places (warnedTwice (.ofRange 1 2) (.ofRange 3 4) (.ofRange 5 6))
    (warnedTwice (.ofRange 9 9) (.ofRange 7 8) .nowhere) rfl .standard ⟨.ofTable [], ""⟩ 0 with
    ⟨fault, faulty, -⟩ | ⟨a, b, left, right, -, wordings, -⟩
  · have compiles : ((warnedTwice (.ofRange 1 2) (.ofRange 3 4) (.ofRange 5 6)).compile .standard
        ⟨.ofTable [], ""⟩ 0).isOk = true := by decide +kernel
    simp [faulty, Except.isOk, Except.toBool] at compiles
  · exact ⟨a, b, left, right, wordings⟩

end Program

end Scriptc
