import Scriptc.Proofs.Variation.Programs
import Scriptc.Syntax.Construct

/-!
# Routines of a lowered program

What holds of every routine of a lowered program, with errors or without. All temporaries are free
at the end, since no code leaks one, and the protected regions are balanced on every path.
-/

namespace Scriptc

namespace Routine

variable {r : Routine} {layout : Layout}

def temporaries (r : Routine) : List LocalId :=
  (List.range r.isTemp.size).filter fun id => r.isTemp[id]? == some true

lemma mem_temporaries {id : LocalId} : id ∈ r.temporaries ↔ r.isTemp[id]? = some true := by
  simp only [temporaries, List.mem_filter, List.mem_range, beq_iff_eq, and_iff_right_iff_imp]
  exact fun temp => (lt_size temp)

lemma Complete.free_perm (complete : r.Complete layout) : r.freeTemps.Perm r.temporaries := by
  have nodup : r.temporaries.Nodup := List.nodup_range.filter _
  refine (List.perm_ext_iff_of_nodup complete.free_nodup nodup).mpr fun id => ?_
  rw [mem_temporaries]
  exact ⟨complete.free_temp id, fun temp => mem_free_of_not_inUse temp (complete.unused id)⟩

/-- The protected regions that are active after some instructions, innermost first; nothing if one
of them ends a region that is not the innermost one. -/
def regionsAfter (active : List Nat) : List Instruction → Option (List Nat)
  | [] => some active
  | .endTry index :: rest =>
    if active.head? = some index then regionsAfter active.tail rest else none
  | _ :: rest => regionsAfter active rest

/-- Whether protected regions are balanced, with the regions that are active at the start of each
block. -/
structure Balanced (r : Routine) (active : BlockId → List Nat) : Prop where
  entry : active entry = []
  exit : ∀ k, r.exitBlock = .ok k → active k = []
  blocks : ∀ (k : BlockId) (b : Block), r.blocks[k]? = some b → ∃ jump last,
    b.jump = some jump ∧ regionsAfter (active k) b.body.toList = some last ∧
      match jump with
      | .ret _ => last = []
      | .beginTry index onCatch onBody => index ∉ last ∧
          (∃ body, r.target onBody = .ok body ∧ active body = index :: last) ∧
            ∃ handler, r.target onCatch = .ok handler ∧ active handler = last
      | jump => ∀ label ∈ jump.targets, ∃ next, r.target label = .ok next ∧ active next = last

lemma regionsAfter_of_admits {F : Flow} {body : List Instruction} (admits : F.AdmitsAll body) :
    regionsAfter F.tries body = some (F.through body).tries := by
  induction body generalizing F with
  | nil => rfl
  | cons i rest ih =>
    obtain ⟨here, after⟩ := admits
    rw [Flow.through, List.foldl_cons, ← Flow.through, ← ih after]
    cases i with
    | endTry index =>
      rw [regionsAfter, if_pos (show F.tries.head? = some index from here)]
      rfl
    | _ => rfl

lemma target_of_label {label : Label} {k : BlockId} (placed : r.labels[label]? = some (some k)) :
    r.target label = .ok k := by
  simp [target, labelBlock, placed, bind, Except.bind]

lemma label_of_exitBlock {k : BlockId} (exit : r.exitBlock = .ok k) :
    r.labels[exitLabel]? = some (some k) := by
  obtain ⟨found, labelled, placed⟩ := Result.bind_eq_ok.mp exit
  rw [labelBlock] at labelled
  split at labelled
  next known =>
    obtain rfl := Except.ok.inj labelled
    rw [known]
    split at placed
    next => rw [Except.ok.inj placed]
    next => cases placed
  next => cases labelled

lemma Complete.balanced (complete : r.Complete layout) : ∃ active, r.Balanced active := by
  obtain ⟨aim, start, chart, exit_aim⟩ := complete.chart
  -- What a label expects is what is active where it is placed.
  have placed {label : Label} {k : BlockId} (here : r.labels[label]? = some (some k)) {F : Flow}
      (le : aim label ≤ F) : (start k).tries = F.tries :=
    (chart.labels label k here).1.trans le.1
  refine ⟨fun k => (start k).tries, by rw [chart.entry]; rfl, fun k exit => ?_, fun k b found => ?_⟩
  · exact (chart.labels _ k (label_of_exitBlock exit)).1.trans (by rw [exit_aim]; rfl)
  · obtain ⟨jump, last⟩ := Option.isSome_iff_exists.mp (complete.blocks k b found)
    obtain ⟨admits, leads⟩ := chart.blocks k b jump found last
    refine ⟨jump, _, last, regionsAfter_of_admits admits, ?_⟩
    have lands {label : Label} (mem : label ∈ jump.targets) :
        ∃ next, r.labels[label]? = some (some next) := by
      obtain ⟨next, here, -⟩ := complete.targets jump ⟨k, b, found, last⟩ label mem
      exact ⟨next, here⟩
    cases jump with
    | ret value => exact leads
    | beginTry index onCatch onBody =>
      obtain ⟨new, body_aim, catch_aim⟩ := leads
      obtain ⟨body, at_body⟩ : ∃ next, r.labels[onBody]? = some (some next) :=
        lands (by simp [Jump.targets])
      obtain ⟨handler, at_handler⟩ : ∃ next, r.labels[onCatch]? = some (some next) :=
        lands (by simp [Jump.targets])
      exact ⟨new, ⟨body, target_of_label at_body, placed at_body body_aim⟩,
        handler, target_of_label at_handler, (placed at_handler catch_aim :)⟩
    | _ =>
      intro label mem
      obtain ⟨next, here⟩ := lands mem
      exact ⟨next, target_of_label here, placed here (leads label mem)⟩

end Routine

namespace Lowering

lemma Whole.complete_of {s : Lowering} (whole : s.Whole) {i : RoutineId} {r : Routine}
    (found : s.unit.routines[i]? = some r) : ∃ layout, r.layout = some layout ∧
      r.Complete layout := by
  obtain ⟨layout, laid⟩ := Option.isSome_iff_exists.mp (whole.laid i r found)
  exact ⟨layout, laid, whole.complete i r layout found laid⟩

/-- No temporary is leaked or shared. A statement leaves the temporaries in use as they are; an
expression adds that of its result, which was not in use; and in the routines of a program all of
them are free in the end. Nothing of this depends on the errors that are reported. -/
theorem temporaries_accounted (p : Program) (proper : isBodyProper p.body = true) (name : String)
    (strict : Bool) (log : Log) :
    (∀ (st : Stmt) (labels : List String) (s : Lowering), st.isProper = true → s.Sound →
      Runs (stmtCode st labels) s fun _ s' => ∀ id, s'.InUse id ↔ s.InUse id) ∧
    (∀ (e : Expr) (d : Demand) (s : Lowering), e.isProper = true → s.Sound → s.Knows d.labels →
      Runs (exprCode e d) s fun a s' =>
        (∀ id, s'.InUse id ↔ s.InUse id ∨ .cell id ∈ d.given a) ∧
          ∀ id, .cell id ∈ d.given a → ¬s.InUse id) ∧
    ∃ d s, declare p name strict log = .ok d ∧ d.lower p = .ok s ∧ ∀ (i : RoutineId) (r : Routine),
      s.unit.routines[i]? = some r → r.freeTemps.Perm r.temporaries := by
  refine ⟨fun st labels s proper sound => ?_, fun e d s proper sound known => ?_, ?_⟩
  · refine ((stmt_lowers .constants st proper).proceeds labels s sound).mono fun _ s' moves id => ?_
    simpa using moves.inUse id
  · refine ((expr_lowers .constants e proper).spec.runs d s sound known).mono fun a s'
      ⟨moves, _⟩ => ?_
    refine ⟨fun id => by simpa using moves.inUse id, fun id given used => ?_⟩
    simpa using moves.fresh id given used
  · obtain ⟨d, s, declares, lowers, whole⟩ := lowers_whole p proper name strict log
    refine ⟨d, s, declares, lowers, fun i r found => ?_⟩
    obtain ⟨layout, -, complete⟩ := whole.complete_of found
    exact complete.free_perm

open Build in
/-- A function with a loop in which two nested protected regions are left by a break, a continue and
a return. -/
def guardedLoop : Program :=
  let inner := tryCatch [breakTo none] "e" [returnValue (ident "e")]
  let outer := tryCatch [inner] "e" [continueTo none]
  program [funcDecl "f" ["a"] [whileLoop (update .increment false (ident "a")) outer]]

theorem guardedLoop_accounted : isBodyProper guardedLoop.body = true ∧ ∃ d s,
      declare guardedLoop "main" false (Log.empty 0) = .ok d ∧ d.lower guardedLoop = .ok s ∧
        ∀ (i : RoutineId) (r : Routine), s.unit.routines[i]? = some r →
          r.freeTemps.Perm r.temporaries :=
  ⟨by decide, (temporaries_accounted guardedLoop (by decide) "main" false (Log.empty 0)).2.2⟩

/-- In every routine of a lowered program, the protected regions are balanced on every path. -/
theorem regions_balanced {p : Program} {name : String} {strict : Bool} {log : Log} {d : Declared}
    {s : Lowering} (declares : declare p name strict log = .ok d) (lowers : d.lower p = .ok s)
    {i : RoutineId} {r : Routine} (found : s.unit.routines[i]? = some r) :
    ∃ active, r.Balanced active := by
  obtain ⟨layout, -, complete⟩ := (whole_of_lowered declares lowers).complete_of found
  exact complete.balanced

/-- The lowered form of a program, if it has one. -/
def lowered? (p : Program) : Option Lowering :=
  (declare p "main" false (Log.empty 0)).toOption.bind fun d => (d.lower p).toOption

theorem guardedLoop_balanced :
    ∃ d s, declare guardedLoop "main" false (Log.empty 0) = .ok d ∧ d.lower guardedLoop = .ok s ∧
      ∃ r, s.unit.routines[1]? = some r ∧ ∃ active, r.Balanced active := by
  obtain ⟨d, s, declares, lowers, whole⟩ :=
    lowers_whole guardedLoop (by decide) "main" false (Log.empty 0)
  have two : (lowered? guardedLoop).any (·.unit.routines[1]?.isSome) = true := by decide +kernel
  simp only [lowered?, declares, lowers, Except.toOption, Option.bind_some, Option.any_some] at two
  obtain ⟨r, found⟩ := Option.isSome_iff_exists.mp two
  exact ⟨d, s, declares, lowers, r, found, regions_balanced declares lowers found⟩

end Lowering
end Scriptc
