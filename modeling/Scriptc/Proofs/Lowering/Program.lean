import Scriptc.Proofs.Lowering.Tree

/-!
# Programs

The names of a program are declared in an empty top level. If no sequence in it is empty, its code
can be lowered, whether there were errors or not, and every routine of the result is laid out.
-/

namespace Scriptc.Lowering

/-- What is left when the code of a program is lowered. -/
structure Whole (s : Lowering) : Prop extends s.Coherent where
  laid : ∀ (i : RoutineId) (r : Routine), s.unit.routines[i]? = some r → r.layout.isSome = true
  top : ∃ r, s.unit.routines[0]? = some r

def DeclaredIn (s : Lowering) (hoisted : List Hoisted) : Prop :=
  ∃ s₀ : Lowering, s₀.frame.routine = 0 ∧ s₀.Hoists s hoisted

variable {s : Lowering}

lemma opened_blank {log : Log} {name : String} {strict : Bool} {scopes : ScopeTree}
    (same : s = { opened log name strict with scopes }) (sound : s.Sound)
    (plain : ∀ (k : BindingId) (b : Binding), s.scopes.bindings[k]? = some b →
      b.storedIn = none ∧ b.accessed = false ∧ b.routineRef = none) : s.Blank [] := by
  have code : s.code = .new 0 none 0 (some name) strict := by
    rw [same]
    rfl
  have clear : s.Clear := by
    refine ⟨sound, by rw [same]; rfl, by rw [same]; rfl, ?_, fun label owes => ?_,
      fun id used => ?_, fun _ => .regions [], rfl, fun _ => .regions [], ?_⟩
    · rw [Pending, code]
      rfl
    · rw [Owes, code] at owes
      exact absurd owes Routine.not_owes_new
    · rw [InUse, code] at used
      exact absurd used Routine.not_inUse_new
    · rw [code]
      exact Routine.new_charted ..
  refine ⟨⟨clear, by rw [code]; rfl, ?_⟩, fun k b found _ => (plain k b found).2, ?_⟩
  · have empty : (Routine.new 0 none 0 (some name) strict).openBody = #[] := rfl
    rw [code, empty]
    simp
  · intro sc title k b _ _ found _ v r x stored
    cases (plain k b found).1.symm.trans stored

lemma declareProgram_runs (p : Program) (name : String) (log : Log) (strict : Bool) :
    Runs (declareProgram p name) (start log strict) fun hoisted s => s.DeclaredIn hoisted := by
  obtain ⟨⟨⟩, s0, run, sound, ⟨scopes, same⟩, plain⟩ := openTop_sound log name strict
  have blank := opened_blank same sound plain
  obtain ⟨hoisted, s, hoists, declared⟩ := hoist_hoists blank (declarationsOf p.body)
  refine ⟨hoisted, s, ?_, s0, by rw [same]; rfl, declared⟩
  calc
    declareProgram p name (start log strict) = ((do
          let routine ← inUnit (CodeUnit.newRoutine none (some name) strict)
          let top ← inScopes (ScopeTree.newScope none routine true)
          inScopes (declareConstants top builtInConstants)) >>= fun _ =>
            hoist (declarationsOf p.body)) (start log strict) := by
      rfl
    _ = .ok hoisted s := (Runs.bind_run run).trans hoists

lemma Coherent.within_top (coherent : s.Coherent) {i : RoutineId} (within : s.unit.Within i 0) :
    i = 0 := by
  rcases within with _ | ⟨found, parent, _⟩
  · rfl
  · have earlier := coherent.parents _ _ found
    simp [parent] at earlier

lemma Clear.finished (clear : s.Clear) (top : s.frame.routine = 0) :
    (s.withCode s.laidOut).Whole where
  toCoherent := wholeState_laidOut s ▸ clear.seals.coherent clear.whole
  laid i r found := by
    rw [clear.sound.withCode_routines] at found
    split at found
    next =>
      cases found
      rfl
    next other =>
      cases layout : r.layout with
      | some => rfl
      | none =>
        have within := (clear.sound.building i r found layout).1
        rw [top] at within other
        exact absurd (clear.sound.toCoherent.within_top within) other
  top := by
    have found := clear.sound.withCode_routines s.laidOut s.frame.routine
    rw [top] at found
    exact ⟨_, found⟩

lemma lowerCode_runs (p : Program) (proper : isBodyProper p.body = true) {hoisted : List Hoisted}
    (declared : s.DeclaredIn hoisted) : Runs (lowerCode p hoisted) s fun _ s' => s'.Whole := by
  obtain ⟨s0, top, hoists⟩ := declared
  have lowers := body_lowers Runtime.constants p.body proper
  have opening := hoists.blank.toOpening
  refine (instantiate_moves (hoisted.zip (functionCodes p.body)) opening ?_ ?_ ?_).step
    fun _ s1 instantiated => ?_
  · exact fun pair mem => lowers.functions pair.2 (List.of_mem_zip mem).2
  · exact fun pair mem => hoists.fillable (List.of_mem_zip mem).1
  · exact pairwise_zip hoists.apart _
  · refine (lowers.proceeds s1 instantiated.sound).step fun _ s2 executed => ?_
    have moves := instantiated.andThen executed
    have clear := opening.clear.moves moves
    refine ⟨⟨⟩, _, finishRoutine_run clear, clear.finished ?_⟩
    rw [moves.keeps.frame, hoists.prepares.routine, top]

lemma lowers_whole (p : Program) (proper : isBodyProper p.body = true) (name : String)
    (strict : Bool) (log : Log) :
    ∃ d s, declare p name strict log = .ok d ∧ d.lower p = .ok s ∧ s.Whole := by
  obtain ⟨hoisted, s1, declares, declared⟩ := declareProgram_runs p name log (isStrict p strict)
  obtain ⟨⟨⟩, s2, lowers, whole⟩ := lowerCode_runs p proper declared
  refine ⟨⟨hoisted, s1⟩, s2, ?_, ?_, whole⟩
  · simp only [declare, EStateM.run, declares]
  · simp only [Declared.lower, EStateM.run, lowers]

end Scriptc.Lowering
