import Scriptc.Lowering.Program
import Scriptc.Proofs.Lowering.Names

/-!
# The start of lowering

The top level starts as an empty routine with one scope, in which the names with a fixed value are
declared.
-/

namespace Scriptc

lemma Routine.not_at_new {id : RoutineId} {parent : Option RoutineId} {level : Nat}
    {name : Option String} {strict : Bool} {k : BlockId} {j : Nat} {i : Instruction} :
    ¬(Routine.new id parent level name strict).At k j i := by
  rintro ⟨b, found, stands⟩
  match k with
  | 0 | 1 =>
    cases found
    cases stands
  | k + 2 => cases found

namespace Lowering

lemma codeFits_new (s : Lowering) (user id : RoutineId) (parent : Option RoutineId) (level : Nat)
    (name : Option String) (strict : Bool) :
    s.CodeFits user (Routine.new id parent level name strict) where
  instructions i has := by
    obtain ⟨k, j, stands⟩ := has
    exact absurd stands Routine.not_at_new
  jumps jump ends := by
    obtain ⟨k, b, found, last⟩ := ends
    match k with
    | 0 =>
      cases found
      cases last
      exact ⟨by simp [Jump.operands], by simp, by simp⟩
    | 1 =>
      cases found
      cases last
    | k + 2 => cases found

def opened (log : Log) (name : String) (strict : Bool) : Lowering :=
  { unit := { CodeUnit.empty with routines := #[.new 0 none 0 (some name) strict] }
    scopes := { scopes := #[{ parent := none, level := 0, varScope := 0, owner := 0, names := [] }],
                bindings := #[] }
    log, frame := .new 0 0 strict, topScope := 0 }

section

variable {log : Log} {name : String} {strict : Bool}

lemma opened_routine {i : RoutineId} {r : Routine}
    (found : (opened log name strict).unit.routines[i]? = some r) :
    i = 0 ∧ r = .new 0 none 0 (some name) strict := by
  match i with
  | 0 => exact ⟨rfl, (Option.some.inj found).symm⟩
  | i + 1 => cases found

lemma opened_scope {k : ScopeId} {sc : Scope}
    (found : (opened log name strict).scopes.scopes[k]? = some sc) :
    k = 0 ∧ sc = { parent := none, level := 0, varScope := 0, owner := 0, names := [] } := by
  match k with
  | 0 => exact ⟨rfl, (Option.some.inj found).symm⟩
  | k + 1 => cases found

lemma opened_within {i : RoutineId} (within : (opened log name strict).unit.Within i 0) :
    i = 0 := by
  cases within with
  | refl => rfl
  | outwards found parent _ =>
    obtain ⟨-, rfl⟩ := opened_routine found
    cases parent

lemma opened_sound (log : Log) (name : String) (strict : Bool) :
    (opened log name strict).Sound where
  ids i r found := by
    obtain ⟨rfl, rfl⟩ := opened_routine found
    rfl
  parents i r found := by
    obtain ⟨rfl, rfl⟩ := opened_routine found
    rfl
  current i within := by
    obtain rfl := opened_within within
    exact ⟨_, rfl, rfl⟩
  building i r found _ := by
    obtain ⟨rfl, rfl⟩ := opened_routine found
    exact ⟨.refl 0, Routine.new_sound ..⟩
  complete i r layout found laid := by
    obtain ⟨rfl, rfl⟩ := opened_routine found
    cases laid
  fits i r found := by
    obtain ⟨rfl, rfl⟩ := opened_routine found
    exact codeFits_new ..
  prologue i r j instruction found stands := by
    obtain ⟨rfl, rfl⟩ := opened_routine found
    exact absurd stands Routine.not_at_new
  scopes k sc found := by
    obtain ⟨rfl, rfl⟩ := opened_scope found
    exact ⟨⟨_, rfl⟩, by simp, fun _ => rfl, ⟨_, rfl, rfl⟩, fun other => absurd rfl other, by simp⟩
  bindings k b found := by cases found
  stored_once j k b c v found := by cases found
  known k b v routine found := by cases found
  unset i r index x found unlaid known := by
    obtain ⟨rfl, rfl⟩ := opened_routine found
    cases known
  published i r index x routine found known := by
    obtain ⟨rfl, rfl⟩ := opened_routine found
    cases known
  frame := by
    refine ⟨⟨_, rfl, rfl, rfl⟩, ⟨_, rfl, rfl⟩, ⟨_, rfl, rfl⟩, by simp [opened, Frame.new],
      by simp [opened, Frame.new], _, rfl, fun label exit => ?_, by simp [opened, Frame.new]⟩
    rcases exit with rfl | ⟨t, absent, -⟩
    · exact Nat.two_pos
    · cases absent

end

def constantBinding (name : String) (owner : RoutineId) (value : Constant) : Binding :=
  { Binding.new name owner with
    readOnly := true, constant := some value, declared := true, initialized := true }

def constantIn (t : ScopeTree) (scope : ScopeId) (owner : RoutineId) (name : String)
    (value : Constant) : ScopeTree :=
  { scopes := withName t scope name
    bindings := t.bindings.push (constantBinding name owner value) }

section

variable {s : Lowering} {scope : ScopeId} {sc : Scope}

lemma declareConstant_run {t : ScopeTree} (found : t.scopes[scope]? = some sc) (name : String)
    (value : Constant) : ScopeTree.declareConstant scope name value t =
      .ok t.bindings.size (constantIn t scope sc.owner name value) := by
  have asked : ScopeTree.ask (·.scope scope) t = .ok sc t := by
    simp [ScopeTree.ask, scope_found found]
  have declared : ScopeTree.declare scope name t = .ok t.bindings.size
      ⟨withName t scope name, t.bindings.push (Binding.new name sc.owner)⟩ := by
    exact Runs.bind_eq_ok.mpr ⟨_, _, (Runs.bind_run asked).trans rfl, rfl⟩
  have known : ScopeTree.ask (·.binding t.bindings.size)
      ⟨withName t scope name, t.bindings.push (Binding.new name sc.owner)⟩ =
      .ok (Binding.new name sc.owner)
        ⟨withName t scope name, t.bindings.push (Binding.new name sc.owner)⟩ := by
    simp [ScopeTree.ask, ScopeTree.binding]
  rw [ScopeTree.declareConstant, Runs.bind_run declared]
  refine Runs.bind_eq_ok.mpr ⟨⟨⟩, _, ?_, rfl⟩
  rw [ScopeTree.modifyBinding, Runs.bind_run known]
  exact congrArg (fun bindings => EStateM.Result.ok PUnit.unit (ScopeTree.mk _ bindings))
    (push_modify t.bindings (Binding.new name sc.owner) _)

lemma Sound.declareConstant (sound : s.Sound) (found : s.scopes.scopes[scope]? = some sc)
    (name : String) (value : Constant) :
    { s with scopes := constantIn s.scopes scope sc.owner name value }.Sound := by
  have named := names_withName found name
  have bindings {k : BindingId} {c : Binding}
      (known : (constantIn s.scopes scope sc.owner name value).bindings[k]? = some c) :
      s.scopes.bindings[k]? = some c ∨
        k = s.scopes.bindings.size ∧ c = constantBinding name sc.owner value := by
    rw [constantIn, Array.getElem?_push] at known
    split at known
    next last => exact .inr ⟨last, by simpa using known.symm⟩
    next => exact .inl known
  have kept {k : BindingId} {c : Binding} (known : s.scopes.bindings[k]? = some c) :
      (constantIn s.scopes scope sc.owner name value).bindings[k]? = some c := by
    obtain ⟨below, -⟩ := Array.getElem?_eq_some_iff.mp known
    rw [constantIn, Array.getElem?_push_lt below, ← Array.getElem?_eq_getElem below, known]
  have same {k : BindingId} {c c' : Binding} (known : s.scopes.bindings[k]? = some c)
      (known' : (constantIn s.scopes scope sc.owner name value).bindings[k]? = some c') : c' = c :=
    Option.some.inj (known'.symm.trans (kept known))
  have keeps : s.Extends { s with scopes := constantIn s.scopes scope sc.owner name value } :=
    { Extends.refl s with
      bindings := fun k c known => ⟨c, kept known, .refl c⟩
      refs := fun k c c' known known' _ => by rw [same known known']
      laid := fun k c c' r known known' _ _ => same known known'
      scopes := fun k old known =>
        have ⟨names, known', _⟩ := named.2 k old known
        ⟨_, known', rfl, rfl⟩ }
  refine sound.of_same_code keeps (fun i r known => ⟨r, known, rfl⟩) ?_ ?_ ?_ ?_
    fun i r index x known found_x => .inr ⟨r, known, found_x⟩
  · intro k sc' known
    have below : k < s.scopes.scopes.size := by
      rw [named.1]
      exact lt_size known
    have known_old := Array.getElem?_eq_getElem below
    obtain ⟨names, known', names_bound⟩ := named.2 k _ known_old
    cases known.symm.trans known'
    have fits := keeps.scopeFits (sound.scopes k _ known_old)
    refine { fits with names := fun other binding mem => ?_ }
    rcases names_bound other binding mem with old | ⟨rfl, owner, title⟩
    · exact fits.names other binding old
    · exact ⟨_, Array.getElem?_push_size, owner.symm, title.symm⟩
  · intro k c known
    rcases bindings known with old | ⟨-, rfl⟩
    · exact keeps.bindingFits (sound.bindings k c old)
    · obtain ⟨r, owner_found⟩ := (sound.scopes scope sc found).owner
      refine ⟨(lt_size owner_found), fun v stored => ?_, fun _ => rfl,
        fun _ => rfl, fun routine refers => ?_⟩
      · cases stored
      · cases refers
  · intro j k c d v known_c known_d held_c held_d
    rcases bindings known_c with old_c | ⟨-, rfl⟩
    · rcases bindings known_d with old_d | ⟨-, rfl⟩
      · exact sound.stored_once j k c d v old_c old_d held_c held_d
      · cases held_d
    · cases held_c
  · intro k c v routine known stored unset refers
    rcases bindings known with old | ⟨-, rfl⟩
    · exact sound.known k c v routine old stored unset refers
    · cases stored

lemma declareConstants_sound (sound : s.Sound) (found : s.scopes.scopes[scope]? = some sc)
    (constants : List (String × Constant)) :
    ∃ t, declareConstants scope constants s.scopes = .ok ⟨⟩ t ∧ { s with scopes := t }.Sound ∧
      ∀ (k : BindingId) (b : Binding), t.bindings[k]? = some b → s.scopes.bindings[k]? = some b ∨
        b.storedIn = none ∧ b.accessed = false ∧ b.routineRef = none := by
  induction constants generalizing s sc with
  | nil => exact ⟨s.scopes, rfl, sound, fun _ _ => .inl⟩
  | cons first rest ih =>
    obtain ⟨name, value⟩ := first
    have found' : (withName s.scopes scope name)[scope]? =
        some { sc with names := (name, s.scopes.bindings.size) :: sc.names } := by
      rw [withName_scopes, if_pos rfl, found]
      rfl
    obtain ⟨t, run, sound', new⟩ := ih (sound.declareConstant found name value) found'
    refine ⟨t, (Runs.bind_run (declareConstant_run found name value)).trans run, sound', ?_⟩
    intro k b known
    rcases new k b known with old | plain
    · rw [constantIn, Array.getElem?_push] at old
      split at old
      next =>
        cases old
        exact .inr ⟨rfl, rfl, rfl⟩
      next => exact .inl old
    · exact .inr plain

end

lemma openTop_sound (log : Log) (name : String) (strict : Bool) : Runs (do
      let routine ← inUnit (CodeUnit.newRoutine none (some name) strict)
      let top ← inScopes (ScopeTree.newScope none routine true)
      inScopes (declareConstants top builtInConstants)) (start log strict) fun _ s => s.Sound ∧
        (∃ scopes, s = { opened log name strict with scopes }) ∧
          ∀ (k : BindingId) (b : Binding), s.scopes.bindings[k]? = some b →
            b.storedIn = none ∧ b.accessed = false ∧ b.routineRef = none := by
  have opens : (do
      let routine ← inUnit (CodeUnit.newRoutine none (some name) strict)
      inScopes (ScopeTree.newScope none routine true)) (start log strict) =
      .ok 0 (opened log name strict) := rfl
  have top : (opened log name strict).scopes.scopes[0]? =
      some { parent := none, level := 0, varScope := 0, owner := 0, names := [] } := rfl
  obtain ⟨t, run, sound, new⟩ :=
    declareConstants_sound (opened_sound log name strict) top builtInConstants
  rw [← bind_assoc]
  refine .bind ⟨_, _, opens, ⟨⟩, _, ?_, sound, ⟨t, rfl⟩, fun k b known => ?_⟩
  · simp only [inScopes, EStateM.run, run]
  · exact (new k b known).resolve_left (by simp [opened])

end Lowering
end Scriptc
