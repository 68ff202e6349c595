import Scriptc.Proofs.Lowering.Start

/-!
# Nested routines

A function is lowered in a frame of its own while the routine around it waits. The nested routine
starts without code, in a scope of its own.
-/

namespace Scriptc

namespace Routine

section

variable {id : RoutineId} {parent : Option RoutineId} {level : Nat} {name : Option String}
  {strict : Bool}

lemma not_owes_new {label : Label} : ¬(Routine.new id parent level name strict).Owes label := by
  rintro ⟨⟨jump, ⟨k, b, found, ends⟩, mem⟩, unplaced⟩
  match k with
  | 0 =>
    cases found
    cases ends
    obtain rfl : label = 1 := by simpa [Jump.targets] using mem
    exact unplaced 1 rfl
  | 1 =>
    cases found
    cases ends
  | k + 2 => cases found

lemma not_inUse_new {temp : LocalId} : ¬(Routine.new id parent level name strict).InUse temp := by
  rintro ⟨found, -⟩
  match temp with
  | 0 => cases Option.some.inj found
  | temp + 1 => cases found

end

end Routine

namespace Lowering

variable {s s' s'' : Lowering}

/-- What the code of a nested routine leaves of the state around it: no other routine gets code. -/
structure Around (s s' : Lowering) : Prop extends s.Grown s' where
  same : ∀ (i : RoutineId) (r r' : Routine), s.unit.routines[i]? = some r →
    s'.unit.routines[i]? = some r' → r.SameCode r'
  refs : ∀ (k : BindingId) (b b' : Binding), s.scopes.bindings[k]? = some b →
    s'.scopes.bindings[k]? = some b' → b'.routineRef = b.routineRef
  unwritten : ∀ (k : BindingId) (b b' : Binding) (v : VariableId),
    s.scopes.bindings[k]? = some b → s'.scopes.bindings[k]? = some b' → b.storedIn = some v →
      b'.assigned = false → ∀ id block j, s'.WrittenAt v id block j → s.WrittenAt v id block j

namespace Around

lemma keeps (around : s.Around s') : s.Keeps { s' with frame := s.frame } where
  __ := around
  frame := rfl
  others i r r' found found' _ := around.same i r r' found found'
  refs k b b' found found' _ := around.refs k b b' found found'
  unwritten k b b' v found found' stored unset _ id block j written :=
    around.unwritten k b b' v found found' stored unset id block j written

lemma reframe (around : s.Around s') (frame : Frame) : s.Around { s' with frame } where
  __ := around

lemma andThen (around : s.Around s') (sound : s.Sound)
    (nested : s.unit.routines.size ≤ s'.frame.routine) (keeps : s'.Keeps s'') : s.Around s'' where
  toGrown := around.toGrown.trans keeps.toGrown
  same i r r'' found found'' := by
    obtain ⟨r', found', -⟩ := around.grown i r found
    have inside := (lt_size found)
    have first := around.same i r r' found found'
    have second := keeps.others i r' r'' found' found''
      (Nat.ne_of_lt (Nat.lt_of_lt_of_le inside nested))
    rw [Routine.SameCode] at *
    rw [second, first]
  refs k b b'' found found'' := by
    obtain ⟨b', found', becomes⟩ := around.bindings k b found
    have other : b'.owner ≠ s'.frame.routine := by
      rw [becomes.owner]
      exact Nat.ne_of_lt (Nat.lt_of_lt_of_le (sound.bindings k b found).owner nested)
    rw [keeps.refs k b' b'' found' found'' other]
    exact around.refs k b b' found found'
  unwritten k b b'' v found found'' stored unset id block j written := by
    obtain ⟨b', found', becomes⟩ := around.bindings k b found
    obtain ⟨c, found_c, becomes'⟩ := keeps.bindings k b' found'
    obtain rfl : c = b'' := by simpa [found_c] using found''
    have other : b'.owner ≠ s'.frame.routine := by
      rw [becomes.owner]
      exact Nat.ne_of_lt (Nat.lt_of_lt_of_le (sound.bindings k b found).owner nested)
    have same := keeps.refs k b' c found' found_c other
    have middle := becomes.middle becomes' unset (same.trans (around.refs k b b' found found'))
    exact around.unwritten k b b' v found found' stored middle.1 id block j
      (keeps.unwritten k b' c v found' found_c (becomes.stored v stored) unset same id block j
        written)

end Around

/-- What holds between the outermost statements of a routine: only the end of the routine is jumped
to and not placed, no temporary is in use, and no region is active. -/
structure Clear (s : Lowering) : Prop where
  sound : s.Sound
  targets : s.frame.targets = []
  tries : s.frame.tries = []
  exit : s.Pending Routine.exitLabel
  owes : ∀ label, s.Owes label → label = Routine.exitLabel
  unused : ∀ id, ¬s.InUse id
  charted : ∃ aim, aim Routine.exitLabel = .regions [] ∧ s.Charted aim (.regions [])

lemma Clear.exit_eq (clear : s.Clear) {label : Label} (leaves : s.frame.Exit label) :
    label = Routine.exitLabel := by
  rcases leaves with rfl | ⟨t, mem, -⟩
  · rfl
  · rw [clear.targets] at mem
    cases mem

lemma Clear.moves (clear : s.Clear) {leaves : Bool} (moves : s.Moves s' { leaves }) :
    s'.Clear where
  sound := moves.sound
  targets := moves.keeps.frame ▸ clear.targets
  tries := moves.keeps.frame ▸ clear.tries
  exit := moves.pending _ clear.exit
  owes label owes := by
    rcases moves.owes label owes with old | absent | ⟨-, leaves⟩
    · exact clear.owes label old
    · cases absent
    · exact clear.exit_eq leaves
  unused id := moves.still_unused (clear.unused id) (by simp)
  charted := by
    obtain ⟨aim, exit, charted⟩ := clear.charted
    have aims : s.frame.Aims aim := ⟨exit, by simp [clear.targets], by simp [clear.targets]⟩
    obtain ⟨aim', same, -, charted'⟩ := moves.flows rfl aim (.regions []) charted
      (fun _ _ held => held.elim) (by simp) fun _ => ⟨by rw [Frame.flow, clear.tries], aims⟩
    exact ⟨aim', (same _ clear.exit.lt).trans exit, charted'⟩

def outerCode (s : Lowering) : Routine :=
  { s.code with closures := s.code.closures.push s.unit.routines.size }

def innerCode (s : Lowering) (name : Option String) (strict : Bool) : Routine :=
  .new s.unit.routines.size (some s.frame.routine) (s.code.level + 1) name strict

def innerScope (s : Lowering) (scope : ScopeId) (level : Nat) : Scope :=
  { parent := some scope, level, varScope := s.scopes.scopes.size,
    owner := s.unit.routines.size, names := [] }

/-- The state at the start of a routine that is nested in the current one. -/
def entered (s : Lowering) (scope : ScopeId) (level : Nat) (name : Option String) (strict : Bool) :
    Lowering where
  unit := { s.unit with
      routines := (s.unit.routines.setIfInBounds s.frame.routine s.outerCode).push
        (s.innerCode name strict) }
  scopes := { s.scopes with scopes := s.scopes.scopes.push (s.innerScope scope level) }
  log := s.log
  frame := .new s.unit.routines.size s.scopes.scopes.size strict
  topScope := s.topScope

section

variable {scope : ScopeId} {sc : Scope} {level : Nat} {name : Option String} {strict : Bool}

lemma inFrame_run {α : Type} {frame : Frame} {action : Lower α} {a : α}
    (run : action { s with frame } = .ok a s') :
    inFrame frame action s = .ok a { s' with frame := s.frame } := by
  rw [inFrame, Runs.get_bind]
  have started : modifyFrame (fun _ => frame) s = .ok ⟨⟩ { s with frame } := rfl
  rw [Runs.bind_run started, Runs.bind_run run]
  rfl

section

variable {i : RoutineId}

variable (sound : s.Sound)
include sound

lemma nested_runs {α : Type} (found : s.scopes.scopes[scope]? = some sc) (name : Option String)
    (strict : Bool) (action : RoutineId → ScopeId → Lower α) {post : RoutineId → Lowering → Prop}
    (runs : Runs (action s.unit.routines.size s.scopes.scopes.size) (s.entered scope (sc.level + 1)
      name strict) fun _ s' => post s.unit.routines.size { s' with frame := s.frame }) :
    Runs (do
      let routine ← inUnit (CodeUnit.newRoutine (some s.frame.routine) name strict)
      let root ← inScopes (ScopeTree.newScope (some scope) routine true)
      let _ ← inFrame (.new routine root strict) (action routine root)
      pure routine) s post := by
  obtain ⟨a, s', run, holds⟩ := runs
  refine ⟨_, _, ?_, holds⟩
  have outer := sound.code_found
  have unit : CodeUnit.newRoutine (some s.frame.routine) name strict s.unit =
      .ok s.unit.routines.size (s.entered scope (sc.level + 1) name strict).unit := by
    rw [CodeUnit.newRoutine, Runs.get_bind]
    simp [bind, EStateM.bind, CodeUnit.inRoutine, outer, modify, Runs.modifyGet_run,
      EStateM.run, pure, EStateM.pure, entered, outerCode, innerCode]
  have scopes : ScopeTree.newScope (some scope) s.unit.routines.size true s.scopes =
      .ok s.scopes.scopes.size (s.entered scope (sc.level + 1) name strict).scopes := by
    rw [ScopeTree.newScope, Runs.get_bind]
    simp [bind, EStateM.bind, ScopeTree.ask, scope_found found, modify, Runs.modifyGet_run,
      pure, EStateM.pure, entered, innerScope]
  have first : inUnit (CodeUnit.newRoutine (some s.frame.routine) name strict) s =
      .ok s.unit.routines.size
        { s with unit := (s.entered scope (sc.level + 1) name strict).unit } := by
    simp [inUnit, EStateM.run, unit]
  have second : inScopes (ScopeTree.newScope (some scope) s.unit.routines.size true)
      { s with unit := (s.entered scope (sc.level + 1) name strict).unit } =
      .ok s.scopes.scopes.size
        { s.entered scope (sc.level + 1) name strict with frame := s.frame } := by
    simp [inScopes, EStateM.run, scopes, entered]
  rw [Runs.bind_run first, Runs.bind_run second, Runs.bind_run (inFrame_run run)]
  rfl

lemma entered_routines (i : RoutineId) : (s.entered scope level name strict).unit.routines[i]? =
      if i = s.unit.routines.size then some (s.innerCode name strict)
      else if i = s.frame.routine then some s.outerCode else s.unit.routines[i]? := by
  have inside := (lt_size sound.code_found)
  simp only [entered, Array.getElem?_push, Array.size_setIfInBounds, Array.getElem?_setIfInBounds]
  by_cases last : i = s.unit.routines.size
  · simp [last]
  · by_cases current : i = s.frame.routine
    · simp [current, inside]
    · simp [last, current, Ne.symm current]

lemma entered_cases {r' : Routine}
    (found : (s.entered scope level name strict).unit.routines[i]? = some r') :
    (i = s.unit.routines.size ∧ r' = s.innerCode name strict) ∨
      ∃ r, s.unit.routines[i]? = some r ∧ r.SameCode r' ∧ r'.vars = r.vars := by
  rw [entered_routines sound] at found
  split at found
  next last => exact .inl ⟨last, (Option.some.inj found).symm⟩
  next =>
    split at found
    next current =>
      rw [← Option.some.inj found]
      exact .inr ⟨s.code, current ▸ sound.code_found, rfl, rfl⟩
    next => exact .inr ⟨r', found, rfl, rfl⟩

lemma entered_found {r : Routine} (found : s.unit.routines[i]? = some r) :
    ∃ r', (s.entered scope level name strict).unit.routines[i]? = some r' ∧ r.Grows r' := by
  have inside := (lt_size found)
  rw [entered_routines sound, if_neg (Nat.ne_of_lt inside)]
  split
  next current =>
    obtain rfl : s.code = r := by simpa [current, sound.code_found] using found
    exact ⟨_, rfl, { Routine.Grows.refl s.code with }⟩
  next => exact ⟨r, found, .refl r⟩

lemma entered_last : (s.entered scope level name strict).unit.routines[s.unit.routines.size]? =
      some (s.innerCode name strict) := by
  rw [entered_routines sound, if_pos rfl]

lemma entered_code : (s.entered scope level name strict).code = s.innerCode name strict := by
  rw [code, show (s.entered scope level name strict).frame.routine = s.unit.routines.size from rfl,
    entered_last sound, Option.getD_some]

lemma around_entered : s.Around (s.entered scope level name strict) where
  topScope := rfl
  grown _ _ found := entered_found sound found
  count := by
    simp only [entered, Array.size_push, Array.size_setIfInBounds]
    exact Nat.le_succ _
  bindings _ b found := ⟨b, found, .refl b⟩
  laid _ _ _ _ found found' _ _ := Option.some.inj (found'.symm.trans found)
  scopes k sc found := by
    have inside := (lt_size found)
    refine ⟨sc, ?_, rfl, rfl⟩
    rw [entered, Array.getElem?_push_lt inside, ← Array.getElem?_eq_getElem inside, found]
  errors := Nat.le_refl _
  same i r r' found found' := by
    rcases entered_cases sound found' with ⟨rfl, -⟩ | ⟨old, known, same, -⟩
    · rw [Array.getElem?_eq_none (Nat.le_refl _)] at found
      cases found
    · rwa [Option.some.inj (found.symm.trans known)]
  refs _ _ _ found found' := by rw [Option.some.inj (found'.symm.trans found)]
  unwritten _ _ _ _ _ _ _ _ id block j written := by
    obtain ⟨r', i, found, stands, writes⟩ := written
    rcases entered_cases sound found with ⟨-, rfl⟩ | ⟨r, known, same, -⟩
    · exact absurd stands Routine.not_at_new
    · rw [same] at stands
      exact ⟨r, i, known, stands, writes⟩

lemma entered_within
    (within : (s.entered scope level name strict).unit.Within i s.unit.routines.size) :
    i = s.unit.routines.size ∨ s.unit.Within i s.frame.routine := by
  cases within with
  | refl => exact .inl rfl
  | @outwards _ outer r found parent within =>
    rw [entered_last sound] at found
    rw [← Option.some.inj found] at parent
    cases parent
    have inside := (lt_size sound.code_found)
    exact .inr (sound.within_back (around_entered sound).toGrown inside within)

section

variable (found : s.scopes.scopes[scope]? = some sc) (owner : sc.owner = s.frame.routine)
include found owner

lemma entered_sound : (s.entered scope level name strict).Sound := by
  have around : s.Around (s.entered scope level name strict) := around_entered sound
  have inside := (lt_size sound.code_found)
  have last : (s.entered scope level name strict).unit.routines[s.unit.routines.size]? =
      some (s.innerCode name strict) := entered_last sound
  have nested : (s.entered scope level name strict).unit.Within s.frame.routine
      s.unit.routines.size := .outwards last rfl (.refl _)
  have newest : (s.entered scope level name strict).scopes.scopes[s.scopes.scopes.size]? =
      some (s.innerScope scope level) := Array.getElem?_push_size
  refine
    { ids := fun i r' here => ?_
      parents := fun i r' here => ?_
      complete := fun i r' layout here laid => ?_
      fits := fun i r' here => ?_
      prologue := fun i r' j instruction here stands => ?_
      scopes := fun k sc' here => ?_
      bindings := fun k b here => around.bindingFits (sound.bindings k b here)
      stored_once := sound.stored_once
      known := fun k b v routine here stored unassigned ref => ?_
      unset := fun i r' index x here unlaid var => ?_
      published := fun i r' index x routine here var ref => ?_
      current := fun i within => ?_
      building := fun i r' here unlaid => ?_
      frame := ?_ }
  · rcases entered_cases sound here with ⟨rfl, rfl⟩ | ⟨r, known, same, -⟩
    · rfl
    · rw [same]
      exact sound.ids i r known
  · rcases entered_cases sound here with ⟨rfl, rfl⟩ | ⟨r, known, same, -⟩
    · exact inside
    · rw [same]
      exact sound.parents i r known
  · rcases entered_cases sound here with ⟨rfl, rfl⟩ | ⟨r, known, same, -⟩
    · cases laid
    · refine same.complete (sound.complete i r layout known ?_)
      rwa [same] at laid
  · rcases entered_cases sound here with ⟨rfl, rfl⟩ | ⟨r, known, same, -⟩
    · exact codeFits_new ..
    · refine around.codeFits (sound.fits i r known) ?_
      rw [same]
  · rcases entered_cases sound here with ⟨rfl, rfl⟩ | ⟨r, known, same, -⟩
    · exact absurd stands Routine.not_at_new
    · rw [same] at stands
      exact sound.prologue i r j instruction known stands
  · rw [entered, Array.getElem?_push] at here
    split at here
    next latest =>
      cases here
      have earlier := latest ▸ (lt_size found)
      obtain ⟨sc', found', owner', -⟩ := around.scopes scope sc found
      refine ⟨⟨_, last⟩, fun p parent => ?_, fun absent => (by cases absent), ⟨_, newest, rfl⟩,
        fun other => absurd latest other, fun _ _ absent => by cases absent⟩
      cases parent
      refine ⟨earlier, sc', found', ?_⟩
      rw [owner', owner]
      exact nested
    next => exact around.scopeFits (sound.scopes k sc' here)
  · refine around.known (sound.known k b v routine here stored unassigned ref) fun id block j => ?_
    exact around.unwritten k b b v here here stored unassigned id block j
  · rcases entered_cases sound here with ⟨rfl, rfl⟩ | ⟨r, known, same, vars⟩
    · cases var
    · rw [vars] at var
      rw [same] at unlaid
      exact sound.unset i r index x known unlaid var
  · rcases entered_cases sound here with ⟨rfl, rfl⟩ | ⟨r, known, same, vars⟩
    · cases var
    · rw [vars] at var
      exact sound.published i r index x routine known var ref
  · rcases entered_within sound within with rfl | outer
    · exact ⟨_, last, rfl⟩
    · obtain ⟨r, known, unlaid⟩ := sound.current i outer
      obtain ⟨r', known', grows⟩ := around.grown i r known
      exact ⟨r', known', grows.same_layout.trans unlaid⟩
  · rcases entered_cases sound here with ⟨rfl, rfl⟩ | ⟨r, known, same, -⟩
    · exact ⟨.refl _, Routine.new_sound ..⟩
    · rw [same] at unlaid
      obtain ⟨within, built⟩ := sound.building i r known unlaid
      rw [same]
      exact ⟨(around.within within).trans nested, { built with }⟩
  · obtain ⟨top, found_top, owner_top⟩ := sound.frame.top
    obtain ⟨top', found_top', owner_top', -⟩ := around.scopes _ top found_top
    refine ⟨⟨_, newest, rfl, rfl⟩, ⟨_, newest, rfl⟩, ⟨top', found_top', owner_top'.trans owner_top⟩,
      fun _ _ absent => (by cases absent), fun _ absent => (by cases absent), _, last,
      fun label leaves => ?_, fun _ absent => by cases absent⟩
    rcases leaves with rfl | ⟨t, absent, -⟩
    · exact Nat.two_pos
    · cases absent

lemma entered_clear : (s.entered scope level name strict).Clear := by
  have code : (s.entered scope level name strict).code = s.innerCode name strict :=
    entered_code sound
  refine ⟨entered_sound sound found owner, rfl, rfl, ?_, fun label owes => ?_, fun id used => ?_,
    fun _ => .regions [], rfl, fun _ => .regions [], ?_⟩
  · rw [Lowering.Pending, code]
    rfl
  · rw [Lowering.Owes, code] at owes
    exact absurd owes Routine.not_owes_new
  · rw [Lowering.InUse, code] at used
    exact absurd used Routine.not_inUse_new
  · rw [code]
    exact Routine.new_charted ..

end

end

end

end Lowering
end Scriptc
