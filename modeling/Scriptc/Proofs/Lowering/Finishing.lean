import Scriptc.Proofs.Code.Construction
import Scriptc.Proofs.Lowering.Nesting
import Scriptc.Proofs.Storage.Layout

/-!
# The end of a routine

At the end of a routine, what bindings record is written to the variables, and each variable gets
its place. Every use was recorded by then, so the code of the routine and of those nested in it
finds the place of each variable.
-/

namespace Scriptc

open Array

variable {vars : Array Variable} {bindings : List Binding}

open Routine

namespace Variable

variable {b : Binding} {v : VariableId} {user : RoutineId}

def publishedAs (x : Variable) (b : Binding) : Variable := { x with
    accessed := b.accessed
    escapes := b.escapes
    routineRef := if b.assigned then none else b.routineRef }

end Variable

def publishedVars (vars : Array Variable) : List Binding → Array Variable
  | [] => vars
  | b :: rest =>
    match b.storedIn with
    | none => publishedVars vars rest
    | some v => publishedVars (vars.modify v.index (·.publishedAs b)) rest

lemma size_publishedVars (vars : Array Variable) (bindings : List Binding) :
    (publishedVars vars bindings).size = vars.size := by
  induction bindings generalizing vars with
  | nil => rfl
  | cons b rest ih =>
    rw [publishedVars]
    split
    · exact ih vars
    · rw [ih, size_modify]

lemma publishedVars_of_mem {x : Variable} (found : vars[v.index]? = some x) (mem : b ∈ bindings)
    (stored : b.storedIn = some v)
    (once : ∀ c ∈ bindings, ∀ w, c.storedIn = some w → w.index = v.index → c = b) :
    (publishedVars vars bindings)[v.index]? = some (x.publishedAs b) := by
  -- Publishing the same binding again changes nothing.
  suffices general : ∀ (vars : Array Variable) (x' : Variable), vars[v.index]? = some x' →
      (x' = x.publishedAs b ∨ x' = x ∧ b ∈ bindings) →
        (publishedVars vars bindings)[v.index]? = some (x.publishedAs b) from
    general vars x found (.inr ⟨rfl, mem⟩)
  clear mem found
  induction bindings with
  | nil =>
    intro vars x' found published
    obtain rfl | ⟨-, absent⟩ := published
    · exact found
    · cases absent
  | cons c rest ih =>
    intro vars x' found published
    have once' : ∀ d ∈ rest, ∀ w, d.storedIn = some w → w.index = v.index → d = b :=
      fun d later => once d (by simp [later])
    rw [publishedVars]
    by_cases same : c = b
    · subst same
      rw [stored]
      refine ih once' _ (x'.publishedAs c) ?_ (.inl ?_)
      · simp [getElem?_modify, found]
      · rcases published with rfl | ⟨rfl, -⟩ <;> rfl
    · have published' : x' = x.publishedAs b ∨ x' = x ∧ b ∈ rest :=
        published.imp_right fun ⟨here, mem⟩ =>
          ⟨here, (List.mem_cons.mp mem).resolve_left (Ne.symm same)⟩
      split
      · exact ih once' vars x' found published'
      next w held =>
        refine ih once' _ x' ?_ published'
        rw [getElem?_modify, if_neg, found]
        intro other
        exact same (once c (by simp) w held other)

lemma publishedVars_cases {index : Nat} {x' : Variable}
    (found : (publishedVars vars bindings)[index]? = some x') :
    ∃ x, vars[index]? = some x ∧ x'.param = x.param ∧
      ((x'.accessed = x.accessed ∧ x'.routineRef = x.routineRef) ∨
        ∃ b ∈ bindings, ∃ v, b.storedIn = some v ∧ v.index = index ∧ x'.accessed = b.accessed ∧
          x'.routineRef = if b.assigned then none else b.routineRef) := by
  induction bindings generalizing vars with
  | nil => exact ⟨x', found, rfl, .inl ⟨rfl, rfl⟩⟩
  | cons b rest ih =>
    rw [publishedVars] at found
    split at found
    next =>
      obtain ⟨x, here, param, same | ⟨c, mem, recorded⟩⟩ := ih found
      · exact ⟨x, here, param, .inl same⟩
      · exact ⟨x, here, param, .inr ⟨c, by simp [mem], recorded⟩⟩
    next v stored =>
      obtain ⟨y, here, param, recorded⟩ := ih found
      rw [getElem?_modify] at here
      split at here
      next same =>
        obtain ⟨x, there, rfl⟩ := Option.map_eq_some_iff.mp here
        refine ⟨x, there, param, .inr ?_⟩
        rcases recorded with ⟨accessed, ref⟩ | ⟨c, mem, recorded⟩
        · exact ⟨b, by simp, v, stored, same, accessed, ref⟩
        · exact ⟨c, by simp [mem], recorded⟩
      next =>
        refine ⟨y, here, param, recorded.imp_right ?_⟩
        rintro ⟨c, mem, recorded⟩
        exact ⟨c, by simp [mem], recorded⟩

namespace Lowering

variable {x : Variable} {k : BindingId}

variable {s s' : Lowering}

lemma Grown.reframe (s : Lowering) (frame : Frame) : s.Grown { s with frame } :=
  have same := Grown.refl s
  ⟨same.topScope, same.grown, same.count, same.bindings, same.laid, same.scopes, same.errors⟩

lemma Coherent.reframe (coherent : s.Coherent) (frame : Frame) : { s with frame }.Coherent where
  __ := coherent
  fits i r found := (Grown.reframe s frame).codeFits (coherent.fits i r found) rfl
  scopes k sc found := (Grown.reframe s frame).scopeFits (coherent.scopes k sc found)
  bindings k b found := (Grown.reframe s frame).bindingFits (coherent.bindings k b found)
  known k b v routine found stored unset ref :=
    (Grown.reframe s frame).known (coherent.known k b v routine found stored unset ref)
      fun _ _ _ written => written

section

variable {r : Routine} (found : s.unit.routines[s.frame.routine]? = some r)
  (same : r.id = s.frame.routine)
include found same

lemma publish_run (b : Binding)
    (stored : ∀ v, b.storedIn = some v → v.routine = s.frame.routine ∧ v.index < r.vars.size) :
    publish b s = .ok ⟨⟩ (s.withCode { r with vars := publishedVars r.vars [b] }) := by
  rw [publish]
  cases held : b.storedIn with
  | none =>
    simp only [publishedVars, held]
    rw [withCode_same found]
    rfl
  | some v =>
    obtain ⟨owner, inside⟩ := stored v held
    have known : s.unit.getVariable v = .ok r.vars[v.index] := by
      simp [CodeUnit.getVariable, CodeUnit.routine, owner, found, same, inside, bind, Except.bind]
    let change : Edit PUnit := modify fun r =>
      { r with vars := r.vars.modify v.index (·.publishedAs b) }
    have run : inUnit (CodeUnit.inRoutine s.frame.routine change) s = _ := inRoutine_run found rfl
    simp only [publishedVars, held]
    simp only [inUnit, CodeUnit.modifyVariable, EStateM.run, Runs.get_bind, known, owner] at run ⊢
    exact run

lemma publishAll_run (bindings : List Binding)
    (stored : ∀ b ∈ bindings, ∀ v, b.storedIn = some v → v.routine = s.frame.routine ∧
      v.index < r.vars.size) :
    publishAll bindings s =
      .ok ⟨⟩ (s.withCode { r with vars := publishedVars r.vars bindings }) := by
  induction bindings generalizing s r with
  | nil =>
    rw [show ({ r with vars := publishedVars r.vars [] } : Routine) = r from rfl,
      withCode_same found]
    rfl
  | cons b rest ih =>
    let r' : Routine := { r with vars := publishedVars r.vars [b] }
    have found' : (s.withCode r').unit.routines[(s.withCode r').frame.routine]? = some r' :=
      withCode_found found
    have later : ∀ c ∈ rest, ∀ v, c.storedIn = some v →
        v.routine = s.frame.routine ∧ v.index < r'.vars.size := by
      intro c mem v held
      rw [show r'.vars.size = r.vars.size from size_publishedVars r.vars [b]]
      exact stored c (by simp [mem]) v held
    rw [publishAll, Runs.bind_run (publish_run found same b (stored b (by simp))),
      ih found' same later, withCode_withCode]
    have vars : publishedVars r.vars (b :: rest) = publishedVars r'.vars rest := by
      simp only [r', publishedVars]
      split <;> rfl
    rw [vars]

end

/-- What holds of the current routine when its code is whole: only the places of its variables are
missing. -/
structure Ended (s : Lowering) : Prop where
  sound : s.Sound
  exit : ∃ exit, s.code.Finished exit
  blocks : ∀ (k : BlockId) (b : Block), s.code.blocks[k]? = some b → b.isClosed = true
  owes : ∀ label, ¬s.Owes label
  unused : ∀ id, ¬s.InUse id
  chart : ∃ aim start now, s.code.Charted aim start now ∧ aim Routine.exitLabel = .regions []

def endedCode (s : Lowering) : Routine :=
  (s.code.placeAt Routine.exitLabel).ended (.ret Routine.result)

lemma endedCode_eq (s : Lowering) : s.endedCode = { s.code with
      blocks := s.endedCode.blocks, labels := s.endedCode.labels, current :=
        s.endedCode.current } := by
  rw [endedCode]
  generalize s.code = r
  rw [ended, placeAt, startAt]
  split <;> rfl

lemma Clear.finish_run (clear : s.Clear) :
    finish s.code = .ok ⟨⟩ { s.endedCode with closed := true } := by
  have built := clear.sound.code_sound.toBuilt
  rw [finish, Runs.bind_run (place_run built clear.exit),
    Runs.bind_run (setJump_run (built.placeAt clear.exit) _)]
  rfl

attribute [local irreducible] endedCode

lemma Clear.ended (clear : s.Clear) :
    (s.withCode s.endedCode).Ended ∧ s.Keeps (s.withCode s.endedCode) := by
  obtain ⟨⟨⟩, _, -, places, rfl⟩ := place_places clear.sound clear.exit
  have sound := places.sound
  have code := clear.sound.withCode_code (s.code.placeAt exitLabel)
  have edits := edits_ended sound.code_sound (.ret result)
  have state : s.withCode s.endedCode = (s.withCode (s.code.placeAt exitLabel)).withCode
      ((s.withCode (s.code.placeAt exitLabel)).code.ended (.ret result)) := by
    rw [withCode_withCode, code, endedCode]
  have sound' : (s.withCode s.endedCode).Sound := by
    rw [state]
    refine sound.withCode edits (fun _ absent => absent.elim) (fun jump here => ?_)
      fun _ absent => absent.elim
    subst here
    refine ⟨fun a mem => ?_, by simp, by simp⟩
    obtain rfl : a = result := by simpa [Jump.operands] using mem
    exact (sound.extends_withCode edits.grows).fits sound.fits_result
  have code' := clear.sound.withCode_code s.endedCode
  obtain ⟨closed, exit, b, placed, found, returns⟩ :=
    finish_closes clear.sound.code_sound.toBuilt clear.finish_run
  refine ⟨⟨sound', ⟨exit, ?_, ?_, ?_⟩, ?_, fun label owes => ?_, fun id used => ?_, ?_⟩, ?_⟩
  · rw [code']
    have labels := placed
    simp [exitBlock, labelBlock, labels, bind, Except.bind]
  · have labels : (s.withCode s.endedCode).code.labels[exitLabel]? = some (some exit) := by
      rw [code']
      exact placed
    exact (sound'.code_sound.placed _ exit labels).1
  · have mirrors : b.Mirrors := by
      refine sound'.code_sound.mirrors exit b ?_
      rw [code']
      exact found
    rw [code']
    exact ⟨b, found, returns, by rw [mirrors, returns]; rfl⟩
  · rw [code']
    exact closed
  · rw [state, Owes, sound.withCode_code] at owes
    obtain ⟨⟨jump, ends, mem⟩, unplaced⟩ := owes
    rcases endsWith_withOpen sound.code_sound.toBuilt ends with old | new
    · obtain ⟨earlier, other⟩ := places.owes label ⟨⟨jump, old, mem⟩, unplaced⟩
      exact other (clear.owes label earlier)
    · rw [← Option.some.inj new] at mem
      cases mem
  · rw [state, InUse, sound.withCode_code] at used
    exact clear.unused id ((places.inUse id).mp used)
  · obtain ⟨aim, exit_aim, charted⟩ := clear.charted
    obtain ⟨start, charted'⟩ := places.flows aim _ charted exit_aim
    obtain ⟨start', done⟩ := charted'.ended sound.code_sound
      (show (Flow.regions []).Leads aim (.ret result) from rfl)
      (fun _ absent => by cases absent) (.regions [])
    refine ⟨aim, start', .regions [], ?_, exit_aim⟩
    rw [state, sound.withCode_code]
    exact done
  · rw [state]
    exact sound.keeps_withCode places.keeps edits fun _ absent => absent.elim

lemma Ended.withPrologues (ended : s.Ended) {copies : List Instruction}
    (prologue : ∀ i ∈ copies, i.isPrologue = true)
    (fits : ∀ i ∈ copies, s.InstructionFits s.frame.routine i)
    (unknown : ∀ i ∈ copies, ∀ v, .var v ∈ i.dests → s.Unknown v) :
    (s.withCode (s.code.withPrologues copies)).Ended := by
  have edits := edits_withPrologues ended.sound.code_sound prologue
  have keeps := ended.sound.extends_withCode edits.grows
  have sound := ended.sound.withCode edits (fun i mem => keeps.instructionFits (fits i mem))
    (fun _ absent => absent.elim) unknown
  have code := ended.sound.withCode_code (s.code.withPrologues copies)
  have same := s.code.withPrologues_eq copies
  obtain ⟨exit, finished⟩ := ended.exit
  obtain ⟨aim, start, now, charted, exit_aim⟩ := ended.chart
  refine ⟨sound, ⟨exit, ?_, finished.not_entry, ?_⟩, fun k b found => ?_, fun label owes => ?_,
    fun id used => ?_, aim, start, now, ?_, exit_aim⟩
  · rw [code, same]
    exact finished.placed
  · obtain ⟨b, found, returns⟩ := finished.returns
    refine ⟨b, ?_, returns⟩
    rw [code, same, getElem?_modify, if_neg finished.not_entry.symm, found]
  · rw [code, same, getElem?_modify] at found
    split at found
    · obtain ⟨old, there, rfl⟩ := Option.map_eq_some_iff.mp found
      exact ended.blocks k old there
    · exact ended.blocks k b found
  · rw [Owes, code] at owes
    obtain ⟨⟨jump, ends, mem⟩, unplaced⟩ := owes
    rw [same] at unplaced
    exact ended.owes label ⟨⟨jump, (edits.endsWith jump ends).resolve_right id, mem⟩, unplaced⟩
  · rw [InUse, code, same] at used
    exact ended.unused id used
  · rw [code]
    exact charted.withPrologues ended.sound.code_sound prologue

/-- Whether a routine is the current one with its variables laid out: each variable with a recorded
use has its place, and the routine that a variable is said to hold a closure of is recorded. -/
structure Seals (s : Lowering) (r' : Routine) (layout : Layout) : Prop where
  same : r' = { s.code with
    vars := r'.vars, isTemp := r'.isTemp, layout := some layout, closed := true }
  kept : ∀ (index : Nat) (x : Variable), s.code.vars[index]? = some x →
    ∃ x', r'.vars[index]? = some x' ∧ x'.param = x.param
  refs : ∀ (index : Nat) (x : Variable) (routine : RoutineId), r'.vars[index]? = some x →
    x.routineRef = some routine → ∃ (k : BindingId) (b : Binding),
      s.scopes.bindings[k]? = some b ∧ b.storedIn = some ⟨s.frame.routine, index⟩ ∧
        b.assigned = false ∧ b.routineRef = some routine
  places : ∀ (k : BindingId) (b : Binding) (v : VariableId), s.scopes.bindings[k]? = some b →
    b.storedIn = some v → v.routine = s.frame.routine → b.accessed = true →
      ∃ x place, r'.vars[v.index]? = some x ∧ x.storage = some place ∧
        ((∃ k, place = .environment k ∧ k < layout.envSize) ∨
          b.escapes = false ∧ ∃ k, place = .cell k ∧ k < layout.localCount)
  temps : ∀ id : LocalId, r'.isTemp[id]? = some true ↔ s.code.isTemp[id]? = some true
  longer : s.code.isTemp.size ≤ r'.isTemp.size
  locals : r'.isTemp.size ≤ layout.localCount
  room : layout.argSlotBase + s.code.argSlotCount ≤ layout.localCount

namespace Seals

variable {r' : Routine} {layout : Layout}

lemma complete (seals : s.Seals r' layout) (ended : s.Ended) : r'.Complete layout := by
  have sound := ended.sound.code_sound
  obtain ⟨exit, finished⟩ := ended.exit
  obtain ⟨aim, start, now, charted, exit_aim⟩ := ended.chart
  have unused (id : LocalId) : ¬r'.InUse id := by
    rintro ⟨temp, taken⟩
    refine ended.unused id ⟨(seals.temps id).mp temp, ?_⟩
    rw [seals.same] at taken
    exact taken
  have free_temp (id : LocalId) (mem : id ∈ r'.freeTemps) : r'.isTemp[id]? = some true := by
    rw [seals.same] at mem
    exact (seals.temps id).mpr (sound.free_temp id mem)
  have locals := seals.locals
  have room := seals.room
  rw [seals.same] at unused free_temp ⊢
  refine ⟨⟨exit, { finished with }⟩, ⟨aim, start, { charted.toChart with }, exit_aim⟩,
    sound.entry_jump, sound.entry_target, ended.blocks, sound.mirrors,
    fun jump ends label mem => ?_, unused, sound.free_nodup, free_temp, locals, room⟩
  have placed : ∃ k, s.code.labels[label]? = some (some k) := by
    by_contra unplaced
    exact ended.owes label ⟨⟨jump, ends, mem⟩, fun k here => unplaced ⟨k, here⟩⟩
  obtain ⟨k, here⟩ := placed
  exact ⟨k, here, (sound.placed label k here).2⟩

lemma cases (sound : s.Sound) {i : RoutineId} {r : Routine}
    (found : (s.withCode r').unit.routines[i]? = some r) :
    (i = s.frame.routine ∧ r = r') ∨ (i ≠ s.frame.routine ∧ s.unit.routines[i]? = some r) := by
  rw [sound.withCode_routines] at found
  split at found
  next here => exact .inl ⟨here, (Option.some.inj found).symm⟩
  next other => exact .inr ⟨other, found⟩

section

variable (seals : s.Seals r' layout) (sound : s.Sound)
include seals sound

lemma grown {i : RoutineId} {r : Routine} (found : s.unit.routines[i]? = some r) :
    ∃ r1, (s.withCode r').unit.routines[i]? = some r1 ∧ r1.parent = r.parent ∧
      r1.blocks = r.blocks ∧ r1.argSlotCount = r.argSlotCount ∧ r1.tryCount = r.tryCount ∧
        r.isTemp.size ≤ r1.isTemp.size ∧ ∀ (index : Nat) (x : Variable),
          r.vars[index]? = some x → ∃ x', r1.vars[index]? = some x' ∧ x'.param = x.param := by
  rw [sound.withCode_routines]
  split
  next here =>
    obtain rfl : s.code = r := by simpa [here, sound.code_found] using found
    have longer := seals.longer
    have kept := seals.kept
    refine ⟨r', rfl, ?_, ?_, ?_, ?_, longer, kept⟩ <;> rw [seals.same]
  next => exact ⟨r, found, rfl, rfl, rfl, rfl, Nat.le_refl _, fun _ x var => ⟨x, var, rfl⟩⟩

lemma within {outer inner : RoutineId} (within : s.unit.Within outer inner) :
    (s.withCode r').unit.Within outer inner := by
  induction within with
  | refl => exact .refl _
  | outwards found parent _ ih =>
    obtain ⟨r1, found', same, -⟩ := seals.grown sound found
    exact .outwards found' (same.trans parent) ih

lemma fitsIn {a : Operand} (fits : s.FitsIn user a) : (s.withCode r').FitsIn user a := by
  cases a with
  | var v =>
    obtain ⟨around, r, found, recorded⟩ := fits
    refine ⟨seals.within sound around, ?_⟩
    rw [sound.withCode_routines]
    split
    next here =>
      obtain rfl : s.code = r := by simpa [here, sound.code_found] using found
      rw [sound.code_layout] at recorded
      obtain ⟨k, b, bound, stored, accessed, escapes⟩ := recorded
      obtain ⟨x, place, var, kept, reached⟩ := seals.places k b v bound stored here accessed
      refine ⟨r', rfl, ?_⟩
      rw [show r'.layout = some layout by rw [seals.same]]
      refine ⟨x, place, var, kept, reached.imp_right fun ⟨inner, cell⟩ => ⟨?_, cell⟩⟩
      by_contra other
      simp [escapes other] at inner
    next => exact ⟨r, found, recorded⟩
  | cell id =>
    obtain ⟨r, found, below⟩ := fits
    obtain ⟨r1, found', -, -, -, -, longer, -⟩ := seals.grown sound found
    exact ⟨r1, found', Nat.lt_of_lt_of_le below longer⟩
  | slot id =>
    obtain ⟨r, found, below⟩ := fits
    obtain ⟨r1, found', -, -, slots, -⟩ := seals.grown sound found
    exact ⟨r1, found', slots ▸ below⟩
  | param => trivial
  | constant => trivial

lemma refers {i : Instruction} (refers : s.Refers user i) : (s.withCode r').Refers user i := by
  cases i with
  | closure dest routine =>
    obtain ⟨r, found, parent⟩ := refers
    obtain ⟨r1, found', same, -⟩ := seals.grown sound found
    exact ⟨r1, found', same.trans parent⟩
  | call dest callee argc =>
    obtain ⟨⟨r, found, room⟩, direct⟩ := refers
    obtain ⟨r1, found', -, -, slots, -⟩ := seals.grown sound found
    refine ⟨⟨r1, found', slots ▸ room⟩, fun routine closure same => ?_⟩
    simpa [Lowering.withCode] using direct routine closure same
  | splice => exact refers
  | endTry index =>
    obtain ⟨r, found, below⟩ := refers
    obtain ⟨r1, found', -, -, -, tries, -⟩ := seals.grown sound found
    exact ⟨r1, found', tries ▸ below⟩
  | newObject | newArray | newArguments | loadThrown | assign | binary | unary => trivial
  | get | put => trivial

lemma codeFits {r r1 : Routine} (fits : s.CodeFits user r) (same : r1.blocks = r.blocks) :
    (s.withCode r').CodeFits user r1 where
  instructions i has := by
    obtain ⟨k, j, b, found, here⟩ := has
    have old := fits.instructions i ⟨k, j, b, same ▸ found, here⟩
    exact ⟨fun a mem => seals.fitsIn sound (old.operands a mem), seals.refers sound old.refers,
      old.places⟩
  jumps jump ends := by
    obtain ⟨k, b, found, last⟩ := ends
    have old := fits.jumps jump ⟨k, b, same ▸ found, last⟩
    refine ⟨fun a mem => seals.fitsIn sound (old.operands a mem), old.compares,
      fun index onCatch onBody here => ?_⟩
    obtain ⟨r, found, below⟩ := old.region index onCatch onBody here
    obtain ⟨r1, found', -, -, -, tries, -⟩ := seals.grown sound found
    exact ⟨r1, found', tries ▸ below⟩

lemma writtenAt {id : RoutineId} {k : BlockId} {j : Nat}
    (written : (s.withCode r').WrittenAt v id k j) : s.WrittenAt v id k j := by
  obtain ⟨r, i, found, ⟨b, block, stands⟩, writes⟩ := written
  rcases cases sound found with ⟨rfl, rfl⟩ | ⟨-, old⟩
  · rw [seals.same] at block
    exact ⟨s.code, i, sound.code_found, ⟨b, block, stands⟩, writes⟩
  · exact ⟨r, i, old, ⟨b, block, stands⟩, writes⟩

end

lemma coherent (seals : s.Seals r' layout) (ended : s.Ended) : (s.withCode r').Coherent := by
  have sound := ended.sound
  refine
    { ids := fun i r found => ?_
      parents := fun i r found => ?_
      complete := fun i r layout' found laid => ?_
      fits := fun i r found => ?_
      prologue := fun i r j instruction found stands => ?_
      scopes := fun k sc found => ?_
      bindings := fun k b found => ?_
      stored_once := sound.stored_once
      known := fun k b v routine found stored unassigned ref => ?_
      unset := fun i r index x found unlaid var => ?_
      published := fun i r index x routine found var ref => ?_ }
  · rcases cases sound found with ⟨rfl, rfl⟩ | ⟨-, old⟩
    · rw [seals.same]
      exact sound.ids _ s.code sound.code_found
    · exact sound.ids i r old
  · rcases cases sound found with ⟨rfl, rfl⟩ | ⟨-, old⟩
    · rw [seals.same]
      exact sound.parents _ s.code sound.code_found
    · exact sound.parents i r old
  · rcases cases sound found with ⟨rfl, rfl⟩ | ⟨-, old⟩
    · have same : r.layout = some layout := by rw [seals.same]
      rw [same] at laid
      exact Option.some.inj laid ▸ seals.complete ended
    · exact sound.complete i r layout' old laid
  · rcases cases sound found with ⟨rfl, rfl⟩ | ⟨-, old⟩
    · exact seals.codeFits sound (sound.fits _ _ sound.code_found) (by rw [seals.same])
    · exact seals.codeFits sound (sound.fits i r old) rfl
  · rcases cases sound found with ⟨rfl, rfl⟩ | ⟨-, old⟩
    · rw [seals.same] at stands
      exact sound.prologue _ _ j instruction sound.code_found stands
    · exact sound.prologue i r j instruction old stands
  · have fits := sound.scopes k sc found
    refine ⟨?_, fun p parent => ?_, fits.outermost, fits.varScope, fits.inner, fits.names⟩
    · obtain ⟨r, owner⟩ := fits.owner
      obtain ⟨r1, owner', -⟩ := seals.grown sound owner
      exact ⟨r1, owner'⟩
    · obtain ⟨earlier, outer, found', within⟩ := fits.parent p parent
      exact ⟨earlier, outer, found', seals.within sound within⟩
  · have fits := sound.bindings k b found
    have count : (s.withCode r').unit.routines.size = s.unit.routines.size := by
      simp [Lowering.withCode]
    refine ⟨count ▸ fits.owner, fun v stored => ?_, fits.constant, fits.fixed,
      fun routine ref => count ▸ fits.refers routine ref⟩
    obtain ⟨owner, r, x, found', var⟩ := fits.stored v stored
    obtain ⟨r1, found1, -, -, -, -, -, kept⟩ := seals.grown sound found'
    obtain ⟨x', var', -⟩ := kept _ x var
    exact ⟨owner, r1, x', found1, var'⟩
  · have known := sound.known k b v routine found stored unassigned ref
    obtain ⟨r, j, owner, ⟨block, found_block, stands⟩, earlier, only⟩ := known.created
    obtain ⟨r1, owner', -, blocks, -⟩ := seals.grown sound owner
    refine ⟨⟨r1, j, owner', ⟨block, blocks ▸ found_block, stands⟩, fun j' i before there => ?_,
      fun id k' j' written => only id k' j' (seals.writtenAt sound written)⟩, ?_⟩
    · obtain ⟨block', found', stands'⟩ := there
      exact earlier j' i before ⟨block', blocks ▸ found', stands'⟩
    · obtain ⟨r, x, owner, var, plain⟩ := known.plain
      obtain ⟨r1, owner', -, -, -, -, -, kept⟩ := seals.grown sound owner
      obtain ⟨x', var', param⟩ := kept _ x var
      exact ⟨r1, x', owner', var', param.trans plain⟩
  · rcases cases sound found with ⟨rfl, rfl⟩ | ⟨-, old⟩
    · rw [seals.same] at unlaid
      cases unlaid
    · exact sound.unset i r index x old unlaid var
  · rcases cases sound found with ⟨rfl, rfl⟩ | ⟨-, old⟩
    · exact seals.refs index x routine var ref
    · exact sound.published i r index x routine old var ref

end Seals

def ownBindings (s : Lowering) : List Binding :=
  s.scopes.bindings.toList.filter (·.owner == s.frame.routine)

lemma mem_ownBindings : b ∈ s.ownBindings ↔ (∃ k : BindingId, s.scopes.bindings[k]? = some b) ∧
      b.owner = s.frame.routine := by
  rw [ownBindings, List.mem_filter, beq_iff_eq, mem_toList_iff, mem_iff_getElem?]

def recordedVars (s : Lowering) : Array Variable := publishedVars s.code.vars s.ownBindings

def recordedCode (s : Lowering) : Routine :=
  { s.endedCode with closed := true, vars := s.recordedVars }

/-- The current routine with its end and the places of its variables. -/
def laidOut (s : Lowering) : Routine := s.recordedCode.layOut

lemma Sound.own_stored (sound : s.Sound) (own : b ∈ s.ownBindings) (stored : b.storedIn = some v) :
    v.routine = s.frame.routine ∧ ∃ x, s.code.vars[v.index]? = some x := by
  obtain ⟨⟨k, found⟩, owner⟩ := mem_ownBindings.mp own
  obtain ⟨same, r, x, found_r, var⟩ := (sound.bindings k b found).stored v stored
  have current := same.trans owner
  obtain rfl : s.code = r := by simpa [current, sound.code_found] using found_r
  exact ⟨current, x, var⟩

lemma layOut_run {r : Routine} (found : s.unit.routines[s.frame.routine]? = some r) :
    inUnit (CodeUnit.layOut s.frame.routine) s = .ok ⟨⟩ (s.withCode r.layOut) :=
  inRoutine_run found rfl

lemma finishRoutine_run (clear : s.Clear) : finishRoutine s = .ok ⟨⟩ (s.withCode s.laidOut) := by
  have found := clear.sound.code_found
  have vars : s.endedCode.vars = s.code.vars := by rw [endedCode_eq]
  have id : s.endedCode.id = s.frame.routine := by
    rw [endedCode_eq]
    exact clear.sound.ids _ s.code found
  have found' : (s.withCode { s.endedCode with closed := true }).unit.routines[s.frame.routine]? =
      some { s.endedCode with closed := true } := withCode_found found
  have stored (b : Binding) (own : b ∈ s.ownBindings) (v : VariableId)
      (held : b.storedIn = some v) :
      v.routine = s.frame.routine ∧ v.index < s.endedCode.vars.size := by
    obtain ⟨owner, x, var⟩ := clear.sound.own_stored own held
    exact ⟨owner, vars ▸ (lt_size var)⟩
  have published : publishAll s.ownBindings (s.withCode { s.endedCode with closed := true }) =
      .ok ⟨⟩ (s.withCode s.recordedCode) := by
    rw [publishAll_run found' id s.ownBindings stored, withCode_withCode, recordedCode,
      recordedVars, ← vars]
  have laid : inUnit (CodeUnit.layOut s.frame.routine) (s.withCode s.recordedCode) =
      .ok ⟨⟩ (s.withCode s.laidOut) := by
    rw [← withCode_withCode s s.recordedCode s.laidOut]
    exact layOut_run (withCode_found found)
  calc
    finishRoutine s = (publishAll s.ownBindings >>= fun _ =>
        inUnit (CodeUnit.layOut s.frame.routine)) (s.withCode
          { s.endedCode with closed := true }) :=
      Runs.bind_run (inCode_run clear.sound clear.finish_run)
    _ = .ok ⟨⟩ (s.withCode s.laidOut) := (Runs.bind_run published).trans laid

/-- The state in which the code of the current routine is whole, with the copies of its
parameters. -/
def wholeState (s : Lowering) : Lowering := (s.withCode s.endedCode).withCode
    (s.endedCode.withPrologues (Routine.paramCopies s.frame.routine 0 s.recordedVars.toList))

lemma Sound.recorded_binding (sound : s.Sound) {index : Nat}
    (found : s.recordedVars[index]? = some x) :
    ∃ old, s.code.vars[index]? = some old ∧ x.param = old.param ∧
      (x.Unset ∨ ∃ (k : BindingId) (b : Binding), s.scopes.bindings[k]? = some b ∧
        b.storedIn = some ⟨s.frame.routine, index⟩ ∧ x.accessed = b.accessed ∧
          x.routineRef = if b.assigned then none else b.routineRef) := by
  obtain ⟨old, var, param, ⟨accessed, ref⟩ | ⟨b, own, v, stored, here, recorded⟩⟩ :=
    publishedVars_cases found
  · have unset := sound.unset _ _ index old sound.code_found sound.code_layout var
    exact ⟨old, var, param, .inl ⟨accessed.trans unset.accessed, ref.trans unset.routineRef⟩⟩
  · obtain ⟨⟨k, bound⟩, -⟩ := mem_ownBindings.mp own
    obtain ⟨owner, -⟩ := sound.own_stored own stored
    refine ⟨old, var, param, .inr ⟨k, b, bound, ?_, recorded⟩⟩
    rw [stored, ← owner, ← here]

lemma Sound.recorded_of_binding (sound : s.Sound) (found : s.scopes.bindings[k]? = some b)
    (stored : b.storedIn = some v) (owner : v.routine = s.frame.routine) :
    ∃ x, s.recordedVars[v.index]? = some x ∧ x.accessed = b.accessed ∧ x.escapes = b.escapes := by
  have same := ((sound.bindings k b found).stored v stored).1
  have own := mem_ownBindings.mpr ⟨⟨k, found⟩, same.symm.trans owner⟩
  obtain ⟨-, x, var⟩ := sound.own_stored own stored
  refine ⟨x.publishedAs b, publishedVars_of_mem var own stored ?_, rfl, rfl⟩
  intro c other w held here
  obtain ⟨⟨j, found_c⟩, -⟩ := mem_ownBindings.mp other
  obtain ⟨owner_w, -⟩ := sound.own_stored other held
  have equal : w = v := by
    cases w
    cases v
    simp_all
  exact (sound.binding_eq found found_c stored (equal ▸ held)).symm

lemma Clear.whole (clear : s.Clear) : s.wholeState.Ended := by
  obtain ⟨ended, keeps⟩ := clear.ended
  have code := clear.sound.withCode_code s.endedCode
  rw [wholeState]
  nth_rewrite 2 [← code]
  -- Each copy goes to an accessed variable of the routine that is bound to a parameter.
  have copied (i : Instruction)
      (mem : i ∈ paramCopies s.frame.routine 0 s.recordedVars.toList) :
      ∃ index x param, s.recordedVars[index]? = some x ∧ x.param = some param ∧
        x.accessed = true ∧ i = .assign (.var ⟨s.frame.routine, index⟩) (.param param) := by
    obtain ⟨index, x, param, found, bound, accessed, same⟩ := mem_paramCopies mem
    refine ⟨index, x, param, ?_, bound, accessed, ?_⟩
    · rwa [getElem?_toList] at found
    · exact same
  refine ended.withPrologues (fun i mem => ?_) (fun i mem => ?_) fun i mem v writes => ?_
  · obtain ⟨index, x, param, -, -, -, rfl⟩ := copied i mem
    rfl
  · obtain ⟨index, x, param, found, -, accessed, rfl⟩ := copied i mem
    obtain ⟨old, -, -, unset | ⟨k, b, bound, stored, same, -⟩⟩ := clear.sound.recorded_binding found
    · rw [unset.accessed] at accessed
      cases accessed
    · refine instructionFits_assign ?_ trivial rfl
      refine ⟨.refl _, _, ended.sound.code_found, ?_⟩
      rw [ended.sound.code_layout]
      exact ⟨k, b, bound, stored, same ▸ accessed, fun other => absurd rfl other⟩
  · obtain ⟨index, x, param, found, bound, -, rfl⟩ := copied i mem
    obtain rfl : v = ⟨s.frame.routine, index⟩ := by simpa [Instruction.dests] using writes
    obtain ⟨old, var, same, -⟩ := clear.sound.recorded_binding found
    intro k b found_b stored
    by_contra known
    simp only [not_or, Bool.not_eq_true] at known
    obtain ⟨routine, ref⟩ := Option.ne_none_iff_exists'.mp known.2
    obtain ⟨r, y, owner, var_y, plain⟩ :=
      (clear.sound.known k b _ routine found_b stored known.1 ref).plain
    cases clear.sound.code_found.symm.trans owner
    cases var.symm.trans var_y
    rw [bound, plain] at same
    cases same

def recordedLayout (s : Lowering) : Layout :=
  let vars := s.recordedVars.toList
  let paramBase := s.code.isTemp.size + s.code.argSlotCount + vars.countP Variable.isPlainLocal
  { envSize := vars.countP Variable.inEnvironment
    argSlotBase := s.code.isTemp.size
    localCount := paramBase + vars.countP Variable.isParamLocal
    envChain := [] }

lemma laidOut_var {index : Nat} (found : s.recordedVars[index]? = some x) :
    ∃ storage, s.laidOut.vars[index]? = some { x with storage } ∧
      (x.accessed = true → ∃ place, storage = some place ∧
        ((∃ k, place = .environment k ∧ k < s.recordedLayout.envSize) ∨
          x.escapes = false ∧ ∃ k, place = .cell k ∧ k < s.recordedLayout.localCount)) := by
  have isTemp : s.endedCode.isTemp = s.code.isTemp := by rw [endedCode_eq]
  have slots : s.endedCode.argSlotCount = s.code.argSlotCount := by rw [endedCode_eq]
  refine ⟨s.recordedCode.placeOf index x, ?_, fun accessed => ?_⟩
  · exact (s.recordedCode.layOut_var index).trans (congrArg _ found)
  · obtain ⟨place, placed, bounds⟩ := s.recordedCode.placeOf_accessed found accessed
    simp only [freePlaces, localCount, recordedCode, isTemp, slots] at bounds
    exact ⟨place, placed, bounds⟩

lemma Clear.seals (clear : s.Clear) : s.wholeState.Seals s.laidOut s.recordedLayout := by
  have sound := clear.sound
  have code : s.wholeState.code = s.endedCode.withPrologues
      (paramCopies s.frame.routine 0 s.recordedVars.toList) :=
    clear.ended.1.sound.withCode_code _
  have id : s.endedCode.id = s.frame.routine := by
    rw [endedCode_eq]
    exact sound.ids _ s.code sound.code_found
  have isTemp : s.endedCode.isTemp = s.code.isTemp := by rw [endedCode_eq]
  have slots : s.endedCode.argSlotCount = s.code.argSlotCount := by rw [endedCode_eq]
  have vars : s.endedCode.vars = s.code.vars := by rw [endedCode_eq]
  have locals : s.laidOut.isTemp = s.code.isTemp ++ replicate
      (s.recordedLayout.localCount - s.recordedLayout.argSlotBase) false := by
    simp only [laidOut, recordedCode, layOut, localCount, isTemp, slots, recordedLayout]
  have size : s.recordedVars.size = s.code.vars.size := size_publishedVars _ _
  -- Every variable that is laid out is a recorded one with its place.
  have back (index : Nat) (x' : Variable) (found : s.laidOut.vars[index]? = some x') :
      ∃ x storage, s.recordedVars[index]? = some x ∧ x' = { x with storage } := by
    obtain ⟨x, recorded, same⟩ :=
      Option.map_eq_some_iff.mp ((s.recordedCode.layOut_var index).symm.trans found)
    exact ⟨x, _, recorded, same.symm⟩
  refine ⟨?_, fun index x found => ?_, fun index x routine found ref => ?_,
    fun k b v bound stored owner accessed => ?_, fun id => ?_, ?_, ?_, ?_⟩
  · rw [code, withPrologues_eq]
    simp only [laidOut, layOut, recordedCode, id, recordedLayout, localCount, isTemp, slots]
  · rw [code, withPrologues_eq] at found
    have inside : index < s.recordedVars.size := by
      rw [size, ← vars]
      exact lt_size found
    obtain ⟨storage, here, -⟩ := laidOut_var (getElem?_eq_getElem inside)
    obtain ⟨old, there, param, -⟩ := sound.recorded_binding (getElem?_eq_getElem inside)
    rw [← vars] at there
    cases there.symm.trans found
    exact ⟨_, here, param⟩
  · obtain ⟨old, storage, recorded, rfl⟩ := back index x found
    obtain ⟨-, -, -, unset | ⟨k, b, bound, stored, -, same⟩⟩ := sound.recorded_binding recorded
    · cases unset.routineRef.symm.trans ref
    · rw [show old.routineRef = some routine from ref] at same
      cases assigned : b.assigned with
      | true => simp [assigned] at same
      | false =>
        simp only [assigned] at same
        exact ⟨k, b, bound, stored, assigned, same.symm⟩
  · obtain ⟨x, recorded, same, escapes⟩ := sound.recorded_of_binding bound stored owner
    obtain ⟨storage, here, placed⟩ := laidOut_var recorded
    obtain ⟨place, kept, reached⟩ := placed (same.trans accessed)
    exact ⟨_, place, here, kept, escapes ▸ reached⟩
  · rw [code, withPrologues_eq, locals]
    rw [isTemp, getElem?_append]
    split
    · rfl
    next outside =>
      rw [getElem?_eq_none (Nat.le_of_not_lt outside), getElem?_replicate]
      split <;> simp
  · rw [code, withPrologues_eq, locals, size_append]
    rw [isTemp]
    exact Nat.le_add_right _ _
  · rw [locals, size_append, size_replicate]
    simp only [recordedLayout]
    omega
  · rw [code, withPrologues_eq]
    simp only [recordedLayout]
    omega

lemma wholeState_laidOut (s : Lowering) :
    s.wholeState.withCode s.laidOut = s.withCode s.laidOut := by
  rw [wholeState, withCode_withCode, withCode_withCode]

lemma Clear.writtenAt_laidOut (clear : s.Clear) (found : s.scopes.bindings[k]? = some b)
    (stored : b.storedIn = some v) (unset : b.assigned = false)
    (foreign : v.routine ≠ s.frame.routine) {id : RoutineId} {block : BlockId} {j : Nat}
    (written : (s.withCode s.laidOut).WrittenAt v id block j) : s.WrittenAt v id block j := by
  obtain ⟨ended, keeps⟩ := clear.ended
  have prologue (i : Instruction)
      (mem : i ∈ paramCopies s.frame.routine 0 s.recordedVars.toList) :
      ∃ index param, i = .assign (.var ⟨s.frame.routine, index⟩) (.param param) := by
    obtain ⟨index, x, param, -, -, -, same⟩ := mem_paramCopies mem
    exact ⟨index, param, same⟩
  have edits := edits_withPrologues ended.sound.code_sound fun i mem => by
    obtain ⟨index, param, rfl⟩ := prologue i mem
    rfl
  rw [clear.sound.withCode_code] at edits
  rw [← wholeState_laidOut] at written
  have before := clear.seals.writtenAt clear.whole.sound written
  rcases ended.sound.writtenAt_withCode (by rwa [clear.sound.withCode_code]) before with
    old | ⟨i, mem, writes⟩
  · exact keeps.unwritten k b b v found found stored unset rfl id block j old
  · obtain ⟨index, param, rfl⟩ := prologue i mem
    obtain rfl : v = ⟨s.frame.routine, index⟩ := by simpa [Instruction.dests] using writes
    exact absurd rfl foreign

section

variable {outer : Lowering}

lemma Around.laidOut (around : outer.Around s) (sound : outer.Sound) (clear : s.Clear)
    (nested : outer.unit.routines.size ≤ s.frame.routine) :
    outer.Around (s.withCode s.laidOut) := by
  -- The routines around are not the one that is laid out.
  have other {i : RoutineId} {r : Routine} (found : outer.unit.routines[i]? = some r) :
      i ≠ s.frame.routine :=
    Nat.ne_of_lt (Nat.lt_of_lt_of_le (lt_size found) nested)
  refine ⟨⟨around.topScope, fun i r found => ?_, ?_, around.bindings, around.laid, around.scopes,
    around.errors⟩, fun i r r' found found' => ?_, around.refs,
    fun k b b' v found found' stored unset id block j written => ?_⟩
  · rw [clear.sound.withCode_routines, if_neg (other found)]
    exact around.grown i r found
  · simpa [withCode] using around.count
  · rw [clear.sound.withCode_routines, if_neg (other found)] at found'
    exact around.same i r r' found found'
  · refine around.unwritten k b b' v found found' stored unset id block j ?_
    obtain ⟨c, found_c, becomes⟩ := around.bindings k b found
    cases found'.symm.trans found_c
    obtain ⟨-, r, -, owner, -⟩ := (sound.bindings k b found).stored v stored
    exact clear.writtenAt_laidOut found_c (becomes.stored v stored) unset (other owner) written

lemma Around.leave (around : outer.Around s) (sound : outer.Sound) (clear : s.Clear)
    (nested : s.frame.routine = outer.unit.routines.size)
    (parent : s.code.parent = some outer.frame.routine) :
    { s.withCode s.laidOut with frame := outer.frame }.Sound := by
  have around' := around.laidOut sound clear (Nat.le_of_eq nested.symm)
  have inside := (lt_size sound.code_found)
  have coherent := clear.seals.coherent clear.whole
  rw [wholeState_laidOut] at coherent
  refine ⟨coherent.reframe _, fun i within => ?_, fun i r found unlaid => ?_,
    around'.keeps.toExtends.frameFits sound.frame⟩
  · obtain ⟨r, found, unlaid⟩ :=
      sound.current i (sound.within_back around'.keeps.toGrown inside within)
    obtain ⟨r', found', grows⟩ := around'.grown i r found
    exact ⟨r', found', grows.same_layout.trans unlaid⟩
  · rcases Seals.cases clear.sound found with ⟨rfl, rfl⟩ | ⟨other, old⟩
    · cases unlaid
    · obtain ⟨within, built⟩ := clear.sound.building i r old unlaid
      refine ⟨?_, built⟩
      cases within with
      | refl => exact absurd rfl other
      | @outwards _ around_it r' found' same within =>
        cases clear.sound.code_found.symm.trans found'
        cases parent.symm.trans same
        exact around'.keeps.within (sound.within_back around.toGrown inside within)

end

end Lowering
end Scriptc
