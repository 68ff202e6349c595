import Scriptc.Proofs.Lowering.Moves
import Scriptc.Proofs.Semantics.Expression

/-!
# The smallest steps of lowering

Each operation on the current routine and on the log succeeds in a sound state, and its ledger says
what it leaves. Operations that add no code are quiet.
-/

namespace Scriptc

open List

/-! ## What names mean -/

namespace Binding

def meaning? (b : Binding) : Option Meaning :=
  match b.constant with
  | some value => some (.constant value)
  | none => b.storedIn.map (.stored · b.readOnly)

lemma Becomes.meaning? {b b' : Binding} (becomes : b.Becomes b') {meaning : Meaning}
    (means : b.meaning? = some meaning) : b'.meaning? = some meaning := by
  rw [Binding.meaning?] at means ⊢
  rw [becomes.constant, becomes.readOnly]
  cases constant : b.constant with
  | some value => simpa [constant] using means
  | none =>
    rw [constant] at means
    obtain ⟨v, stored, rfl⟩ := Option.map_eq_some_iff.mp means
    rw [becomes.stored v stored]
    rfl

end Binding

namespace Meaning

def operand : Meaning → Operand
  | constant value => .constant value
  | stored id _ => .var id

/-- The operand that a name is written to; there is none if it is read-only. -/
def place : Meaning → Option Operand
  | stored id false => some (.var id)
  | _ => none

end Meaning

namespace Lowering

variable {s s' s'' : Lowering}

/-- What a name is bound to in a scope or one of those around it, as far as their routines are of a
kind. -/
def boundFrom (scopes : Array Scope) (kind : RoutineId → Bool) (name : String) :
    Nat → ScopeId → Option BindingId
  | 0, _ => none
  | steps + 1, id =>
    match scopes[id]? with
    | none => none
    | some sc =>
      if kind sc.owner then
        match sc.names.lookup name, sc.parent with
        | some binding, _ => some binding
        | none, some parent => boundFrom scopes kind name steps parent
        | none, none => none
      else none

/-- What a name is bound to where the code stands. The arguments object is looked for in the current
routine only, except at the top level. -/
def boundTo (s : Lowering) (name : String) : Option BindingId :=
  if name = argumentsName ∧ ¬s.frame.isTop then
    boundFrom s.scopes.scopes (· == s.frame.routine) name s.scopes.scopes.size s.frame.scope
  else boundFrom s.scopes.scopes (fun _ => true) name (max s.scopes.scopes.size 1) s.frame.scope

def meaningOf (s : Lowering) (id : BindingId) : Option Meaning :=
  s.scopes.bindings[id]?.bind Binding.meaning?

def meaning? (s : Lowering) (name : String) : Option Meaning := (s.boundTo name).bind s.meaningOf

def Steady (s s' : Lowering) : Prop :=
  ∀ name id, s.boundTo name = some id → s'.boundTo name = some id

/-- A step that adds nothing to run, and leaves what names mean. -/
structure Quiet (s s' : Lowering) : Prop where
  openId : s'.code.openId = s.code.openId
  openBody : s'.code.openBody = s.code.openBody
  steady : s.Steady s'

lemma Steady.refl (s : Lowering) : s.Steady s := fun _ _ bound => bound

lemma Steady.trans (first : s.Steady s') (second : s'.Steady s'') : s.Steady s'' :=
  fun name id bound => second name id (first name id bound)

lemma Extends.meaningOf (keeps : s.Extends s') {id : BindingId} {meaning : Meaning}
    (means : s.meaningOf id = some meaning) : s'.meaningOf id = some meaning := by
  obtain ⟨b, found, means⟩ := Option.bind_eq_some_iff.mp means
  obtain ⟨b', found', becomes⟩ := keeps.bindings id b found
  rw [Lowering.meaningOf, found']
  exact becomes.meaning? means

lemma Steady.meaning? (steady : s.Steady s') (keeps : s.Extends s') {name : String}
    {meaning : Meaning} (means : s.meaning? name = some meaning) :
    s'.meaning? name = some meaning := by
  obtain ⟨id, bound, means⟩ := Option.bind_eq_some_iff.mp means
  rw [Lowering.meaning?, steady name id bound]
  exact keeps.meaningOf means

lemma Extends.steady (keeps : s.Extends s') (same : s'.scopes.scopes = s.scopes.scopes) :
    s.Steady s' := by
  intro name id bound
  rw [boundTo, same, keeps.frame]
  exact bound

lemma Quiet.refl (s : Lowering) : s.Quiet s := ⟨rfl, rfl, .refl s⟩

lemma Quiet.trans (first : s.Quiet s') (second : s'.Quiet s'') : s.Quiet s'' :=
  ⟨second.openId.trans first.openId, second.openBody.trans first.openBody,
    first.steady.trans second.steady⟩

end Lowering

/-! ## Operations -/

open Routine

namespace Log

variable (log : Log)

lemma errorCount_report (severity : Severity) (range : TextRange)
    (message : String) : log.errorCount ≤ (log.report severity range message).errorCount := by
  simp [errorCount, report, Array.countP_push]

lemma errorCount_error (range : TextRange) (message : String) :
    log.errorCount < (log.report .error range message).errorCount := by
  simp [errorCount, report, Diagnostic.isError]

lemma errorCount_amendLast {change : Diagnostic → Diagnostic}
    (same : ∀ d, (change d).isError = d.isError) :
    (log.amendLast change).errorCount = log.errorCount := by
  have kinds : (log.amendLast change).entries.toList.map Diagnostic.isError =
      log.entries.toList.map Diagnostic.isError := by
    apply ext_getElem?
    intro i
    simp only [amendLast, getElem?_map, Array.getElem?_toList, Array.getElem?_modify]
    split
    · simp [Option.map_map, Function.comp_def, same]
    · rfl
  have count (entries : Array Diagnostic) : entries.countP Diagnostic.isError =
      (entries.toList.map Diagnostic.isError).countP id := by
    rw [countP_map, ← Array.countP_toList]
    rfl
  rw [errorCount, errorCount, count, count, kinds]

lemma errorCount_strictReport (strict : Bool) (range : TextRange)
    (message : String) : log.errorCount ≤ (log.strictReport strict range message).errorCount := by
  rw [strictReport]
  split
  · exact errorCount_report log _ range message
  · refine Nat.le_trans (errorCount_report log .warning range message) (Nat.le_of_eq ?_)
    exact (errorCount_amendLast _ (by intro d; rfl)).symm

lemma errorCount_pointLast (range : TextRange) (message : String) :
    (log.pointLast range message).errorCount = log.errorCount :=
  errorCount_amendLast _ (by intro d; rfl)

end Log

namespace Lowering

variable {s s' : Lowering}
variable {α : Type} {r : Routine} {i : Instruction} {a : α} {id : LocalId} {l : Ledger}
  {jump : Jump}

section

variable {edit : Edit α}

lemma inRoutine_run {id : RoutineId} {r' : Routine} (found : s.unit.routines[id]? = some r)
    (run : edit r = .ok a r') : inUnit (CodeUnit.inRoutine id edit) s = .ok a { s with unit :=
        { s.unit with routines := s.unit.routines.setIfInBounds id r' } } := by
  have inner : CodeUnit.inRoutine id edit s.unit =
      .ok a { s.unit with routines := s.unit.routines.setIfInBounds id r' } := by
    simp [CodeUnit.inRoutine, found, EStateM.run, run]
  simp [inUnit, EStateM.run, inner]

lemma inCode_run (sound : s.Sound) (run : edit s.code = .ok a r) :
    inCode edit s = .ok a (s.withCode r) := by
  exact inRoutine_run sound.code_found run

lemma inCode_runs (sound : s.Sound) {post : α → Lowering → Prop}
    (runs : Runs edit s.code fun a r => post a (s.withCode r)) : Runs (inCode edit) s post := by
  obtain ⟨a, r, run, holds⟩ := runs
  exact ⟨a, s.withCode r, inCode_run sound run, holds⟩

lemma inCode_same (sound : s.Sound) (run : edit s.code = .ok a s.code) :
    inCode edit s = .ok a s := by
  have same := inCode_run sound run
  rwa [sound.withCode_self] at same

lemma inCode_inv (found : s.unit.routines[s.frame.routine]? = some r)
    (run : inCode edit s = .ok a s') : ∃ r', edit r = .ok a r' ∧ s' = s.withCode r' := by
  rw [inCode, Runs.get_bind] at run
  cases inner : edit r with
  | ok b r' =>
    have same := inRoutine_run found inner
    obtain ⟨rfl, rfl⟩ : b = a ∧ s.withCode r' = s' := by simpa [withCode] using same.symm.trans run
    exact ⟨r', rfl, rfl⟩
  | error fault r' => simp [inUnit, CodeUnit.inRoutine, found, EStateM.run, inner] at run

end

section

variable {β : Type} {first : Edit α} {next : α → Edit β} (sound : s.Sound)
  {post : β → Lowering → Prop}
include sound

lemma inCode_step {middle : α → Lowering → Prop} (runs : Runs (inCode first) s middle)
    (rest : ∀ a s', middle a s' → Runs (inCode (next a)) s' post) :
    Runs (inCode (first >>= next)) s post := by
  obtain ⟨a, s', run, holds⟩ := runs
  obtain ⟨b, s'', run', last⟩ := rest a s' holds
  obtain ⟨r, inner, rfl⟩ := inCode_inv sound.code_found run
  have found : (s.withCode r).unit.routines[(s.withCode r).frame.routine]? = some r := by
    rw [sound.withCode_routines]
    exact if_pos rfl
  obtain ⟨r', inner', rfl⟩ := inCode_inv found run'
  have twice : (s.withCode r).withCode r' = s.withCode r' := by simp [withCode]
  refine ⟨b, _, inCode_run sound (Runs.bind_eq_ok.mpr ⟨a, r, inner, inner'⟩), ?_⟩
  rw [← twice]
  exact last

lemma inCode_after (run : first s.code = .ok a s.code) (rest : Runs (inCode (next a)) s post) :
    Runs (inCode (first >>= next)) s post := by
  have known : Runs (inCode first) s fun a' s' => a' = a ∧ s' = s :=
    ⟨a, s, inCode_same sound run, rfl, rfl⟩
  exact inCode_step sound known fun _ _ ⟨same, same_state⟩ => same ▸ same_state ▸ rest

end

lemma moves_withTemps (sound : s.Sound) (edits : s.code.Edits r (fun _ => False) fun _ => False)
    (blocks : r.blocks = s.code.blocks) (labels : r.labels = s.code.labels)
    (current : r.current = s.code.current) {taken given : List Operand}
    (inUse : ∀ id, r.InUse id ↔ (s.InUse id ∧ .cell id ∉ taken) ∨ .cell id ∈ given)
    (used : ∀ id, .cell id ∈ taken → s.InUse id)
    (fresh : ∀ id, .cell id ∈ given → s.InUse id → .cell id ∈ taken)
    (apart : given.Pairwise Operand.Apart) (holds : ∀ a ∈ given, (s.withCode r).Holds a) :
    s.Moves (s.withCode r) { taken, given } where
  start := sound
  sound := sound.withCode edits (fun _ absent => absent.elim) (fun _ absent => absent.elim)
    fun _ absent => absent.elim
  keeps := sound.keeps_withCode (.refl s) edits fun _ absent => absent.elim
  pending label pending := by
    rw [Pending, Routine.Pending, sound.withCode_code, labels]
    exact pending
  made _ absent := by cases absent
  made_nodup := nodup_nil
  settled _ absent := by cases absent
  owed _ absent := by cases absent
  owes label owes := by
    rw [Owes, sound.withCode_code] at owes
    obtain ⟨⟨jump, ⟨k, b, found, last⟩, target⟩, unplaced⟩ := owes
    rw [labels] at unplaced
    exact .inl ⟨⟨jump, ⟨k, b, blocks ▸ found, last⟩, target⟩, unplaced⟩
  inUse id := by
    rw [InUse, sound.withCode_code]
    exact inUse id
  taken := used
  fresh := fresh
  apart := apart
  holds := holds
  flows := by
    rintro _ aim F ⟨start, charted⟩ _ _ _
    refine ⟨aim, fun _ _ => rfl, by simp, start, ?_⟩
    rw [sound.withCode_code]
    exact charted.of_same blocks labels current

/-- A step goes on with an edit that adds instructions, if they write temporaries that the step
gives and variables that are recorded to be assigned or have been made by the step. -/
lemma Moves.edit (moves : s.Moves s' l) {new : Instruction → Prop}
    (edits : s'.code.Edits r new fun _ => False)
    (instructions : ∀ i, new i → (s'.withCode r).InstructionFits s'.frame.routine i)
    (labels : r.labels = s'.code.labels) (isTemp : r.isTemp = s'.code.isTemp)
    (freeTemps : r.freeTemps = s'.code.freeTemps)
    (unknown : ∀ i, new i → ∀ v, .var v ∈ i.dests → s'.Unknown v)
    (writes : ∀ i, new i → ∀ v, .var v ∈ i.dests → s'.Assigned v ∨
      ∀ (k : BindingId) (b : Binding), s.scopes.bindings[k]? = some b → b.storedIn ≠ some v)
    (flows : l.uncharted = false → ∀ aim start F, s'.code.Charted aim start F →
      (∀ id origin, F.holds id origin → .cell id ∉ l.given) → r.Charted aim start F) :
    s.Moves (s'.withCode r) l := by
  have code := moves.sound.withCode_code r
  have temps (id : LocalId) : (s'.withCode r).InUse id ↔ s'.InUse id := by
    simp [InUse, code, Routine.InUse, isTemp, freeTemps]
  have known (label : Label) : (s'.withCode r).code.labels[label]? = s'.code.labels[label]? := by
    rw [code, labels]
  have keeps := moves.sound.extends_withCode edits.grows
  refine ⟨moves.start, moves.sound.withCode edits instructions (fun _ absent =>
    absent.elim) unknown,
    moves.sound.keeps_withCode moves.keeps edits writes, ?_, ?_, moves.made_nodup, ?_, ?_, ?_, ?_,
    moves.taken, moves.fresh, moves.apart, fun a mem => keeps.holds (moves.holds a mem), ?_⟩
  · intro label pending
    rw [Pending, Routine.Pending, known]
    exact moves.pending label pending
  · intro label mem
    rw [Pending, Routine.Pending, known]
    exact moves.made label mem
  · intro label mem
    simp only [Placed, known]
    exact moves.settled label mem
  · intro label mem
    rw [labelCount, code, labels]
    exact moves.owed label mem
  · intro label owes
    rw [Owes, code] at owes
    obtain ⟨⟨jump, last, target⟩, unplaced⟩ := owes
    rw [labels] at unplaced
    rcases edits.endsWith jump last with before | absent
    · exact moves.owes label ⟨⟨jump, before, target⟩, unplaced⟩
    · exact absent.elim
  · intro id
    rw [temps]
    exact moves.inUse id
  · intro said aim F charted spared aimed exits
    obtain ⟨aim', old, new, start, charted'⟩ := moves.flows said aim F charted spared aimed exits
    refine ⟨aim', old, new, start, ?_⟩
    rw [code]
    exact flows said aim' start F charted' fun id origin known given =>
      moves.not_spared given (spared id origin known)

lemma quiet_withCode (sound : s.Sound) (grows : s.code.Grows r)
    (blocks : r.blocks = s.code.blocks) (current : r.current = s.code.current) :
    s.Quiet (s.withCode r) := by
  have same : r.currentBlock = s.code.currentBlock := by
    rw [currentBlock, blocks, current]
    rfl
  refine ⟨?_, ?_, (sound.extends_withCode grows).steady rfl⟩
  · rw [sound.withCode_code, openId, same, blocks, current]
    rfl
  · rw [sound.withCode_code, openBody, same]
    rfl

lemma Moves.appended (moves : s.Moves s' l)
    (fits : s'.InstructionFits s'.frame.routine i) (plain : l.uncharted = false → i.isPlain = true)
    (writes : ∀ v, .var v ∈ i.dests → s'.Assigned v)
    (mine : ∀ id, .cell id ∈ i.touched → .cell id ∈ l.given) :
    s.Moves (s'.withCode (s'.code.appended i)) l := by
  have edits := edits_appended moves.sound.code_sound i
  refine moves.edit edits ?_ rfl rfl rfl ?_ ?_ ?_
  · rintro _ rfl
    exact (moves.sound.extends_withCode edits.grows).instructionFits fits
  · rintro _ rfl v written
    exact moves.sound.unknown (writes v written)
  · rintro _ rfl v written
    exact .inl (writes v written)
  · intro said aim start F charted apart
    have plain := plain said
    refine (charted.appended moves.sound.code_sound (Flow.admits_of_plain plain)).weaken ?_
    exact Flow.le_after plain fun id origin known touched => apart id origin known (mine id touched)

lemma Moves.filled (moves : s.Moves s' l)
    (fits : s'.InstructionFits s'.frame.routine i) (fills : i.Fills id)
    (mine : .cell id ∈ l.given) : s.Moves (s'.withCode (s'.code.appended i)) l := by
  refine moves.appended fits (fun _ => fills.plain) (fun v written => ?_) fun other touched => ?_
  · simp [fills.dests] at written
  · obtain rfl : other = id := by simpa [fills.touched] using touched
    exact mine

section

variable (sound : s.Sound) (fits : s.InstructionFits s.frame.routine i) (plain : i.isPlain = true)
  (writes : ∀ v, .var v ∈ i.dests → s.Assigned v) (apart : ∀ id, .cell id ∉ i.touched)
include sound fits plain writes apart

lemma moves_appended : s.Moves (s.withCode (s.code.appended i)) {} :=
  (Moves.refl sound).appended fits (fun _ => plain) writes fun id touched =>
    absurd touched (apart id)

lemma push_moves :
    Runs (push i) s fun _ s' => s.Moves s' {} ∧ s' = s.withCode (s.code.appended i) :=
  inCode_runs sound ⟨⟨⟩, _, push_run sound.code_sound i,
    moves_appended sound fits plain writes apart, rfl⟩

end

lemma push_step (sound : s.Sound) {β : Type} {next : PUnit → Lower β} {post : β → Lowering → Prop}
    (rest : Runs (next ⟨⟩) (s.withCode (s.code.appended i)) post) :
    Runs (push i >>= next) s post := by
  have pushed : Runs (push i) s fun _ s' => s' = s.withCode (s.code.appended i) :=
    inCode_runs sound ⟨⟨⟩, _, push_run sound.code_sound i, rfl⟩
  refine pushed.step ?_
  rintro - _ rfl
  exact rest

lemma moves_jump (sound : s.Sound) (fits : s.JumpFits s.frame.routine jump)
    (inside : ∀ label ∈ jump.targets, label < s.labelCount) :
    s.Moves (s.withCode (s.code.ended jump)) { owed := jump.targets, uncharted := true } := by
  have edits := edits_ended sound.code_sound jump
  have code := sound.withCode_code (s.code.ended jump)
  have keeps := sound.keeps_withCode (.refl s) edits fun _ absent => absent.elim
  refine ⟨sound, sound.withCode edits (fun _ absent => absent.elim) ?_ fun _ absent => absent.elim,
    keeps, ?_, by simp, nodup_nil, by simp, ?_, ?_, ?_, by simp, by simp, .nil,
    by simp, by simp⟩
  · rintro _ rfl
    exact keeps.jumpFits fits
  · intro label pending
    rw [Pending, code]
    exact pending
  · intro label mem
    exact Nat.lt_of_lt_of_le (inside label mem) (keeps.labelCount_le sound)
  · intro label owes
    rw [Owes, code] at owes
    obtain ⟨⟨other, last, target⟩, unplaced⟩ := owes
    rcases edits.endsWith other last with before | rfl
    · exact .inl ⟨⟨other, before, target⟩, unplaced⟩
    · exact .inr (.inl target)
  · intro id
    rw [InUse, code]
    simp [InUse, Routine.InUse, Routine.ended, Routine.withOpen]

lemma Sound.charted_ended (sound : s.Sound) {aim : Label → Flow} {F : Flow}
    (charted : s.Charted aim F) (leads : F.Leads aim jump)
    (inside : ∀ label ∈ jump.targets, label < s.labelCount) (next : Flow) :
    (s.withCode (s.code.ended jump)).Charted aim next := by
  obtain ⟨start, charted⟩ := charted
  obtain ⟨start', charted'⟩ := charted.ended sound.code_sound leads inside next
  exact ⟨start', by rwa [sound.withCode_code]⟩

section

variable (sound : s.Sound) (fits : s.JumpFits s.frame.routine jump)
  (inside : ∀ label ∈ jump.targets, label < s.labelCount) (ordinary : Flow.Ordinary jump)
include sound fits inside ordinary

lemma moves_ended : s.Moves (s.withCode (s.code.ended jump)) { owed := jump.targets } :=
  (moves_jump sound fits inside).chart fun aim F charted _ aimed _ =>
    ⟨aim, fun _ _ => rfl, by simp, sound.charted_ended charted
      (ordinary aim F fun label mem => aimed label mem (inside label mem)) inside F⟩

lemma setJump_moves : Runs (inCode (setJump jump)) s fun _ s' =>
      s.Moves s' { owed := jump.targets } ∧ s' = s.withCode (s.code.ended jump) :=
  inCode_runs sound ⟨⟨⟩, _, setJump_run sound.code_sound.toBuilt jump,
    moves_ended sound fits inside ordinary, rfl⟩

end

lemma jumpFits_goto (user : RoutineId) (label : Label) : s.JumpFits user (.goto label) :=
  ⟨by simp [Jump.operands], by simp, by simp⟩

lemma goto_moves (sound : s.Sound) {label : Label} (inside : label < s.labelCount) :
    Runs (goto label) s fun _ s' =>
      s.Moves s' { owed := [label] } ∧ s' = s.withCode (s.code.ended (.goto label)) :=
  setJump_moves sound (jumpFits_goto _ label) (by simpa [Jump.targets] using inside)
    fun _ _ aimed => aimed

lemma instructionFits_assign {user : RoutineId} {dest source : Operand}
    (dest_fits : s.FitsIn user dest) (source_fits : s.FitsIn user source)
    (place : dest.isPlace = true) : s.InstructionFits user (.assign dest source) := by
  refine ⟨fun a mem => ?_, trivial, by simp [Instruction.dests, place]⟩
  simp only [Instruction.operands, mem_cons, not_mem_nil, or_false] at mem
  rcases mem with rfl | rfl
  · exact dest_fits
  · exact source_fits

lemma Moves.assigned (moves : s.Moves s' l) {dest source : Operand}
    (dest_fits : s'.Fits dest) (source_fits : s'.Fits source) (place : dest.isPlace = true)
    (writes : ∀ v, dest = .var v → s'.Assigned v)
    (mine : ∀ id, dest = .cell id → .cell id ∈ l.given) :
    s.Moves (s'.withCode (s'.code.assigned dest source)) l := by
  rw [Routine.assigned]
  split
  · refine moves.appended (instructionFits_assign dest_fits source_fits place) (fun _ => rfl) ?_ ?_
    · intro v written
      exact writes v (by simpa [Instruction.dests, eq_comm] using written)
    · intro id touched
      exact mine id (by simpa [Instruction.touched, Instruction.dests, eq_comm] using touched)
  · rw [moves.sound.withCode_self]
    exact moves

section

variable (sound : s.Sound)
include sound

lemma assign_moves {dest source : Operand} (dest_fits : s.Fits dest) (source_fits : s.Fits source)
    (place : dest.isPlace = true) (writes : ∀ v, dest = .var v → s.Assigned v)
    (apart : ∀ id, dest ≠ .cell id) : Runs (assign dest source) s fun _ s' =>
      s.Moves s' {} ∧ s' = s.withCode (s.code.assigned dest source) :=
  inCode_runs sound ⟨⟨⟩, _, assign_run sound.code_sound dest source,
    (Moves.refl sound).assigned dest_fits source_fits place writes fun id here =>
      absurd here (apart id), rfl⟩

lemma Sound.fits_withCode (inside : id < r.isTemp.size) : (s.withCode r).Fits (.cell id) := by
  have found := sound.withCode_routines r s.frame.routine
  rw [if_pos rfl] at found
  exact ⟨r, found, inside⟩

lemma Sound.fits_inUse (used : s.InUse id) : s.Fits (.cell id) :=
  ⟨s.code, sound.code_found, (lt_size used.1)⟩

lemma Sound.ready_inUse (used : s.InUse id) : s.Ready (.cell id) :=
  ⟨⟨sound.fits_inUse used, by simp⟩, by rintro _ ⟨rfl⟩; exact used⟩

lemma Sound.fits_result : s.Fits result :=
  ⟨s.code, sound.code_found, (lt_size sound.code_sound.result_local)⟩

lemma release_moves {a : Operand} (held : ∀ id, a = .cell id → s.InUse id) :
    Runs (release a) s fun _ s' => s.Moves s' { taken := [a] } ∧ s.Quiet s' := by
  refine inCode_runs sound ((release_runs sound.code_sound held).mono ?_)
  rintro - r ⟨free, rfl, edits, inUse⟩
  refine ⟨?_, quiet_withCode sound edits.grows rfl rfl⟩
  refine moves_withTemps sound edits rfl rfl rfl ?_ ?_ (by simp) List.Pairwise.nil (by simp)
  · intro id
    simpa [InUse, eq_comm] using inUse id
  · intro id mem
    exact held id (by simpa [eq_comm] using mem)

lemma allocTemp_moves : Runs allocTemp s fun a s' =>
      (∃ id, a = .cell id) ∧ s.Moves s' { given := [a] } ∧ s.Quiet s' := by
  refine inCode_runs sound ((allocTemp_runs sound.code_sound).mono ?_)
  rintro a r ⟨id, isTemp, free, rfl, rfl, edits, unused, inUse⟩
  refine ⟨⟨id, rfl⟩, moves_withTemps sound edits rfl rfl rfl ?_ (by simp) ?_
    (pairwise_singleton _ _) ?_, quiet_withCode sound edits.grows rfl rfl⟩
  · intro other
    simpa [InUse] using inUse other
  · intro other mem used
    obtain rfl : other = id := by simpa using mem
    exact absurd used unused
  · intro b mem
    obtain rfl : b = .cell id := by simpa using mem
    have used := (inUse id).mpr (.inr rfl)
    exact ⟨sound.fits_withCode (lt_size used.1), by simp⟩

lemma allocSpecific_moves (temp : s.code.isTemp[id]? = some true) (unused : ¬s.InUse id) :
    Runs (inCode (allocSpecific (.cell id))) s fun _ s' =>
      s.Moves s' { given := [.cell id] } ∧ s.Quiet s' := by
  refine inCode_runs sound ((allocSpecific_runs sound.code_sound temp unused).mono ?_)
  rintro - r ⟨free, rfl, edits, inUse⟩
  refine ⟨?_, quiet_withCode sound edits.grows rfl rfl⟩
  refine moves_withTemps sound edits rfl rfl rfl ?_ (by simp) ?_ (pairwise_singleton _ _) ?_
  · intro other
    simpa [InUse] using inUse other
  · intro other mem used
    obtain rfl : other = id := by simpa using mem
    exact absurd used unused
  · intro b mem
    obtain rfl : b = .cell id := by simpa using mem
    exact ⟨sound.fits_withCode (lt_size temp), by simp⟩

lemma newLabel_moves :
    Runs newLabel s fun label s' => s.Moves s' { made := [label] } ∧ s.Quiet s' := by
  have edits := edits_withLabel sound.code_sound
  refine inCode_runs sound ⟨s.code.labels.size, s.code.withLabel, rfl, ?_,
    quiet_withCode sound edits.grows rfl rfl⟩
  have code := sound.withCode_code s.code.withLabel
  refine ⟨sound, sound.withCode edits (fun _ absent => absent.elim) (fun _ absent => absent.elim)
      fun _ absent => absent.elim,
    sound.keeps_withCode (.refl s) edits fun _ absent => absent.elim, ?_, ?_,
    nodup_singleton _, by simp, by simp, ?_, ?_, by simp, by simp, .nil, by simp,
    ?_⟩
  · intro label pending
    have inside := pending.lt
    rw [Pending, code, Routine.Pending, Routine.withLabel, Array.getElem?_push_lt inside,
      ← Array.getElem?_eq_getElem inside]
    exact pending
  · intro label mem
    obtain rfl : label = s.code.labels.size := by simpa using mem
    refine ⟨?_, Nat.le_refl _⟩
    rw [Pending, code, Routine.Pending, Routine.withLabel, Array.getElem?_push_size]
  · intro label owes
    rw [Owes, code] at owes
    obtain ⟨target, unplaced⟩ := owes
    refine .inl ⟨target, fun k found => unplaced k ?_⟩
    exact edits.grows.labels label k found
  · intro id
    rw [InUse, code]
    simp [InUse, Routine.InUse, Routine.withLabel]
  · rintro _ aim F ⟨start, charted⟩ _ _ _
    refine ⟨Function.update aim s.code.labels.size F, fun label old => ?_, by simp, start, ?_⟩
    · exact Function.update_of_ne (Nat.ne_of_lt old) _ _
    · rw [code]
      exact (charted.congr fun label old => Function.update_of_ne (Nat.ne_of_lt old) _ _).withLabel

lemma place_places {label : Label} (pending : s.Pending label) : Runs (place label) s fun _ s' =>
      s.Places s' label ∧ s' = s.withCode (s.code.placeAt label) := by
  have edits := edits_placeAt sound.code_sound pending
  refine inCode_runs sound ⟨⟨⟩, _, place_run sound.code_sound.toBuilt pending, ?_, rfl⟩
  have code := sound.withCode_code (s.code.placeAt label)
  have labels := placeAt_labels pending
  have temps : (s.code.placeAt label).isTemp = s.code.isTemp ∧
      (s.code.placeAt label).freeTemps = s.code.freeTemps := by
    rw [placeAt, startAt]
    split <;> exact ⟨rfl, rfl⟩
  refine ⟨sound.withCode edits (fun _ absent => absent.elim) ?_ (fun _ absent => absent.elim),
    sound.keeps_withCode (.refl s) edits fun _ absent => absent.elim, ?_, ?_, ?_, ?_, ?_⟩
  · rintro _ rfl
    exact jumpFits_goto _ _
  · intro other waits ne
    rw [Pending, code, Routine.Pending, labels, if_neg ne]
    exact waits
  · exact ⟨_, by rw [code, labels, if_pos rfl]⟩
  · intro other owes
    rw [Owes, code] at owes
    obtain ⟨⟨jump, last, target⟩, unplaced⟩ := owes
    have ne : other ≠ label := by
      rintro rfl
      exact unplaced _ (by rw [labels, if_pos rfl])
    refine ⟨⟨?_, fun k found => unplaced k (by rw [labels, if_neg ne, found])⟩, ne⟩
    rcases edits.endsWith jump last with before | rfl
    · exact ⟨jump, before, target⟩
    · exact absurd (by simpa [Jump.targets] using target) ne
  · intro id
    simp [InUse, code, Routine.InUse, temps.1, temps.2]
  · rintro aim F ⟨start, charted⟩ expected
    obtain ⟨start', charted'⟩ := charted.placeAt sound.code_sound pending expected
    refine ⟨start', ?_⟩
    rw [code]
    exact charted'

lemma Sound.of_same_code (keeps : s.Extends s')
    (back : ∀ (i : RoutineId) (r' : Routine), s'.unit.routines[i]? = some r' → ∃ r,
      s.unit.routines[i]? = some r ∧ r.SameCode r')
    (scopes : ∀ (k : ScopeId) (sc : Scope), s'.scopes.scopes[k]? = some sc → s'.ScopeFits k sc)
    (bindings : ∀ (k : BindingId) (b : Binding), s'.scopes.bindings[k]? = some b → s'.BindingFits b)
    (stored_once : ∀ (j k : BindingId) (b c : Binding) (v : VariableId),
      s'.scopes.bindings[j]? = some b → s'.scopes.bindings[k]? = some c → b.storedIn = some v →
        c.storedIn = some v → j = k)
    (refs : ∀ (k : BindingId) (b' : Binding) (v : VariableId) (routine : RoutineId),
      s'.scopes.bindings[k]? = some b' → b'.storedIn = some v → b'.assigned = false →
        b'.routineRef = some routine → s.Known v routine)
    (vars : ∀ (i : RoutineId) (r' : Routine) (index : Nat) (x : Variable),
      s'.unit.routines[i]? = some r' → r'.vars[index]? = some x →
        x.Unset ∨ ∃ r, s.unit.routines[i]? = some r ∧ r.vars[index]? = some x) :
    s'.Sound where
  ids i r' found := by
    obtain ⟨r, known, same⟩ := back i r' found
    rw [same]
    exact sound.ids i r known
  parents i r' found := by
    obtain ⟨r, known, same⟩ := back i r' found
    rw [same]
    exact sound.parents i r known
  current i within := by
    have inside := (lt_size sound.code_found)
    rw [keeps.frame] at within
    obtain ⟨r, found, unlaid⟩ := sound.current i (sound.within_back keeps.toGrown inside within)
    obtain ⟨r', found', grows⟩ := keeps.grown i r found
    exact ⟨r', found', grows.same_layout.trans unlaid⟩
  building i r' found unlaid := by
    obtain ⟨r, known, same⟩ := back i r' found
    rw [same] at unlaid
    obtain ⟨within, built⟩ := sound.building i r known unlaid
    rw [keeps.frame, same]
    exact ⟨keeps.within within, { built with }⟩
  complete i r' layout found laid := by
    obtain ⟨r, known, same⟩ := back i r' found
    refine same.complete (sound.complete i r layout known ?_)
    rwa [same] at laid
  fits i r' found := by
    obtain ⟨r, known, same⟩ := back i r' found
    refine keeps.codeFits (sound.fits i r known) ?_
    rw [same]
  prologue i r' j instruction found stands := by
    obtain ⟨r, known, same⟩ := back i r' found
    rw [same] at stands
    exact sound.prologue i r j instruction known stands
  scopes := scopes
  bindings := bindings
  stored_once := stored_once
  known k b' v routine found stored unassigned known := by
    refine keeps.known (refs k b' v routine found stored unassigned known) ?_
    rintro id block j ⟨r', i, found', stands, writes⟩
    obtain ⟨r, known, same⟩ := back id r' found'
    rw [same] at stands
    exact ⟨r, i, known, stands, writes⟩
  unset i r' index x found unlaid var := by
    rcases vars i r' index x found var with unset | ⟨r, found_r, var_r⟩
    · exact unset
    · obtain ⟨r'', found'', grows⟩ := keeps.grown i r found_r
      obtain rfl : r'' = r' := by simpa [found''] using found
      exact sound.unset i r index x found_r (grows.same_layout ▸ unlaid) var_r
  published i r' index x routine found var known := by
    rcases vars i r' index x found var with unset | ⟨r, found_r, var_r⟩
    · rw [unset.routineRef] at known
      cases known
    · obtain ⟨k, b, found_b, stored, unassigned, ref⟩ :=
        sound.published i r index x routine found_r var_r known
      obtain ⟨b', found_b', becomes⟩ := keeps.bindings k b found_b
      have owner := ((sound.bindings k b found_b).stored _ stored).1
      have same := keeps.laid k b b' r found_b found_b' (owner ▸ found_r)
        (sound.laid_of_published found_r var_r known)
      exact ⟨k, b', found_b', same ▸ stored, same ▸ unassigned, same ▸ ref⟩
  frame := keeps.frameFits sound.frame

end

lemma Extends.keeps (keeps : s.Extends s')
    (back : ∀ (i : RoutineId) (r' : Routine), s'.unit.routines[i]? = some r' →
      ∃ r, s.unit.routines[i]? = some r ∧ r.SameCode r') : s.Keeps s' := by
  refine ⟨keeps, fun k b b' v _ _ _ _ _ id block j written => ?_⟩
  obtain ⟨r', i, found, stands, writes⟩ := written
  obtain ⟨r, known, same⟩ := back id r' found
  rw [same] at stands
  exact ⟨r, i, known, stands, writes⟩

lemma moves_of_same_code (start : s.Sound) (sound : s'.Sound) (keeps : s.Keeps s')
    (same : s.code.SameCode s'.code) : s.Moves s' {} := by
  refine ⟨start, sound, keeps, ?_, by simp, nodup_nil, by simp, by simp, ?_, ?_, by simp,
    by simp, .nil, by simp, ?_⟩
  · intro label pending
    rw [Pending, same]
    exact pending
  · intro label owes
    rw [Owes, same] at owes
    exact .inl owes
  · intro id
    rw [InUse, same]
    simp [InUse, Routine.InUse]
  · rintro _ aim F ⟨first, charted⟩ _ _ _
    refine ⟨aim, fun _ _ => rfl, by simp, first, ?_⟩
    rw [same]
    exact charted.of_same rfl rfl rfl

lemma moves_of_appended (start : s.Sound) (sound : s'.Sound) (keeps : s.Keeps s')
    (code : s'.code = s.code.appended i) (plain : i.isPlain = true)
    (apart : ∀ id, .cell id ∈ i.touched → ¬s.InUse id) : s.Moves s' {} := by
  refine ⟨start, sound, keeps, ?_, by simp, nodup_nil, by simp, by simp, ?_, ?_, by simp,
    by simp, .nil, by simp, ?_⟩
  · intro label pending
    rw [Pending, code]
    exact pending
  · intro label owes
    rw [Owes, code] at owes
    obtain ⟨⟨jump, ends, mem⟩, unplaced⟩ := owes
    rcases Routine.endsWith_withOpen start.code_sound.toBuilt ends with old | absent
    · exact .inl ⟨⟨jump, old, mem⟩, unplaced⟩
    · cases absent
  · intro id
    rw [InUse, code]
    simp [InUse, Routine.InUse, Routine.appended, Routine.withOpen]
  · rintro _ aim F ⟨first, charted⟩ spared _ _
    refine ⟨aim, fun _ _ => rfl, by simp, first, ?_⟩
    rw [code]
    refine (charted.appended start.code_sound (Flow.admits_of_plain plain)).weaken ?_
    exact Flow.le_after plain fun id origin holds touched =>
      apart id touched (spared id origin holds).1

/-- A step that changes the log only. -/
structure Reports (s s' : Lowering) : Prop where
  moves : s.Moves s' {}
  quiet : s.Quiet s'
  scopes : s'.scopes = s.scopes
  unit : s'.unit = s.unit

lemma Reports.refl (sound : s.Sound) : s.Reports s := ⟨.refl sound, .refl s, rfl, rfl⟩

lemma Reports.trans (first : s.Reports s') (second : s'.Reports s'') : s.Reports s'' :=
  ⟨first.moves.andThen second.moves, first.quiet.trans second.quiet,
    second.scopes.trans first.scopes, second.unit.trans first.unit⟩

/-- A step that changes the log and the headers only. -/
lemma moves_withHeaders (sound : s.Sound) (headers : Array String) {log : Log}
    (errors : s.log.errorCount ≤ log.errorCount) :
    s.Moves { s with log, unit := { s.unit with headers } } {} ∧
      s.Quiet { s with log, unit := { s.unit with headers } } := by
  have keeps : s.Extends { s with log, unit := { s.unit with headers } } :=
    { Extends.refl s with errors := errors }
  have same (i : RoutineId) (r : Routine) (found : s.unit.routines[i]? = some r) :
      ∃ r', s.unit.routines[i]? = some r' ∧ r'.SameCode r := ⟨r, found, rfl⟩
  have sound' := sound.of_same_code keeps same
    (fun k sc found => keeps.scopeFits (sound.scopes k sc found))
    (fun k b found => keeps.bindingFits (sound.bindings k b found)) sound.stored_once
    sound.known
    fun i r index x found var => .inr ⟨r, found, var⟩
  exact ⟨moves_of_same_code sound sound' (keeps.keeps same) rfl, rfl, rfl, keeps.steady rfl⟩

lemma reports_withLog (sound : s.Sound) {log : Log}
    (errors : s.log.errorCount ≤ log.errorCount) : s.Reports { s with log } := by
  obtain ⟨moves, quiet⟩ := moves_withHeaders sound s.unit.headers errors
  exact ⟨moves, quiet, rfl, rfl⟩

section

variable (sound : s.Sound) (loc : Location)
include sound loc

lemma error_reports (message : String) :
    Runs (error loc message) s fun _ s' => s.Reports s' ∧ s.log.errorCount < s'.log.errorCount := by
  have more := Log.errorCount_error s.log loc.range message
  exact .modify ⟨reports_withLog sound (Nat.le_of_lt more), more⟩

lemma warn_reports (message : String) : Runs (warn loc message) s fun _ s' => s.Reports s' :=
  Runs.modify (reports_withLog sound (Log.errorCount_report _ _ _ _))

lemma notSupported_reports (what : String) : Runs (notSupported loc what) s fun _ s' =>
      s.Reports s' ∧ s.log.errorCount < s'.log.errorCount :=
  error_reports sound loc _

lemma strictError_reports (message : String) :
    Runs (strictError loc message) s fun _ s' => s.Reports s' :=
  Runs.get_step (.modify (reports_withLog sound (Log.errorCount_strictReport _ _ _ _)))

end

end Lowering
end Scriptc
