import Scriptc.Proofs.Code.Operations

/-!
# Charts of routines

A chart gives each label and each block what is known there on every path: the protected regions
that are active, and the locals that hold a copy of a variable or a new closure. It is a
post-fixpoint: each jump passes on at least what its target expects.
-/

namespace Scriptc

variable {i : Instruction} {jump : Jump}

def Operand.isPlace : Operand → Bool
  | var _ | cell _ | slot _ => true
  | param _ | constant _ => false

namespace Instruction

def dests : Instruction → List Operand
  | closure dest _ => [dest]
  | newObject dest => [dest]
  | newArray dest _ => [dest]
  | newArguments dest => [dest]
  | loadThrown dest => [dest]
  | endTry _ => []
  | splice bindings resultCount _ => bindings.take resultCount
  | assign dest _ => [dest]
  | binary _ dest _ _ => [dest]
  | unary _ dest _ => [dest]
  | get dest _ _ => [dest]
  | put _ _ _ => []
  | call dest _ _ => dest.toList

/-- The operands that an instruction may leave changed. Native code may use the locals that it is
given as it likes. -/
def touched : Instruction → List Operand
  | splice bindings _ _ => bindings
  | i => i.dests

def isPlain : Instruction → Bool
  | endTry _ => false
  | call _ (.pinned _ _) _ => false
  | call _ (.direct _ _) _ => false
  | _ => true

/-- Whether an instruction needs nothing and writes one local. -/
structure Fills (i : Instruction) (id : LocalId) : Prop where
  plain : i.isPlain = true
  touched : i.touched = [.cell id]
  dests : i.dests = [.cell id]

end Instruction

lemma Instruction.plain_of_prologue (i : Instruction) (prologue : i.isPrologue = true) :
    i.isPlain = true ∧ ∀ id, .cell id ∉ i.touched := by
  unfold isPrologue at prologue
  split at prologue
  · simp [isPlain, touched, dests]
  · simp [isPlain, touched, dests]
  · cases prologue

/-- Where the value of a local is known to come from. -/
inductive Origin where
  | variable (id : VariableId)
  | closure (routine : RoutineId)
deriving DecidableEq, Repr

def Instruction.Makes : Instruction → LocalId → Origin → Prop
  | .assign (.cell id) (.var v), other, origin => other = id ∧ origin = .variable v
  | .closure (.cell id) routine, other, origin => other = id ∧ origin = .closure routine
  | _, _, _ => False

/-- What is known at a point of a routine. -/
structure Flow where
  /-- The protected regions that are active, innermost first. -/
  tries : List Nat
  holds : LocalId → Origin → Prop

namespace Flow

def regions (tries : List Nat) : Flow := { tries, holds := fun _ _ => False }

/-- More is known about locals, in the same regions. -/
instance : LE Flow :=
  ⟨fun F G => F.tries = G.tries ∧ ∀ id origin, F.holds id origin → G.holds id origin⟩

lemma le_refl (F : Flow) : F ≤ F := ⟨rfl, fun _ _ => id⟩

lemma le_trans {F G H : Flow} (first : F ≤ G) (second : G ≤ H) : F ≤ H :=
  ⟨first.1.trans second.1, fun id origin holds => second.2 id origin (first.2 id origin holds)⟩

def after (F : Flow) (i : Instruction) : Flow where
  tries :=
    match i with
    | .endTry _ => F.tries.tail
    | _ => F.tries
  holds id origin := (F.holds id origin ∧ .cell id ∉ i.touched) ∨ i.Makes id origin

/-- Whether an instruction may stand where something is known: a region that ends is the innermost
one, and a call that is or may become direct reads a local with the closure. -/
def Admits (F : Flow) : Instruction → Prop
  | .endTry index => F.tries.head? = some index
  | .call _ (.pinned v copy) _ => ∃ id, copy = .cell id ∧ F.holds id (.variable v)
  | .call _ (.direct routine closure) _ => ∃ id, closure = .cell id ∧ F.holds id (.closure routine)
  | _ => True

def through (F : Flow) (body : List Instruction) : Flow := body.foldl after F

def AdmitsAll (F : Flow) : List Instruction → Prop
  | [] => True
  | i :: rest => F.Admits i ∧ (F.after i).AdmitsAll rest

/-- Whether a jump passes on what its targets expect. A handler is entered from anywhere in its
region, so nothing is known about locals there. -/
def Leads (F : Flow) (aim : Label → Flow) : Jump → Prop
  | .ret _ => F.tries = []
  | .beginTry index onCatch onBody =>
    index ∉ F.tries ∧ aim onBody ≤ { F with tries := index :: F.tries } ∧
      aim onCatch ≤ regions F.tries
  | jump => ∀ label ∈ jump.targets, aim label ≤ F

variable {F G : Flow}

lemma after_mono (le : F ≤ G) (i : Instruction) : F.after i ≤ G.after i := by
  refine ⟨?_, fun id origin holds => holds.imp_left fun ⟨known, kept⟩ => ⟨le.2 _ _ known, kept⟩⟩
  cases i <;> simp [after, le.1]

lemma Admits.mono (admits : F.Admits i) (le : F ≤ G) : G.Admits i := by
  unfold Admits at admits ⊢
  split at admits
  · simpa [← le.1] using admits
  · obtain ⟨id, here, known⟩ := admits
    exact ⟨id, here, le.2 _ _ known⟩
  · obtain ⟨id, here, known⟩ := admits
    exact ⟨id, here, le.2 _ _ known⟩
  · trivial

lemma admitsAll_concat {body : List Instruction} (admits : F.AdmitsAll body)
    (last : (F.through body).Admits i) : F.AdmitsAll (body ++ [i]) := by
  induction body generalizing F with
  | nil => exact ⟨last, trivial⟩
  | cons j rest ih => exact ⟨admits.1, ih admits.2 last⟩

lemma through_concat (body : List Instruction) (i : Instruction) :
    F.through (body ++ [i]) = (F.through body).after i := by
  simp [through]

lemma Leads.mono {aim : Label → Flow} (leads : F.Leads aim jump) (le : F ≤ G) :
    G.Leads aim jump := by
  unfold Leads at leads ⊢
  split at leads
  · exact le.1 ▸ leads
  · obtain ⟨new, body, handler⟩ := leads
    exact ⟨le.1 ▸ new, le_trans body ⟨congrArg (List.cons _) le.1, le.2⟩, le.1 ▸ handler⟩
  · exact fun label mem => le_trans (leads label mem) le

lemma Leads.congr {aim aim' : Label → Flow} (leads : F.Leads aim jump)
    (same : ∀ label ∈ jump.targets, aim' label = aim label) : F.Leads aim' jump := by
  unfold Leads at leads ⊢
  split at leads
  · exact leads
  · simp only [Jump.targets, List.mem_cons, List.not_mem_nil, or_false, forall_eq_or_imp,
      forall_eq] at same
    rw [same.1, same.2]
    exact leads
  · exact fun label mem => same label mem ▸ leads label mem

lemma le_after (plain : i.isPlain = true)
    (apart : ∀ id origin, F.holds id origin → .cell id ∉ i.touched) : F ≤ F.after i := by
  refine ⟨?_, fun id origin known => .inl ⟨known, apart id origin known⟩⟩
  cases i with
  | endTry => cases plain
  | _ => rfl

/-- A jump that passes on what is known to all its targets. -/
def Ordinary (jump : Jump) : Prop :=
  ∀ (aim : Label → Flow) (F : Flow), (∀ label ∈ jump.targets, aim label ≤ F) → F.Leads aim jump

lemma admits_of_plain (plain : i.isPlain = true) : F.Admits i := by
  unfold Admits
  split
  · cases plain
  · cases plain
  · cases plain
  · trivial

end Flow

namespace Routine

/-- A chart of the blocks that have their jumps. -/
structure Chart (r : Routine) (aim : Label → Flow) (start : BlockId → Flow) : Prop where
  entry : start entry = .regions []
  targets : ∀ jump, r.EndsWith jump → ∀ label ∈ jump.targets, label < r.labels.size
  labels : ∀ (label : Label) (k : BlockId), r.labels[label]? = some (some k) → start k ≤ aim label
  blocks : ∀ (k : BlockId) (b : Block) (jump : Jump), r.blocks[k]? = some b → b.jump = some jump →
    (start k).AdmitsAll b.body.toList ∧ ((start k).through b.body.toList).Leads aim jump

/-- A chart of a routine under construction, with what is known where its code goes on. -/
structure Charted (r : Routine) (aim : Label → Flow) (start : BlockId → Flow) (now : Flow) : Prop
    extends r.Chart aim start where
  admits : (start r.openId).AdmitsAll r.openBody.toList
  reaches : now ≤ (start r.openId).through r.openBody.toList

namespace Charted

variable {r : Routine} {aim : Label → Flow} {start : BlockId → Flow} {now : Flow}

section

variable (charted : r.Charted aim start now)
include charted

lemma of_same {r' : Routine} (blocks : r'.blocks = r.blocks) (labels : r'.labels = r.labels)
    (current : r'.current = r.current) : r'.Charted aim start now := by
  have block : r'.currentBlock = r.currentBlock := by
    rw [currentBlock, blocks, current]
    rfl
  have id : r'.openId = r.openId := by
    rw [openId, block, blocks, current]
    rfl
  have body : r'.openBody = r.openBody := by
    rw [openBody, block]
    rfl
  refine ⟨⟨charted.entry, ?_, ?_, ?_⟩, ?_, ?_⟩
  · rintro jump ⟨k, b, found, ends⟩
    rw [labels]
    exact charted.targets jump ⟨k, b, blocks ▸ found, ends⟩
  · rw [labels]
    exact charted.labels
  · rw [blocks]
    exact charted.blocks
  · rw [id, body]
    exact charted.admits
  · rw [id, body]
    exact charted.reaches

lemma weaken {less : Flow} (le : less ≤ now) : r.Charted aim start less :=
  { charted with reaches := Flow.le_trans le charted.reaches }

lemma congr {aim' : Label → Flow} (same : ∀ label, label < r.labels.size → aim' label = aim label) :
    r.Charted aim' start now where
  __ := charted
  labels label k placed := by
    rw [same label (lt_size placed)]
    exact charted.labels label k placed
  blocks k b jump found ends := by
    obtain ⟨admits, leads⟩ := charted.blocks k b jump found ends
    exact ⟨admits, leads.congr fun label mem =>
      same label (charted.targets jump ⟨k, b, found, ends⟩ label mem)⟩

lemma withLabel : r.withLabel.Charted aim start now := by
  refine ⟨⟨charted.entry, fun jump ends label mem => ?_, fun label k placed => ?_,
    charted.blocks⟩, charted.admits, charted.reaches⟩
  · have inside := charted.targets jump ends label mem
    rw [Routine.withLabel, Array.size_push]
    exact Nat.lt_succ_of_lt inside
  · rw [Routine.withLabel, Array.getElem?_push] at placed
    split at placed
    · cases placed
    · exact charted.labels label k placed

lemma appended (sound : r.Sound) (admits : now.Admits i) :
    (r.appended i).Charted aim start (now.after i) := by
  obtain ⟨id, body⟩ := withOpen_open sound.toBuilt (r.openBody.push i)
  refine ⟨⟨charted.entry, fun jump ends => ?_, charted.labels, fun k b jump found ends => ?_⟩,
    ?_, ?_⟩
  · rcases endsWith_withOpen sound.toBuilt ends with old | absent
    · exact charted.targets jump old
    · cases absent
  · rw [Routine.appended, withOpen_blocks sound.toBuilt] at found
    split at found
    · cases found
      cases ends
    · exact charted.blocks k b jump found ends
  · rw [Routine.appended, id, body, Array.toList_push]
    exact Flow.admitsAll_concat charted.admits (admits.mono charted.reaches)
  · rw [Routine.appended, id, body, Array.toList_push, Flow.through_concat]
    exact Flow.after_mono charted.reaches i

lemma ended (sound : r.Sound) (leads : now.Leads aim jump)
    (inside : ∀ label ∈ jump.targets, label < r.labels.size) (next : Flow) :
    ∃ start', (r.ended jump).Charted aim start' next := by
  obtain ⟨id, body⟩ := ended_closed sound.toBuilt jump
  have size : (r.ended jump).blocks.size = _ := withOpen_size sound.toBuilt _
  -- The new block has a number that no block or label had.
  have fresh {k : BlockId} (old : k < r.blocks.size ∨ k = r.openId) :
      k ≠ (r.ended jump).openId := by
    rw [id, size]
    rcases old with old | rfl
    · exact Nat.ne_of_lt (Nat.lt_of_lt_of_le old (Nat.le_max_left _ _))
    · exact Nat.ne_of_lt (Nat.lt_of_lt_of_le (Nat.lt_succ_self _) (Nat.le_max_right _ _))
  refine ⟨Function.update start (r.ended jump).openId next,
    ⟨?_, fun other ends => ?_, fun label k placed => ?_, fun k b other found ends => ?_⟩, ?_, ?_⟩
  · have first : Routine.entry < r.blocks.size := Nat.zero_lt_of_lt sound.current_lt
    rw [Function.update_of_ne (fresh (.inl first))]
    exact charted.entry
  · rcases endsWith_withOpen sound.toBuilt ends with old | new
    · exact charted.targets other old
    · exact Option.some.inj new ▸ inside
  · rw [Function.update_of_ne (fresh (.inl (sound.placed label k placed).2))]
    exact charted.labels label k placed
  · rw [Routine.ended, withOpen_blocks sound.toBuilt] at found
    split at found
    next here =>
      cases found
      cases ends
      rw [Function.update_of_ne (fresh (.inr here)), here]
      exact ⟨charted.admits, leads.mono charted.reaches⟩
    next =>
      rw [Function.update_of_ne (fresh (.inl (lt_size found)))]
      exact charted.blocks k b other found ends
  · rw [body]
    trivial
  · rw [body, Function.update_self]
    exact Flow.le_refl next

lemma restart (sound : r.Sound) (empty : r.openBody.isEmpty = true) :
    r.Charted aim (Function.update start r.openId now) now := by
  have nothing := Array.isEmpty_iff.mp empty
  have le : now ≤ start r.openId := by simpa [nothing, Flow.through] using charted.reaches
  refine ⟨⟨?_, charted.targets, fun label k placed => ?_, fun k b jump found ends => ?_⟩, ?_, ?_⟩
  · rw [Function.update_of_ne sound.openId_ne.symm]
    exact charted.entry
  · by_cases here : k = r.openId
    · subst here
      rw [Function.update_self]
      exact Flow.le_trans le (charted.labels label _ placed)
    · rw [Function.update_of_ne here]
      exact charted.labels label k placed
  · have other : k ≠ r.openId := by
      rintro rfl
      rw [open_block_eq sound.toBuilt found] at ends
      cases ends
    rw [Function.update_of_ne other]
    exact charted.blocks k b jump found ends
  · rw [nothing]
    trivial
  · rw [nothing, Function.update_self]
    exact Flow.le_refl now

lemma withOpen (sound : r.Sound) :
    (r.withOpen { body := r.openBody, jump := none }).Charted aim start now := by
  obtain ⟨id, body⟩ := withOpen_open sound.toBuilt r.openBody
  refine ⟨⟨charted.entry, fun jump ends => ?_, charted.labels, fun k b jump found ends => ?_⟩,
    ?_, ?_⟩
  · rcases endsWith_withOpen sound.toBuilt ends with old | absent
    · exact charted.targets jump old
    · cases absent
  · rw [withOpen_blocks sound.toBuilt] at found
    split at found
    · cases found
      cases ends
    · exact charted.blocks k b jump found ends
  · rw [id, body]
    exact charted.admits
  · rw [id, body]
    exact charted.reaches

lemma startAt (sound : r.Sound) {label : Label} (pending : r.Pending label)
    (expected : aim label = now) :
    ∃ start', (r.startAt label).Charted aim start' now ∧ start' (r.startAt label).openId = now := by
  rw [Routine.startAt]
  split
  next empty =>
    have nothing := Array.isEmpty_iff.mp empty
    refine ⟨_, nothing ▸ (charted.restart sound empty).withOpen sound, ?_⟩
    rw [Block.empty, (withOpen_open sound.toBuilt #[]).1, Function.update_self]
  next =>
    have inside := (lt_size pending)
    have leads : now.Leads aim (.goto label) := by
      simp [Flow.Leads, Jump.targets, expected, Flow.le_refl]
    obtain ⟨start', gone⟩ := charted.ended sound leads (by simpa [Jump.targets] using inside) now
    have sound' : (r.ended (.goto label)).Sound := sound.withOpen _ rfl
    have body := (ended_closed sound.toBuilt (.goto label)).2
    have empty : (r.ended (.goto label)).openBody.isEmpty = true := by rw [body]; rfl
    have nothing := Array.isEmpty_iff.mp empty
    refine ⟨_, nothing ▸ (gone.restart sound' empty).withOpen sound', ?_⟩
    rw [Block.empty, (withOpen_open sound'.toBuilt #[]).1, Function.update_self]

lemma placeAt (sound : r.Sound) {label : Label} (pending : r.Pending label)
    (expected : aim label = now) : ∃ start', (r.placeAt label).Charted aim start' now := by
  obtain ⟨start', started, begins⟩ := charted.startAt sound pending expected
  have id := (startAt_open sound.toBuilt label).1
  refine ⟨start', ⟨started.entry, fun jump ends other mem => ?_, fun other k placed => ?_,
    started.blocks⟩, started.admits, started.reaches⟩
  · have inside := started.targets jump ends other mem
    simpa [Routine.placeAt] using inside
  · rw [placeAt_labels pending] at placed
    split at placed
    next here =>
      cases placed
      have same : (r.placeAt label).current = (r.startAt label).openId := id.symm
      rw [here, expected, same, begins]
      exact Flow.le_refl now
    next =>
      have same : (r.startAt label).labels = r.labels := by
        rw [Routine.startAt]
        split <;> rfl
      exact started.labels other k (same ▸ placed)

lemma withPrologue (sound : r.Sound) (prologue : i.isPrologue = true) :
    (r.withPrologue i).Charted aim start now := by
  obtain ⟨id, body⟩ := withPrologue_open sound i
  have edits := edits_withPrologue sound prologue
  obtain ⟨plain, apart⟩ := i.plain_of_prologue prologue
  refine ⟨⟨charted.entry, fun jump ends => ?_, charted.labels, fun k b jump found ends => ?_⟩,
    ?_, ?_⟩
  · rcases edits.endsWith jump ends with old | absent
    · exact charted.targets jump old
    · exact absent.elim
  · rw [withPrologue_blocks] at found
    split at found
    · obtain ⟨old, there, rfl⟩ := Option.map_eq_some_iff.mp found
      obtain ⟨admits, leads⟩ := charted.blocks k old jump there ends
      rw [Array.toList_push, Flow.through_concat]
      exact ⟨Flow.admitsAll_concat admits (Flow.admits_of_plain plain),
        leads.mono (Flow.le_after plain fun other _ _ => apart other)⟩
    · exact charted.blocks k b jump found ends
  · rw [id, body]
    exact charted.admits
  · rw [id, body]
    exact charted.reaches

end

end Charted

lemma new_charted (id : RoutineId) (parent : Option RoutineId) (level : Nat)
    (name : Option String) (strict : Bool) :
    (Routine.new id parent level name strict).Charted (fun _ => .regions [])
      (fun _ => .regions []) (.regions []) := by
  refine ⟨⟨rfl, fun jump ends label mem => ?_, fun _ _ _ => Flow.le_refl _,
    fun k b jump found ends => ?_⟩, trivial, Flow.le_refl _⟩
  · obtain ⟨k, b, found, ends⟩ := ends
    match k with
    | 0 =>
      cases found
      cases ends
      obtain rfl : label = 1 := by simpa [Jump.targets] using mem
      exact Nat.one_lt_two
    | 1 =>
      cases found
      cases ends
    | k + 2 => cases found
  · match k with
    | 0 =>
      cases found
      cases ends
      exact ⟨trivial, fun _ _ => Flow.le_refl _⟩
    | 1 =>
      cases found
      cases ends
    | k + 2 => cases found

end Routine
end Scriptc
