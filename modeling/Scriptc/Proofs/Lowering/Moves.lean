import Scriptc.Proofs.Lowering.Invariant

/-!
# Steps of lowering

A step leaves a sound state and is accounted for in a ledger: the labels it made, those it placed,
those it may jump to, and the operands whose temporaries it took and gave. What was known at its
start on every path is known at its end. Steps in a row add up to one step.
-/

open List Nat

namespace Scriptc

/-- What a step of lowering makes, uses and leaves. -/
structure Ledger where
  /-- The labels that it made and that are not placed. -/
  made : List Label := []
  settled : List Label := []
  owed : List Label := []
  /-- Whether it may also leave the statements around it, or the routine. -/
  leaves : Bool := false
  uncharted : Bool := false
  /-- The operands whose temporaries it took from its surroundings. -/
  taken : List Operand := []
  /-- The operands whose temporaries it gives to its surroundings. -/
  given : List Operand := []

def Operand.Apart (a b : Operand) : Prop := ∀ id, a = .cell id → b ≠ .cell id

lemma Operand.Apart.symm {a b : Operand} (apart : a.Apart b) : b.Apart a :=
  fun id there here => apart id here there

namespace Frame

/-- What is known in a statement: the protected regions around it. -/
def flow (f : Frame) : Flow := .regions f.tries

/-- What is known outside the regions that the outermost `depth` ones are around. -/
def flowAt (f : Frame) (depth : Nat) : Flow := .regions (f.tries.drop (f.tries.length - depth))

/-- Whether the labels that code may leave to expect the regions that are around them. -/
structure Aims (f : Frame) (aim : Label → Flow) : Prop where
  exit : aim Routine.exitLabel = .regions []
  breaks : ∀ t ∈ f.targets, aim t.breakLabel = f.flowAt t.tryDepth
  continues : ∀ t ∈ f.targets, ∀ label, t.continueLabel = some label →
    aim label = f.flowAt t.tryDepth

lemma Aims.congr {f : Frame} {aim aim' : Label → Flow} (aims : f.Aims aim)
    (same : ∀ label, f.Exit label → aim' label = aim label) : f.Aims aim' where
  exit := (same _ (.inl rfl)).trans aims.exit
  breaks t member := (same _ (.inr ⟨t, member, .inl rfl⟩)).trans (aims.breaks t member)
  continues t member label next :=
    (same _ (.inr ⟨t, member, .inr next⟩)).trans (aims.continues t member label next)

end Frame

namespace Lowering

variable {l : Ledger} {taken given taken' given' : List Operand}
  {owed made settled made' settled' : List Label} {leaves uncharted leaves' uncharted' : Bool}
    {a : Operand} {id : LocalId} {label : Label}

variable (s : Lowering)

def labelCount : Nat := s.code.labels.size

def Knows (labels : List Label) : Prop := ∀ label ∈ labels, label < s.labelCount

lemma knows_nil {s : Lowering} : s.Knows [] := nofun

def Placed (label : Label) : Prop := ∃ k, s.code.labels[label]? = some (some k)

/-- Whether an operand can be kept while other code runs: the arguments of a call are staged
anew. -/
def Holds (a : Operand) : Prop := s.Fits a ∧ ∀ id, a ≠ .slot id

/-- Whether an operand is there to be used: it can be kept, and its temporary is handed out. -/
structure Ready (s : Lowering) (a : Operand) : Prop where
  holds : s.Holds a
  inUse : ∀ id, a = .cell id → s.InUse id

/-- The temporaries that are in use, apart from those of some operands. -/
def Spared (taken : List Operand) (id : LocalId) : Prop :=
  s.InUse id ∧ .cell id ∉ taken

/-- Whether there is a chart of the current routine, with what labels expect and what is known where
its code goes on. -/
def Charted (s : Lowering) (aim : Label → Flow) (now : Flow) : Prop :=
  ∃ start, s.code.Charted aim start now

/-- What a step makes of what is known at its start, if the labels that it jumps to expect no more
and the temporaries that it takes do not matter. Its own labels expect what is known at its
start. -/
def FlowsTo (s s' : Lowering) (l : Ledger) (grow : Flow → Flow) : Prop :=
  ∀ aim F, s.Charted aim F → (∀ id origin, F.holds id origin → s.Spared l.taken id) →
    (∀ label ∈ l.owed, label < s.labelCount → aim label ≤ F) →
      (l.leaves = true → F = s.frame.flow ∧ s.frame.Aims aim) →
        ∃ aim', (∀ label, label < s.labelCount → aim' label = aim label) ∧
          (∀ label, label ∈ l.made ∨ label ∈ l.settled → aim' label = F) ∧ s'.Charted aim' (grow F)

/-- A step of lowering with its ledger. -/
structure Moves (s s' : Lowering) (l : Ledger) : Prop where
  start : s.Sound
  sound : s'.Sound
  keeps : s.Keeps s'
  pending : ∀ label, s.Pending label → s'.Pending label
  made : ∀ label ∈ l.made, s'.Pending label ∧ s.labelCount ≤ label
  made_nodup : l.made.Nodup
  settled : ∀ label ∈ l.settled, s'.Placed label ∧ s.labelCount ≤ label
  owed : ∀ label ∈ l.owed, label < s'.labelCount
  owes : ∀ label, s'.Owes label → s.Owes label ∨ label ∈ l.owed ∨
    l.leaves = true ∧ s.frame.Exit label
  inUse : ∀ id, s'.InUse id ↔ (s.InUse id ∧ .cell id ∉ l.taken) ∨ .cell id ∈ l.given
  taken : ∀ id, .cell id ∈ l.taken → s.InUse id
  fresh : ∀ id, .cell id ∈ l.given → s.InUse id → .cell id ∈ l.taken
  apart : l.given.Pairwise Operand.Apart
  holds : ∀ a ∈ l.given, s'.Holds a
  flows : l.uncharted = false → s.FlowsTo s' l fun F => F

/-- A step that places a label. -/
structure Places (s s' : Lowering) (label : Label) : Prop where
  sound : s'.Sound
  keeps : s.Keeps s'
  pending : ∀ other, s.Pending other → other ≠ label → s'.Pending other
  placed : s'.Placed label
  owes : ∀ other, s'.Owes other → s.Owes other ∧ other ≠ label
  inUse : ∀ id, s'.InUse id ↔ s.InUse id
  flows : ∀ aim F, s.Charted aim F → aim label = F → s'.Charted aim F

namespace Extends

variable {s s' : Lowering}

section

variable (keeps : s.Extends s')
include keeps

lemma code_grows (sound : s.Sound) : s.code.Grows s'.code := by
  obtain ⟨r', found, grows⟩ := keeps.grown _ _ sound.code_found
  have same : s'.code = r' := by simp [code, keeps.frame, found]
  exact same ▸ grows

lemma labelCount_le (sound : s.Sound) : s.labelCount ≤ s'.labelCount :=
  (keeps.code_grows sound).label_count

lemma holds (holds : s.Holds a) : s'.Holds a := ⟨keeps.fits holds.1, holds.2⟩

lemma temp (sound : s.Sound) (temp : s.code.isTemp[id]? = some true) :
    s'.code.isTemp[id]? = some true :=
  (keeps.code_grows sound).temps id true temp

lemma placed (sound : s.Sound) (placed : s.Placed label) : s'.Placed label := by
  obtain ⟨k, found⟩ := placed
  exact ⟨k, (keeps.code_grows sound).labels label k found⟩

end

end Extends

lemma Pending.lt {s : Lowering} (pending : s.Pending label) : label < s.labelCount :=
  (lt_size pending)

lemma Placed.lt {s : Lowering} (placed : s.Placed label) : label < s.labelCount := by
  obtain ⟨k, found⟩ := placed
  exact lt_size found

lemma Spared.mono {s : Lowering} {more : List Operand}
    (spared : s.Spared more id) (fewer : .cell id ∈ taken → .cell id ∈ more) : s.Spared taken id :=
  ⟨spared.1, fun here => spared.2 (fewer here)⟩

lemma Placed.not_owes {s : Lowering} (placed : s.Placed label) : ¬s.Owes label := by
  obtain ⟨k, found⟩ := placed
  exact fun owes => owes.2 k found

namespace Moves

variable {s s' s'' : Lowering}

lemma refl (sound : s.Sound) : s.Moves s {} where
  start := sound
  sound := sound
  keeps := Keeps.refl s
  pending _ pending := pending
  made _ absent := by cases absent
  made_nodup := nodup_nil
  settled _ absent := by cases absent
  owed _ absent := by cases absent
  owes _ owes := .inl owes
  inUse id := by simp
  taken _ absent := by cases absent
  fresh _ absent := by cases absent
  apart := Pairwise.nil
  holds _ absent := by cases absent
  flows _ aim F charted _ _ _ := ⟨aim, fun _ _ => rfl, by simp, charted⟩

section

variable (moves : s.Moves s' l)
include moves

lemma knows {labels : List Label} (known : s.Knows labels) : s'.Knows labels := fun label mem =>
  lt_of_lt_of_le (known label mem) (moves.keeps.labelCount_le moves.start)

lemma knows_made : s'.Knows l.made := fun label mem => (moves.made label mem).1.lt

lemma fits (mem : a ∈ l.given) : s'.Fits a := (moves.holds a mem).1

lemma ready (mem : a ∈ l.given) : s'.Ready a where
  holds := moves.holds a mem
  inUse id here := (moves.inUse id).mpr (.inr (here ▸ mem))

lemma still_ready (ready : s.Ready a) (left : ∀ id, a = .cell id → .cell id ∉ l.taken) :
    s'.Ready a where
  holds := moves.keeps.holds ready.holds
  inUse id here := (moves.inUse id).mpr (.inl ⟨ready.inUse id here, left id here⟩)

lemma not_spared (mem : .cell id ∈ l.given) : ¬s.Spared l.taken id :=
  fun spared => spared.2 (moves.fresh id mem spared.1)

lemma spared (mine : ∀ a ∈ taken, a ∈ l.given) (spared : s.Spared l.taken id) :
    s'.Spared taken id :=
  ⟨(moves.inUse id).mpr (.inl spared), fun here => moves.not_spared (mine _ here) spared⟩

lemma still_inUse (nothing : l.taken = []) (used : s.InUse id) : s'.InUse id :=
  (moves.inUse id).mpr (.inl ⟨used, by simp [nothing]⟩)

lemma still_unused (unused : ¬s.InUse id) (other : .cell id ∉ l.given) : ¬s'.InUse id := by
  rw [moves.inUse id]
  rintro (⟨used, -⟩ | given)
  · exact unused used
  · exact other given

end

lemma keep (sound : s.Sound) (ready : s.Ready a) : s.Moves s { taken := [a], given := [a] } where
  __ := refl sound
  inUse id := by
    by_cases here : .cell id = a
    · simp [here, ready.inUse id here.symm]
    · simp [here]
  taken id member := ready.inUse id (by simpa using (mem_singleton.mp member).symm)
  fresh id member _ := member
  apart := pairwise_singleton _ _
  holds b member := by
    rw [mem_singleton.mp member]
    exact ready.holds
  flows _ aim F charted _ _ _ := ⟨aim, fun _ _ => rfl, by simp, charted⟩

section

variable (mine others : List Operand)
  (first : s.Moves s' { made, settled, owed, leaves, uncharted, taken, given := mine ++ given })
  (second : s'.Moves s'' l) (takes : ∀ a, a ∈ l.taken ↔ a ∈ mine ∨ a ∈ others)
  (reached : ∀ label ∈ l.owed, label < s.labelCount ∨ label ∈ made ∨ label ∈ settled)
include first second takes reached

/-- What is known through two steps in a row, if the second jumps to no label of the first but those
in its ledger. -/
lemma flows_compose (known : (uncharted || l.uncharted) = false) :
    s.FlowsTo s'' { made := made ++ l.made, settled := l.settled ++ settled,
                    owed := l.owed ++ owed, leaves := leaves || l.leaves,
                    taken := others ++ taken, given := l.given ++ given } fun F => F := by
  intro aim F charted spared aimed exits
  obtain ⟨known1, known2⟩ := Bool.or_eq_false_iff.mp known
  have more := first.keeps.labelCount_le first.start
  have spared1 : ∀ id origin, F.holds id origin → s.Spared taken id := fun id origin known =>
    (spared id origin known).mono (mem_append_right _)
  obtain ⟨aim1, old1, new1, charted1⟩ := first.flows known1 aim F charted spared1
    (fun label mem => aimed label (mem_append_right _ mem))
    (fun leaving => exits (by simp [show leaves = true from leaving]))
  have spared2 : ∀ id origin, F.holds id origin → s'.Spared l.taken id := by
    intro id origin known
    have kept := (spared id origin known).2
    refine ⟨(first.inUse id).mpr (.inl (spared1 id origin known)), fun here => ?_⟩
    rcases (takes _).mp here with here | here
    · exact (spared1 id origin known).2 (first.fresh id (mem_append_left _ here)
        (spared1 id origin known).1)
    · exact kept (mem_append_left _ here)
  have aimed2 : ∀ label ∈ l.owed, label < s'.labelCount → aim1 label ≤ F := by
    intro label mem _
    rcases reached label mem with old | own
    · rw [old1 label old]
      exact aimed label (mem_append_left _ mem) old
    · rw [new1 label own]
      exact Flow.le_refl F
  have exits2 (leaving : l.leaves = true) : F = s'.frame.flow ∧ s'.frame.Aims aim1 := by
    obtain ⟨same, aims⟩ := exits (by simp [leaving])
    obtain ⟨r, found, inside, -⟩ := first.start.frame.exits
    cases first.start.code_found.symm.trans found
    rw [first.keeps.frame]
    exact ⟨same, aims.congr fun label leaves => old1 label (inside label leaves)⟩
  obtain ⟨aim2, old2, new2, charted2⟩ := second.flows known2 aim1 F charted1 spared2 aimed2 exits2
  refine ⟨aim2, fun label old => ?_, fun label own => ?_, charted2⟩
  · exact (old2 label (lt_of_lt_of_le old more)).trans (old1 label old)
  · simp only [mem_append] at own
    rcases own with (own | own) | (own | own)
    · exact (old2 label (first.made label own).1.lt).trans (new1 label (.inl own))
    · exact new2 label (.inl own)
    · exact new2 label (.inr own)
    · have inside := (first.settled label own).1.lt
      exact (old2 label inside).trans (new1 label (.inr own))

lemma compose (elsewhere : ∀ id, .cell id ∈ others → .cell id ∉ mine ++ given) :
    s.Moves s'' { made := made ++ l.made, settled := l.settled ++ settled, owed := l.owed ++ owed,
                  leaves := leaves || l.leaves, uncharted := uncharted || l.uncharted,
                  taken := others ++ taken,
                  given := l.given ++ given } := by
  have apart := pairwise_append.mp first.apart
  -- What the second step takes was not in use at the start, or was in use and is still there.
  have new {id : LocalId} (here : .cell id ∈ mine) (used : s.InUse id) : .cell id ∈ taken :=
    first.fresh id (mem_append_left _ here) used
  have ne {id : LocalId} (here : .cell id ∈ mine) : .cell id ∉ given :=
    fun there => apart.2.2 _ here _ there id rfl rfl
  have old {id : LocalId} (here : .cell id ∈ others) : s.InUse id ∧ .cell id ∉ taken := by
    rcases (first.inUse id).mp (second.taken id ((takes _).mpr (.inr here))) with used | there
    · exact used
    · exact absurd there (elsewhere id here)
  have untouched {id : LocalId} (here : .cell id ∈ others) : .cell id ∉ given := fun there =>
    elsewhere id here (mem_append_right _ there)
  refine ⟨first.start, second.sound, first.keeps.trans second.keeps,
    fun label pending => second.pending label (first.pending label pending), ?_, ?_, ?_, ?_, ?_,
    ?_, ?_, ?_, ?_, ?_, flows_compose mine others first second takes reached⟩
  · intro label mem
    rcases mem_append.mp mem with earlier | later
    · obtain ⟨pending, above⟩ := first.made label earlier
      exact ⟨second.pending label pending, above⟩
    · obtain ⟨pending, above⟩ := second.made label later
      exact ⟨pending, le_trans (first.keeps.labelCount_le first.start) above⟩
  · refine nodup_append.mpr ⟨first.made_nodup, second.made_nodup, ?_⟩
    rintro label earlier _ later rfl
    have below := (first.made label earlier).1.lt
    exact Nat.not_le_of_lt below (second.made label later).2
  · intro label mem
    rcases mem_append.mp mem with later | earlier
    · obtain ⟨placed, above⟩ := second.settled label later
      exact ⟨placed, le_trans (first.keeps.labelCount_le first.start) above⟩
    · obtain ⟨placed, above⟩ := first.settled label earlier
      exact ⟨second.keeps.placed first.sound placed, above⟩
  · intro label mem
    rcases mem_append.mp mem with later | earlier
    · exact second.owed label later
    · exact lt_of_lt_of_le (first.owed label earlier) (second.keeps.labelCount_le first.sound)
  · intro label owes
    rcases second.owes label owes with before | added | ⟨leaving, exits⟩
    · rcases first.owes label before with start | added | ⟨leaving, exits⟩
      · exact .inl start
      · exact .inr (.inl (mem_append_right _ added))
      · exact .inr (.inr ⟨by simp [show leaves = true from leaving], exits⟩)
    · exact .inr (.inl (mem_append_left _ added))
    · exact .inr (.inr ⟨by simp [leaving], first.keeps.frame ▸ exits⟩)
  · intro id
    have middle := first.inUse id
    have last := second.inUse id
    simp only [mem_append, takes, not_or] at middle last ⊢
    rw [last, middle]
    constructor
    · rintro (⟨⟨used, kept⟩ | here | there, gone, left⟩ | added)
      · exact .inl ⟨used, left, kept⟩
      · exact absurd here gone
      · exact .inr (.inr there)
      · exact .inr (.inl added)
    · rintro (⟨used, left, kept⟩ | added | there)
      · exact .inl ⟨.inl ⟨used, kept⟩, fun here => kept (new here used), left⟩
      · exact .inr added
      · exact .inl ⟨.inr (.inr there), fun here => ne here there,
          fun here => untouched here there⟩
  · intro id mem
    rcases mem_append.mp mem with here | earlier
    · exact (old here).1
    · exact first.taken id earlier
  · intro id mem used
    by_contra kept
    rw [mem_append, not_or] at kept
    have middle := (first.inUse id).mpr (.inl ⟨used, kept.2⟩)
    rcases mem_append.mp mem with added | there
    · rcases (takes _).mp (second.fresh id added middle) with here | here
      · exact kept.2 (new here used)
      · exact kept.1 here
    · exact kept.2 (first.fresh id (mem_append_right _ there) used)
  · refine pairwise_append.mpr ⟨second.apart, apart.2.1, ?_⟩
    rintro a added b there id rfl rfl
    have middle := (first.inUse id).mpr (.inr (mem_append_right _ there))
    rcases (takes _).mp (second.fresh id added middle) with here | here
    · exact ne here there
    · exact untouched here there
  · intro a mem
    rcases mem_append.mp mem with added | there
    · exact second.holds a added
    · exact second.keeps.holds (first.holds a (mem_append_right _ there))

end

/-- Two steps in a row, the second of which takes the last operands that the first gives and may
jump to labels of the first. -/
lemma andThenTo
    (first : s.Moves s'
      { made, settled, owed, leaves, uncharted, taken, given := l.taken ++ given })
    (second : s'.Moves s'' l)
    (reached : ∀ label ∈ l.owed, label < s.labelCount ∨ label ∈ made ∨ label ∈ settled) :
    s.Moves s'' { made := made ++ l.made, settled := l.settled ++ settled, owed := l.owed ++ owed,
                  leaves := leaves || l.leaves, uncharted := uncharted || l.uncharted,
                  taken, given := l.given ++ given } :=
  first.compose l.taken [] second (by simp) reached (by simp)

lemma andThen
    (first : s.Moves s'
      { made, settled, owed, leaves, uncharted, taken, given := taken' ++ given })
    (second : s'.Moves s'' { made := made', settled := settled', leaves := leaves',
                             uncharted := uncharted', taken := taken', given := given' }) :
    s.Moves s'' { owed, made := made ++ made', settled := settled' ++ settled,
                  leaves := leaves || leaves', uncharted := uncharted || uncharted',
                  taken, given := given' ++ given } :=
  first.andThenTo second (by simp)

section

variable (first : s.Moves s' { made, settled, owed, leaves, uncharted, taken, given })
include first

lemma takeTo (second : s'.Moves s'' l) (elsewhere : ∀ id, .cell id ∈ l.taken → .cell id ∉ given)
    (reached : ∀ label ∈ l.owed, label < s.labelCount ∨ label ∈ made ∨ label ∈ settled) :
    s.Moves s'' { made := made ++ l.made, settled := l.settled ++ settled, owed := l.owed ++ owed,
                  leaves := leaves || l.leaves, uncharted := uncharted || l.uncharted,
                  taken := l.taken ++ taken,
                  given := l.given ++ given } :=
  first.compose [] l.taken second (by simp) reached elsewhere

lemma take
    (second : s'.Moves s''
      { made := made', settled := settled', leaves := leaves', uncharted := uncharted',
        taken := taken', given := given' })
    (elsewhere : ∀ id, .cell id ∈ taken' → .cell id ∉ given) :
    s.Moves s'' { owed, made := made ++ made', settled := settled' ++ settled,
                  leaves := leaves || leaves', uncharted := uncharted || uncharted',
                  taken := taken' ++ taken, given := given' ++ given } :=
  first.takeTo second elsewhere (by simp)

end

lemma place
    (first : s.Moves s' { made := label :: made, settled, owed, leaves, uncharted, taken, given })
    (second : s'.Places s'' label) :
    s.Moves s'' { made, settled := label :: settled, owed, leaves, uncharted, taken, given } := by
  have nodup := nodup_cons.mp first.made_nodup
  have above := (first.made label (by simp)).2
  refine ⟨first.start, second.sound, first.keeps.trans second.keeps, ?_, ?_, nodup.2, ?_, ?_, ?_,
    ?_, first.taken, first.fresh, first.apart, fun a mem =>
      second.keeps.holds (first.holds a mem), ?_⟩
  · intro other pending
    refine second.pending other (first.pending other pending) ?_
    rintro rfl
    exact Nat.not_le_of_lt pending.lt above
  · intro other mem
    obtain ⟨pending, made_later⟩ := first.made other (by simp [mem])
    refine ⟨second.pending other pending ?_, made_later⟩
    rintro rfl
    exact nodup.1 mem
  · intro other mem
    rcases mem_cons.mp mem with rfl | earlier
    · exact ⟨second.placed, above⟩
    · obtain ⟨placed, made_later⟩ := first.settled other earlier
      exact ⟨second.keeps.placed first.sound placed, made_later⟩
  · intro other mem
    exact lt_of_lt_of_le (first.owed other mem) (second.keeps.labelCount_le first.sound)
  · intro other owes
    exact first.owes other (second.owes other owes).1
  · intro id
    rw [second.inUse id]
    exact first.inUse id
  · intro known aim F charted spared aimed exits
    obtain ⟨aim', old, new, charted'⟩ := first.flows known aim F charted spared aimed exits
    refine ⟨aim', old, fun other own => new other ?_, second.flows aim' F charted' ?_⟩
    · rcases own with own | own
      · exact .inl (mem_cons_of_mem _ own)
      · rcases mem_cons.mp own with rfl | own
        · exact .inl mem_cons_self
        · exact .inr own
    · exact new label (.inl mem_cons_self)

lemma close (moves : s.Moves s' l)
    (covered : ∀ label ∈ l.owed, label ∈ owed ∨ label ∈ l.settled) (known : s.Knows owed) :
    s.Moves s'
      { owed, leaves := l.leaves, uncharted := l.uncharted, taken := l.taken,
        given := l.given } where
  __ := moves
  made _ absent := by cases absent
  made_nodup := nodup_nil
  settled _ absent := by cases absent
  owed label member := moves.knows known label member
  owes label owes := by
    rcases moves.owes label owes with before | added | leaving
    · exact .inl before
    · rcases covered label added with allowed | settled
      · exact .inr (.inl allowed)
      · exact absurd owes (moves.settled label settled).1.not_owes
    · exact .inr (.inr leaving)
  flows known aim F charted spared aimed exits := by
    obtain ⟨aim', old, -, charted'⟩ := moves.flows known aim F charted spared
      (fun label member inside => by
        rcases covered label member with allowed | settled
        · exact aimed label allowed inside
        · exact absurd inside (Nat.not_lt_of_le (moves.settled label settled).2)) exits
    exact ⟨aim', old, by simp, charted'⟩

lemma reorder (moves : s.Moves s' l) (same : l.given.Perm given) : s.Moves s' { l with given } where
  __ := moves
  inUse id := by rw [moves.inUse id, same.mem_iff]
  fresh id member := moves.fresh id (same.mem_iff.mpr member)
  apart := same.pairwise moves.apart fun away id here there => away id there here
  holds a member := moves.holds a (same.mem_iff.mpr member)

lemma forget
    (moves : s.Moves s' { made, settled, owed, leaves, uncharted, taken, given := a :: given })
    (other_kind : ∀ id, a ≠ .cell id) :
    s.Moves s' { made, settled, owed, leaves, uncharted, taken, given } where
  __ := moves
  inUse id := by
    have none_here := (other_kind id).symm
    simpa [none_here] using moves.inUse id
  fresh id member := moves.fresh id (mem_cons_of_mem _ member)
  apart := (pairwise_cons.mp moves.apart).2
  holds b member := moves.holds b (mem_cons_of_mem _ member)

lemma retake (moves : s.Moves s' l)
    (same : ∀ id, .cell id ∈ taken ↔ .cell id ∈ l.taken) : s.Moves s' { l with taken } where
  __ := moves
  inUse id := by rw [moves.inUse id, same]
  taken id member := moves.taken id ((same id).mp member)
  fresh id member used := (same id).mpr (moves.fresh id member used)
  flows known aim F charted spared := moves.flows known aim F charted fun id origin known =>
      (spared id origin known).mono (same id).mpr

lemma balance (moves : s.Moves s' l) (covered : ∀ label ∈ l.owed, label ∈ owed ∨ label ∈ l.settled)
    (same : ∀ id, .cell id ∈ taken ↔ .cell id ∈ l.taken) (perm : l.given.Perm given)
    (known : s.Knows owed) :
    s.Moves s' { owed, leaves := l.leaves, uncharted := l.uncharted, taken, given } :=
  ((moves.close covered known).retake same).reorder perm

lemma give (moves : s.Moves s' { made, settled, owed, leaves, uncharted, taken, given })
    (other_kind : ∀ id, a ≠ .cell id) (holds : s'.Holds a) :
    s.Moves s' { made, settled, owed, leaves, uncharted, taken, given := a :: given } where
  __ := moves
  inUse id := by
    have none_here := (other_kind id).symm
    simpa [none_here] using moves.inUse id
  fresh id member := by
    rcases mem_cons.mp member with same | inner
    · exact absurd same.symm (other_kind id)
    · exact moves.fresh id inner
  apart := pairwise_cons.mpr ⟨fun b _ id here => absurd here (other_kind id), moves.apart⟩
  holds b member := by
    rcases mem_cons.mp member with rfl | inner
    · exact holds
    · exact moves.holds b inner

lemma chart (moves : s.Moves s' l) (flows : s.FlowsTo s' l fun F => F) :
    s.Moves s' { l with uncharted := false } where
  __ := moves
  flows _ := flows

lemma unchart (moves : s.Moves s' l) : s.Moves s' { l with uncharted := true } where
  __ := moves
  flows said := by cases said

end Moves

end Lowering
end Scriptc
