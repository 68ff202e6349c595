import Scriptc.Proofs.Lowering.Literals

/-!
# Calls of lowered code

The callee is evaluated first, then the arguments from left to right. A value that a later argument
could change is copied. All are staged before the call, so that their temporaries are free for its
result.
-/

namespace Scriptc

open List Evaluation Operand Nat

namespace Flow

variable {callee : Callee} {aim : Label → Flow}

def grown (F : Flow) (id : LocalId) (origin : Origin) : Flow :=
  { F with holds := fun other from_ => F.holds other from_ ∨ other = id ∧ from_ = origin }

lemma le_grown (F : Flow) (id : LocalId) (origin : Origin) : F ≤ F.grown id origin :=
  ⟨rfl, fun _ _ => .inl⟩

/-- What is known once a callee is evaluated: a copy holds the value of its variable. -/
def knowing (F : Flow) : Callee → Flow
  | .pinned v (.cell id) => F.grown id (.variable v)
  | _ => F

lemma le_knowing (F : Flow) (callee : Callee) : F ≤ F.knowing callee := by
  unfold knowing
  split
  · exact F.le_grown _ _
  · exact le_refl F

lemma knowing_holds {F : Flow} {id : LocalId} {origin : Origin}
    (holds : (F.knowing callee).holds id origin) :
    F.holds id origin ∨ callee.operand = .cell id := by
  unfold knowing at holds
  split at holds
  · rcases holds with known | ⟨rfl, -⟩
    · exact .inl known
    · exact .inr rfl
  · exact .inl holds

end Flow

namespace Routine

lemma Charted.appendAll {r : Routine} {start : BlockId → Flow} {now : Flow}
    (charted : r.Charted aim start now) (sound : r.Sound) {instructions : List Instruction}
    (plain : ∀ i ∈ instructions, i.isPlain = true ∧ ∀ id, .cell id ∉ i.touched) :
    (r.appendAll instructions).Charted aim start now := by
  induction instructions generalizing r with
  | nil => exact charted
  | cons i rest ih =>
    obtain ⟨needs, leaves⟩ := plain i mem_cons_self
    have first := (charted.appended sound (Flow.admits_of_plain needs)).weaken
      (Flow.le_after needs fun id _ _ => leaves id)
    exact ih first (edits_appended sound i).sound fun j mem => plain j (mem_cons_of_mem _ mem)

lemma plain_of_staging {slot : SlotId} {args : List Operand} {i : Instruction}
    (mem : i ∈ staging slot args) :
    (i.isPlain = true ∧ ∀ id, .cell id ∉ i.touched) ∧ (∀ v, .var v ∉ i.dests) ∧
      ∃ k a, i = .assign (.slot k) a ∧ k < slot + args.length ∧ a ∈ args := by
  induction args generalizing slot with
  | nil => cases mem
  | cons a rest ih =>
    rcases mem_cons.mp mem with rfl | later
    · refine ⟨⟨rfl, by simp [Instruction.touched, Instruction.dests]⟩,
        by simp [Instruction.dests], slot, a, rfl, by simp, by simp⟩
    · obtain ⟨plain, unwritten, k, b, same, below, inside⟩ := ih later
      exact ⟨plain, unwritten, k, b, same, succ_add_eq_add_succ slot rest.length ▸ below,
        mem_cons_of_mem _ inside⟩

end Routine

namespace Memory

variable {V : Type} (rt : Runtime V)

def staged (m : Memory V) (slot : SlotId) : List Operand → Memory V
  | [] => m
  | a :: rest => (m.write (.slot slot) (m.read rt a)).staged (slot + 1) rest

lemma read_write_slot (m : Memory V) (slot : SlotId) (v : V) {a : Operand}
    (unstaged : ∀ id, a ≠ .slot id) : (m.write (.slot slot) v).read rt a = m.read rt a := by
  cases a <;> first | rfl | exact absurd rfl (unstaged _)

lemma staged_fields (m : Memory V) (slot : SlotId) (args : List Operand) :
    ∃ slots, m.staged rt slot args = { m with slots } ∧ ∀ k, k < slot → slots k = m.slots k := by
  induction args generalizing m slot with
  | nil => exact ⟨m.slots, rfl, fun _ _ => rfl⟩
  | cons a rest ih =>
    obtain ⟨slots, same, below⟩ := ih (m.write (.slot slot) (m.read rt a)) (slot + 1)
    refine ⟨slots, same, fun k less => (below k (lt_succ_of_lt less)).trans ?_⟩
    exact Function.update_of_ne (Nat.ne_of_lt less) _ _

lemma slots_staged (m : Memory V) (slot : SlotId) {args : List Operand}
    (unstaged : ∀ a ∈ args, ∀ id, a ≠ .slot id) :
    (range' slot args.length).map (m.staged rt slot args).slots = args.map (m.read rt) := by
  induction args generalizing m slot with
  | nil => rfl
  | cons a rest ih =>
    have others := ih (m.write (.slot slot) (m.read rt a)) (slot + 1) fun b mem =>
      unstaged b (mem_cons_of_mem _ mem)
    have same : rest.map ((m.write (.slot slot) (m.read rt a)).read rt) = rest.map (m.read rt) :=
      map_congr_left fun b mem =>
        m.read_write_slot rt slot _ (unstaged b (mem_cons_of_mem _ mem))
    obtain ⟨slots, staged, below⟩ :=
      (m.write (.slot slot) (m.read rt a)).staged_fields rt (slot + 1) rest
    have first : (m.staged rt slot (a :: rest)).slots slot = m.read rt a := by
      rw [Memory.staged, staged]
      exact (below slot (lt_succ_self slot)).trans (Function.update_self _ _ _)
    rw [length_cons, range'_succ, map_cons, first]
    exact congrArg _ (others.trans same)

end Memory

namespace Routine

variable {V : Type} {rt : Runtime V}

lemma steps_staging {r : Routine} (sound : r.Sound) (slot : SlotId) (args : List Operand)
    (m : Memory V) : ∃ n, (r.appendAll (staging slot args)).Steps rt n ⟨r.point, m⟩
      ⟨(r.appendAll (staging slot args)).point, m.staged rt slot args⟩ := by
  induction args generalizing r m slot with
  | nil => exact ⟨0, .refl _⟩
  | cons a rest ih =>
    have performs : m.perform rt (.assign (.slot slot) a) =
        some (.goes (m.write (.slot slot) (m.read rt a))) := rfl
    have first := step_appended sound performs
    have edits := edits_appended sound (.assign (.slot slot) a)
    obtain ⟨n, later⟩ := ih edits.sound (slot + 1) (m.write (.slot slot) (m.read rt a))
    have grows := (edits_appendAll edits.sound (staging (slot + 1) rest)).grows
    exact ⟨_, .next (step_grows grows sound.point_outside first) later⟩

end Routine

namespace Lowering

variable {operands : List Operand} {l : Ledger} {receiver : Operand}

variable {V : Type} {rt : Runtime V} {s s' s'' : Lowering}

/-- Whether a step changes nothing but the temporaries that are in use. -/
structure Still (s s' : Lowering) : Prop where
  quiet : s.Quiet s'
  blocks : s'.code.blocks = s.code.blocks
  labels : s'.code.labels = s.code.labels
  current : s'.code.current = s.code.current

lemma Still.refl (s : Lowering) : s.Still s := ⟨.refl s, rfl, rfl, rfl⟩

lemma Still.trans (first : s.Still s') (second : s'.Still s'') : s.Still s'' :=
  ⟨first.quiet.trans second.quiet, second.blocks.trans first.blocks,
    second.labels.trans first.labels, second.current.trans first.current⟩

lemma Still.charted (still : s.Still s') {now : Flow} (charted : s.Charted aim now) :
    s'.Charted aim now :=
  charted.imp fun _ known => known.of_same still.blocks still.labels still.current

lemma still_withTemps (sound : s.Sound) {isTemp : Array Bool} {free : List LocalId}
    (grows : s.code.Grows (s.code.withTemps isTemp free)) :
    s.Still (s.withCode (s.code.withTemps isTemp free)) := by
  refine ⟨quiet_withCode sound grows rfl rfl, ?_, ?_, ?_⟩ <;> rw [sound.withCode_code] <;> rfl

lemma release_still (sound : s.Sound) {a : Operand} (ready : s.Ready a) :
    Runs (release a) s fun _ s' => s.Moves s' { taken := [a] } ∧ s.Still s' := by
  obtain ⟨_, s', run, moves, -⟩ := release_moves sound ready.inUse
  have edited : Runs (release a) s fun _ s' => s.Still s' := by
    refine inCode_runs sound ((Routine.release_runs sound.code_sound ready.inUse).mono ?_)
    rintro - r ⟨free, rfl, edits, -⟩
    exact still_withTemps sound edits.grows
  exact ⟨_, s', run, moves, edited.holds_of_run run⟩

lemma allocTemp_still (sound : s.Sound) :
    Runs allocTemp s fun a s' => (∃ id, a = .cell id) ∧ s.Moves s' { given := [a] } ∧
      s.Still s' := by
  obtain ⟨a, s', run, cell, moves, -⟩ := allocTemp_moves sound
  have edited : Runs allocTemp s fun _ s' => s.Still s' := by
    refine inCode_runs sound ((Routine.allocTemp_runs sound.code_sound).mono ?_)
    rintro _ r ⟨id, isTemp, free, rfl, rfl, edits, -⟩
    exact still_withTemps sound edits.grows
  exact ⟨a, s', run, cell, moves, edited.holds_of_run run⟩

lemma releaseAll_still (sound : s.Sound) (ready : ∀ a ∈ operands, s.Ready a)
    (apart : operands.Pairwise Apart) :
    Runs (releaseAll operands) s fun _ s' => s.Moves s' { taken := operands } ∧ s.Still s' := by
  induction operands generalizing s with
  | nil => exact .pure ⟨.refl sound, .refl s⟩
  | cons a rest ih =>
    obtain ⟨away, apart⟩ := pairwise_cons.mp apart
    refine (release_still sound (ready a (by simp))).step fun _ s1 ⟨first, still1⟩ => ?_
    have still_ready : ∀ b ∈ rest, s1.Ready b := fun b mem =>
      first.still_ready (ready b (mem_cons_of_mem _ mem)) fun id here => by
        simpa using fun same => away b mem id same.symm here
    refine (ih first.sound still_ready apart).mono fun _ s2 ⟨second, still2⟩ => ?_
    refine ⟨(first.take second (by simp)).retake fun id => ?_, still1.trans still2⟩
    simp [or_comm]

lemma staged_moves (rt : Runtime V) (moves : s.Moves s' l) {args : List Operand} {count : Nat}
    (enough : args.length ≤ count) (fits : ∀ a ∈ args, s'.Fits a) :
    s.Moves (s'.withCode ((s'.code.withSlots count).appendAll (Routine.staging 0 args))) l ∧
      (∀ aim F, s'.Charted aim F →
        (s'.withCode ((s'.code.withSlots count).appendAll (Routine.staging 0 args))).Charted aim
          F) ∧
      s'.Does rt (s'.withCode ((s'.code.withSlots count).appendAll (Routine.staging 0 args)))
        fun m =>
          ⟨(s'.withCode ((s'.code.withSlots count).appendAll (Routine.staging 0 args))).point,
          m.staged rt 0 args⟩ := by
  have sound := moves.sound
  have slots := Routine.edits_withSlots sound.code_sound count
  have staging := Routine.edits_appendAll slots.sound (Routine.staging 0 args)
  have fields := Routine.appendAll_fields (s'.code.withSlots count) (Routine.staging 0 args)
  have edits := (slots.mono (fun _ absent => absent.elim) fun _ absent => absent).trans staging
  have later := sound.extends_withCode edits.grows
  have charts {aim : Label → Flow} {start : BlockId → Flow} {F : Flow}
      (charted : s'.code.Charted aim start F) :
      ((s'.code.withSlots count).appendAll (Routine.staging 0 args)).Charted aim start F := by
    have same : (s'.code.withSlots count).Charted aim start F := charted.of_same rfl rfl rfl
    exact same.appendAll slots.sound fun i mem => (Routine.plain_of_staging mem).1
  refine ⟨moves.edit edits ?_ fields.1 fields.2.1 fields.2.2.1 ?_ ?_ fun _ _ _ _ charted _ =>
    charts charted, fun aim F ⟨start, charted⟩ => ⟨start, ?_⟩, ⟨sound, later, later.steady rfl⟩,
    fun m => ?_⟩
  · intro i mem
    obtain ⟨-, -, k, a, rfl, below, inside⟩ := Routine.plain_of_staging mem
    refine instructionFits_assign ?_ (later.fits (fits a inside)) rfl
    have room : k < max s'.code.argSlotCount count := lt_of_lt_of_le (zero_add args.length ▸ below)
        (le_trans enough (le_max_right _ _))
    refine ⟨_, (sound.withCode_routines _ _).trans (if_pos rfl), ?_⟩
    rw [fields.2.2.2]
    exact room
  · intro i mem v written
    exact absurd written ((Routine.plain_of_staging mem).2.1 v)
  · intro i mem v written
    exact absurd written ((Routine.plain_of_staging mem).2.1 v)
  · rw [sound.withCode_code]
    exact charts charted
  · obtain ⟨n, steps⟩ := Routine.steps_staging slots.sound 0 args m
    refine ⟨sound.point_outside, n, ?_⟩
    simp only [point, sound.withCode_code]
    exact steps

def callOf (callee : Callee) (function : V) (operands : List V) : Event V :=
  .call (match callee with
    | .construct _ => true
    | _ => false) function operands

lemma callEvent_eq (rt : Runtime V) (m : Memory V) (callee : Callee) (argc : Nat) :
    m.callEvent rt callee argc =
      callOf callee (m.read rt callee.operand) ((range argc).map m.slots) := rfl

lemma call_spec (rt : Runtime V) (moves : s.Moves s' l) (said : l.uncharted = true)
    {dest : Option LocalId} (mine : ∀ id, dest = some id → .cell id ∈ l.given)
    {args : List Operand} (callee_fits : s'.Fits callee.operand)
    (unstaged : ∀ id, callee.operand ≠ .slot id)
    (refers : ∀ routine closure, callee = .direct routine closure → routine < s'.unit.routines.size)
    (holds : ∀ a ∈ receiver :: args, s'.Holds a) :
    Runs (inCode (Routine.call (dest.map .cell) callee receiver args)) s' fun _ s'' =>
      s.Moves s'' l ∧
        (∀ aim F G, s'.Charted aim G → F ≤ G → (∀ id origin, F.holds id origin → dest ≠ some id) →
          (∀ dest argc, G.Admits (.call dest callee argc)) → s''.Charted aim F) ∧ s'.Follows s'' ∧
          ∀ (m : Memory V) (kept : LocalId → Prop), (∀ id, dest = some id → ¬kept id) →
            s''.Performs rt kept ⟨s'.point, m⟩ (ask rt (callOf callee
              (m.read rt callee.operand) ((receiver :: args).map (m.read rt))) m.world)
              (fun _ => s''.point) fun value m' => ∀ id, dest = some id →
                m'.cells id = value 0 := by
  have sound := moves.sound
  have enough : (receiver :: args).length ≤ args.length + 1 := le_refl _
  obtain ⟨staged, charts, stages⟩ := staged_moves rt moves enough fun a mem => (holds a mem).1
  generalize stage_eq : s'.withCode ((s'.code.withSlots (args.length + 1)).appendAll
    (Routine.staging 0 (receiver :: args))) = s1 at staged charts stages
  have code : s1.code = (s'.code.withSlots (args.length + 1)).appendAll
      (Routine.staging 0 (receiver :: args)) := by rw [← stage_eq, sound.withCode_code]
  have emitted : s'.withCode ((s'.code.withSlots (args.length + 1)).appendAll
      (Routine.callInstructions (dest.map .cell) callee receiver args)) =
        s1.withCode (s1.code.appended (.call (dest.map .cell) callee (args.length + 1))) := by
    rw [code, ← stage_eq]
    simp [withCode, Routine.callInstructions, Routine.appendAll]
  have run := inCode_run sound (Routine.call_run sound.code_sound (dest.map .cell) callee
    receiver args)
  rw [emitted] at run
  refine ⟨⟨⟩, _, run, ?_⟩
  have edits := Routine.edits_appended staged.sound.code_sound
    (.call (dest.map .cell) callee (args.length + 1))
  have later := staged.sound.extends_withCode edits.grows
  refine ⟨staged.appended ?_ (by simp [said]) ?_ ?_, fun aim F G charted le spared admits => ?_,
    stages.follows.trans ⟨staged.sound, later, later.steady rfl⟩, fun m kept free => ?_⟩
  · have room : args.length + 1 ≤ s1.code.argSlotCount := by
      rw [code, (Routine.appendAll_fields _ _).2.2.2]
      exact le_max_right _ _
    refine ⟨fun a mem => ?_, ⟨⟨s1.code, staged.sound.code_found, room⟩, ?_⟩, fun a mem => ?_⟩
    · simp only [Instruction.operands, mem_append, mem_singleton] at mem
      rcases mem with written | rfl
      · obtain ⟨id, here, rfl⟩ : ∃ id, dest = some id ∧ .cell id = a := by simpa using written
        exact staged.fits (mine id here)
      · exact stages.follows.keeps.fits callee_fits
    · intro routine closure here
      exact lt_of_lt_of_le (refers routine closure here) stages.follows.keeps.count
    · obtain ⟨id, -, rfl⟩ : ∃ id, dest = some id ∧ .cell id = a := by
        simpa [Instruction.dests] using mem
      rfl
  · intro v written
    simp [Instruction.dests] at written
  · intro id touched
    exact mine id (by simpa [Instruction.touched, Instruction.dests] using touched)
  · obtain ⟨start, charted⟩ := charts aim G charted
    refine ⟨start, ?_⟩
    rw [staged.sound.withCode_code]
    refine (charted.appended staged.sound.code_sound (admits _ _)).weaken
      ⟨le.1, fun id origin known => .inl ⟨le.2 id origin known, ?_⟩⟩
    simpa [Instruction.touched, Instruction.dests] using spared id origin known
  · have follows : s1.Follows _ := ⟨staged.sound, later, later.steady rfl⟩
    obtain ⟨slots, same, -⟩ := m.staged_fields rt 0 (receiver :: args)
    have event : (m.staged rt 0 (receiver :: args)).callEvent rt callee (args.length + 1) =
        callOf callee (m.read rt callee.operand) ((receiver :: args).map (m.read rt)) := by
      have values := m.slots_staged rt 0 fun a mem => (holds a mem).2
      have function : (m.staged rt 0 (receiver :: args)).read rt callee.operand =
          m.read rt callee.operand := by
        rw [same]
        cases here : callee.operand <;> first | rfl | exact absurd here (unstaged _)
      rw [callEvent_eq, function, range_eq_range', ← values]
      rfl
    have performs : (m.staged rt 0 (receiver :: args)).perform rt
        (.call (dest.map .cell) callee (args.length + 1)) =
        some ((m.staged rt 0 (receiver :: args)).ask rt (callOf callee (m.read rt callee.operand)
          ((receiver :: args).map (m.read rt))) (dest.toList.map .cell)) := by
      rw [Memory.perform, event]
      cases dest <;> rfl
    have asks := performs_asked rt staged.sound dest.toList kept performs (by simpa using free)
    have goes := (stages.goes m).later follows
    have world : (m.staged rt 0 (receiver :: args)).world = m.world := by rw [same]
    rw [world] at asks
    refine .after goes ⟨fun _ _ => by rw [same], by rw [same], by rw [same], by rw [same]⟩ ?_
    refine asks.mono (fun _ keep => keep) fun value m' _ _ written id here => ?_
    rw [written, here]
    exact Function.update_self _ _ _

lemma emitCall_spec (rt : Runtime V) (sound : s.Sound) {function : Operand} {args : List Operand}
    (ready : ∀ a ∈ function :: receiver :: args, s.Ready a)
    (apart : (function :: receiver :: args).Pairwise Apart) (reads : callee.operand = function)
    (refers : ∀ routine closure, callee = .direct routine closure → routine < s.unit.routines.size)
    (needed : Bool) : Runs (emitCall callee function receiver args needed) s fun a s' =>
      s.Moves s' { uncharted := true, taken := function :: receiver :: args, given := [a] } ∧
        (∀ aim F G, s.Charted aim G → F ≤ G →
          (∀ id origin, F.holds id origin → s.Spared (function :: receiver :: args) id) →
            (∀ dest argc, G.Admits (.call dest callee argc)) → s'.Charted aim F) ∧
          s.Acts rt s' (function :: receiver :: args) (.ofNeed needed) a fun _ m =>
            request rt (callOf callee (m.read rt function)
              ((receiver :: args).map (m.read rt))) := by
  have freed : emitCall callee function receiver args needed =
      (releaseAll (function :: receiver :: args) >>= fun _ =>
        if needed then do
          let dest ← allocTemp
          inCode (Routine.call (some dest) callee receiver args)
          pure dest
        else do
          inCode (Routine.call none callee receiver args)
          pure .undefined) := by
    simp only [emitCall, releaseAll, bind_assoc]
  rw [freed]
  refine (releaseAll_still sound ready apart).step fun _ s1 ⟨moves1, still1⟩ => ?_
  subst reads
  -- What is the same in both cases: a call from a state that differs in its temporaries only.
  have called {s2 : Lowering} {d : Option LocalId} {given : List Operand} {a : Operand}
      (moves2 : s.Moves s2 { taken := callee.operand :: receiver :: args, given })
      (still2 : s.Still s2) (mine : ∀ id, d = some id → .cell id ∈ given)
      (result : ∀ (v : V) (m : Memory V), (∀ id, d = some id → m.cells id = v) →
        (Demand.ofNeed needed).Met rt a v m) :
      Runs (inCode (Routine.call (d.map .cell) callee receiver args)) s2 fun _ s' =>
        s.Moves s' { uncharted := true, taken := callee.operand :: receiver :: args, given } ∧
          (∀ aim F G, s.Charted aim G → F ≤ G →
            (∀ id origin, F.holds id origin → s.Spared (callee.operand :: receiver :: args) id) →
              (∀ dest argc, G.Admits (.call dest callee argc)) → s'.Charted aim F) ∧
            s.Acts rt s' (callee.operand :: receiver :: args) (.ofNeed needed) a fun _ m =>
              request rt (callOf callee (m.read rt callee.operand)
                ((receiver :: args).map (m.read rt))) := by
    have held {a : Operand} (mem : a ∈ callee.operand :: receiver :: args) : s2.Holds a :=
      moves2.keeps.holds (ready a mem).holds
    refine (call_spec rt moves2.unchart rfl mine (held (by simp)).1 (held (by simp)).2
      (fun routine closure same => lt_of_lt_of_le (refers routine closure same) moves2.keeps.count)
      fun a mem => held (mem_cons_of_mem _ mem)).mono ?_
    rintro - s3 ⟨moves3, charts, follows, performs⟩
    refine ⟨moves3, fun aim F G charted le spared => charts aim F G (still2.charted charted) le ?_,
      (moves2.follows still2.quiet).trans follows, fun ctx m _ => ?_⟩
    · rintro id origin known rfl
      exact moves2.not_spared (mine id rfl) (spared id origin known)
    · have asks := performs m (s.Spared (callee.operand :: receiver :: args)) fun id here =>
        moves2.not_spared (mine id here)
      rw [still2.quiet.point] at asks
      refine asks.bind fun value m' _ _ read => ?_
      have arrives : (Demand.ofNeed needed).arrival rt (s3.point : Point V) =
          fun _ => s3.point := by
        cases needed <;> rfl
      rw [arrives]
      exact .stays moves3.sound (result _ m' read)
  cases needed with
  | true =>
    refine (allocTemp_still moves1.sound).step ?_
    rintro _ s2 ⟨⟨id, rfl⟩, fresh, still2⟩
    have both := moves1.andThen fresh
    exact (called (a := .cell id) both (still1.trans still2) (by simp) fun v m read =>
      read id rfl).step fun _ s3 done => Runs.pure done
  | false =>
    refine (called (d := none) (a := .undefined) moves1 still1 (by simp) fun _ _ _ =>
      trivial).step ?_
    rintro - s3 ⟨moves3, charts, acts⟩
    exact Runs.pure ⟨moves3.give_constant _, charts, acts⟩

lemma Computes.holding {α : Type} {eval : Context V → Memory V → Evaluation V α}
    {post : α → Memory V → Prop} (computes : s.Computes rt s' eval post)
    (ready : ∀ a ∈ operands, s.Ready a) {ctx : Context V} {m : Memory V} (suits : s'.Suits ctx m)
    (leaves : ∀ v, .var v ∈ operands → ∀ x w, eval ctx m m.world = .ok x w →
      w.vars v = m.world.vars v) :
    s'.Performs rt s.InUse ⟨s.point, m⟩ (eval ctx m m.world) (fun _ => s'.point)
      fun x m' => post x m' ∧ ∀ a ∈ operands, m'.read rt a = m.read rt a := by
  refine (computes.performs ctx m suits).mono (fun _ used => used) fun x m' run same holds => ?_
  refine ⟨holds, fun a mem => ?_⟩
  refine same.read (ready a mem).holds.2 (ready a mem).inUse fun v here => ?_
  exact leaves v (here ▸ mem) x m'.world run

/-- What the code of arguments does. Arguments whose code is simple have no effects. -/
structure ArgumentsSpec (rt : Runtime V) (args : List ArgumentCode) (covered : Prop)
    (eval : Action V (List V)) : Prop where
  runs : ∀ s : Lowering, s.Sound → Runs (evalArguments args) s fun operands s' =>
    s.Moves s' { given := operands } ∧ (covered → s.Computes rt s' (fun ctx _ => eval ctx)
      fun values m => operands.map (m.read rt) = values)
  simple : covered → args.all ArgumentCode.isSimple = true → ∀ ctx w, ∃ vs, eval ctx w = .ok vs w

namespace ArgumentsSpec

variable {e : Lowered} {rest : List ArgumentCode} {covered coversRest : Prop}
  {eval : Action V V} {evalRest : Action V (List V)}

lemma nil : ArgumentsSpec rt [] covered fun _ => pure [] where
  runs _ sound := .pure ⟨.refl sound, fun _ => .pure sound fun _ => rfl⟩
  simple _ _ _ _ := ⟨[], rfl⟩

lemma leaves (spec : ArgumentsSpec rt rest coversRest evalRest) (known : coversRest)
    {operands : List Operand}
    (pinned : (!rest.all ArgumentCode.isSimple) = true → ∀ v, .var v ∉ operands) (ctx : Context V)
    (w : World V) (v : VariableId) (mem : .var v ∈ operands) (x : List V) (w' : World V)
    (run : evalRest ctx w = .ok x w') : w'.vars v = w.vars v := by
  cases simple : rest.all ArgumentCode.isSimple with
  | false => exact absurd mem (pinned (by simp [simple]) v)
  | true =>
    obtain ⟨y, unchanged⟩ := spec.simple known simple ctx w
    rw [(EStateM.Result.ok.inj (unchanged.symm.trans run)).2]

section

variable (spec : e.Spec rt covered eval) (others : ArgumentsSpec rt rest coversRest evalRest)
include spec others

lemma cons : ArgumentsSpec rt (.value e :: rest) (covered ∧ coversRest) (fun ctx => do
      let x ← eval ctx
      return x :: (← evalRest ctx)) where
  runs s sound := by
    refine pinned_step rt spec sound fun a s1 pinned moves1 executes => ?_
    refine (others.runs s1 moves1.sound).step fun operands s2 ⟨moves2, computes⟩ => ?_
    have both := moves1.andThen moves2
    refine .pure ⟨both.reorder (List.perm_append_singleton a operands), fun known => ?_⟩
    have executes := executes known.1
    have computes := computes known.2
    refine ⟨executes.follows.trans computes.follows, fun ctx m suits => ?_⟩
    have first := (executes.performs ctx m (suits.back computes.follows)).later computes.follows
    refine first.bind fun x m1 _ same x_read => ?_
    have ready : ∀ b ∈ [a], s1.Ready b := fun b mem => moves1.ready mem
    have second := computes.holding ready (suits.same same)
      (others.leaves known.2 (fun effects v mem =>
        pinned effects v (mem_singleton.mp mem).symm) ctx m1.world)
    refine (second.within fun _ => moves1.still_inUse rfl).bind ?_
    rintro values m2 - - ⟨read, kept⟩
    refine .stays moves2.sound ?_
    rw [map_cons, read, kept a (by simp), show m1.read rt a = x from x_read]
  simple known all ctx w := by
    simp only [all_cons, Bool.and_eq_true] at all
    obtain ⟨x, first⟩ := spec.simple known.1 all.1 ctx w
    obtain ⟨xs, second⟩ := others.simple known.2 all.2 ctx w
    exact ⟨x :: xs, by simp [bind, EStateM.bind, first, second, pure, EStateM.pure]⟩

lemma spread (loc : Location) {never : Prop} (refused : ¬never)
    (anything : Action V (List V)) :
    ArgumentsSpec rt (.spread loc e :: rest) never anything where
  runs s sound := by
    refine (spec.discard sound).step fun _ s1 ⟨discarded, _⟩ => ?_
    refine (notSupported_reports discarded.sound loc _).step fun _ s2 ⟨reports, _⟩ => ?_
    refine (others.runs s2 reports.moves.sound).step fun operands s3 ⟨moves3, _⟩ => ?_
    have all : s.Moves s3 { given := operands } := by
      simpa using (discarded.andThen reports.moves).andThen moves3
    exact .pure ⟨all.give_constant .undefined, fun known => absurd known refused⟩
  simple known := absurd known refused

end

end ArgumentsSpec

/-! ## Callees -/

lemma charted_made (sound : s.Sound) {F : Flow} (charted : s.Charted aim F) {i : Instruction}
    (plain : i.isPlain = true) {id : LocalId} {origin : Origin} (makes : i.Makes id origin)
    (apart : ∀ other known, F.holds other known → .cell other ∉ i.touched) :
    (s.withCode (s.code.appended i)).Charted aim (F.grown id origin) := by
  obtain ⟨start, charted⟩ := charted
  refine ⟨start, ?_⟩
  rw [sound.withCode_code]
  have le := Flow.le_after plain apart
  refine (charted.appended sound.code_sound (Flow.admits_of_plain plain)).weaken ⟨le.1, ?_⟩
  rintro other known (held | ⟨rfl, rfl⟩)
  · exact le.2 other known held
  · exact .inr makes

lemma pin_flows (sound : s.Sound) (v : VariableId) :
    Runs (pin (.var v)) s fun a s' => ∃ id, a = .cell id ∧ ∀ aim F, s.Charted aim F →
      (∀ other known, F.holds other known → s.InUse other) →
        s'.Charted aim (F.grown id (.variable v)) := by
  refine (allocTemp_still sound).step ?_
  rintro _ s1 ⟨⟨id, rfl⟩, allocated, still⟩
  have run := Routine.assign_run allocated.sound.code_sound (.cell id) (.var v)
  refine .bind ⟨⟨⟩, _, inCode_run allocated.sound run, .pure ⟨id, rfl, ?_⟩⟩
  intro aim F charted used
  refine charted_made allocated.sound (still.charted charted) rfl ⟨rfl, rfl⟩ ?_
  intro other known held touched
  obtain rfl : other = id := by simpa [Instruction.touched, Instruction.dests] using touched
  exact absurd (allocated.fresh other (by simp) (used other known held)) (by simp)

/-- What an evaluated callee is. It is kept while the arguments are evaluated. -/
structure CalleeReady (rt : Runtime V) (s s' : Lowering) (constructs argsSimple : Bool)
    (c : CalleeValue) (covered : Prop) (eval : Action V (V × V)) : Prop where
  moves : s.Moves s' { given := [c.function, c.receiver] }
  reads : c.callee.operand = c.function
  indirect : ∀ routine closure, c.callee ≠ .direct routine closure
  event : ∀ (function : V) operands,
    callOf c.callee function operands = .call constructs function operands
  flows : s.FlowsTo s' { given := [c.function, c.receiver] } (·.knowing c.callee)
  admits : ∀ (F : Flow) dest argc, (F.knowing c.callee).Admits (.call dest c.callee argc)
  pinned : argsSimple = false → ∀ v, .var v ∉ [c.function, c.receiver]
  computes : covered → s.Computes rt s' (fun ctx _ => eval ctx) fun x m =>
    m.read rt c.function = x.1 ∧ m.read rt c.receiver = x.2

lemma CalleeReady.call {constructs : Bool} {args : List ArgumentCode} {c : CalleeValue}
    {covered coversArgs : Prop} {eval : Action V (V × V)}
    {evalArgs : Action V (List V)}
    (callee : s.CalleeReady rt s' constructs (args.all ArgumentCode.isSimple) c covered eval)
    (spec : ArgumentsSpec rt args coversArgs evalArgs) (needed : Bool) :
    Runs (do
      let operands ← evalArguments args
      emitCall c.callee c.function c.receiver operands needed) s' fun a s'' =>
        s.Moves s'' { given := [a] } ∧ (covered ∧ coversArgs →
          s.Executes rt s'' (.ofNeed needed) a fun ctx => do
            let x ← eval ctx
            let operands ← evalArgs ctx
            request rt (.call constructs x.1 (x.2 :: operands))) := by
  have done := callee.moves
  refine (spec.runs s' done.sound).step fun operands s1 ⟨moves1, computes⟩ => ?_
  have both := done.andThen moves1
  have ordered := both.reorder perm_append_comm
  have ready : ∀ a ∈ c.function :: c.receiver :: operands, s1.Ready a := fun a => ordered.ready
  refine (emitCall_spec rt both.sound ready ordered.apart callee.reads
    (fun routine closure direct => absurd direct (callee.indirect routine closure)) needed).mono ?_
  rintro a s2 ⟨called, charts, acts⟩
  have whole : s.Moves s2 { uncharted := true, given := [a] } := by
    simpa using (ordered.reorder (Perm.of_eq (append_nil _).symm)).andThen called
  refine ⟨whole.chart ?_, fun ⟨known, known_args⟩ => ?_⟩
  · -- What is known of the callee is needed up to the call, and forgotten after it.
    intro aim F charted spared owed leaves
    obtain ⟨aim1, old1, -, charted1⟩ := callee.flows aim F charted spared (by simp) leaves
    have used {id : LocalId} {origin : Origin} (held : (F.knowing c.callee).holds id origin) :
        s'.Spared [] id := by
      refine ⟨?_, by simp⟩
      rcases Flow.knowing_holds held with known | here
      · exact done.still_inUse rfl (spared id origin known).1
      · exact (done.ready (by simp [← here, callee.reads])).inUse id rfl
    obtain ⟨aim2, old2, -, charted2⟩ := moves1.flows rfl aim1 _ charted1 (fun _ _ => used) (by simp)
      (by simp)
    refine ⟨aim2, fun label inside => ?_, by simp, ?_⟩
    · have later := done.keeps.toExtends.labelCount_le done.start
      exact (old2 label (lt_of_lt_of_le inside later)).trans (old1 label inside)
    · refine charts aim2 F _ charted2 (F.le_knowing _) (fun id origin known => ?_) (callee.admits F)
      exact ordered.inUse_spared rfl (fun _ mem => mem) (spared id origin known).1
  · have first := callee.computes known
    have second := computes known_args
    refine ⟨first.follows.trans (second.follows.trans acts.follows), fun ctx m suits => ?_⟩
    have later := second.follows.trans acts.follows
    refine ((first.performs ctx m (suits.back later)).later later).bind fun x m1 _ same1 held => ?_
    have suits1 := suits.same same1
    have kept := (second.holding (fun b mem => done.ready mem)
      (suits1.back acts.follows) (spec.leaves known_args (fun effects => callee.pinned (by
        simpa using effects)) ctx m1.world)).later acts.follows
    refine (kept.within fun _ => done.still_inUse rfl).bind ?_
    rintro values m2 - same2 ⟨read, same_parts⟩
    have last := acts.performs ctx m2 (suits1.same same2)
    rw [callee.event, map_cons, read, same_parts c.function (by simp),
      same_parts c.receiver (by simp), held.1, held.2] at last
    exact last.within fun _ => ordered.inUse_spared rfl (fun _ mem => mem)

lemma Moves.flows_indirect (moves : s.Moves s' l) (said : l.uncharted = false)
    (kind : ∀ v copy, callee ≠ .pinned v copy) : s.FlowsTo s' l (·.knowing callee) := by
  have same : (fun F : Flow => F.knowing callee) = fun F => F := by
    funext F
    unfold Flow.knowing
    split
    next v id => exact absurd rfl (kind v (.cell id))
    next => rfl
  rw [same]
  exact moves.flows said

section

variable {covered : Prop}

lemma evalCallee_member (whole : Lowered) {m : MemberCode} {coversObject coversKey : Prop}
    {evalBase evalKey : Action V V}
    (spec : m.Spec rt coversObject coversKey evalBase evalKey) (argsSimple : Bool)
      (sound : s.Sound) :
    Runs (evalCallee { whole, reference := .member m } argsSimple) s fun c s' =>
      s.CalleeReady rt s' false argsSimple c (coversObject ∧ coversKey) (fun ctx => do
        let x ← evalBase ctx
        let k ← evalKey ctx
        return (← request rt (.get x k), x)) := by
  have steps : Runs (do
      let object ← m.evalObject (!argsSimple)
      let key ← pinIf false (← m.evalKey)
      let function ← allocTemp
      push (.get function object key)
      release key
      pure { callee := .indirect function, function, receiver := object : CalleeValue }) s
        fun c s' => s.CalleeReady rt s' false argsSimple c (coversObject ∧ coversKey) (fun ctx => do
          let x ← evalBase ctx
          let k ← evalKey ctx
          return (← request rt (.get x k), x)) := by
    refine spec.step sound fun object key s1 pinned _ moves1 reaches => ?_
    have ready : ∀ a ∈ [key, object], s1.Ready a := fun a => moves1.ready
    refine (allocTemp_moves moves1.sound).step ?_
    rintro _ s2 ⟨⟨id, rfl⟩, fresh, quiet⟩
    have fits (a : Operand) (member : a ∈ [key, object]) : s2.Fits a :=
      fresh.keeps.fits (ready a member).holds.1
    have dest_fits : s2.Fits (.cell id) := fresh.fits (by simp)
    have get_fits := instructionFits_get dest_fits (fits object (by simp)) (fits key (by simp)) rfl
    refine push_step fresh.sound ?_
    obtain ⟨asked, acts⟩ := acts_appended rt fresh quiet get_fits ⟨rfl, rfl, rfl⟩ fun m => rfl
    generalize s2.withCode (s2.code.appended (.get (.cell id) object key)) = s3 at asked acts ⊢
    have gotten := moves1.andThen asked
    have key_first := gotten.reorder (Perm.swap _ _ _)
    refine (release_moves asked.sound (key_first.ready (by simp)).inUse).step ?_
    rintro - s4 ⟨freed, quiet4⟩
    have moves4 := key_first.andThen freed
    refine Runs.pure ⟨moves4, rfl, by simp, fun _ _ => rfl,
      moves4.flows_indirect rfl (by simp), fun _ _ _ => trivial, fun kept v member => ?_,
      fun known => ?_⟩
    · have same : object = .var v := by simpa [eq_comm] using member
      exact pinned (by simp [kept]) v same
    · have reaches := reaches known
      suffices asks : s.Computes rt s3 (fun ctx _ => do
          let x ← evalBase ctx
          let k ← evalKey ctx
          return (← request rt (.get x k), x)) fun x m =>
            m.read rt (.cell id) = x.1 ∧ m.read rt object = x.2 from asks.quiet freed quiet4
      refine ⟨reaches.follows.trans acts.follows, fun ctx mem suits => ?_⟩
      have first := (reaches.performs ctx mem (suits.back acts.follows)).later acts.follows
      rw [MemberCode.siteOf_bind evalBase evalKey ctx fun x k => do
        return (← request rt (.get x k), x)]
      refine first.bind fun site m1 _ same denotes => ?_
      cases denotes with
      | @member _ _ x k object_read key_read =>
        have object_ready : ∀ b ∈ [object], s1.Ready b := by simpa using ready object (by simp)
        have last := acts.holding object_ready (by simp) ctx m1 (suits.same same)
          fun v _ x w run => by rw [request_variables run]
        rw [object_read, key_read] at last
        refine (last.within fun _ => moves1.inUse_spared rfl (by simp)).bind fun function m2
          _ _ both => ?_
        exact .stays asked.sound ⟨both.1, (both.2 object (by simp)).trans object_read⟩
  simpa only [evalCallee, pinIf, Bool.false_eq_true, if_false, pure_bind] using steps

lemma evalCallee_value {p : Place} (kind : ∀ m, p.reference ≠ .member m)
    {eval : Action V V} (spec : p.whole.Spec rt covered eval) (argsSimple : Bool)
    (sound : s.Sound) :
    Runs (evalCallee p argsSimple) s fun c s' =>
      s.CalleeReady rt s' false argsSimple c covered fun ctx => do
        return (← eval ctx, rt.undefined) := by
  have steps : Runs (plainCallee p argsSimple) s fun c s' =>
      s.CalleeReady rt s' false argsSimple c covered fun ctx => do
        return (← eval ctx, rt.undefined) := by
    refine (spec.value sound).step ?_
    rintro a s1 ⟨moves1, executes⟩
    -- The value is used as it is.
    have plain (kept : argsSimple = false → ∀ v, a ≠ .var v) :
        Runs (pure { callee := .indirect a, function := a, receiver := .undefined : CalleeValue })
          s1 fun c s' => s.CalleeReady rt s' false argsSimple c covered fun ctx => do
            return (← eval ctx, rt.undefined) := by
      have given := (moves1.give_constant .undefined).reorder (Perm.swap _ _ _)
      refine Runs.pure ⟨given, rfl, by simp, fun _ _ => rfl, given.flows_indirect rfl (by simp),
        fun _ _ _ => trivial, fun effects v mem => ?_, fun known => ?_⟩
      · exact kept effects v (by simpa [eq_comm, undefined] using mem)
      · refine ⟨(executes known).follows, fun ctx m suits => ?_⟩
        refine ((executes known).performs ctx m suits).bind fun x m1 _ _ read => ?_
        exact .stays moves1.sound ⟨read, rfl⟩
    split
    next v =>
      obtain ⟨copy, s2, run, -, held, settles⟩ :=
        pin_spec rt moves1.sound (moves1.ready (mem_singleton_self (var v)))
      obtain ⟨id, rfl, flows⟩ := (pin_flows moves1.sound v).holds_of_run run
      have moves2 := moves1.andThen held
      have given := (moves2.give_constant .undefined).reorder (Perm.swap _ _ _)
      refine Runs.bind ⟨_, s2, run, Runs.pure ⟨given, rfl, by simp, fun _ _ => rfl, ?_, ?_, ?_, ?_⟩⟩
      · intro aim F charted spared _ leaves
        obtain ⟨aim1, old, -, charted1⟩ := moves1.flows rfl aim F charted spared (by simp) leaves
        refine ⟨aim1, old, by simp, flows aim1 F charted1 fun other known here => ?_⟩
        exact moves1.still_inUse rfl (spared other known here).1
      · exact fun F _ _ => ⟨id, rfl, .inr ⟨rfl, rfl⟩⟩
      · simp [undefined]
      · intro known
        have copied := (executes known).pass moves1 rfl (by simp) settles
        refine ⟨copied.follows, fun ctx m suits => ?_⟩
        refine (copied.performs ctx m suits).bind fun x m1 _ _ read => ?_
        exact .stays moves2.sound ⟨read, rfl⟩
    next _ _ other => exact plain (by grind)
  unfold evalCallee
  split
  next m here => exact absurd here (kind m)
  next => exact steps

variable {args : List ArgumentCode} {coversArgs : Prop}
  {evalArgs : Action V (List V)}

lemma callValue_yields {callee : Place} {eval : Action V (V × V)}
    (runs : ∀ (argsSimple : Bool) (s : Lowering), s.Sound → Runs (evalCallee callee argsSimple) s
      fun c s' => s.CalleeReady rt s' false argsSimple c covered eval)
    (spec : ArgumentsSpec rt args coversArgs evalArgs) :
    Yields rt (callValue callee args) (covered ∧ coversArgs) (fun ctx => do
      let x ← eval ctx
      let operands ← evalArgs ctx
      request rt (.call false x.1 (x.2 :: operands))) := fun needed s sound =>
  (runs _ s sound).step fun _ _ ready => ready.call spec needed

lemma constructValue_yields {callee : Lowered} {eval : Action V V}
    (callee_spec : callee.Spec rt covered eval) (spec : ArgumentsSpec rt args coversArgs evalArgs) :
    Yields rt (constructValue callee args) (covered ∧ coversArgs) (fun ctx => do
      let function ← eval ctx
      let operands ← evalArgs ctx
      request rt (.call true function (rt.undefined :: operands))) := by
  intro needed s sound
  refine pinned_step rt callee_spec sound fun a s1 pinned moves1 executes => ?_
  have given := (moves1.give_constant .undefined).reorder (Perm.swap _ _ _)
  have ready : s.CalleeReady rt s1 true (args.all ArgumentCode.isSimple)
      { callee := .construct a, function := a, receiver := .undefined } covered fun ctx => do
        return (← eval ctx, rt.undefined) := by
    refine ⟨given, rfl, by simp, fun _ _ => rfl, given.flows_indirect rfl (by simp),
      fun _ _ _ => trivial, fun effects v mem => ?_, fun known => ?_⟩
    · exact pinned (by simp [effects]) v (by simpa [eq_comm, undefined] using mem)
    · refine ⟨(executes known).follows, fun ctx m suits => ?_⟩
      refine ((executes known).performs ctx m suits).bind fun x m1 _ _ read => ?_
      exact .stays moves1.sound ⟨read, rfl⟩
  simpa only [bind_assoc, pure_bind] using ready.call spec needed

end

end Lowering

end Scriptc
