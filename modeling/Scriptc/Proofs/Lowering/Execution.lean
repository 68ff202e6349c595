import Scriptc.Proofs.Lowering.Steps
import Scriptc.Proofs.Semantics.Machine

/-!
# Running lowered code

What the code that a step of lowering adds does when it is run. Code that is added later leaves a
run as it is, so the runs of steps follow each other.
-/

namespace Scriptc

namespace Memory

variable {V : Type} {rt : Runtime V} {kept fewer : LocalId → Prop} {m m' m'' : Memory V}

/-- Whether two memories agree on some locals, and on all that no expression changes. -/
structure Same (kept : LocalId → Prop) (m m' : Memory V) : Prop where
  cells : ∀ id, kept id → m'.cells id = m.cells id
  params : m'.params = m.params
  arguments : m'.arguments = m.arguments
  handlers : m'.handlers = m.handlers

namespace Same

lemma refl (kept : LocalId → Prop) (m : Memory V) : m.Same kept m := ⟨fun _ _ => rfl, rfl, rfl, rfl⟩

lemma trans (first : m.Same kept m') (second : m'.Same kept m'') : m.Same kept m'' where
  cells id keep := (second.cells id keep).trans (first.cells id keep)
  params := second.params.trans first.params
  arguments := second.arguments.trans first.arguments
  handlers := second.handlers.trans first.handlers

lemma mono (same : m.Same kept m') (fewer_kept : ∀ id, fewer id → kept id) : m.Same fewer m' :=
  { same with cells := fun id keep => same.cells id (fewer_kept id keep) }

lemma read (same : m.Same kept m') {a : Operand} (unstaged : ∀ id, a ≠ .slot id)
    (cell : ∀ id, a = .cell id → kept id)
    (var : ∀ v, a = .var v → m'.world.vars v = m.world.vars v) : m'.read rt a = m.read rt a := by
  cases a with
  | var v => exact var v rfl
  | cell id => exact same.cells id (cell id rfl)
  | param id => exact congrFun same.params id
  | slot id => exact absurd rfl (unstaged id)
  | constant value => rfl

lemma write_cell (m : Memory V) {id : LocalId} (free : ¬kept id) (v : V) :
    m.Same kept (m.write (.cell id) v) where
  cells other keep := by
    have ne : other ≠ id := fun here => free (here ▸ keep)
    exact Function.update_of_ne ne v m.cells
  params := rfl
  arguments := rfl
  handlers := rfl

lemma write_var (kept : LocalId → Prop) (m : Memory V) (id : VariableId) (v : V) :
    m.Same kept (m.write (.var id) v) :=
  ⟨fun _ _ => rfl, rfl, rfl, rfl⟩

end Same

lemma read_write_cell (m : Memory V) (id : LocalId) (v : V) :
    (m.write (.cell id) v).read rt (.cell id) = v := by
  simp [write, read]

lemma read_write_var (m : Memory V) (id : VariableId) (v : V) :
    (m.write (.var id) v).read rt (.var id) = v := by
  simp [write, read, World.assign]

lemma writeAll_cells (kept : LocalId → Prop) {ids : List LocalId}
    (free : ∀ id ∈ ids, ¬kept id) (m : Memory V) (value : Nat → V) (index : Nat) :
    m.Same kept (m.writeAll value index (ids.map .cell)) ∧
      (m.writeAll value index (ids.map .cell)).world = m.world := by
  induction ids generalizing m index with
  | nil => exact ⟨.refl kept m, rfl⟩
  | cons id rest ih =>
    obtain ⟨same, world⟩ := ih (fun other mem => free other (List.mem_cons_of_mem _ mem))
      (m.write (.cell id) (value index)) (index + 1)
    exact ⟨(Same.write_cell m (free id (by simp)) _).trans same, world⟩

lemma write_read (m : Memory V) (a : Operand) : m.write a (m.read rt a) = m := by
  cases a with
  | var v => simp [write, read, World.assign, Function.update_eq_self]
  | cell | param | slot => simp [write, read, Function.update_eq_self]
  | constant value => rfl

end Memory

namespace Operand

lemma eq_of_beq {a b : Operand} (same : (a == b) = true) (varies : a.isConstant = false) :
    a = b := by
  cases a <;> cases b <;> simp_all [BEq.beq, instBEqOperand.beq, isConstant, constant?]

end Operand

namespace Demand

variable {V : Type} (rt : Runtime V)

def labels : Demand → List Label
  | value | effect => []
  | branch onTrue onFalse => [onTrue, onFalse]

def given (a : Operand) : Demand → List Operand
  | value | effect => [a]
  | branch .. => []

/-- Where the code of an expression leads to; `next` is where the code after it goes. -/
def arrival (next : Point V) : Demand → V → Point V
  | value, _ | effect, _ => next
  | branch onTrue onFalse, v => .toward (if rt.truthy v then onTrue else onFalse)

def Met (a : Operand) : Demand → V → Memory V → Prop
  | value, v, m => m.read rt a = v
  | effect, _, _ | branch .., _, _ => True

end Demand

namespace Lowering

variable {V : Type} {rt : Runtime V} {s s' s'' : Lowering}

def point (s : Lowering) : Point V := s.code.point

/-- Whether a state comes after a sound one, with names that go on to mean what they mean. -/
structure Follows (s s' : Lowering) : Prop where
  sound : s.Sound
  keeps : s.Extends s'
  steady : s.Steady s'

lemma Follows.trans (first : s.Follows s') (second : s'.Follows s'') : s.Follows s'' where
  sound := first.sound
  keeps := first.keeps.trans second.keeps
  steady := first.steady.trans second.steady

lemma Moves.follows {l : Ledger} (moves : s.Moves s' l) (quiet : s.Quiet s') : s.Follows s' :=
  ⟨moves.start, moves.keeps.toExtends, quiet.steady⟩

lemma Sound.follows (sound : s.Sound) : s.Follows s := ⟨sound, .refl s, .refl s⟩

/-- Whether the code of the current routine leads from one state of a run to another. -/
def Goes (rt : Runtime V) (s : Lowering) (c c' : Config V) : Prop :=
  Routine.Outside c.point ∧ ∃ n, s.code.Steps rt n c c'

namespace Goes

variable {c c' c'' : Config V}

lemma refl (outside : Routine.Outside c.point) : s.Goes rt c c := ⟨outside, 0, .refl c⟩

lemma later (goes : s.Goes rt c c') (follows : s.Follows s') : s'.Goes rt c c' := by
  obtain ⟨outside, n, steps⟩ := goes
  have grows := follows.keeps.code_grows follows.sound
  exact ⟨outside, n, steps.grows follows.sound.code_sound outside grows⟩

lemma trans (first : s.Goes rt c c') (second : s.Goes rt c' c'') : s.Goes rt c c'' := by
  obtain ⟨outside, n, steps⟩ := first
  obtain ⟨-, k, rest⟩ := second
  exact ⟨outside, n + k, steps.trans rest⟩

end Goes

lemma Sound.point_outside (sound : s.Sound) : Routine.Outside (s.point : Point V) :=
  sound.code_sound.point_outside

lemma Quiet.point (quiet : s.Quiet s') : (s'.point : Point V) = s.point := by
  rw [Lowering.point, Routine.point, quiet.openId, quiet.openBody]
  rfl

/-- Whether the code of a step leads from its start to a state of a run that depends on the memory
there. -/
structure Does (rt : Runtime V) (s s' : Lowering) (next : Memory V → Config V) : Prop where
  follows : s.Follows s'
  goes : ∀ m, s'.Goes rt ⟨s.point, m⟩ (next m)

/-- Whether a label is placed where the code stands: jumps to it and the code before it go on to the
code after it. -/
structure Lands (rt : Runtime V) (s s' : Lowering) (label : Label) : Prop where
  follows : s.Follows s'
  toward : ∀ m, s'.Goes rt ⟨.toward label, m⟩ ⟨s'.point, m⟩
  past : ∀ m, s'.Goes rt ⟨s.point, m⟩ ⟨s'.point, m⟩

section

variable (rt) (sound : s.Sound)
include sound

lemma does_appended {i : Instruction} (keeps : s.Extends (s.withCode (s.code.appended i)))
    {next : Memory V → Memory V} (performs : ∀ m : Memory V,
      m.perform rt i = some (.goes (next m))) :
    s.Does rt (s.withCode (s.code.appended i)) fun m =>
      ⟨(s.withCode (s.code.appended i)).point, next m⟩ where
  follows := ⟨sound, keeps, keeps.steady rfl⟩
  goes m := by
    have step := Routine.step_appended sound.code_sound (performs m)
    refine ⟨sound.point_outside, 1, ?_⟩
    rw [point, point, sound.withCode_code]
    exact .single step

lemma does_ended {jump : Jump} (keeps : s.Extends (s.withCode (s.code.ended jump)))
    {next : Memory V → Config V} (leaves : ∀ m : Memory V, m.leave rt jump = some (next m)) :
    s.Does rt (s.withCode (s.code.ended jump)) next where
  follows := ⟨sound, keeps, keeps.steady rfl⟩
  goes m := by
    have step : (s.code.ended jump).step rt ⟨s.code.point, m⟩ = m.leave rt jump :=
      Routine.step_ended sound.code_sound jump m
    refine ⟨sound.point_outside, 1, ?_⟩
    rw [sound.withCode_code]
    exact .single (step.trans (leaves m))

lemma goto_does {label : Label} (inside : label < s.labelCount) :
    Runs (goto label) s fun _ s' => s.Moves s' { owed := [label] } ∧
      s.Does rt s' fun m => ⟨.toward label, m⟩ := by
  refine (goto_moves sound inside).mono ?_
  rintro - _ ⟨moves, rfl⟩
  exact ⟨moves, does_ended rt sound moves.keeps.toExtends fun m => rfl⟩

lemma place_lands {label : Label} (pending : s.Pending label) :
    Runs (place label) s fun _ s' => s.Places s' label ∧ s.Lands rt s' label := by
  refine (place_places sound pending).mono ?_
  rintro - _ ⟨places, rfl⟩
  refine ⟨places, ⟨sound, places.keeps.toExtends, places.keeps.steady rfl⟩,
    fun m => ?_, fun m => ?_⟩
  · refine ⟨(by intro _ here; cases here), 1, ?_⟩
    rw [point, sound.withCode_code]
    exact .single (Routine.step_toward_placeAt sound.code_sound pending m)
  · refine ⟨sound.point_outside, ?_⟩
    rw [point, point, sound.withCode_code]
    exact Routine.steps_placeAt sound.code_sound pending m

end

section

variable {made settled owed : List Label} {leaves uncharted : Bool} {taken given : List Operand}
  {label : Label} {α : Type} {post : α → Lowering → Prop}

lemma Moves.label_step (moves : s.Moves s' { made, settled, owed, leaves, uncharted, taken, given })
    {next : Label → Lower α}
    (rest : ∀ label t, s.Moves t { made := made ++ [label], settled, owed, leaves, uncharted, taken,
                                   given } → s'.Quiet t → Runs (next label) t post) :
    Runs (newLabel >>= next) s' post :=
  (newLabel_moves moves.sound).step fun label t ⟨new, quiet⟩ => by
    have both := moves.andThen new
    simp only [List.nil_append, Bool.or_false] at both
    exact rest label t both quiet

lemma Moves.place_step (rt : Runtime V)
    (moves : s.Moves s' { made := label :: made, settled, owed, leaves, uncharted, taken, given })
    {next : PUnit → Lower α}
    (rest : ∀ t, s.Moves t { made, settled := label :: settled, owed, leaves, uncharted, taken,
                             given } → s'.Lands rt t label → Runs (next ⟨⟩) t post) :
    Runs (Lowering.place label >>= next) s' post :=
  (place_lands rt moves.sound (moves.made label (by simp)).1).step fun _ t ⟨places, lands⟩ =>
    rest t (moves.place places) lands

lemma Moves.place_last (rt : Runtime V)
    (moves : s.Moves s' { made := [label], settled, owed, leaves, uncharted, taken, given })
    (covered : ∀ other ∈ owed, other = label ∨ other ∈ settled) :
    Runs (Lowering.place label) s' fun _ t =>
      s.Moves t { leaves, uncharted, taken, given } ∧ s'.Lands rt t label :=
  (place_lands rt moves.sound (moves.made label (by simp)).1).mono fun _ t ⟨places, lands⟩ =>
    ⟨(moves.place places).close (by simpa using covered) knows_nil, lands⟩

lemma Moves.goto_step (rt : Runtime V)
    (moves : s.Moves s' { made, settled, owed, leaves, uncharted, taken, given })
    (reached : label < s.labelCount ∨ label ∈ made ∨ label ∈ settled) {next : PUnit → Lower α}
    (rest : ∀ t, s.Moves t
        { made, settled, owed := label :: owed, leaves, uncharted, taken, given } →
      (s'.Does rt t fun m => ⟨.toward label, m⟩) → Runs (next ⟨⟩) t post) :
    Runs (goto label >>= next) s' post := by
  have inside : label < s'.labelCount := by
    rcases reached with old | new | placed
    · exact Nat.lt_of_lt_of_le old (moves.keeps.labelCount_le moves.start)
    · exact (moves.made label new).1.lt
    · exact (moves.settled label placed).1.lt
  refine (goto_does rt moves.sound inside).step fun _ t ⟨gone, does⟩ => ?_
  have both := moves.andThenTo gone fun other mem => by rwa [List.mem_singleton.mp mem]
  simp only [List.append_nil, List.nil_append, Bool.or_false] at both
  exact rest t both does

section

variable {a : Operand}
  (moves : s.Moves s' { made, settled, owed, leaves, uncharted, taken, given := a :: given })
include moves

lemma Moves.release_last : Runs (release a) s' fun _ t =>
      s.Moves t { made, settled, owed, leaves, uncharted, taken, given } :=
  (release_moves moves.sound (moves.ready (by simp)).inUse).mono fun _ t ⟨freed, _⟩ => by
    simpa using moves.andThen freed

lemma Moves.release_step {next : PUnit → Lower α}
    (rest : ∀ t, s.Moves t { made, settled, owed, leaves, uncharted, taken, given } →
      Runs (next ⟨⟩) t post) :
    Runs (release a >>= next) s' post :=
  moves.release_last.step fun _ => rest

end

end

lemma Moves.knows_own {l : Ledger} (moves : s.Moves s' l) {labels : List Label}
    (own : ∀ label ∈ labels, label ∈ l.made ∨ label ∈ l.settled) : s'.Knows labels := by
  intro label mem
  rcases own label mem with made | settled
  · exact (moves.made label made).1.lt
  · exact (moves.settled label settled).1.lt

lemma assign_does (rt : Runtime V) {s0 : Lowering} {l : Ledger} (moves : s0.Moves s l)
    {dest source : Operand} (dest_fits : s.Fits dest) (source_fits : s.Fits source)
    (place : dest.isPlace = true) (writes : ∀ v, dest = .var v → s.Assigned v)
    (mine : ∀ id, dest = .cell id → .cell id ∈ l.given) :
    Runs (assign dest source) s fun _ s' => s0.Moves s' l ∧
      s.Does rt s' fun m => ⟨s'.point, m.write dest (m.read rt source)⟩ := by
  have sound := moves.sound
  have moved := moves.assigned dest_fits source_fits place writes mine
  refine inCode_runs sound ⟨⟨⟩, _, Routine.assign_run sound.code_sound dest source, moved, ?_⟩
  rw [Routine.assigned]
  split
  · refine does_appended rt sound ?_ fun m => rfl
    exact sound.extends_withCode (Routine.edits_appended sound.code_sound _).grows
  next same =>
    rw [sound.withCode_self]
    refine ⟨sound.follows, fun m => ?_⟩
    have nothing : m.write dest (m.read rt source) = m := by
      cases constant : dest.isConstant with
      | true => cases dest <;> first | rfl | cases constant
      | false =>
        obtain rfl := Operand.eq_of_beq (by simpa [bne] using same) constant
        exact m.write_read dest
    rw [nothing]
    exact .refl sound.point_outside

/-- Whether the code performs a computation from a state of a run on: it goes on to a point that may
depend on the value, or it raises what is thrown. Some locals keep their values. -/
def Performs {α : Type} (rt : Runtime V) (s : Lowering) (kept : LocalId → Prop) (c : Config V)
    (outcome : EStateM.Result (Stop V) (World V) α) (arrival : α → Point V)
    (post : α → Memory V → Prop) : Prop :=
  match outcome with
  | .ok a w => ∃ m, s.Goes rt c ⟨arrival a, m⟩ ∧ m.world = w ∧ c.memory.Same kept m ∧ post a m
  | .error (.thrown v) w => ∃ m, s.Goes rt c ⟨.raising v, m⟩ ∧ m.world = w ∧ c.memory.Same kept m
  | .error .unspecified _ => True

namespace Performs

variable {α β : Type} {kept fewer : LocalId → Prop} {c c' : Config V}
  {outcome : EStateM.Result (Stop V) (World V) α} {arrival : α → Point V}
  {post : α → Memory V → Prop}

lemma value {a : α} {m : Memory V} (goes : s.Goes rt c ⟨arrival a, m⟩)
    (world : m.world = c.memory.world) (same : c.memory.Same kept m) (holds : post a m) :
    s.Performs rt kept c (.ok a c.memory.world) arrival post :=
  ⟨m, goes, world, same, holds⟩

lemma arrives {a : α} {p : Point V} {m : Memory V} (goes : s.Goes rt ⟨p, m⟩ ⟨arrival a, m⟩)
    (holds : post a m) : s.Performs rt kept ⟨p, m⟩ (.ok a m.world) arrival post :=
  .value goes rfl (.refl _ m) holds

lemma stays {a : α} {m : Memory V} (sound : s.Sound) (holds : post a m) :
    s.Performs rt kept ⟨s.point, m⟩ (.ok a m.world) (fun _ => s.point) post :=
  .arrives (.refl sound.point_outside) holds

lemma later (performs : s.Performs rt kept c outcome arrival post) (follows : s.Follows s') :
    s'.Performs rt kept c outcome arrival post := by
  match outcome with
  | .ok a w =>
    obtain ⟨m, goes, rest⟩ := performs
    exact ⟨m, goes.later follows, rest⟩
  | .error (.thrown v) w =>
    obtain ⟨m, goes, rest⟩ := performs
    exact ⟨m, goes.later follows, rest⟩
  | .error .unspecified w => trivial

lemma after (goes : s.Goes rt c c') (same : c.memory.Same kept c'.memory)
    (performs : s.Performs rt kept c' outcome arrival post) :
    s.Performs rt kept c outcome arrival post := by
  match outcome with
  | .ok a w =>
    obtain ⟨m, rest, world, also, holds⟩ := performs
    exact ⟨m, goes.trans rest, world, same.trans also, holds⟩
  | .error (.thrown v) w =>
    obtain ⟨m, rest, world, also⟩ := performs
    exact ⟨m, goes.trans rest, world, same.trans also⟩
  | .error .unspecified w => trivial

lemma going {p p' : Point V} {m : Memory V} (goes : s.Goes rt ⟨p, m⟩ ⟨p', m⟩)
    (performs : s.Performs rt kept ⟨p', m⟩ outcome arrival post) :
    s.Performs rt kept ⟨p, m⟩ outcome arrival post :=
  .after goes (.refl _ m) performs

lemma mono {weaker : α → Memory V → Prop} (performs : s.Performs rt kept c outcome arrival post)
    (fewer_kept : ∀ id, fewer id → kept id)
    (weakens : ∀ a m, outcome = .ok a m.world → c.memory.Same kept m → post a m → weaker a m) :
    s.Performs rt fewer c outcome arrival weaker := by
  match outcome with
  | .ok a w =>
    obtain ⟨m, goes, rfl, same, holds⟩ := performs
    exact ⟨m, goes, rfl, same.mono fewer_kept, weakens a m rfl same holds⟩
  | .error (.thrown v) w =>
    obtain ⟨m, goes, world, same⟩ := performs
    exact ⟨m, goes, world, same.mono fewer_kept⟩
  | .error .unspecified w => trivial

lemma within (performs : s.Performs rt kept c outcome arrival post)
    (fewer_kept : ∀ id, fewer id → kept id) : s.Performs rt fewer c outcome arrival post :=
  performs.mono fewer_kept fun _ _ _ _ holds => holds

lemma andThen {further : α → Point V} {also : α → Memory V → Prop}
    (performs : s.Performs rt kept c outcome arrival post)
    (rest : ∀ a m, outcome = .ok a m.world → c.memory.Same kept m → post a m →
      s.Performs rt kept ⟨arrival a, m⟩ (.ok a m.world) further also) :
    s.Performs rt kept c outcome further also := by
  match outcome with
  | .ok a w =>
    obtain ⟨m, goes, rfl, same, holds⟩ := performs
    exact (rest a m rfl same holds).after goes same
  | .error (.thrown v) w => exact performs
  | .error .unspecified w => trivial

lemma bind {e : Evaluation V α} {next : α → Evaluation V β} {further : β → Point V}
    {last : β → Memory V → Prop}
    (performs : s.Performs rt kept c (e c.memory.world) arrival post)
    (rest : ∀ a m, e c.memory.world = .ok a m.world → c.memory.Same kept m → post a m →
      s.Performs rt kept ⟨arrival a, m⟩ (next a m.world) further last) :
    s.Performs rt kept c ((e >>= next) c.memory.world) further last := by
  cases outcome : e c.memory.world with
  | ok a w =>
    rw [outcome] at performs
    obtain ⟨m, goes, rfl, same, holds⟩ := performs
    have both : (e >>= next) c.memory.world = next a m.world := by
      simp [Bind.bind, EStateM.bind, outcome]
    rw [both]
    exact (rest a m outcome same holds).after goes same
  | error stop w =>
    have both : (e >>= next) c.memory.world = .error stop w := by
      simp [Bind.bind, EStateM.bind, outcome]
    rw [outcome] at performs
    rw [both]
    cases stop with
    | thrown v => exact performs
    | unspecified => trivial

end Performs

lemma performs_asked (rt : Runtime V) (sound : s.Sound) {i : Instruction} {m : Memory V}
    {event : Event V} (ids : List LocalId) (kept : LocalId → Prop)
    (performs : m.perform rt i = some (m.ask rt event (ids.map .cell)))
    (free : ∀ id ∈ ids, ¬kept id) :
    (s.withCode (s.code.appended i)).Performs rt kept ⟨s.point, m⟩ (Evaluation.ask rt event m.world)
      (fun _ => (s.withCode (s.code.appended i)).point)
      fun value m' => m' = { m with world := m.world.after event }.writeAll value 0
        (ids.map .cell) := by
  have step := Routine.step_appended sound.code_sound performs
  have goes (c : Config V) (reached : (s.code.appended i).step rt ⟨s.point, m⟩ = some c) :
      (s.withCode (s.code.appended i)).Goes rt ⟨s.point, m⟩ c := by
    refine ⟨sound.point_outside, 1, ?_⟩
    rw [sound.withCode_code]
    exact .single reached
  rw [Evaluation.ask]
  cases reply : rt.reply m.world.trace event with
  | results value =>
    obtain ⟨same, world⟩ := Memory.writeAll_cells kept free
      { m with world := m.world.after event } value 0
    simp only [Memory.ask, reply, Effect.config] at step
    refine ⟨_, goes _ (step.trans ?_), world, ⟨same.cells, same.params, same.arguments,
      same.handlers⟩, rfl⟩
    rw [point, sound.withCode_code]
  | thrown v =>
    simp only [Memory.ask, reply, Effect.config] at step
    exact ⟨_, goes _ step, rfl, ⟨fun _ _ => rfl, rfl, rfl, rfl⟩⟩

/-- Whether names mean what the code takes them for, different names mean different variables, and
the receiver is in its place. -/
structure Suits (s : Lowering) (ctx : Context V) (m : Memory V) : Prop where
  names : ∀ name meaning, s.meaning? name = some meaning → ctx.names name = meaning
  distinct : ∀ name other id fixed fixed', ctx.names name = .stored id fixed →
    ctx.names other = .stored id fixed' → name = other
  receiver : m.params 0 = ctx.receiver
  native : ctx.native = true → s.boundTo spliceName = none

lemma Suits.back {ctx : Context V} {m : Memory V} (suits : s'.Suits ctx m)
    (follows : s.Follows s') : s.Suits ctx m where
  names name meaning means := suits.names name meaning (follows.steady.meaning? follows.keeps means)
  distinct := suits.distinct
  receiver := suits.receiver
  native native := by
    have unbound := suits.native native
    by_contra bound
    obtain ⟨id, found⟩ := Option.ne_none_iff_exists'.mp bound
    rw [follows.steady _ id found] at unbound
    cases unbound

lemma Suits.same {ctx : Context V} {m m' : Memory V} {kept : LocalId → Prop}
    (suits : s.Suits ctx m) (same : m.Same kept m') : s.Suits ctx m' :=
  { suits with receiver := (congrFun same.params 0).trans suits.receiver }

/-- Whether the code of a step meets a demand with the value of a computation. -/
structure Executes (rt : Runtime V) (s s' : Lowering) (d : Demand) (a : Operand)
    (eval : Action V V) : Prop where
  follows : s.Follows s'
  performs : ∀ (ctx : Context V) (m : Memory V), s'.Suits ctx m →
    s'.Performs rt s.InUse ⟨s.point, m⟩ (eval ctx m.world) (d.arrival rt s'.point) (d.Met rt a)

/-- Whether the code of a step meets a demand with a computation from the memory. -/
structure Acts (rt : Runtime V) (s s' : Lowering) (taken : List Operand) (d : Demand) (a : Operand)
    (act : Context V → Memory V → Evaluation V V) : Prop where
  follows : s.Follows s'
  performs : ∀ (ctx : Context V) (m : Memory V), s'.Suits ctx m →
    s'.Performs rt (s.Spared taken) ⟨s.point, m⟩ (act ctx m m.world) (d.arrival rt s'.point)
      (d.Met rt a)

/-- Whether the code of a step makes a computation and goes to a label that depends on its value. -/
structure Tests (rt : Runtime V) (s s' : Lowering) (eval : Action V V)
    (onward : V → Label) : Prop where
  follows : s.Follows s'
  performs : ∀ (ctx : Context V) (m : Memory V), s'.Suits ctx m →
    s'.Performs rt s.InUse ⟨s.point, m⟩ (eval ctx m.world) (fun x => .toward (onward x))
      fun _ _ => True

lemma Executes.tests {onTrue onFalse : Label} {a : Operand}
    {eval : Action V V} (executes : s.Executes rt s' (.branch onTrue onFalse) a eval) :
    s.Tests rt s' eval fun x => if rt.truthy x then onTrue else onFalse :=
  ⟨executes.follows, executes.performs⟩

/-- Whether the code of a step makes a computation, and goes on to the next code if its value is
true or else to a label. -/
structure Chooses (rt : Runtime V) (s s' : Lowering) (eval : Action V V)
    (second : Label) : Prop where
  follows : s.Follows s'
  performs : ∀ (ctx : Context V) (m : Memory V), s'.Suits ctx m →
    s'.Performs rt s.InUse ⟨s.point, m⟩ (eval ctx m.world)
      (fun x => if rt.truthy x then s'.point else .toward second) fun _ _ => True

/-- Whether the code of a step meets a demand with a value that is computed from the memory. -/
structure Settles (rt : Runtime V) (s s' : Lowering) (taken : List Operand) (d : Demand)
    (a : Operand) (value : Memory V → V) : Prop where
  follows : s.Follows s'
  performs : ∀ m : Memory V, s'.Performs rt (s.Spared taken) ⟨s.point, m⟩ (.ok (value m) m.world)
    (d.arrival rt s'.point) (d.Met rt a)

end Lowering
end Scriptc
