import Scriptc.Proofs.Code.Building
import Scriptc.Proofs.Semantics.Runtime

/-!
# Running routines

A routine is run instruction by instruction. A thrown value goes to the handler of the innermost
protected region that is entered, or ends the run.
-/

open Option Array

namespace Scriptc

/-- What the code of a routine reads and writes. -/
structure Memory (V : Type) where
  world : World V
  cells : LocalId → V
  slots : SlotId → V
  params : ParamId → V
  arguments : V
  /-- The value that was thrown into the last handler. -/
  thrown : V
  /-- The protected regions that are entered, innermost first, and where their handlers are. -/
  handlers : List (Nat × Label)

namespace Memory

variable {V : Type} (rt : Runtime V)

def read (m : Memory V) : Operand → V
  | .var id => m.world.vars id
  | .cell id => m.cells id
  | .param id => m.params id
  | .slot id => m.slots id
  | .constant value => rt.ofConstant value

def write (m : Memory V) (dest : Operand) (v : V) : Memory V :=
  match dest with
  | .var id => { m with world := m.world.assign id v }
  | .cell id => { m with cells := Function.update m.cells id v }
  | .param id => { m with params := Function.update m.params id v }
  | .slot id => { m with slots := Function.update m.slots id v }
  | .constant _ => m

end Memory

/-- Where a run stands. -/
inductive Point (V : Type) where
  /-- Before an instruction of a block, or before its jump. -/
  | inside (block : BlockId) (index : Nat)
  | toward (label : Label)
  | raising (v : V)
  | returned (v : V)
  | uncaught (v : V)

/-- A state of a run. -/
structure Config (V : Type) where
  point : Point V
  memory : Memory V

/-- What an instruction leads to. -/
inductive Effect (V : Type) where
  | goes (m : Memory V)
  | raises (v : V) (m : Memory V)

/-- The state of a run after an instruction, with the point where it goes on. -/
def Effect.config {V : Type} (next : Point V) : Effect V → Config V
  | goes m => ⟨next, m⟩
  | raises v m => ⟨.raising v, m⟩

namespace Memory

variable {V : Type} (rt : Runtime V)

/-- The memory with results written to operands, the first of which has a number. -/
def writeAll (m : Memory V) (value : Nat → V) (index : Nat) : List Operand → Memory V
  | [] => m
  | dest :: rest => (m.write dest (value index)).writeAll value (index + 1) rest

variable (m : Memory V)

def ask (event : Event V) (dests : List Operand) : Effect V :=
  let asked := { m with world := m.world.after event }
  match rt.reply m.world.trace event with
  | .results value => .goes (asked.writeAll value 0 dests)
  | .thrown v => .raises v asked

/-- The event of a call: the receiver and the arguments are in the first slots. -/
def callEvent (callee : Callee) (argc : Nat) : Event V :=
  let constructs := match callee with
    | .construct _ => true
    | _ => false
  .call constructs (m.read rt callee.operand) ((List.range argc).map m.slots)

/-- The event of native code: its inputs are the bindings that it reads. -/
def nativeEvent (bindings : List Operand) (resultCount : Nat)
    (parts : List SplicePart) : Event V :=
  let inputs := (bindings.zipIdx.drop resultCount).filter fun b => rt.reads parts b.2
  .native parts resultCount (inputs.map fun b => m.read rt b.1)

def nativeDests (bindings : List Operand) (resultCount : Nat) (parts : List SplicePart) :
    List Operand :=
  (bindings.zipIdx.filter fun b => b.2 < resultCount || !rt.reads parts b.2).map (·.1)

def perform : Instruction → Option (Effect V)
  | .assign dest source => some (.goes (m.write dest (m.read rt source)))
  | .binary op dest left right =>
    let x := m.read rt left
    let y := m.read rt right
    if op = .delete then some (m.ask rt (.delete x y) [dest])
    else some (.goes (m.write dest (rt.binary op x y)))
  | .unary op dest argument => some (.goes (m.write dest (rt.unary op (m.read rt argument))))
  | .newObject dest => some (m.ask rt .newObject [dest])
  | .newArray dest length => some (m.ask rt (.newArray length) [dest])
  | .newArguments dest => some (.goes (m.write dest m.arguments))
  | .loadThrown dest => some (.goes (m.write dest m.thrown))
  | .endTry index =>
    match m.handlers with
    | (entered, _) :: rest => if entered = index then some
        (.goes { m with handlers := rest }) else none
    | [] => none
  | .get dest object key => some (m.ask rt (.get (m.read rt object) (m.read rt key)) [dest])
  | .put object key value =>
    some (m.ask rt (.put (m.read rt object) (m.read rt key) (m.read rt value)) [])
  | .call dest callee argc => some (m.ask rt (m.callEvent rt callee argc) dest.toList)
  | .splice bindings resultCount parts =>
    some (m.ask rt (m.nativeEvent rt bindings resultCount parts)
      (nativeDests rt bindings resultCount parts))
  | .closure .. => none

def leave : Jump → Option (Config V)
  | .ret value => some ⟨.returned (m.read rt value), m⟩
  | .throw value => some ⟨.raising (m.read rt value), m⟩
  | .goto label => some ⟨.toward label, m⟩
  | .beginTry index onCatch onBody =>
    some ⟨.toward onBody, { m with handlers := (index, onCatch) :: m.handlers }⟩
  | .switch value cases default =>
    let entry := cases.find? fun c => rt.hasKey (m.read rt value) c.1
    some ⟨.toward ((entry.map (·.2)).getD default), m⟩
  | .ifTrue value onTrue onFalse =>
    some ⟨.toward (if rt.truthy (m.read rt value) then onTrue else onFalse), m⟩
  | .ifCompare op left right onTrue onFalse =>
    op.comparison?.map fun comparison =>
      let holds := rt.truthy (rt.binary comparison (m.read rt left) (m.read rt right))
      ⟨.toward (if holds then onTrue else onFalse), m⟩

end Memory

namespace Routine

variable {V : Type} (rt : Runtime V)

def step (r : Routine) (c : Config V) : Option (Config V) :=
  match c.point with
  | .inside block index =>
    r.blocks[block]?.bind fun b =>
      match b.body[index]? with
      | some i => (c.memory.perform rt i).map (Effect.config (.inside block (index + 1)))
      | none => b.jump.bind (c.memory.leave rt)
  | .toward label =>
    match r.labels[label]? with
    | some (some block) => some ⟨.inside block 0, c.memory⟩
    | _ => none
  | .raising v =>
    match c.memory.handlers with
    | (_, onCatch) :: rest =>
      some ⟨.toward onCatch, { c.memory with thrown := v, handlers := rest }⟩
    | [] => some ⟨.uncaught v, c.memory⟩
  | .returned _ | .uncaught _ => none

/-- A run of a number of steps. -/
inductive Steps (r : Routine) : Nat → Config V → Config V → Prop
  | refl (c : Config V) : Steps r 0 c c
  | next {n : Nat} {c c' c'' : Config V} (first : r.step rt c = some c')
      (rest : Steps r n c' c'') : Steps r (n + 1) c c''

namespace Steps

variable {rt} {r : Routine} {c c' c'' : Config V} {k n : Nat}

lemma single (step : r.step rt c = some c') : r.Steps rt 1 c c' := .next step (.refl c')

lemma trans (first : r.Steps rt k c c') (second : r.Steps rt n c' c'') :
    r.Steps rt (k + n) c c'' := by
  induction first with
  | refl => rwa [Nat.zero_add]
  | @next k _ _ _ step _ ih =>
    rw [Nat.add_right_comm]
    exact .next step (ih second)

end Steps

/-- Whether a run stands outside the entry block, where later code may still be added. -/
def Outside (point : Point V) : Prop := ∀ index, point ≠ .inside entry index

lemma step_grows {rt : Runtime V} {r r' : Routine} (grows : r.Grows r') {c c' : Config V}
    (outside : Outside c.point) (step : r.step rt c = some c') : r'.step rt c = some c' := by
  obtain ⟨point, m⟩ := c
  cases point with
  | inside block index =>
    have body : block ≠ entry := fun here => outside index (by rw [here])
    obtain ⟨b, found, rest⟩ := bind_eq_some_iff.mp step
    obtain ⟨b', found', longer, jump_kept⟩ := grows.blocks block b found
    refine bind_eq_some_iff.mpr ⟨b', found', ?_⟩
    cases here : b.body[index]? with
    | some i =>
      obtain ⟨added, split⟩ := longer
      have same : b'.body[index]? = some i := by
        rw [← getElem?_toList] at here ⊢
        obtain ⟨inside, -⟩ := List.getElem?_eq_some_iff.mp here
        rw [← split, List.getElem?_append_left inside, here]
      simpa only [here, same] using rest
    | none =>
      rw [here] at rest
      obtain ⟨jump, ends, leaves⟩ := bind_eq_some_iff.mp rest
      obtain ⟨ends', same⟩ := jump_kept jump ends
      simpa only [same body, here, ends', bind_some] using leaves
  | toward label =>
    simp only [Routine.step] at step ⊢
    split at step
    next k found => rw [grows.labels label k found, ← step]
    next => cases step
  | raising | returned | uncaught => exact step

lemma outside_leave {rt : Runtime V} {m : Memory V} {jump : Jump} {c : Config V}
    (leaves : m.leave rt jump = some c) : Outside c.point := by
  intro index here
  cases jump with
  | ifCompare op left right onTrue onFalse =>
    obtain ⟨comparison, -, rfl⟩ := map_eq_some_iff.mp leaves
    cases here
  | ret | throw | goto | beginTry | switch | ifTrue =>
    cases leaves
    cases here

lemma Sound.step_outside {rt : Runtime V} {r : Routine} (sound : r.Sound) {c c' : Config V}
    (outside : Outside c.point) (step : r.step rt c = some c') : Outside c'.point := by
  obtain ⟨point, m⟩ := c
  cases point with
  | inside block index =>
    obtain ⟨b, -, rest⟩ := bind_eq_some_iff.mp step
    split at rest
    · obtain ⟨effect, -, rfl⟩ := map_eq_some_iff.mp rest
      cases effect with
      | goes m =>
        intro later here
        obtain rfl : block = entry := by simpa using (Point.inside.inj here).1
        exact outside index rfl
      | raises v m =>
        intro later here
        cases here
    · obtain ⟨jump, -, leaves⟩ := bind_eq_some_iff.mp rest
      exact outside_leave leaves
  | toward label =>
    simp only [Routine.step] at step
    split at step
    next k found =>
      cases step
      intro later here
      exact (sound.placed label k found).1 (Point.inside.inj here).1
    next => cases step
  | raising v =>
    simp only [Routine.step] at step
    split at step
    all_goals
      cases step
      intro later here
      cases here
  | returned | uncaught => cases step

namespace Steps

variable {rt} {r r' : Routine} {c c' : Config V} {n : Nat}

lemma grows (steps : r.Steps rt n c c') (sound : r.Sound) (outside : Outside c.point)
    (grows : r.Grows r') : r'.Steps rt n c c' := by
  induction steps with
  | refl => exact .refl _
  | next first _ ih =>
    exact .next (step_grows grows outside first) (ih (sound.step_outside outside first))

end Steps

def point (r : Routine) : Point V := .inside r.openId r.openBody.size

section

variable {r : Routine} (sound : r.Sound)
include sound

lemma Sound.point_outside : Outside (r.point : Point V) :=
  fun _ here => sound.openId_ne (Point.inside.inj here).1

lemma step_appended {rt : Runtime V} {i : Instruction} {m : Memory V} {effect : Effect V}
    (performs : m.perform rt i = some effect) :
    (r.appended i).step rt ⟨r.point, m⟩ = some (effect.config (r.appended i).point) := by
  obtain ⟨id, body⟩ := withOpen_open sound.toBuilt (r.openBody.push i)
  have found := withOpen_blocks sound.toBuilt { body := r.openBody.push i, jump := none } r.openId
  have next : (r.appended i).point = (.inside r.openId (r.openBody.size + 1) : Point V) := by
    rw [point, appended, id, body, size_push]
  rw [if_pos rfl] at found
  rw [next, step, point]
  simp only [appended, found, bind_some, getElem?_push_size, performs, map_some]

lemma step_ended {rt : Runtime V} (jump : Jump) (m : Memory V) :
    (r.ended jump).step rt ⟨r.point, m⟩ = m.leave rt jump := by
  have found := withOpen_blocks sound.toBuilt
    { body := r.openBody, jump := some jump, successors := jump.targets } r.openId
  rw [if_pos rfl] at found
  simp only [step, point, ended, found, bind_some, getElem?_eq_none (Nat.le_refl r.openBody.size)]

lemma placeAt_point (label : Label) :
    (r.placeAt label).point = (.inside (r.startAt label).current 0 : Point V) := by
  obtain ⟨id, body⟩ := startAt_open sound.toBuilt label
  exact congrArg₂ Point.inside id (congrArg size body)

lemma step_toward_placeAt {rt : Runtime V} {label : Label} (pending : r.Pending label)
    (m : Memory V) :
    (r.placeAt label).step rt ⟨.toward label, m⟩ = some ⟨(r.placeAt label).point, m⟩ := by
  have labels := placeAt_labels pending label
  rw [placeAt_point sound, step]
  simp only [labels]
  rfl

lemma steps_placeAt {rt : Runtime V} {label : Label} (pending : r.Pending label) (m : Memory V) :
    ∃ n, (r.placeAt label).Steps rt n ⟨r.point, m⟩ ⟨(r.placeAt label).point, m⟩ := by
  by_cases empty : r.openBody.isEmpty = true
  · -- The label is placed at the open block itself.
    have started : r.startAt label = r.withOpen Block.empty := by rw [startAt, if_pos empty]
    have same : (r.placeAt label).point = (r.point : Point V) := by
      rw [placeAt_point sound, started, point, isEmpty_iff.mp empty]
      rfl
    rw [same]
    exact ⟨0, .refl _⟩
  · -- The open block ends with a jump to the label.
    have first := edits_ended sound (.goto label)
    have started : r.startAt label = (r.ended (.goto label)).withOpen Block.empty := by
      rw [startAt, if_neg empty]
    have other : r.openId ≠ (r.ended (.goto label)).openId := by
      rw [(ended_closed sound.toBuilt _).1, ended, withOpen_size sound.toBuilt]
      exact Nat.ne_of_lt (Nat.lt_of_lt_of_le (Nat.lt_succ_self _) (Nat.le_max_right _ _))
    have found : (r.placeAt label).blocks[r.openId]? =
        some { body := r.openBody, jump := some (.goto label), successors := [label] } := by
      rw [placeAt, started, withOpen_blocks first.sound.toBuilt, if_neg other, ended,
        withOpen_blocks sound.toBuilt, if_pos rfl]
      rfl
    have leaves : (r.placeAt label).step rt ⟨r.point, m⟩ = some ⟨.toward label, m⟩ := by
      simp only [step, point, found, bind_some, getElem?_eq_none (Nat.le_refl r.openBody.size)]
      rfl
    exact ⟨2, .next leaves (.single (step_toward_placeAt sound pending m))⟩

end

end Routine
end Scriptc
