import Scriptc.Proofs.Code.Chart
import Scriptc.Storage.Environment

/-!
# Running units

A running unit has activations of its routines, of which the one entered last runs. An activation
creates closures, which capture its environment, or the one it was given if it has none, and is
entered through a closure. What else the code computes is left open: any closure may be entered, and
a value may be thrown.
-/

open Function

namespace Scriptc

/-- Whether an instruction runs no other code and cannot fail: it creates a closure or prepares the
arguments. -/
def Instruction.isQuiet : Instruction → Bool
  | .closure .. => true
  | i => i.isPrologue

namespace Routine

/-- Whether other code may run at a point, or a value be thrown there. -/
def Suspends (r : Routine) (k : BlockId) (j : Nat) : Prop :=
  (∃ i, r.At k j i ∧ i.isQuiet = false) ∨ ∃ b jump, r.blocks[k]? = some b ∧ j = b.body.size ∧
    b.jump = some jump ∧ ∀ label, jump ≠ .goto label

/-- Where control may go other than to the next instruction: along the jump of a block, or to a
handler. -/
inductive Leaves (r : Routine) : BlockId → Nat → BlockId → Prop
  | jump {k next : BlockId} {j : Nat} {b : Block} {jump : Jump} {label : Label}
      (found : r.blocks[k]? = some b) (last : j = b.body.size) (ends : b.jump = some jump)
      (target : label ∈ jump.targets) (placed : r.labels[label]? = some (some next)) :
        Leaves r k j next
  | handler {k next : BlockId} {j index : Nat} {onCatch onBody : Label} (suspends : r.Suspends k j)
      (protects : r.EndsWith (.beginTry index onCatch onBody))
      (placed : r.labels[onCatch]? = some (some next)) : Leaves r k j next

/-- A path from the start of a routine to a point, with the instructions on it, the last one
first. -/
inductive Path (r : Routine) : List (BlockId × Nat) → BlockId → Nat → Prop
  | start : Path r [] entry 0
  | instruction {done : List (BlockId × Nat)} {k : BlockId} {j : Nat} {i : Instruction}
      (path : Path r done k j) (here : r.At k j i) : Path r ((k, j) :: done) k (j + 1)
  | leaves {done : List (BlockId × Nat)} {k next : BlockId} {j : Nat} (path : Path r done k j)
      (leaves : r.Leaves k j next) : Path r done next 0

end Routine

def CodeUnit.envSize (u : CodeUnit) (i : RoutineId) : Nat :=
  ((u.routines[i]?.bind Routine.layout).map Layout.envSize).getD 0

/-- A closure: its routine, the environment it captured and the activation that created it. -/
structure Closure where
  routine : RoutineId
  env : Option Nat
  maker : Nat

/-- An environment: the one it is linked to, and the activation whose variables it holds. -/
structure Environment where
  parent : Option Nat
  maker : Nat

/-- An activation: its routine, the closure it was entered through, the environment it was given and
its own environment. -/
structure Activation where
  routine : RoutineId
  closure : Option Nat
  env : Option Nat
  escaped : Option Nat

def Activation.captured (a : Activation) (u : CodeUnit) : Option Nat :=
  if 0 < u.envSize a.routine then a.escaped else a.env

/-- A running unit. Of the values in locals and variables only closures are told apart. -/
structure Process where
  closures : Nat → Option Closure
  environments : Nat → Option Environment
  activations : Nat → Option Activation
  /-- The block and the instruction that an activation is at. -/
  point : Nat → BlockId × Nat
  /-- The closure that a local of an activation holds. -/
  cells : Nat → LocalId → Option Nat
  /-- The closure that a variable of an activation holds. -/
  vars : Nat → Nat → Option Nat
  /-- The activations that have not ended, the running one first. -/
  stack : List Nat

namespace Process

variable {k : Nat} {routine : RoutineId} {routines : List RoutineId} {env : Option Nat}
  {a : Activation}

/-- The environment that is some links away from another one. -/
def follow (w : Process) : Nat → Option Nat → Option Nat
  | 0, env => env
  | links + 1, env => w.follow links ((env.bind w.environments).bind Environment.parent)

/-- The activation that holds a variable, as the code of another one reaches it: in its own places,
or in an environment that is some links away from the one it was given. -/
def owner (w : Process) (u : CodeUnit) (k : Nat) (v : VariableId) : Option Nat :=
  (w.activations k).bind fun a =>
    if v.routine = a.routine then some k
    else
      match u.hops a.routine v.routine with
      | .ok links => ((w.follow links a.env).bind w.environments).map Environment.maker
      | .error _ => none

def value (w : Process) (u : CodeUnit) (k : Nat) : Operand → Option Nat
  | .cell id => w.cells k id
  | .var v => (w.owner u k v).bind fun m => w.vars m v.index
  | _ => none

/-- The process after an activation of a routine is entered, with numbers for it and for its own
environment. -/
def entered (w : Process) (u : CodeUnit) (m e : Nat) (routine : RoutineId)
    (closure env : Option Nat) : Process :=
  let own : Bool := 0 < u.envSize routine
  { w with
    activations := Function.update w.activations m
      (some { routine, closure, env, escaped := if own then some e else none })
    environments := if own then Function.update w.environments e
      (some { parent := env, maker := m }) else w.environments
    point := Function.update w.point m (Routine.entry, 0)
    stack := m :: w.stack }

def start (u : CodeUnit) (cells : Nat → LocalId → Option Nat) (vars : Nat → Nat → Option Nat) :
    Process :=
  entered
    { closures := fun _ => none, environments := fun _ => none, activations := fun _ => none
      point := fun _ => (Routine.entry, 0), cells, vars, stack := [] } u 0 0 0 none none

/-- The activation that runs, and its routine. -/
structure Current (w : Process) (u : CodeUnit) (k : Nat) (rest : List Nat) (a : Activation)
    (r : Routine) : Prop where
  stack : w.stack = k :: rest
  activation : w.activations k = some a
  routine : u.routines[a.routine]? = some r

/-- What an instruction of an activation does: it changes nothing but what it writes, and creates no
closure unless it says so. -/
structure Performs (w : Process) (u : CodeUnit) (k : Nat) (a : Activation) (i : Instruction)
    (w' : Process) : Prop where
  environments : w'.environments = w.environments
  activations : w'.activations = w.activations
  stack : w'.stack = w.stack
  point : w'.point = Function.update w.point k ((w.point k).1, (w.point k).2 + 1)
  cells : ∀ m id, (m = k → .cell id ∉ i.touched) → w'.cells m id = w.cells m id
  vars : ∀ m index, (∀ v, .var v ∈ i.dests → w.owner u k v = some m → v.index ≠ index) →
    w'.vars m index = w.vars m index
  copies : ∀ id v, i = .assign (.cell id) (.var v) → w'.cells k id = w.value u k (.var v)
  closures :
    match i with
    | .closure dest routine => ∃ c, w.closures c = none ∧ w'.value u k dest = some c ∧
        w'.closures = Function.update w.closures c
          (some { routine, env := a.captured u, maker := k })
    | _ => w'.closures = w.closures

/-- One step of a running unit. A direct call enters its routine with the environment of the closure
it reads, whatever closure that is. -/
inductive Step (u : CodeUnit) (w : Process) : Process → Prop
  | instruction {k : Nat} {rest : List Nat} {a : Activation} {r : Routine} {i : Instruction}
      {w' : Process} (current : w.Current u k rest a r) (here : r.At (w.point k).1 (w.point k).2 i)
      (performs : w.Performs u k a i w') : Step u w w'
  | leaves {k : Nat} {rest : List Nat} {a : Activation} {r : Routine} {next : BlockId}
      (current : w.Current u k rest a r) (leaves : r.Leaves (w.point k).1 (w.point k).2 next) :
      Step u w { w with point := Function.update w.point k (next, 0) }
  | enters {k c m e : Nat} {rest : List Nat} {a : Activation} {r : Routine} {closure : Closure}
      {routine : RoutineId} (current : w.Current u k rest a r)
      (suspends : r.Suspends (w.point k).1 (w.point k).2) (created : w.closures c = some closure)
      (target : routine = closure.routine ∨ ∃ dest callee argc,
        r.At (w.point k).1 (w.point k).2 (.call dest (.direct routine callee) argc) ∧
          w.value u k callee = some c)
      (new : w.activations m = none) (fresh : w.environments e = none) :
      Step u w (w.entered u m e routine (some c) closure.env)
  | ends {k : Nat} {rest : List Nat} {a : Activation} {r : Routine}
      (current : w.Current u k rest a r) (suspends : r.Suspends (w.point k).1 (w.point k).2) :
      Step u w { w with stack := rest }

/-- What a running unit can come to. -/
inductive Reachable (u : CodeUnit) : Process → Prop
  | start (cells : Nat → LocalId → Option Nat) (vars : Nat → Nat → Option Nat) :
      Reachable u (start u cells vars)
  | step {w w' : Process} (reachable : Reachable u w) (step : Step u w w') : Reachable u w'

/-- Whether an activation is another one, or was entered through a closure that one inside of it
created. -/
inductive Inside (w : Process) : Nat → Nat → Prop
  | refl (k : Nat) : Inside w k k
  | through {k m c : Nat} {a : Activation} {closure : Closure} (found : w.activations k = some a)
      (entered : a.closure = some c) (created : w.closures c = some closure)
      (inside : Inside w closure.maker m) : Inside w k m

/-- Whether the environments of activations of some routines, which an activation is inside of, are
linked to one another. -/
def Chain (w : Process) (k : Nat) : Option Nat → List RoutineId → Prop
  | _, [] => True
  | env, routine :: rest => ∃ e d a, env = some e ∧ w.environments e = some d ∧
      w.activations d.maker = some a ∧ a.routine = routine ∧ a.escaped = some e ∧
        w.Inside k d.maker ∧ w.Chain k d.parent rest

/-- How the code of an activation reaches a variable of a routine around its own: along links to an
environment that has a place for it, which is that of an activation it is inside of. -/
def Reaches (w : Process) (u : CodeUnit) (k : Nat) (a : Activation) (v : VariableId) : Prop :=
  ∃ r layout x index links e d b, u.routines[v.routine]? = some r ∧ r.layout = some layout ∧
    r.vars[v.index]? = some x ∧ x.storage = some (.environment index) ∧ index < layout.envSize ∧
      u.hops a.routine v.routine = .ok links ∧ w.follow links a.env = some e ∧
        w.environments e = some d ∧ w.activations d.maker = some b ∧ b.routine = v.routine ∧
          b.escaped = some e ∧ w.Inside k d.maker

def Holds (w : Process) (x : Option Nat) (routine : RoutineId) : Prop :=
  ∃ c closure, x = some c ∧ w.closures c = some closure ∧ closure.routine = routine

/-- Whether what is there stays there. -/
structure Grows (w w' : Process) : Prop where
  closures : ∀ c closure, w.closures c = some closure → w'.closures c = some closure
  environments : ∀ e env, w.environments e = some env → w'.environments e = some env
  activations : ∀ k a, w.activations k = some a → w'.activations k = some a

variable {u : CodeUnit} {w w' : Process}

lemma Grows.inside (grows : w.Grows w') {m : Nat} (inside : w.Inside k m) : w'.Inside k m := by
  induction inside with
  | refl k => exact .refl k
  | through found entered created _ ih =>
    exact .through (grows.activations _ _ found) entered (grows.closures _ _ created) ih

lemma Grows.holds (grows : w.Grows w') {x : Option Nat} (holds : w.Holds x routine) :
    w'.Holds x routine := by
  obtain ⟨c, closure, same, found, of_routine⟩ := holds
  exact ⟨c, closure, same, grows.closures _ _ found, of_routine⟩

lemma Grows.chain (grows : w.Grows w') {k' : Nat} (deeper : ∀ m, w.Inside k m → w'.Inside k' m)
    (chain : w.Chain k env routines) : w'.Chain k' env routines := by
  induction routines generalizing env with
  | nil => trivial
  | cons first rest ih =>
    obtain ⟨e, d, a, here, found, maker, routine, escaped, inside, chain⟩ := chain
    exact ⟨e, d, a, here, grows.environments _ _ found, grows.activations _ _ maker,
      routine, escaped, deeper _ inside, ih chain⟩

lemma Chain.follow {links : Nat} (chain : w.Chain k env routines)
    (here : routines[links]? = some routine) :
    ∃ e d a, w.follow links env = some e ∧ w.environments e = some d ∧
      w.activations d.maker = some a ∧ a.routine = routine ∧ a.escaped = some e ∧
        w.Inside k d.maker := by
  induction links generalizing env routines with
  | zero =>
    cases routines with
    | nil => cases here
    | cons first rest =>
      obtain ⟨e, d, a, same, found, maker, of_first, escaped, inside, -⟩ := chain
      exact ⟨e, d, a, same, found, maker, of_first.trans (by simpa using here), escaped, inside⟩
  | succ links ih =>
    cases routines with
    | nil => cases here
    | cons first rest =>
      obtain ⟨e, d, a, same, found, -, -, -, -, chain⟩ := chain
      simpa [Process.follow, same, found] using ih chain (by simpa using here)

lemma entered_activations (m e : Nat) (routine : RoutineId) (closure env : Option Nat) (k : Nat) :
    (w.entered u m e routine closure env).activations k = if k = m then
        some { routine, closure, env, escaped := if 0 < u.envSize routine then some e else none }
      else w.activations k := by
  simp [entered, update_apply]

lemma grows_entered {m e : Nat} (new : w.activations m = none) (fresh : w.environments e = none)
    (routine : RoutineId) (closure env : Option Nat) :
      w.Grows (w.entered u m e routine closure env) where
  closures _ _ found := found
  environments k d found := by
    dsimp only [entered]
    split
    · rw [update_of_ne (by rintro rfl; simp [fresh] at found), found]
    · exact found
  activations k a found := by
    rw [entered_activations, if_neg (by rintro rfl; simp [new] at found), found]

lemma Performs.grows {i : Instruction} (performs : w.Performs u k a i w') : w.Grows w' where
  closures c closure found := by
    have change := performs.closures
    split at change
    · obtain ⟨new, fresh, -, changed⟩ := change
      rw [changed, update_of_ne (by rintro rfl; simp [fresh] at found), found]
    · rw [change, found]
  environments _ _ found := by rw [performs.environments, found]
  activations _ _ found := by rw [performs.activations, found]

lemma Step.grows (step : Step u w w') : w.Grows w' := by
  cases step with
  | instruction _ _ performs => exact performs.grows
  | leaves => exact ⟨fun _ _ => id, fun _ _ => id, fun _ _ => id⟩
  | enters _ _ _ _ new fresh => exact grows_entered new fresh ..
  | ends => exact ⟨fun _ _ => id, fun _ _ => id, fun _ _ => id⟩

lemma Performs.closure_holds {dest : Operand}
    (performs : w.Performs u k a (.closure dest routine) w') :
    w'.Holds (w'.value u k dest) routine := by
  obtain ⟨c, -, read, changed⟩ := performs.closures
  exact ⟨c, _, read, by rw [changed, update_self], rfl⟩

end Process
end Scriptc
