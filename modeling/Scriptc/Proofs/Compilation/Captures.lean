import Scriptc.Proofs.Compilation.Success
import Scriptc.Proofs.Semantics.Process
import Scriptc.Syntax.Construct

/-!
# Captured variables and direct calls

In every run of a compiled program, a routine reaches the variables around it in the environment of
the activation that its closure was created in. A variable through which a routine is called
directly is written once, before its owner runs other code.
-/

namespace Scriptc

open CodeUnit Instruction Option

variable {m : Nat} {origin : Origin} {done : List (BlockId × Nat)} {closure : Closure}

/-! ## Chains of environments -/

namespace CodeUnit

variable {u : CodeUnit}

/-- The routines around a routine that have an environment, innermost first. -/
def around (u : CodeUnit) (i : RoutineId) : List RoutineId :=
  u.chainFrom u.routines.size (u.routines[i]?.bind Routine.parent)

@[simp] lemma chainFrom_none (u : CodeUnit) (n : Nat) : u.chainFrom n none = [] := by
  cases n <;> rfl

lemma envSize_completed (u : CodeUnit) (i : RoutineId) : u.completed.envSize i = u.envSize i := by
  rw [envSize, envSize, completed_routines]
  cases u.routines[i]? with
  | none => rfl
  | some r => cases layout : r.layout <;> simp [Routine.mapCallees, withChain, layout]

section

variable (parents : ∀ (i : RoutineId) (r : Routine) (outer : RoutineId), u.routines[i]? = some r →
  r.parent = some outer → outer < i)

include parents

lemma chainFrom_enough {i : RoutineId} {n : Nat} (below : i < m) (below' : i < n) :
    u.chainFrom m (some i) = u.chainFrom n (some i) := by
  induction i using Nat.strong_induction_on generalizing m n with
  | _ i ih =>
    obtain ⟨m, rfl⟩ := Nat.exists_eq_succ_of_ne_zero (Nat.ne_of_gt (Nat.zero_lt_of_lt below))
    obtain ⟨n, rfl⟩ := Nat.exists_eq_succ_of_ne_zero (Nat.ne_of_gt (Nat.zero_lt_of_lt below'))
    simp only [chainFrom]
    cases found : u.routines[i]? with
    | none => rfl
    | some r =>
      have outer : u.chainFrom m r.parent = u.chainFrom n r.parent := by
        cases parent : r.parent with
        | none => simp
        | some o =>
          have earlier := parents i r o found parent
          exact ih o earlier (Nat.lt_of_lt_of_le earlier (Nat.le_of_lt_succ below))
            (Nat.lt_of_lt_of_le earlier (Nat.le_of_lt_succ below'))
      simp only [outer]

lemma le_of_mem_chainFrom {i j : RoutineId} {n : Nat} (mem : j ∈ u.chainFrom n (some i)) :
    j ≤ i := by
  induction n generalizing i with
  | zero => cases mem
  | succ n ih =>
    simp only [chainFrom] at mem
    cases found : u.routines[i]? with
    | none => simp [found] at mem
    | some r =>
      simp only [found] at mem
      have outer (inner : j ∈ u.chainFrom n r.parent) : j ≤ i := by
        cases parent : r.parent with
        | none => simp [parent] at inner
        | some o =>
          exact Nat.le_trans (ih (parent ▸ inner)) (Nat.le_of_lt (parents i r o found parent))
      split at mem
      · split at mem
        · exact (List.mem_cons.mp mem).elim Nat.le_of_eq outer
        · exact outer mem
      · exact outer mem

lemma chainFrom_eq {i : RoutineId} {r : Routine} (found : u.routines[i]? = some r) :
    u.chainFrom u.routines.size (some i) =
      if 0 < u.envSize i then i :: u.around i else u.around i := by
  have inside := (lt_size found)
  rw [chainFrom_enough parents inside (Nat.lt_succ_of_lt inside), chainFrom, envSize, around]
  simp only [found, bind_some]
  cases r.layout <;> simp

end

end CodeUnit

namespace Lowering

open Process

variable {s : Lowering} {w w' : Process} {k : Nat} {rest : List Nat} {a : Activation}

lemma Coherent.outer_of_chain (coherent : s.Coherent) {i : RoutineId} {r : Routine}
    (found : s.unit.routines[i]? = some r) :
    (match s.unit.chainFrom s.unit.routines.size (some i) with
      | first :: rest => if first = i then rest else first :: rest
      | [] => []) = s.unit.around i := by
  rw [chainFrom_eq coherent.parent_lt found]
  split
  next first rest here =>
    split at here
    · cases here
      rw [if_pos rfl]
    · rw [if_neg, here]
      rintro rfl
      -- The routines around a routine have smaller numbers.
      have mem : first ∈ s.unit.around first := by simp [here]
      rw [around, found, bind_some] at mem
      cases parent : r.parent with
      | none => simp [parent] at mem
      | some o =>
        have earlier := coherent.parent_lt first r o found parent
        exact absurd (le_of_mem_chainFrom coherent.parent_lt (parent ▸ mem))
          (Nat.not_le.mpr earlier)
  next here =>
    split at here
    · cases here
    · exact here.symm

lemma Coherent.around_of_hops (coherent : s.Coherent) {i owner : RoutineId} {links : Nat}
    (reached : s.unit.completed.hops i owner = .ok links) :
    (s.unit.around i)[links]? = some owner := by
  obtain ⟨R, found, rest⟩ := Result.bind_eq_ok.mp reached
  obtain ⟨layout, laid, last⟩ := Result.bind_eq_ok.mp rest
  have found : s.unit.completed.routines[i]? = some R := by
    rw [routine] at found
    split at found
    next here => exact here.trans (congrArg some (Except.ok.inj found))
    next => cases found
  obtain ⟨r, found0, rfl⟩ := completed_eq_some.mp found
  have chain : layout.envChain = s.unit.chainFrom s.unit.routines.size (some i) := by
    rw [Routine.getLayout] at laid
    split at laid
    next here =>
      obtain ⟨layout0, -, rfl⟩ := map_eq_some_iff.mp
        (here.trans (congrArg some (Except.ok.inj laid)))
      exact congrArg _ (congrArg some (coherent.ids i r found0))
    next => cases laid
  have outer := coherent.outer_of_chain found0
  rw [← chain] at outer
  dsimp only at last
  split at last
  next n place =>
    obtain rfl := Except.ok.inj last
    have here : (s.unit.around i).idxOf? owner = some n := by
      rw [← outer]
      exact place
    obtain ⟨inside, same, -⟩ := List.idxOf?_eq_some_iff.mp here
    rw [List.getElem?_eq_getElem inside, same]
  next => cases last

end Lowering

/-! ## Code before other code runs -/

namespace Flow

variable {F : Flow}

lemma Leads.holds {aim : Label → Flow} {jump : Jump} (leads : F.Leads aim jump) {label : Label}
    (target : label ∈ jump.targets) {id : LocalId} (holds : (aim label).holds id origin) :
    F.holds id origin := by
  unfold Leads at leads
  split at leads
  · cases target
  · obtain ⟨-, onBody, onCatch⟩ := leads
    rcases (by simpa [Jump.targets] using target : label = _ ∨ label = _) with rfl | rfl
    · exact onBody.2 _ _ holds
    · cases onCatch.2 _ _ holds
  · exact (leads label target).2 _ _ holds

lemma AdmitsAll.get {body : List Instruction} (admits : F.AdmitsAll body) {n : Nat}
    {i : Instruction} (here : body[n]? = some i) : (F.through (body.take n)).Admits i := by
  induction body generalizing F n with
  | nil => cases here
  | cons first rest ih =>
    cases n with
    | zero =>
      cases here
      exact admits.1
    | succ n => exact ih admits.2 (by simpa using here)

end Flow

namespace Routine

/-- Whether a routine starts with the creation of closures, at least up to an instruction. -/
structure Starts (r : Routine) (n : Nat) : Prop where
  prologue : ∀ j i, r.At entry j i → i.isPrologue = true
  jump : ∀ b, r.blocks[entry]? = some b → b.jump = some (.goto 1)
  target : r.labels[1]? = some (some 1)
  first : ∀ j i, j ≤ n → r.At 1 j i → ∃ dest routine, i = .closure dest routine
  here : ∃ i, r.At 1 n i

def Early (n : Nat) (k : BlockId) (j : Nat) : Prop := k = entry ∨ k = 1 ∧ j ≤ n

variable {r : Routine} {n : Nat} {k next : BlockId} {j : Nat}

lemma At.unique {i i' : Instruction} (here : r.At k j i) (here' : r.At k j i') : i = i' := by
  obtain ⟨b, found, at_j⟩ := here
  obtain ⟨b', found', at_j'⟩ := here'
  cases found.symm.trans found'
  exact some.inj (at_j.symm.trans at_j')

namespace Starts

variable (starts : r.Starts n)

include starts

lemma not_suspends (early : Early n k j) : ¬r.Suspends k j := by
  rintro (⟨i, here, loud⟩ | ⟨b, jump, found, ends, last, plain⟩)
  · rcases early with rfl | ⟨rfl, before⟩
    · have quiet := starts.prologue j i here
      cases i <;> simp_all [isQuiet, isPrologue]
    · obtain ⟨dest, routine, rfl⟩ := starts.first j i before here
      cases loud
  · rcases early with rfl | ⟨rfl, before⟩
    · rw [starts.jump b found] at last
      exact plain 1 (some.inj last).symm
    · obtain ⟨i, b', found', here⟩ := starts.here
      cases found.symm.trans found'
      exact absurd (lt_size here) (Nat.not_lt.mpr (ends ▸ before))

lemma leaves (early : Early n k j) (leaves : r.Leaves k j next) : Early n next 0 := by
  rcases leaves with ⟨found, last, ends, target, placed⟩ | ⟨suspends, -, -⟩
  · rcases early with rfl | ⟨rfl, before⟩
    · cases (starts.jump _ found).symm.trans ends
      obtain rfl : _ = 1 := by simpa [Jump.targets] using target
      obtain rfl : 1 = next := by simpa [starts.target] using placed
      exact .inr ⟨rfl, Nat.zero_le n⟩
    · obtain ⟨i, b', found', here⟩ := starts.here
      cases found.symm.trans found'
      exact absurd (lt_size here) (Nat.not_lt.mpr (last ▸ before))
  · exact absurd suspends (starts.not_suspends early)

omit starts in
lemma early_succ (early : Early n k j) : Early n k (j + 1) ∨ k = 1 ∧ j = n := by
  rcases early with rfl | ⟨rfl, before⟩
  · exact .inl (.inl rfl)
  · rcases Nat.lt_or_eq_of_le before with less | last
    · exact .inl (.inr ⟨rfl, less⟩)
    · exact .inr ⟨rfl, last⟩

lemma path (path : r.Path done k j) : Early n k j ∨ (1, n) ∈ done := by
  induction path with
  | start => exact .inl (.inl rfl)
  | instruction _ _ ih =>
    rcases ih with early | member
    · rcases early_succ early with early | ⟨rfl, rfl⟩
      · exact .inl early
      · exact .inr List.mem_cons_self
    · exact .inr (List.mem_cons_of_mem _ member)
  | leaves _ leaves ih => exact ih.imp_left fun early => starts.leaves early leaves

end Starts

/-! Resolving calls does not change where control goes. -/

section

variable {u : CodeUnit}

lemma isQuiet_mapCallee (change : Callee → Callee) (i : Instruction) :
    (i.mapCallee change).isQuiet = i.isQuiet := by
  cases i <;> rfl

lemma suspends_completed (suspends : (u.resolved r).Suspends k j) :
    r.Suspends k j := by
  rcases suspends with ⟨i, here, loud⟩ | ⟨b, jump, found, ends, last, plain⟩
  · obtain ⟨i0, here0, rfl⟩ := at_completed here
    exact .inl ⟨i0, here0, by rwa [isQuiet_mapCallee] at loud⟩
  · obtain ⟨b0, found0, rfl⟩ := block_completed found
    exact .inr ⟨b0, jump, found0, by simpa using ends, last, plain⟩

lemma leaves_completed
    (leaves : (u.resolved r).Leaves k j next) :
    r.Leaves k j next := by
  rcases leaves with ⟨found, last, ends, target, placed⟩ | ⟨suspends, protects, placed⟩
  · obtain ⟨b0, found0, rfl⟩ := block_completed found
    exact .jump found0 (by simpa using last) ends target placed
  · exact .handler (suspends_completed suspends) (endsWith_completed protects) placed

lemma path_completed (path : (u.resolved r).Path done k j) :
    r.Path done k j := by
  induction path with
  | start => exact .start
  | instruction _ here ih =>
    obtain ⟨i0, here0, -⟩ := at_completed here
    exact .instruction ih here0
  | leaves _ leaves ih => exact .leaves ih (leaves_completed leaves)

end

end Routine

/-! ## Links -/

namespace Lowering

variable {v : VariableId} {routine : RoutineId}

open Process

variable {s : Lowering} {w w' : Process}

/-- Whether the environments of an activation are linked as its routine is nested, and it was
entered through a closure of its routine. -/
def Sits (s : Lowering) (w : Process) (k : Nat) (a : Activation) : Prop :=
  w.Chain k a.env (s.unit.around a.routine) ∧ (0 < s.unit.completed.envSize a.routine →
    ∃ e, a.escaped = some e ∧ w.environments e = some { parent := a.env, maker := k }) ∧
      ∀ c, a.closure = some c → w.Holds (some c) a.routine

/-- Whether a closure was created where its routine is nested. -/
def Stems (s : Lowering) (w : Process) (closure : Closure) : Prop :=
  ∃ a r, w.activations closure.maker = some a ∧ s.unit.routines[closure.routine]? = some r ∧
    r.parent = some a.routine ∧ closure.env = a.captured s.unit.completed

/-- What holds of the environments of a process. -/
structure Linked (s : Lowering) (w : Process) : Prop where
  activations : ∀ k a, w.activations k = some a → s.Sits w k a
  closures : ∀ c closure, w.closures c = some closure → s.Stems w closure

/-- Whether the operand of every direct call holds a closure of the routine that is called. -/
def CallsKnown (u : CodeUnit) (w : Process) : Prop :=
  ∀ {k rest a r dest routine callee argc}, w.Current u k rest a r →
    r.At (w.point k).1 (w.point k).2 (.call dest (.direct routine callee) argc) →
      w.Holds (w.value u k callee) routine

lemma Sits.grows {k : Nat} {a : Activation} (sits : s.Sits w k a) (grows : w.Grows w') :
    s.Sits w' k a :=
  ⟨grows.chain (fun _ => grows.inside) sits.1, fun own => by
    obtain ⟨e, escaped, found⟩ := sits.2.1 own
    exact ⟨e, escaped, grows.environments _ _ found⟩, fun c entered =>
      grows.holds (sits.2.2 c entered)⟩

lemma Stems.grows (stems : s.Stems w closure) (grows : w.Grows w') : s.Stems w' closure := by
  obtain ⟨a, r, maker, rest⟩ := stems
  exact ⟨a, r, grows.activations _ _ maker, rest⟩

lemma Linked.sits_entered (linked : s.Linked w) (coherent : s.Coherent) {c e : Nat}
    (created : w.closures c = some closure) (new : w.activations m = none)
    (fresh : w.environments e = none) {a : Activation}
    (found : (w.entered s.unit.completed m e closure.routine (some c) closure.env).activations m =
      some a) :
    s.Sits (w.entered s.unit.completed m e closure.routine (some c) closure.env) m a := by
  have grows := grows_entered (u := s.unit.completed) new fresh closure.routine (some c) closure.env
  obtain ⟨b, r, maker, routine, parent, captured⟩ := linked.closures c closure created
  obtain ⟨chain, own, -⟩ := linked.activations _ b maker
  cases ((entered_activations ..).trans (if_pos rfl)).symm.trans found
  have deeper (x : Nat) (inside : w.Inside closure.maker x) : Inside _ m x :=
    .through found rfl (grows.closures _ _ created) (grows.inside inside)
  refine ⟨?_, fun own => ⟨e, if_pos own, by simp_all [Process.entered]⟩, ?_⟩
  swap
  · rintro _ ⟨⟩
    exact ⟨c, closure, rfl, grows.closures _ _ created, rfl⟩
  -- The environments around the routine are those that the creator of the closure has or reaches.
  obtain ⟨outer, outer_found⟩ : ∃ outer, s.unit.routines[b.routine]? = some outer :=
    ⟨_, Array.getElem?_eq_getElem (Nat.lt_trans (coherent.parent_lt _ r _ routine parent)
      (lt_size routine))⟩
  have around : s.unit.around closure.routine = if 0 < s.unit.envSize b.routine then
      b.routine :: s.unit.around b.routine else s.unit.around b.routine := by
    rw [around, routine, bind_some, parent,
      chainFrom_eq coherent.parent_lt outer_found]
  rw [Activation.captured] at captured
  rw [← envSize_completed] at around
  rw [around]
  split at captured
  next some_vars =>
    obtain ⟨e', escaped, linked_env⟩ := own some_vars
    rw [if_pos some_vars]
    exact ⟨e', _, b, captured.trans escaped, grows.environments _ _ linked_env,
      grows.activations _ _ maker, rfl, escaped, deeper _ (.refl _), grows.chain deeper chain⟩
  next no_vars =>
    rw [if_neg no_vars]
    rw [← captured] at chain
    exact grows.chain deeper chain

lemma Linked.step (linked : s.Linked w) (coherent : s.Coherent)
    (known : CallsKnown s.unit.completed w) (step : Step s.unit.completed w w') : s.Linked w' := by
  have grows := step.grows
  have sits {k : Nat} {a : Activation} (found : w.activations k = some a) : s.Sits w' k a :=
    (linked.activations k a found).grows grows
  have stems {c : Nat} {closure : Closure} (found : w.closures c = some closure) :
      s.Stems w' closure := (linked.closures c closure found).grows grows
  cases step with
  | leaves | ends => exact ⟨fun _ _ => sits, fun _ _ => stems⟩
  | @instruction k rest a R i _ current here performs =>
    refine ⟨fun k' a' found => sits (performs.activations ▸ found), fun c closure found => ?_⟩
    have change := performs.closures
    split at change
    next dest routine =>
      obtain ⟨new, fresh, -, changed⟩ := change
      rw [changed] at found
      by_cases this : c = new
      · obtain rfl : _ = closure := by simpa [this] using found
        obtain ⟨r, r_found, rfl⟩ := completed_eq_some.mp current.routine
        obtain ⟨i0, here0, same⟩ := Routine.at_completed here
        obtain rfl : i0 = .closure dest routine := by cases i0 <;> simp_all [mapCallee]
        obtain ⟨inner, inner_found, parent⟩ :=
          ((coherent.fits _ r r_found).instructions _ ⟨_, _, here0⟩).refers
        exact ⟨a, inner, by rw [performs.activations, current.activation], inner_found, parent, rfl⟩
      · rw [Function.update_of_ne this] at found
        exact stems found
    next =>
      rw [change] at found
      exact stems found
  | @enters k c m e rest a R closure routine current suspends created target new fresh =>
    obtain rfl : routine = closure.routine := by
      rcases target with same | ⟨dest, callee, argc, here, read⟩
      · exact same
      · obtain ⟨c', closure', read', created', same⟩ := known current here
        cases read.symm.trans read'
        cases created.symm.trans created'
        exact same.symm
    refine ⟨fun k' a' found => ?_, fun _ _ => stems⟩
    by_cases this : k' = m
    · subst this
      exact linked.sits_entered coherent created new fresh found
    · rw [entered_activations, if_neg this] at found
      exact sits found

/-! ## Known closures -/

/-- Whether the closure that a variable always holds is created at an instruction: ahead of all
other code of the owner, and by the only instruction that writes the variable. -/
def Creates (s : Lowering) (v : VariableId) (routine : RoutineId) (j : Nat) : Prop :=
  ∃ r, s.unit.routines[v.routine]? = some r ∧ r.At 1 j (.closure (.var v) routine) ∧ r.Starts j ∧
    ∀ id k j', s.WrittenAt v id k j' → id = v.routine ∧ k = 1 ∧ j' = j

lemma Coherent.known_of (coherent : s.Coherent)
    (known : s.unit.knownRoutine? v = some routine) : s.Known v routine := by
  obtain ⟨r, found, rest⟩ := bind_eq_some_iff.mp known
  obtain ⟨x, var, holds⟩ := bind_eq_some_iff.mp rest
  obtain ⟨k, b, bound, stored, unset, refers⟩ :=
    coherent.published _ r v.index x routine found var holds
  exact coherent.known k b v routine bound stored unset refers

lemma Whole.creates (whole : s.Whole)
    (known : s.unit.knownRoutine? v = some routine) : ∃ j, s.Creates v routine j := by
  obtain ⟨r, j, found, here, first, once⟩ := (whole.toCoherent.known_of known).created
  obtain ⟨layout, -, complete⟩ := whole.complete_of found
  obtain ⟨entry, at_entry, goes⟩ := complete.entry_jump
  refine ⟨j, r, found, here, ⟨fun j i => whole.prologue _ r j i found, fun b found => ?_,
    complete.entry_target, fun j' i before at_j => ?_, _, here⟩, once⟩
  · rw [← goes, some.inj (found.symm.trans at_entry)]
  · rcases Nat.lt_or_eq_of_le before with less | rfl
    · exact first j' i less at_j
    · exact ⟨_, _, at_j.unique here⟩

def Fulfils (s : Lowering) (w : Process) (x : Option Nat) : Origin → Prop
  | .variable v => ∀ routine, s.unit.knownRoutine? v = some routine → w.Holds x routine
  | .closure routine => w.Holds x routine

lemma Fulfils.grows {x : Option Nat} (fulfils : s.Fulfils w x origin) (grows : w.Grows w') :
    s.Fulfils w' x origin := by
  rcases origin with v | routine
  · exact fun routine known => grows.holds (fulfils routine known)
  · exact grows.holds fulfils

/-- What holds of the closures in variables and locals of a process. A variable that is known to
hold a closure does so unless its owner is still at its start. -/
structure Honest (s : Lowering) (w : Process) : Prop where
  vars : ∀ k a v routine, w.activations k = some a → v.routine = a.routine →
    s.unit.knownRoutine? v = some routine → w.Holds (w.vars k v.index) routine ∨
      w.stack.head? = some k ∧ ∃ j, s.Creates v routine j ∧
        Routine.Early j (w.point k).1 (w.point k).2
  cells : ∀ k a r b aim start id origin, w.activations k = some a →
    s.unit.routines[a.routine]? = some r → r.Chart aim start → r.blocks[(w.point k).1]? = some b →
      ((start (w.point k).1).through (b.body.toList.take (w.point k).2)).holds id origin →
        s.Fulfils w (w.cells k id) origin

section

variable {k : Nat} {rest : List Nat} {a : Activation} {R : Routine}

lemma Honest.settled (honest : s.Honest w) (current : w.Current s.unit.completed k rest a R)
    (suspends : R.Suspends (w.point k).1 (w.point k).2) {b : Activation}
    (found : w.activations m = some b) (own : v.routine = b.routine)
    (known : s.unit.knownRoutine? v = some routine) : w.Holds (w.vars m v.index) routine := by
  rcases honest.vars m b v routine found own known with holds | ⟨top, j, creates, early⟩
  · exact holds
  · obtain rfl : k = m := by simpa [current.stack] using top
    cases current.activation.symm.trans found
    obtain ⟨r, r_found, -, starts, -⟩ := creates
    obtain ⟨r', r_found', rfl⟩ := completed_eq_some.mp current.routine
    cases r_found.symm.trans (own ▸ r_found')
    exact absurd (Routine.suspends_completed suspends) (starts.not_suspends early)

section

variable (linked : s.Linked w) (whole : s.Whole) (found : w.activations k = some a)
  (current : s.unit.completed.routines[a.routine]? = some R) (usable : s.Usable a.routine v)
include linked whole found current usable

lemma Linked.reaches (other : v.routine ≠ a.routine) : w.Reaches s.unit.completed k a v := by
  obtain ⟨within, r, r_found, placed⟩ := usable
  obtain ⟨layout, laid⟩ := isSome_iff_exists.mp (whole.laid _ r r_found)
  rw [laid] at placed
  obtain ⟨x, place, var, stored, ⟨index, rfl, inside⟩ | ⟨own, -⟩⟩ := placed
  · obtain ⟨_, -, written⟩ := whole.written current
    obtain ⟨links, hops⟩ := written.hops whole.toCoherent within other r_found laid
      (Nat.zero_lt_of_lt inside)
    obtain ⟨r', r_found', rfl⟩ := completed_eq_some.mp current
    have id : (s.unit.resolved r').id = a.routine :=
      whole.ids _ r' r_found'
    rw [id] at hops
    obtain ⟨e, d, b, rest⟩ :=
      (linked.activations k a found).1.follow (whole.toCoherent.around_of_hops hops)
    exact ⟨_, { layout with envChain := s.unit.chainFrom s.unit.routines.size (some r.id) }, x,
      index, links, e, d, b, completed_eq_some.mpr ⟨r, r_found, rfl⟩,
      by simp [resolved, Routine.mapCallees, withChain, laid], var, stored, inside, hops, rest⟩
  · exact absurd own.symm other

lemma Linked.owner : ∃ m b, w.owner s.unit.completed k v = some m ∧
      w.activations m = some b ∧ v.routine = b.routine := by
  by_cases own : v.routine = a.routine
  · exact ⟨k, a, by simp [Process.owner, found, own], found, own⟩
  · obtain ⟨-, -, -, -, links, e, d, b, -, -, -, -, -, hops, reached, env, maker, same, -⟩ :=
      linked.reaches whole found current usable own
    exact ⟨d.maker, b, by simp [Process.owner, found, own, hops, reached, env], maker, same.symm⟩

end

section

variable (linked : s.Linked w) (whole : s.Whole) {b : Activation}
include linked whole

lemma Linked.maker_lt {c : Nat} (found : w.activations k = some a) (entered : a.closure = some c)
    (created : w.closures c = some closure) (maker : w.activations closure.maker = some b) :
    b.routine < a.routine := by
  obtain ⟨c', closure', same, created', routine⟩ := (linked.activations k a found).2.2 c entered
  cases same
  cases created.symm.trans created'
  obtain ⟨b', r, maker', r_found, parent, -⟩ := linked.closures _ _ created
  cases maker.symm.trans maker'
  exact routine ▸ whole.toCoherent.parent_lt _ r _ r_found parent

lemma Linked.inside_le (inside : w.Inside k m) (found : w.activations k = some a)
    (outer : w.activations m = some b) :
    b.routine ≤ a.routine ∧ (b.routine = a.routine → m = k) := by
  induction inside generalizing a with
  | refl k =>
    cases found.symm.trans outer
    exact ⟨Nat.le_refl _, fun _ => rfl⟩
  | through found' entered created _ ih =>
    cases found.symm.trans found'
    obtain ⟨maker, -, maker_found, -⟩ := linked.closures _ _ created
    have below := Nat.lt_of_le_of_lt (ih maker_found outer).1
      (linked.maker_lt whole found entered created maker_found)
    exact ⟨Nat.le_of_lt below, fun same => absurd same (Nat.ne_of_lt below)⟩

lemma Linked.owner_maker (found : w.activations k = some a)
    (current : s.unit.completed.routines[a.routine]? = some R) (usable : s.Usable a.routine v)
    {c : Nat} (entered : a.closure = some c) (created : w.closures c = some closure)
    (maker : w.activations closure.maker = some b) (own : v.routine = b.routine) :
    w.owner s.unit.completed k v = some closure.maker := by
  have other : v.routine ≠ a.routine := fun same =>
    Nat.ne_of_lt (linked.maker_lt whole found entered created maker) (own.symm.trans same)
  obtain ⟨-, -, -, -, links, e, d, holder, -, -, -, -, -, hops, reached, env, held,
      same, -, inside⟩ :=
    linked.reaches whole found current usable other
  have owner : w.owner s.unit.completed k v = some d.maker := by
    simp [Process.owner, found, other, hops, reached, env]
  rw [owner]
  cases inside with
  | refl =>
    cases found.symm.trans held
    exact absurd same.symm other
  | through found' entered' created' inside =>
    cases found.symm.trans found'
    cases entered.symm.trans entered'
    cases created.symm.trans created'
    exact congrArg some ((linked.inside_le whole inside maker held).2 (same.trans own))

end

lemma Honest.value_holds (honest : s.Honest w) (linked : s.Linked w) (whole : s.Whole)
    (current : w.Current s.unit.completed k rest a R)
    (suspends : R.Suspends (w.point k).1 (w.point k).2) (usable : s.Usable a.routine v)
    (known : s.unit.knownRoutine? v = some routine) :
    w.Holds (w.value s.unit.completed k (.var v)) routine := by
  obtain ⟨m, b, owner, found, own⟩ := linked.owner whole current.activation current.routine usable
  have settled := honest.settled current suspends found own known
  rwa [Process.value, owner, bind_some]

section

variable (honest : s.Honest w) (linked : s.Linked w) (whole : s.Whole)
  (current : w.Current s.unit.completed k rest a R) {r : Routine} {i : Instruction}
  (r_found : s.unit.routines[a.routine]? = some r) (here : r.At (w.point k).1 (w.point k).2 i)
  (performs : w.Performs s.unit.completed k a (i.mapCallee s.unit.resolveCallee) w')

include honest linked whole current r_found here performs

/-- An instruction leaves closures in the variables that are known to hold them. A variable is
written only where its closure is created. -/
lemma Honest.performs_vars {b : Activation} (found : w.activations m = some b)
    (own : v.routine = b.routine) (known : s.unit.knownRoutine? v = some routine) :
    w'.Holds (w'.vars m v.index) routine ∨ w'.stack.head? = some m ∧ ∃ j, s.Creates v routine j ∧
      Routine.Early j (w'.point m).1 (w'.point m).2 := by
  have own_value (own : v.routine = a.routine) : w.owner s.unit.completed k v = some k ∧
      w'.value s.unit.completed k (.var v) = w'.vars k v.index := by
    simp [Process.value, Process.owner, performs.activations, current.activation, own]
  by_cases written : ∃ v', .var v' ∈ i.dests ∧ w.owner s.unit.completed k v' = some m ∧
    v'.index = v.index
  · obtain ⟨v', mem, owner, index⟩ := written
    obtain ⟨m', b', owner', found', own'⟩ := linked.owner whole current.activation current.routine
      (((whole.fits _ r r_found).instructions i ⟨_, _, here⟩).operands _
        (dests_subset _ mem))
    cases owner.symm.trans owner'
    cases found.symm.trans found'
    obtain rfl : v = v' := by
      cases v
      cases v'
      simp_all
    obtain ⟨j, r', r_found', at_j, -, once⟩ := whole.creates known
    obtain ⟨of_current, block, place⟩ := once _ _ _ ⟨r, i, r_found, here, mem⟩
    cases r_found.symm.trans (of_current ▸ r_found')
    obtain ⟨owned, read⟩ := own_value of_current.symm
    cases owned.symm.trans owner
    obtain rfl := here.unique (block ▸ place ▸ at_j)
    rw [← read]
    exact .inl performs.closure_holds
  · rw [performs.vars m v.index fun v' mem owner index =>
      written ⟨v', by rwa [mapCallee_dests] at mem, owner, index⟩]
    refine (honest.vars m b v routine found own known).imp performs.grows.holds ?_
    rintro ⟨top, j, creates, early⟩
    refine ⟨by rw [performs.stack, top], j, creates, ?_⟩
    obtain rfl : k = m := by simpa [current.stack] using top
    cases current.activation.symm.trans found
    rw [performs.point, Function.update_self]
    rcases Routine.Starts.early_succ early with early | ⟨block, place⟩
    · exact early
    · obtain ⟨r', r_found', at_j, -, -⟩ := creates
      cases r_found.symm.trans (own ▸ r_found')
      obtain rfl := here.unique (block ▸ place ▸ at_j)
      exact absurd ⟨v, by simp [dests], (own_value own).1, rfl⟩ written

lemma Honest.performs_cells {b : Block} {aim : Label → Flow} {start : BlockId → Flow} {id : LocalId}
    (chart : r.Chart aim start) (block_found : r.blocks[(w.point k).1]? = some b)
    (holds : ((start (w.point k).1).through (b.body.toList.take ((w.point k).2 + 1))).holds id
      origin) :
    s.Fulfils w' (w'.cells k id) origin := by
  have suspends (loud : i.isQuiet = false) : R.Suspends (w.point k).1 (w.point k).2 := by
    obtain ⟨r', r_found', rfl⟩ := completed_eq_some.mp current.routine
    cases r_found.symm.trans r_found'
    exact .inl ⟨_, here.completed s.unit, by rwa [Routine.isQuiet_mapCallee]⟩
  have fits := (whole.fits _ r r_found).instructions i ⟨_, _, here⟩
  obtain ⟨b', block_found', at_n⟩ := here
  cases block_found.symm.trans block_found'
  rw [List.take_add_one, Array.getElem?_toList, at_n, toList_some, Flow.through_concat] at holds
  rcases holds with ⟨held, untouched⟩ | makes
  · rw [performs.cells k id fun _ => by rwa [mapCallee_touched]]
    exact (honest.cells _ _ r b aim start id origin current.activation r_found chart block_found
      held).grows performs.grows
  · unfold Instruction.Makes at makes
    split at makes
    next id' v =>
      obtain ⟨rfl, rfl⟩ := makes
      intro routine known
      rw [performs.copies id v rfl]
      exact performs.grows.holds (honest.value_holds linked whole current (suspends rfl)
        (fits.operands (.var v) (by simp [operands])) known)
    next id' routine =>
      obtain ⟨rfl, rfl⟩ := makes
      exact performs.closure_holds
    next => cases makes

end

section

variable (honest : s.Honest w) (linked : s.Linked w) (whole : s.Whole)
include honest linked whole

lemma Honest.performs (current : w.Current s.unit.completed k rest a R) {i : Instruction}
    (here : R.At (w.point k).1 (w.point k).2 i) (performs : w.Performs s.unit.completed k a i w') :
    s.Honest w' := by
  obtain ⟨r, r_found, same⟩ := completed_eq_some.mp current.routine
  obtain ⟨i0, here0, rfl⟩ := Routine.at_completed (same ▸ here)
  refine ⟨fun m b v routine found own known => ?_,
    fun m b r' block aim start id origin found r_found' chart block_found holds => ?_⟩ <;>
  rw [performs.activations] at found
  · exact honest.performs_vars linked whole current r_found here0 performs found own known
  · rw [performs.point] at block_found holds
    by_cases this : m = k
    · subst this
      cases current.activation.symm.trans found
      cases r_found.symm.trans r_found'
      rw [Function.update_self] at block_found holds
      exact honest.performs_cells linked whole current r_found here0 performs chart
        block_found holds
    · rw [Function.update_of_ne this] at block_found holds
      rw [performs.cells m id fun same => absurd same this]
      exact (honest.cells m b r' block aim start id origin found r_found' chart
        block_found holds).grows performs.grows

lemma Honest.step (step : Step s.unit.completed w w') : s.Honest w' := by
  have grows := step.grows
  cases step with
  | instruction current here performs => exact honest.performs linked whole current here performs
  | ends current suspends =>
    refine ⟨fun m b v routine found own known => ?_,
      fun m b r block aim start id origin found => ?_⟩
    · exact .inl (grows.holds (honest.settled current suspends found own known))
    · exact fun r_found chart block_found holds =>
        (honest.cells m b r block aim start id origin found r_found chart block_found holds).grows
          grows
  | @leaves k rest a R next current leaves =>
    obtain ⟨r, r_found, same⟩ := completed_eq_some.mp current.routine
    have leaves := Routine.leaves_completed (same ▸ leaves)
    refine ⟨fun m b v routine found own known => ?_,
      fun m b r' block aim start id origin found r_found' chart block_found holds => ?_⟩
    · refine (honest.vars m b v routine found own known).imp grows.holds ?_
      rintro ⟨top, j, creates, early⟩
      refine ⟨top, j, creates, ?_⟩
      obtain rfl : k = m := by simpa [current.stack] using top
      cases current.activation.symm.trans found
      obtain ⟨r', r_found', -, starts, -⟩ := creates
      cases r_found.symm.trans (own ▸ r_found')
      simpa using starts.leaves early leaves
    · dsimp only at block_found holds ⊢
      refine .grows ?_ grows
      by_cases this : m = k
      · subst this
        cases current.activation.symm.trans found
        cases r_found.symm.trans r_found'
        rw [Function.update_self] at holds
        rcases leaves with ⟨here, last, ends, target, placed⟩ | ⟨-, ⟨k', b', here, ends⟩, placed⟩
        · refine honest.cells m _ r _ aim start id origin found r_found chart here ?_
          rw [last, ← Array.length_toList, List.take_length]
          exact Flow.Leads.holds (chart.blocks _ _ _ here ends).2 target
            ((chart.labels _ _ placed).2 _ _ holds)
        · cases (chart.blocks _ _ _ here ends).2.2.2.2 _ _ ((chart.labels _ _ placed).2 _ _ holds)
      · rw [Function.update_of_ne this] at block_found holds
        exact honest.cells m b r' block aim start id origin found r_found' chart block_found holds
  | @enters k c m e rest a R closure routine current suspends created target new fresh =>
    refine ⟨fun m' b v routine found own known => ?_,
      fun m' b r block aim start id origin found r_found chart block_found holds => ?_⟩
    · rw [entered_activations] at found
      split at found
      next this =>
        subst this
        obtain ⟨j, creates⟩ := whole.creates known
        exact .inr ⟨rfl, j, creates, .inl (by simp [Process.entered])⟩
      next => exact .inl (grows.holds (honest.settled current suspends found own known))
    · rw [entered_activations] at found
      dsimp only [Process.entered] at block_found holds ⊢
      split at found
      next this =>
        subst this
        rw [Function.update_self] at holds
        cases chart.entry ▸ holds
      next this =>
        rw [Function.update_of_ne this] at block_found holds
        exact (honest.cells m' b r block aim start id origin found r_found chart
          block_found holds).grows grows

lemma Honest.callsKnown : CallsKnown s.unit.completed w := by
  intro k rest a R dest routine callee argc current here
  obtain ⟨r, r_found, same⟩ := completed_eq_some.mp current.routine
  obtain ⟨i0, here0, resolved⟩ := Routine.at_completed (same ▸ here)
  have fits := (whole.fits _ r r_found).instructions i0 ⟨_, _, here0⟩
  obtain ⟨dest0, callee0, argc0, rfl⟩ : ∃ dest callee argc, i0 = .call dest callee argc := by
    cases i0 <;> simp_all [mapCallee]
  obtain ⟨-, direct, -⟩ : dest = dest0 ∧ .direct routine callee = s.unit.resolveCallee callee0 ∧
      argc = argc0 := by simpa [mapCallee] using resolved
  -- What is known about locals at the call.
  obtain ⟨b, b_found, at_n⟩ := here0
  obtain ⟨layout, -, complete⟩ := whole.complete_of r_found
  obtain ⟨aim, start, chart, -⟩ := complete.chart
  obtain ⟨jump, ends⟩ := isSome_iff_exists.mp (complete.blocks _ b b_found)
  have admits := Flow.AdmitsAll.get (chart.blocks _ b jump b_found ends).1
    (Array.getElem?_toList.trans at_n)
  have held {id : LocalId} {origin : Origin} := honest.cells k a r b aim start id origin
    current.activation r_found chart b_found
  rcases resolveCallee_direct direct.symm with ⟨v, rfl, rfl, known⟩ | ⟨v, rfl, known⟩ | rfl
  · exact honest.value_holds linked whole current (.inl ⟨_, here, rfl⟩)
      (fits.operands (.var v) (by simp [operands, Callee.operand])) known
  · obtain ⟨id, rfl, holds⟩ := admits
    exact held holds routine known
  · obtain ⟨id, rfl, holds⟩ := admits
    exact held holds

end

end

lemma Whole.starts (whole : s.Whole) (cells : Nat → LocalId → Option Nat)
    (vars : Nat → Nat → Option Nat) : s.Linked (Process.start s.unit.completed cells vars) ∧
      s.Honest (Process.start s.unit.completed cells vars) := by
  obtain ⟨top, top_found⟩ := whole.top
  have only {k : Nat} {a : Activation}
      (found : (Process.start s.unit.completed cells vars).activations k = some a) : k = 0 ∧ a =
        { routine := 0, closure := none, env := none,
          escaped := if 0 < s.unit.completed.envSize 0 then some 0 else none } := by
    rw [Process.start, entered_activations] at found
    split at found
    next this => exact ⟨this, (some.inj found).symm⟩
    next => cases found
  have around : s.unit.around 0 = [] := by
    have outermost := whole.parents 0 top top_found
    cases parent : top.parent with
    | some outer => simp [parent] at outermost
    | none => rw [around, top_found, bind_some, parent, chainFrom_none]
  refine ⟨⟨fun k a found => ?_, nofun⟩, ⟨fun k a v routine found _ known => ?_,
    fun k a r b aim start id origin found _ chart _ holds => ?_⟩⟩
  · obtain ⟨rfl, rfl⟩ := only found
    refine ⟨by rw [around]; trivial, fun own => ⟨0, if_pos own, ?_⟩, nofun⟩
    simp_all [Process.start, Process.entered]
  · obtain ⟨rfl, rfl⟩ := only found
    obtain ⟨j, creates⟩ := whole.creates known
    exact .inr ⟨rfl, j, creates, .inl (by simp [Process.start, Process.entered])⟩
  · obtain ⟨rfl, rfl⟩ := only found
    cases chart.entry ▸ holds

lemma Whole.reachable (whole : s.Whole) (reachable : Reachable s.unit.completed w) :
    s.Linked w ∧ s.Honest w := by
  induction reachable with
  | start cells vars => exact whole.starts cells vars
  | step _ step ih =>
    obtain ⟨linked, honest⟩ := ih
    exact ⟨linked.step whole.toCoherent (honest.callsKnown linked whole) step,
      honest.step linked whole step⟩

end Lowering

/-! ## Direct calls -/

/-- The variable that a call reads its callee from, if the call may become a direct one. -/
def Callee.through? : Callee → Option VariableId
  | .indirect (.var v) => some v
  | .pinned v _ => some v
  | _ => none

namespace CodeUnit

variable {u : CodeUnit}

def Writes (u : CodeUnit) (v : VariableId) (id : RoutineId) (k : BlockId) (j : Nat)
    (i : Instruction) : Prop :=
  ∃ r, u.routines[id]? = some r ∧ r.At k j i ∧ .var v ∈ i.dests

/-- Whether a variable, which is no parameter, is written once, by the creation of a closure that
every path of its owner passes before any call. -/
def CreatedFirst (u : CodeUnit) (v : VariableId) (routine : RoutineId) : Prop :=
  ∃ r x j, u.routines[v.routine]? = some r ∧ r.vars[v.index]? = some x ∧ x.param = none ∧
    u.Writes v v.routine 1 j (.closure (.var v) routine) ∧
      (∀ id k j' i, u.Writes v id k j' i → id = v.routine ∧ k = 1 ∧ j' = j) ∧
        ∀ done k j' dest callee argc, r.Path done k j' → r.At k j' (.call dest callee argc) →
          (1, j) ∈ done

/-- Whether a variable is written other than by the creation of one closure: by another instruction,
twice, or as a parameter. -/
inductive Rewrites (u : CodeUnit) (v : VariableId) : Prop
  | other {id : RoutineId} {k : BlockId} {j : Nat} {i : Instruction} (writes : u.Writes v id k j i)
      (plain : ∀ routine, i ≠ .closure (.var v) routine)
  | twice {id id' : RoutineId} {k k' : BlockId} {j j' : Nat} {i i' : Instruction}
      (writes : u.Writes v id k j i) (again : u.Writes v id' k' j' i')
      (apart : (id, k, j) ≠ (id', k', j'))
  | param {r : Routine} {x : Variable} {param : ParamId} (found : u.routines[v.routine]? = some r)
      (var : r.vars[v.index]? = some x) (bound : x.param = some param)

lemma CreatedFirst.not_rewrites {v : VariableId} {routine : RoutineId}
    (created : u.CreatedFirst v routine) : ¬u.Rewrites v := by
  obtain ⟨r, x, j, found, var, plain, ⟨r', found', here, -⟩, once, -⟩ := created
  rintro (⟨writes, other⟩ | ⟨writes, again, apart⟩ | ⟨found1, var1, bound⟩)
  · obtain ⟨rfl, rfl, rfl⟩ := once _ _ _ _ writes
    obtain ⟨r1, found1, here1, -⟩ := writes
    cases found'.symm.trans found1
    exact other routine (here1.unique here)
  · obtain ⟨rfl, rfl, rfl⟩ := once _ _ _ _ writes
    obtain ⟨rfl, rfl, rfl⟩ := once _ _ _ _ again
    exact apart rfl
  · cases found.symm.trans found1
    cases var.symm.trans var1
    cases plain.symm.trans bound

/-- The instruction at a place in a block of a routine. -/
def instruction? (u : CodeUnit) (id : RoutineId) (k : BlockId) (j : Nat) : Option Instruction :=
  u.routines[id]?.bind fun r => r.blocks[k]?.bind fun b => b.body[j]?

lemma instruction?_eq_some {id : RoutineId} {k : BlockId} {j : Nat} {i : Instruction} :
    u.instruction? id k j = some i ↔
      ∃ r, u.routines[id]? = some r ∧ r.At k j i := by
  simp [instruction?, Routine.At, bind_eq_some_iff]

lemma Within.completed {i j : RoutineId} (within : u.Within i j) : u.completed.Within i j := by
  induction within with
  | refl => exact .refl _
  | outwards found parent _ ih => exact .outwards (completed_eq_some.mpr ⟨_, found, rfl⟩) parent ih

end CodeUnit

namespace Lowering

variable {v : VariableId} {routine : RoutineId}

open Process

variable {s : Lowering}

/-- Whether a call through a variable is a direct one in the completed unit. -/
def CallsThrough (s : Lowering) (u : CodeUnit) (v : VariableId) (routine : RoutineId) : Prop :=
  ∃ (i : RoutineId) (r R : Routine) (k : BlockId) (j : Nat) (dest dest' : Option Operand)
    (callee : Callee) (closure : Operand) (argc argc' : Nat), s.unit.routines[i]? = some r ∧
      r.At k j (.call dest callee argc) ∧ callee.through? = some v ∧ u.routines[i]? = some R ∧
        R.At k j (.call dest' (.direct routine closure) argc')

lemma Whole.createdFirst (whole : s.Whole) (known : s.unit.knownRoutine? v = some routine) :
    s.unit.completed.CreatedFirst v routine := by
  obtain ⟨j, r, found, here, starts, once⟩ := whole.creates known
  obtain ⟨r', x, found', var, plain⟩ := (whole.toCoherent.known_of known).plain
  cases found.symm.trans found'
  have found' := completed_eq_some.mpr ⟨r, found, rfl⟩
  refine ⟨_, x, j, found', var, plain, ⟨_, found', here.completed _, by simp [dests]⟩,
    fun id k j' i writes => ?_, fun done k j' dest callee argc path at_call => ?_⟩
  · obtain ⟨R, R_found, at_i, mem⟩ := writes
    obtain ⟨r', r_found, rfl⟩ := completed_eq_some.mp R_found
    obtain ⟨i0, at_i0, rfl⟩ := Routine.at_completed at_i
    rw [mapCallee_dests] at mem
    exact once id k j' ⟨r', i0, r_found, at_i0, mem⟩
  · refine (starts.path (Routine.path_completed path)).resolve_left fun early => ?_
    exact starts.not_suspends early (Routine.suspends_completed (.inl ⟨_, at_call, rfl⟩))

lemma CallsThrough.known (calls : s.CallsThrough s.unit.completed v routine) :
    s.unit.knownRoutine? v = some routine := by
  obtain ⟨i, r, R, k, j, dest, dest', callee, closure, argc, argc', found, here, through, found',
    here'⟩ := calls
  obtain ⟨r', found0, rfl⟩ := completed_eq_some.mp found'
  cases found.symm.trans found0
  obtain ⟨i0, here0, resolved⟩ := Routine.at_completed here'
  obtain rfl := here.unique here0
  obtain ⟨-, direct, -⟩ : dest' = dest ∧ .direct routine closure = s.unit.resolveCallee callee ∧
      argc' = argc := by simpa [mapCallee] using resolved
  rcases resolveCallee_direct direct.symm with ⟨v', rfl, -, known⟩ | ⟨v', rfl, known⟩ | rfl
  · cases through
    exact known
  · cases through
    exact known
  · cases through

/-- Direct calls are sound. A variable through which a routine is called directly is written once,
by the creation of a closure of the routine, before any call of its owner; one that is written in
another way is not called directly; and in every run the operand of a direct call holds a closure of
the routine. -/
theorem directCalls_sound {p : Program} {name : String} {strict : Bool} {log : Log} {d : Declared}
    {u : CodeUnit} (declares : declare p name strict log = .ok d) (lowers : d.lower p = .ok s)
    (completes : s.complete = .ok u) :
    (∀ v routine, s.CallsThrough u v routine → u.CreatedFirst v routine) ∧
      (∀ v, u.Rewrites v → ∀ routine, ¬s.CallsThrough u v routine) ∧
        ∀ w, Reachable u w → CallsKnown u w := by
  have whole := whole_of_lowered declares lowers
  obtain rfl : s.unit.completed = u := Except.ok.inj (whole.completes.symm.trans completes)
  refine ⟨fun v routine calls => whole.createdFirst calls.known, fun v rewrites routine calls => ?_,
    fun w reachable => ?_⟩
  · exact (whole.createdFirst calls.known).not_rewrites rewrites
  · obtain ⟨linked, honest⟩ := whole.reachable reachable
    exact honest.callsKnown linked whole

/-- Whether the call in the outer function goes through the variable of the inner one, and directly
to it in the completed unit. -/
def callsInner (s : Lowering) : Bool :=
  match s.unit.instruction? 1 1 5, s.unit.completed.instruction? 1 1 5 with
  | some (.call _ (.indirect (.var ⟨1, 1⟩)) _), some (.call _ (.direct 2 _) _) => true
  | _, _ => false

theorem nestedCounter_calls :
    ∃ d s u, declare Program.nestedCounter "main" false (Log.empty 0) = .ok d ∧
      d.lower Program.nestedCounter = .ok s ∧ s.complete = .ok u ∧ s.CallsThrough u ⟨1, 1⟩ 2 ∧
        u.CreatedFirst ⟨1, 1⟩ 2 := by
  obtain ⟨d, s, declares, lowers, whole⟩ :=
    lowers_whole Program.nestedCounter (by decide) "main" false (Log.empty 0)
  have direct : (lowered? Program.nestedCounter).any callsInner = true := by decide +kernel
  simp only [lowered?, declares, lowers, Except.toOption, bind_some, any_some] at direct
  have calls : s.CallsThrough s.unit.completed ⟨1, 1⟩ 2 := by
    rw [callsInner] at direct
    split at direct
    next here here' =>
      obtain ⟨r, found, here⟩ := instruction?_eq_some.mp here
      obtain ⟨R, found', here'⟩ := instruction?_eq_some.mp here'
      exact ⟨1, r, R, 1, 5, _, _, _, _, _, _, found, here, rfl, found', here'⟩
    next => cases direct
  exact ⟨d, s, _, declares, lowers, whole.completes, calls,
    (directCalls_sound declares lowers whole.completes).1 _ _ calls⟩

lemma Whole.fitsIn (whole : s.Whole) {i : RoutineId} {R : Routine}
    (found : s.unit.completed.routines[i]? = some R) {a : Operand} (stands : R.Mentions a) :
    s.FitsIn i a := by
  obtain ⟨r, found0, rfl⟩ := completed_eq_some.mp found
  have fits := whole.fits i r found0
  rcases stands with ⟨j, has, mem⟩ | ⟨jump, ends, mem⟩
  · obtain ⟨j0, has0, rfl⟩ := Routine.has_completed has
    rw [mapCallee_operands] at mem
    exact (fits.instructions j0 has0).operands a mem
  · exact (fits.jumps jump (Routine.endsWith_completed ends)).operands a mem

end Lowering

namespace Program

/-- In every run of a compiled program, the variables of other routines that the code of an
activation mentions are those of the activations it is inside of, in the environments that the text
names. -/
theorem compile_reaches {p : Program} {options : CompileOptions} {answers : Requests.Answers}
    {file : Nat} {compiled : Compiled}
    (succeeds : p.compile options answers file = .ok (.ok compiled)) :
    ∃ analysis u, p.analyze options answers file = .ok analysis ∧ analysis.unit = some u ∧
      u.emit options.unitOptions = .ok compiled.text ∧ ∀ w, Process.Reachable u w →
        ∀ k a r v, w.activations k = some a → u.routines[a.routine]? = some r →
          r.Mentions (.var v) → v.routine ≠ a.routine →
            u.Within v.routine a.routine ∧ w.Reaches u k a v := by
  obtain ⟨s, analysis, whole, analyzed, unit, written⟩ := unit_of_compile succeeds
  refine ⟨analysis, _, analyzed, unit, written, fun w reachable k a r v found current
    stands other => ?_⟩
  have usable : s.Usable a.routine v := whole.fitsIn current stands
  exact ⟨usable.1.completed, (whole.reachable reachable).1.reaches whole found current usable other⟩

theorem nestedCounter_reaches :
    ∃ compiled analysis u, nestedCounter.compile .standard ⟨.ofTable [], ""⟩ 0 =
      .ok (.ok compiled) ∧
      nestedCounter.analyze .standard ⟨.ofTable [], ""⟩ 0 = .ok analysis ∧ analysis.unit = some u ∧
        ∀ w, Process.Reachable u w → ∀ k a r v, w.activations k = some a →
          u.routines[a.routine]? = some r → r.Mentions (.var v) → v.routine ≠ a.routine →
            w.Reaches u k a v := by
  obtain ⟨compiled, run⟩ := @Result.ok_of_succeeds _ _ _
    (nestedCounter.compile .standard ⟨.ofTable [], ""⟩ 0) (by decide +kernel)
  obtain ⟨analysis, u, analyzed, unit, -, reaches⟩ := compile_reaches run
  exact ⟨compiled, analysis, u, run, analyzed, unit,
    fun w reachable k a r v found routine stands other =>
    (reaches w reachable k a r v found routine stands other).2⟩

/-- In every run of a compiled program, all closures that an activation creates refer to one storage
for each of its variables: the code that is entered through them finds the variables of the creator.
So the parameter of a handler is the same for closures that were created in different entries of
it. -/
theorem compile_shares {p : Program} {options : CompileOptions} {answers : Requests.Answers}
    {file : Nat} {compiled : Compiled}
    (succeeds : p.compile options answers file = .ok (.ok compiled)) :
    ∃ analysis u, p.analyze options answers file = .ok analysis ∧ analysis.unit = some u ∧
      u.emit options.unitOptions = .ok compiled.text ∧ ∀ w, Process.Reachable u w →
        ∀ k a r c closure b v, w.activations k = some a → u.routines[a.routine]? = some r →
          a.closure = some c → w.closures c = some closure → w.activations closure.maker = some b →
            r.Mentions (.var v) → v.routine = b.routine → w.owner u k v = some closure.maker := by
  obtain ⟨s, analysis, whole, analyzed, unit, written⟩ := unit_of_compile succeeds
  refine ⟨analysis, _, analyzed, unit, written, fun w reachable k a r c closure b v found current
    entered created maker stands own => ?_⟩
  exact (whole.reachable reachable).1.owner_maker whole found current (whole.fitsIn current stands)
    entered created maker own

open Build in
/-- A loop with a handler, in which a function that gives back what was caught is created. -/
def caughtInLoop : Program :=
  let f := ident "f"
  let keep := expression (assign f (funcExpr none [] [returnValue (ident "e")]))
  program [varDecl [("f", none)], whileLoop f (tryCatch [throwValue f] "e" [keep])]

/-- Whether the handler of the loop writes a variable and the function created in it reads the
same. -/
def sharesVariable (u : CodeUnit) : Bool :=
  match u.instruction? 0 5 0, u.instruction? 0 5 1, u.instruction? 1 1 0 with
  | some (.loadThrown (.var ⟨0, 1⟩)), some (.closure (.cell 1) 1),
    some (.assign (.cell 0) (.var ⟨0, 1⟩)) => true
  | _, _, _ => false

/-- The handler of the loop writes the variable that the function created in it reads, each time
that it is entered, and both are the same storage for all the functions that the loop creates. -/
theorem caughtInLoop_shares :
    ∃ compiled analysis u r inner, caughtInLoop.compile .standard ⟨.ofTable [], ""⟩ 0 =
      .ok (.ok compiled) ∧
      caughtInLoop.analyze .standard ⟨.ofTable [], ""⟩ 0 = .ok analysis ∧ analysis.unit = some u ∧
        u.routines[0]? = some r ∧ u.routines[1]? = some inner ∧
          r.At 5 0 (.loadThrown (.var ⟨0, 1⟩)) ∧
          r.At 5 1 (.closure (.cell 1) 1) ∧ inner.At 1 0 (.assign (.cell 0) (.var ⟨0, 1⟩)) ∧
            ∀ w, Process.Reachable u w → ∀ k a c closure b, w.activations k = some a →
              a.routine = 1 → a.closure = some c → w.closures c = some closure →
                w.activations closure.maker = some b → b.routine = 0 →
                  w.owner u k ⟨0, 1⟩ = some closure.maker := by
  obtain ⟨compiled, run⟩ := @Result.ok_of_succeeds _ _ _
    (caughtInLoop.compile .standard ⟨.ofTable [], ""⟩ 0) (by decide +kernel)
  obtain ⟨analysis, u, analyzed, unit, -, shares⟩ := compile_shares run
  have code : (caughtInLoop.analyze .standard ⟨.ofTable [], ""⟩ 0).toOption.any
      (·.unit.any sharesVariable) = true := by decide +kernel
  simp only [analyzed, unit, Except.toOption, any_some, sharesVariable] at code
  split at code
  next loads creates reads =>
    obtain ⟨r, r_found, loads⟩ := instruction?_eq_some.mp loads
    obtain ⟨_, same, creates⟩ := instruction?_eq_some.mp creates
    cases r_found.symm.trans same
    obtain ⟨inner, inner_found, reads⟩ := instruction?_eq_some.mp reads
    have mentions : inner.Mentions (.var ⟨0, 1⟩) :=
      .inl ⟨_, ⟨1, 0, reads⟩, by simp [operands]⟩
    refine ⟨compiled, analysis, u, r, inner, run, analyzed, unit, r_found, inner_found, loads,
      creates, reads, fun w reachable k a c closure maker found routine entered created
        made own => ?_⟩
    exact shares w reachable k a inner c closure maker _ found (routine ▸ inner_found) entered
      created made mentions own.symm
  next => cases code

end Program
end Scriptc
