import Scriptc.Lowering.State
import Scriptc.Proofs.Code.Chart
import Scriptc.Proofs.Code.Order

/-!
# What holds while code is lowered

The state holds complete routines and those under construction: the current one and those around it.
Every variable that code uses can be given a place that the routine reaches: while the owner is
under construction, a binding records the use. A variable that is never assigned but holds the
closure of a declared function is written once, before anything else is done in its routine.
-/

namespace Scriptc

open Nat

namespace CodeUnit

variable {s'' : Lowering} {new : Instruction → Prop} {ends : Jump → Prop}

/-- Whether a routine is another one or stands around it. -/
inductive Within (u : CodeUnit) : RoutineId → RoutineId → Prop
  | refl (id : RoutineId) : Within u id id
  | outwards {id inner outer : RoutineId} {r : Routine} (found : u.routines[inner]? = some r)
      (parent : r.parent = some outer) (within : Within u id outer) : Within u id inner

end CodeUnit

namespace Routine

/-- A routine that differs in its variables and nested routines only. -/
def SameCode (r r' : Routine) : Prop := r' = { r with vars := r'.vars, closures := r'.closures }

/-- A routine whose code is complete: every block has its jump, every jump goes to a block, there is
a chart of the blocks, all temporaries are free, and the layout has room for the locals and the
arguments of calls. -/
structure Complete (r : Routine) (layout : Layout) : Prop where
  exit : ∃ exit, r.Finished exit
  chart : ∃ aim start, r.Chart aim start ∧ aim exitLabel = .regions []
  entry_jump : ∃ b, r.blocks[entry]? = some b ∧ b.jump = some (.goto 1)
  entry_target : r.labels[1]? = some (some 1)
  blocks : ∀ (k : BlockId) (b : Block), r.blocks[k]? = some b → b.isClosed = true
  mirrors : ∀ (k : BlockId) (b : Block), r.blocks[k]? = some b → b.Mirrors
  targets : ∀ jump, r.EndsWith jump → ∀ label ∈ jump.targets,
    ∃ k, r.labels[label]? = some (some k) ∧ k < r.blocks.size
  unused : ∀ id, ¬r.InUse id
  free_nodup : r.freeTemps.Nodup
  free_temp : ∀ id ∈ r.freeTemps, r.isTemp[id]? = some true
  locals : r.isTemp.size ≤ layout.localCount
  room : layout.argSlotBase + r.argSlotCount ≤ layout.localCount

lemma SameCode.complete {r r' : Routine} (same : r.SameCode r') {layout : Layout}
    (complete : r.Complete layout) : r'.Complete layout := by
  rw [same]
  obtain ⟨exit, finished⟩ := complete.exit
  obtain ⟨aim, start, chart, returns⟩ := complete.chart
  exact { complete with
    exit := ⟨exit, { finished with }⟩
    chart := ⟨aim, start, { chart with }, returns⟩ }

end Routine

namespace Binding

/-- What later code leaves of a binding: its variable and the uses that it records. -/
structure Becomes (b b' : Binding) : Prop where
  name : b'.name = b.name
  owner : b'.owner = b.owner
  constant : b'.constant = b.constant
  readOnly : b'.readOnly = b.readOnly
  stored : ∀ v, b.storedIn = some v → b'.storedIn = some v
  accessed : b.accessed = true → b'.accessed = true
  escapes : b.escapes = true → b'.escapes = true
  assigned : b.assigned = true → b'.assigned = true
  routineRef : ∀ routine, b.routineRef = some routine →
    b'.assigned = true ∨ b'.routineRef = some routine

namespace Becomes

lemma refl (b : Binding) : b.Becomes b :=
  ⟨rfl, rfl, rfl, rfl, fun _ => id, id, id, id, fun _ => .inr⟩

lemma trans {b b' b'' : Binding} (first : b.Becomes b') (second : b'.Becomes b'') :
    b.Becomes b'' where
  name := second.name.trans first.name
  owner := second.owner.trans first.owner
  constant := second.constant.trans first.constant
  readOnly := second.readOnly.trans first.readOnly
  stored v stored := second.stored v (first.stored v stored)
  accessed accessed := second.accessed (first.accessed accessed)
  escapes escapes := second.escapes (first.escapes escapes)
  assigned assigned := second.assigned (first.assigned assigned)
  routineRef routine known :=
    (first.routineRef routine known).elim (fun assigned => .inl (second.assigned assigned))
      (second.routineRef routine)

lemma middle {b b' b'' : Binding} (first : b.Becomes b') (second : b'.Becomes b'')
    (unset : b''.assigned = false) (same : b''.routineRef = b.routineRef) :
    b'.assigned = false ∧ b'.routineRef = b.routineRef ∧ b''.routineRef = b'.routineRef := by
  have middle_unassigned : b'.assigned = false := by
    rw [← Bool.not_eq_true]
    intro assigned
    simp [second.assigned assigned] at unset
  have later {routine : RoutineId} (known : b'.routineRef = some routine) :
      b''.routineRef = some routine :=
    (second.routineRef routine known).resolve_left (by simp [unset])
  have equal : b'.routineRef = b.routineRef := by
    cases known : b.routineRef with
    | some routine =>
      exact (first.routineRef routine known).resolve_left (by simp [middle_unassigned])
    | none =>
      cases known' : b'.routineRef with
      | none => rfl
      | some routine =>
        rw [later known', known] at same
        cases same
  exact ⟨middle_unassigned, equal, same.trans equal.symm⟩

end Becomes

end Binding

/-- Whether nothing is recorded in a variable yet. -/
structure Variable.Unset (x : Variable) : Prop where
  accessed : x.accessed = false
  routineRef : x.routineRef = none

namespace Frame

def Exit (f : Frame) (label : Label) : Prop := label = Routine.exitLabel ∨
    ∃ t ∈ f.targets, label = t.breakLabel ∨ t.continueLabel = some label

end Frame

namespace Lowering

variable {user : RoutineId} {v : VariableId}

variable (s : Lowering)

def code : Routine := s.unit.routines[s.frame.routine]?.getD default

def withCode (r : Routine) : Lowering := { s with unit :=
      { s.unit with routines := s.unit.routines.setIfInBounds s.frame.routine r } }

/-- Whether a temporary of the current routine is handed out. -/
def InUse (s : Lowering) (id : LocalId) : Prop := s.code.InUse id

def Pending (s : Lowering) (label : Label) : Prop := s.code.Pending label

/-- Whether a jump of the current routine goes to a label that is not placed. -/
def Owes (s : Lowering) (label : Label) : Prop := s.code.Owes label

/-- Whether the code of a routine may use a variable: the owner is the routine or stands around it,
and the use is recorded or already has its place. -/
def Usable (user : RoutineId) (v : VariableId) : Prop :=
  s.unit.Within v.routine user ∧ ∃ r, s.unit.routines[v.routine]? = some r ∧
    match r.layout with
    | none => ∃ (k : BindingId) (b : Binding), s.scopes.bindings[k]? = some b ∧
        b.storedIn = some v ∧ b.accessed = true ∧ (user ≠ v.routine → b.escapes = true)
    | some layout => ∃ x place, r.vars[v.index]? = some x ∧ x.storage = some place ∧
        ((∃ k, place = .environment k ∧ k < layout.envSize) ∨
          user = v.routine ∧ ∃ k, place = .cell k ∧ k < layout.localCount)

def FitsIn (user : RoutineId) : Operand → Prop
  | .var v => s.Usable user v
  | .cell id => ∃ r, s.unit.routines[user]? = some r ∧ id < r.isTemp.size
  | .slot id => ∃ r, s.unit.routines[user]? = some r ∧ id < r.argSlotCount
  | _ => True

def Fits (a : Operand) : Prop := s.FitsIn s.frame.routine a

/-- Whether the routines and places that an instruction refers to exist. A closure is of a routine
that is nested in the one that creates it. -/
def Refers (user : RoutineId) : Instruction → Prop
  | .closure _ routine => ∃ r, s.unit.routines[routine]? = some r ∧ r.parent = some user
  | .call _ callee argc => (∃ r, s.unit.routines[user]? = some r ∧ argc ≤ r.argSlotCount) ∧
      ∀ routine closure, callee = .direct routine closure → routine < s.unit.routines.size
  | .splice bindings resultCount parts => resultCount ≤ bindings.length ∧
      ∀ index, .binding index ∈ parts → index < bindings.length
  | .endTry index => ∃ r, s.unit.routines[user]? = some r ∧ index < r.tryCount
  | _ => True

/-- Whether the code of a routine may have an instruction. -/
structure InstructionFits (s : Lowering) (user : RoutineId) (i : Instruction) : Prop where
  operands : ∀ a ∈ i.operands, s.FitsIn user a
  refers : s.Refers user i
  places : ∀ a ∈ i.dests, a.isPlace = true

/-- Whether the code of a routine may have a jump. -/
structure JumpFits (s : Lowering) (user : RoutineId) (jump : Jump) : Prop where
  operands : ∀ a ∈ jump.operands, s.FitsIn user a
  compares : ∀ op left right onTrue onFalse, jump = .ifCompare op left right onTrue onFalse →
    op.isRelationalBranch = true
  region : ∀ index onCatch onBody, jump = .beginTry index onCatch onBody →
    ∃ r, s.unit.routines[user]? = some r ∧ index < r.tryCount

/-- Whether a routine may have its code. -/
structure CodeFits (s : Lowering) (user : RoutineId) (r : Routine) : Prop where
  instructions : ∀ i, r.Has i → s.InstructionFits user i
  jumps : ∀ jump, r.EndsWith jump → s.JumpFits user jump

/-- What holds of a scope: its parent comes before it and belongs to the same routine or one around
it, only the outermost scope has none, the scopes around it within its routine lead to that of the
whole routine, and its names are bound to bindings of that name in its own routine. -/
structure ScopeFits (s : Lowering) (id : ScopeId) (sc : Scope) : Prop where
  owner : ∃ r, s.unit.routines[sc.owner]? = some r
  parent : ∀ p, sc.parent = some p → p < id ∧
    ∃ outer, s.scopes.scopes[p]? = some outer ∧ s.unit.Within outer.owner sc.owner
  outermost : sc.parent = none → id = s.topScope
  varScope : ∃ whole, s.scopes.scopes[sc.varScope]? = some whole ∧ whole.owner = sc.owner
  inner : id ≠ sc.varScope → ∃ p outer, sc.parent = some p ∧ s.scopes.scopes[p]? = some outer ∧
    outer.owner = sc.owner ∧ outer.varScope = sc.varScope
  names : ∀ name binding, (name, binding) ∈ sc.names →
    ∃ b, s.scopes.bindings[binding]? = some b ∧ b.owner = sc.owner ∧ b.name = name

/-- What holds of a binding: it has a variable of its owner unless it is a constant, and constants
are read-only. -/
structure BindingFits (s : Lowering) (b : Binding) : Prop where
  owner : b.owner < s.unit.routines.size
  stored : ∀ v, b.storedIn = some v → v.routine = b.owner ∧
    ∃ r x, s.unit.routines[v.routine]? = some r ∧ r.vars[v.index]? = some x
  constant : b.storedIn = none → b.constant.isSome = true
  fixed : b.constant.isSome = true → b.readOnly = true
  refers : ∀ routine, b.routineRef = some routine → routine < s.unit.routines.size

def Assigned (v : VariableId) : Prop :=
  ∃ (k : BindingId) (b : Binding), s.scopes.bindings[k]? = some b ∧ b.storedIn = some v ∧
    b.assigned = true

/-- Whether a variable may get another value: it is recorded to be assigned, or it is not known to
hold a closure. -/
def Unknown (v : VariableId) : Prop :=
  ∀ (k : BindingId) (b : Binding), s.scopes.bindings[k]? = some b → b.storedIn = some v →
    b.assigned = true ∨ b.routineRef = none

def WrittenAt (v : VariableId) (id : RoutineId) (k : BlockId) (j : Nat) : Prop :=
  ∃ r i, s.unit.routines[id]? = some r ∧ r.At k j i ∧ .var v ∈ i.dests

/-- Whether a variable holds a closure of a routine from the start of the code of its owner: the
closure is created ahead of everything but other closures, and nothing else writes the variable. -/
structure Known (s : Lowering) (v : VariableId) (routine : RoutineId) : Prop where
  created : ∃ r j, s.unit.routines[v.routine]? = some r ∧ r.At 1 j (.closure (.var v) routine) ∧
    (∀ j' i, j' < j → r.At 1 j' i → ∃ dest other, i = .closure dest other) ∧
      ∀ id k j', s.WrittenAt v id k j' → id = v.routine ∧ k = 1 ∧ j' = j
  plain : ∃ r x, s.unit.routines[v.routine]? = some r ∧ r.vars[v.index]? = some x ∧ x.param = none

/-- What holds of the frame. -/
structure FrameFits (s : Lowering) : Prop where
  scope : ∃ sc, s.scopes.scopes[s.frame.scope]? = some sc ∧ sc.owner = s.frame.routine ∧
    sc.varScope = s.frame.root
  root : ∃ sc, s.scopes.scopes[s.frame.root]? = some sc ∧ sc.owner = s.frame.routine
  top : ∃ sc, s.scopes.scopes[s.topScope]? = some sc ∧ sc.owner = 0
  shadows : ∀ name binding, (name, binding) ∈ s.frame.shadows →
    ∃ b, s.scopes.bindings[binding]? = some b ∧ b.owner = s.frame.routine
  tries : ∀ t ∈ s.frame.targets, t.tryDepth ≤ s.frame.tries.length
  exits : ∃ r, s.unit.routines[s.frame.routine]? = some r ∧
    (∀ label, s.frame.Exit label → label < r.labels.size) ∧ ∀ index ∈ s.frame.tries,
      index < r.tryCount

/-- What holds of all routines, scopes and bindings at every point of lowering and at its end. -/
structure Coherent (s : Lowering) : Prop where
  ids : ∀ (i : RoutineId) (r : Routine), s.unit.routines[i]? = some r → r.id = i
  parents : ∀ (i : RoutineId) (r : Routine), s.unit.routines[i]? = some r →
    match r.parent with
    | some outer => outer < i
    | none => i = 0
  complete : ∀ (i : RoutineId) (r : Routine) (layout : Layout), s.unit.routines[i]? = some r →
    r.layout = some layout → r.Complete layout
  fits : ∀ (i : RoutineId) (r : Routine), s.unit.routines[i]? = some r → s.CodeFits i r
  prologue : ∀ (i : RoutineId) (r : Routine) (j : Nat) (instruction : Instruction),
    s.unit.routines[i]? = some r → r.At Routine.entry j instruction → instruction.isPrologue = true
  scopes : ∀ (k : ScopeId) (sc : Scope), s.scopes.scopes[k]? = some sc → s.ScopeFits k sc
  bindings : ∀ (k : BindingId) (b : Binding), s.scopes.bindings[k]? = some b → s.BindingFits b
  stored_once : ∀ (j k : BindingId) (b c : Binding) (v : VariableId),
    s.scopes.bindings[j]? = some b → s.scopes.bindings[k]? = some c →
      b.storedIn = some v → c.storedIn = some v → j = k
  known : ∀ (k : BindingId) (b : Binding) (v : VariableId) (routine : RoutineId),
    s.scopes.bindings[k]? = some b → b.storedIn = some v → b.assigned = false →
      b.routineRef = some routine → s.Known v routine
  unset : ∀ (i : RoutineId) (r : Routine) (index : Nat) (x : Variable),
    s.unit.routines[i]? = some r → r.layout = none → r.vars[index]? = some x → x.Unset
  published : ∀ (i : RoutineId) (r : Routine) (index : Nat) (x : Variable) (routine : RoutineId),
    s.unit.routines[i]? = some r → r.vars[index]? = some x → x.routineRef = some routine →
      ∃ (k : BindingId) (b : Binding), s.scopes.bindings[k]? = some b ∧
        b.storedIn = some ⟨i, index⟩ ∧ b.assigned = false ∧ b.routineRef = some routine

/-- What holds of the state at every point of lowering: the current routine and those around it are
under construction, and all others are complete. -/
structure Sound (s : Lowering) : Prop extends s.Coherent where
  current : ∀ i, s.unit.Within i s.frame.routine →
    ∃ r, s.unit.routines[i]? = some r ∧ r.layout = none
  building : ∀ (i : RoutineId) (r : Routine), s.unit.routines[i]? = some r → r.layout = none →
    s.unit.Within i s.frame.routine ∧ r.Sound
  frame : s.FrameFits

lemma Coherent.laid_of_published {s : Lowering} (coherent : s.Coherent) {i : RoutineId}
    {r : Routine} {index : Nat} {x : Variable} {routine : RoutineId}
    (found : s.unit.routines[i]? = some r) (var : r.vars[index]? = some x)
    (known : x.routineRef = some routine) : r.layout.isSome = true := by
  cases layout : r.layout with
  | some => rfl
  | none =>
    rw [(coherent.unset i r index x found layout var).routineRef] at known
    cases known

/-- What later code leaves of a state: routines grow, and bindings and scopes stay, those of
complete routines as they are. -/
structure Grown (s s' : Lowering) : Prop where
  topScope : s'.topScope = s.topScope
  grown : ∀ (i : RoutineId) (r : Routine), s.unit.routines[i]? = some r →
    ∃ r', s'.unit.routines[i]? = some r' ∧ r.Grows r'
  count : s.unit.routines.size ≤ s'.unit.routines.size
  bindings : ∀ (k : BindingId) (b : Binding), s.scopes.bindings[k]? = some b →
    ∃ b', s'.scopes.bindings[k]? = some b' ∧ b.Becomes b'
  laid : ∀ (k : BindingId) (b b' : Binding) (r : Routine), s.scopes.bindings[k]? = some b →
    s'.scopes.bindings[k]? = some b' → s.unit.routines[b.owner]? = some r →
      r.layout.isSome = true → b' = b
  scopes : ∀ (k : ScopeId) (sc : Scope), s.scopes.scopes[k]? = some sc →
    ∃ sc', s'.scopes.scopes[k]? = some sc' ∧ sc'.owner = sc.owner ∧ sc'.varScope = sc.varScope
  errors : s.log.errorCount ≤ s'.log.errorCount

/-- What later code of the current routine leaves: other routines get no code and no closures. -/
structure Extends (s s' : Lowering) : Prop extends s.Grown s' where
  frame : s'.frame = s.frame
  others : ∀ (i : RoutineId) (r r' : Routine), s.unit.routines[i]? = some r →
    s'.unit.routines[i]? = some r' → i ≠ s.frame.routine → r.SameCode r'
  refs : ∀ (k : BindingId) (b b' : Binding), s.scopes.bindings[k]? = some b →
    s'.scopes.bindings[k]? = some b' → b.owner ≠ s.frame.routine → b'.routineRef = b.routineRef

/-- What later code leaves: a variable that stays unassigned is written where it was written before,
unless it has become known to hold a closure. -/
structure Keeps (s s' : Lowering) : Prop extends s.Extends s' where
  unwritten : ∀ (k : BindingId) (b b' : Binding) (v : VariableId),
    s.scopes.bindings[k]? = some b → s'.scopes.bindings[k]? = some b' → b.storedIn = some v →
      b'.assigned = false → b'.routineRef = b.routineRef →
        ∀ id block j, s'.WrittenAt v id block j → s.WrittenAt v id block j

lemma Grown.refl (s : Lowering) : s.Grown s where
  topScope := rfl
  grown _ r found := ⟨r, found, .refl r⟩
  count := le_refl _
  bindings _ b found := ⟨b, found, .refl b⟩
  laid k b b' r found found' _ _ := by
    obtain rfl : b = b' := by simpa [found] using found'
    rfl
  scopes _ sc found := ⟨sc, found, rfl, rfl⟩
  errors := le_refl _

lemma Grown.trans {s s' : Lowering} (first : s.Grown s') (second : s'.Grown s'') : s.Grown s'' where
  topScope := second.topScope.trans first.topScope
  grown i r found := by
    obtain ⟨r', found', grows'⟩ := first.grown i r found
    obtain ⟨r'', found'', grows''⟩ := second.grown i r' found'
    exact ⟨r'', found'', grows'.trans grows''⟩
  count := le_trans first.count second.count
  bindings k b found := by
    obtain ⟨b', found', becomes'⟩ := first.bindings k b found
    obtain ⟨b'', found'', becomes''⟩ := second.bindings k b' found'
    exact ⟨b'', found'', becomes'.trans becomes''⟩
  laid k b b'' r found found'' owner laid := by
    obtain ⟨b', found', becomes'⟩ := first.bindings k b found
    obtain ⟨r', owner', grows⟩ := first.grown _ _ owner
    rw [← becomes'.owner] at owner'
    rw [← grows.same_layout] at laid
    rw [second.laid k b' b'' r' found' found'' owner' laid]
    exact first.laid k b b' r found found' owner (grows.same_layout ▸ laid)
  scopes k sc found := by
    obtain ⟨sc', found', owner', whole'⟩ := first.scopes k sc found
    obtain ⟨sc'', found'', owner'', whole''⟩ := second.scopes k sc' found'
    exact ⟨sc'', found'', owner''.trans owner', whole''.trans whole'⟩
  errors := le_trans first.errors second.errors

namespace Extends

lemma refl (s : Lowering) : s.Extends s where
  toGrown := .refl s
  frame := rfl
  others i r r' found found' _ := by
    obtain rfl : r = r' := by simpa [found] using found'
    rfl
  refs k b b' found found' _ := by
    obtain rfl : b = b' := by simpa [found] using found'
    rfl

lemma trans {s s' : Lowering} (first : s.Extends s') (second : s'.Extends s'') : s.Extends s'' where
  toGrown := first.toGrown.trans second.toGrown
  frame := second.frame.trans first.frame
  others i r r'' found found'' other := by
    obtain ⟨r', found', -⟩ := first.grown i r found
    have first_same := first.others i r r' found found' other
    have second_same := second.others i r' r'' found' found'' (first.frame ▸ other)
    rw [Routine.SameCode] at *
    rw [second_same, first_same]
  refs k b b'' found found'' other := by
    obtain ⟨b', found', becomes'⟩ := first.bindings k b found
    have other' : b'.owner ≠ s'.frame.routine := by rwa [becomes'.owner, first.frame]
    exact (second.refs k b' b'' found' found'' other').trans (first.refs k b b' found found' other)

end Extends

namespace Grown

section

variable {s s' : Lowering} (keeps : s.Grown s')
include keeps

lemma within {outer inner : RoutineId} (within : s.unit.Within outer inner) :
    s'.unit.Within outer inner := by
  induction within with
  | refl => exact .refl _
  | outwards found parent _ ih =>
    obtain ⟨r', found', grows⟩ := keeps.grown _ _ found
    exact .outwards found' (grows.same_parent.trans parent) ih

lemma usable (usable : s.Usable user v) : s'.Usable user v := by
  obtain ⟨within, r, found, recorded⟩ := usable
  obtain ⟨r', found', grows⟩ := keeps.grown _ _ found
  refine ⟨keeps.within within, r', found', ?_⟩
  rw [grows.same_layout]
  cases layout : r.layout with
  | none =>
    obtain ⟨k, b, bound, stored, accessed, escapes⟩ :
        ∃ (k : BindingId) (b : Binding), s.scopes.bindings[k]? = some b ∧ b.storedIn = some v ∧
          b.accessed = true ∧ (user ≠ v.routine → b.escapes = true) := by
      simpa [layout] using recorded
    obtain ⟨b', bound', becomes⟩ := keeps.bindings k b bound
    exact ⟨k, b', bound', becomes.stored v stored, becomes.accessed accessed,
      fun other => becomes.escapes (escapes other)⟩
  | some place =>
    simp only [layout] at recorded
    obtain ⟨x, at_x, known, stored, reached⟩ := recorded
    exact ⟨x, at_x, grows.vars _ _ known, stored, reached⟩

lemma fitsIn {a : Operand} (fits : s.FitsIn user a) : s'.FitsIn user a := by
  cases a with
  | var v => exact keeps.usable fits
  | slot id =>
    obtain ⟨r, found, below⟩ := fits
    obtain ⟨r', found', grows⟩ := keeps.grown _ _ found
    exact ⟨r', found', lt_of_lt_of_le below grows.slots⟩
  | cell id =>
    obtain ⟨r, found, below⟩ := fits
    obtain ⟨r', found', grows⟩ := keeps.grown _ _ found
    exact ⟨r', found', grows.local_lt below⟩
  | param => trivial
  | constant => trivial

lemma refers {i : Instruction} (refers : s.Refers user i) : s'.Refers user i := by
  cases i with
  | closure dest routine =>
    obtain ⟨r, found, parent⟩ := refers
    obtain ⟨r', found', grows⟩ := keeps.grown _ _ found
    exact ⟨r', found', grows.same_parent.trans parent⟩
  | call dest callee argc =>
    obtain ⟨⟨r, found, room⟩, direct⟩ := refers
    obtain ⟨r', found', grows⟩ := keeps.grown _ _ found
    exact ⟨⟨r', found', le_trans room grows.slots⟩, fun routine closure same =>
      lt_of_lt_of_le (direct routine closure same) keeps.count⟩
  | splice => exact refers
  | endTry index =>
    obtain ⟨r, found, below⟩ := refers
    obtain ⟨r', found', grows⟩ := keeps.grown _ _ found
    exact ⟨r', found', lt_of_lt_of_le below grows.tries⟩
  | newObject | newArray | newArguments | loadThrown | assign | binary | unary => trivial
  | get | put => trivial

lemma instructionFits {i : Instruction} (fits : s.InstructionFits user i) :
    s'.InstructionFits user i :=
  ⟨fun a mem => keeps.fitsIn (fits.operands a mem), keeps.refers fits.refers, fits.places⟩

lemma jumpFits {jump : Jump} (fits : s.JumpFits user jump) : s'.JumpFits user jump where
  operands a member := keeps.fitsIn (fits.operands a member)
  compares := fits.compares
  region index onCatch onBody same := by
    obtain ⟨r, found, below⟩ := fits.region index onCatch onBody same
    obtain ⟨r', found', grows⟩ := keeps.grown _ _ found
    exact ⟨r', found', lt_of_lt_of_le below grows.tries⟩

lemma codeFits {r r' : Routine} (fits : s.CodeFits user r) (same : r'.blocks = r.blocks) :
    s'.CodeFits user r' where
  instructions i has := by
    obtain ⟨k, j, b, found, here⟩ := has
    exact keeps.instructionFits (fits.instructions i ⟨k, j, b, same ▸ found, here⟩)
  jumps jump ends := by
    obtain ⟨k, b, found, last⟩ := ends
    exact keeps.jumpFits (fits.jumps jump ⟨k, b, same ▸ found, last⟩)

lemma scopeFits {k : ScopeId} {sc : Scope} (fits : s.ScopeFits k sc) : s'.ScopeFits k sc where
  owner := by
    obtain ⟨r, found⟩ := fits.owner
    obtain ⟨r', found', -⟩ := keeps.grown _ _ found
    exact ⟨r', found'⟩
  parent p parent := by
    obtain ⟨earlier, outer, found, within⟩ := fits.parent p parent
    obtain ⟨outer', found', owner, -⟩ := keeps.scopes _ _ found
    exact ⟨earlier, outer', found', owner ▸ keeps.within within⟩
  outermost none_around := by
    rw [keeps.topScope]
    exact fits.outermost none_around
  varScope := by
    obtain ⟨whole, found, owner⟩ := fits.varScope
    obtain ⟨whole', found', owner', -⟩ := keeps.scopes _ _ found
    exact ⟨whole', found', owner'.trans owner⟩
  inner other := by
    obtain ⟨p, outer, parent, found, owner, same⟩ := fits.inner other
    obtain ⟨outer', found', owner', same'⟩ := keeps.scopes _ _ found
    exact ⟨p, outer', parent, found', owner'.trans owner, same'.trans same⟩
  names name binding member := by
    obtain ⟨b, found, owner, same⟩ := fits.names name binding member
    obtain ⟨b', found', becomes⟩ := keeps.bindings _ _ found
    exact ⟨b', found', becomes.owner.trans owner, becomes.name.trans same⟩

lemma bindingFits {b : Binding} (fits : s.BindingFits b) : s'.BindingFits b where
  owner := lt_of_lt_of_le fits.owner keeps.count
  stored v stored := by
    obtain ⟨owner, r, x, found, known⟩ := fits.stored v stored
    obtain ⟨r', found', grows⟩ := keeps.grown _ _ found
    exact ⟨owner, r', x, found', grows.vars _ _ known⟩
  constant := fits.constant
  fixed := fits.fixed
  refers routine known := lt_of_lt_of_le (fits.refers routine known) keeps.count

lemma assigned (assigned : s.Assigned v) : s'.Assigned v := by
  obtain ⟨k, b, found, stored, flag⟩ := assigned
  obtain ⟨b', found', becomes⟩ := keeps.bindings k b found
  exact ⟨k, b', found', becomes.stored v stored, becomes.assigned flag⟩

lemma known {routine : RoutineId} (known : s.Known v routine)
    (unwritten : ∀ id k j, s'.WrittenAt v id k j → s.WrittenAt v id k j) : s'.Known v routine := by
  obtain ⟨r, j, found, created, earlier, only⟩ := known.created
  obtain ⟨r', found', grows⟩ := keeps.grown _ _ found
  refine ⟨⟨r', j, found', grows.stands created, ?_, ?_⟩, ?_⟩
  · intro j' i before stands
    exact earlier j' i before (grows.stands_back created before stands)
  · intro id k j' written
    exact only id k j' (unwritten id k j' written)
  · obtain ⟨owner, x, found_owner, var, none⟩ := known.plain
    obtain ⟨owner', found_owner', grows'⟩ := keeps.grown _ _ found_owner
    exact ⟨owner', x, found_owner', grows'.vars _ _ var, none⟩

end

end Grown

namespace Extends

lemma fits {s s' : Lowering} (keeps : s.Extends s') {a : Operand} (fits : s.Fits a) :
    s'.Fits a := by
  rw [Fits, keeps.frame]
  exact keeps.fitsIn fits

lemma frameFits {s s' : Lowering} (keeps : s.Extends s') (fits : s.FrameFits) : s'.FrameFits where
  scope := by
    obtain ⟨sc, found, owner, whole⟩ := fits.scope
    obtain ⟨sc', found', owner', whole'⟩ := keeps.scopes _ _ found
    exact ⟨sc', by rw [keeps.frame, found'], by rw [keeps.frame, owner', owner],
      by rw [keeps.frame, whole', whole]⟩
  root := by
    obtain ⟨sc, found, owner⟩ := fits.root
    obtain ⟨sc', found', owner', -⟩ := keeps.scopes _ _ found
    exact ⟨sc', by rw [keeps.frame, found'], by rw [keeps.frame, owner', owner]⟩
  top := by
    obtain ⟨sc, found, owner⟩ := fits.top
    obtain ⟨sc', found', owner', -⟩ := keeps.scopes _ _ found
    exact ⟨sc', by rw [keeps.topScope, found'], owner'.trans owner⟩
  shadows name binding member := by
    rw [keeps.frame] at member ⊢
    obtain ⟨b, found, owner⟩ := fits.shadows name binding member
    obtain ⟨b', found', becomes⟩ := keeps.bindings _ _ found
    exact ⟨b', found', becomes.owner.trans owner⟩
  tries t member := by
    rw [keeps.frame] at member ⊢
    exact fits.tries t member
  exits := by
    obtain ⟨r, found, labels, tries⟩ := fits.exits
    obtain ⟨r', found', grows⟩ := keeps.grown _ _ found
    rw [keeps.frame]
    exact ⟨r', found', fun label leaves => lt_of_lt_of_le (labels label leaves) grows.label_count,
      fun index member => lt_of_lt_of_le (tries index member) grows.tries⟩

end Extends

namespace Keeps

lemma refl (s : Lowering) : s.Keeps s :=
  { Extends.refl s with unwritten := fun _ _ _ _ _ _ _ _ _ _ _ _ written => written }

lemma trans {s s' : Lowering} (first : s.Keeps s') (second : s'.Keeps s'') : s.Keeps s'' where
  toExtends := first.toExtends.trans second.toExtends
  unwritten k b b'' v found found'' stored unset same id block j written := by
    obtain ⟨b', found', becomes'⟩ := first.bindings k b found
    obtain ⟨c, found_c, becomes''⟩ := second.bindings k b' found'
    obtain rfl : c = b'' := by simpa [found_c] using found''
    obtain ⟨middle, same', same''⟩ := becomes'.middle becomes'' unset same
    exact first.unwritten k b b' v found found' stored middle same' id block j
      (second.unwritten k b' c v found' found_c (becomes'.stored v stored) unset same''
        id block j written)

end Keeps

section

variable {s : Lowering} {r old : Routine}

lemma withCode_found (found : s.unit.routines[s.frame.routine]? = some old) :
    (s.withCode r).unit.routines[s.frame.routine]? = some r := by
  have inside := (lt_size found)
  rw [withCode, Array.getElem?_setIfInBounds_self_of_lt inside]

lemma withCode_same (found : s.unit.routines[s.frame.routine]? = some r) : s.withCode r = s := by
  have routines : (s.withCode r).unit.routines = s.unit.routines := by
    apply Array.ext_getElem?
    intro i
    rw [withCode, Array.getElem?_setIfInBounds]
    split
    next here =>
      subst here
      rw [if_pos (lt_size found), found]
    next => rfl
  calc
    s.withCode r =
        { s with unit := { s.unit with routines := (s.withCode r).unit.routines } } := rfl
    _ = s := by rw [routines]

lemma withCode_withCode (s : Lowering) (r r' : Routine) :
    (s.withCode r).withCode r' = s.withCode r' := by
  have routines : ((s.withCode r).withCode r').unit.routines = (s.withCode r').unit.routines := by
    apply Array.ext_getElem?
    intro i
    simp only [withCode, Array.getElem?_setIfInBounds]
    split <;> simp_all
  calc
    (s.withCode r).withCode r' = { s with unit :=
          { s.unit with routines := ((s.withCode r).withCode r').unit.routines } } := rfl
    _ = s.withCode r' := by rw [routines]; rfl

end

namespace Sound

variable {s s' : Lowering}

section

variable {r : Routine}

variable (sound : s.Sound)
include sound

lemma code_found : s.unit.routines[s.frame.routine]? = some s.code := by
  obtain ⟨r, found, -⟩ := sound.current _ (.refl _)
  simp [code, found]

lemma code_layout : s.code.layout = none := by
  obtain ⟨r, found, unlaid⟩ := sound.current _ (.refl _)
  obtain rfl : s.code = r := by simpa [sound.code_found] using found
  exact unlaid

lemma code_sound : s.code.Sound := (sound.building _ _ sound.code_found sound.code_layout).2

lemma within_back (keeps : s.Grown s') {outer inner : RoutineId}
    (inside : inner < s.unit.routines.size) (within : s'.unit.Within outer inner) :
    s.unit.Within outer inner := by
  induction within with
  | refl => exact .refl _
  | @outwards inner parent r' found' same _ ih =>
    have found := Array.getElem?_eq_getElem inside
    obtain ⟨r'', found'', grows⟩ := keeps.grown _ _ found
    obtain rfl : r' = r'' := by simpa [found'] using found''
    have earlier := sound.parents _ _ found
    rw [← grows.same_parent, same] at earlier
    exact .outwards found (grows.same_parent ▸ same) (ih (lt_trans earlier inside))

lemma withCode_routines (r : Routine) (i : RoutineId) : (s.withCode r).unit.routines[i]? =
      if i = s.frame.routine then some r else s.unit.routines[i]? := by
  have inside := (lt_size sound.code_found)
  rw [withCode]
  by_cases here : i = s.frame.routine
  · simp [here, inside]
  · simp [here, Ne.symm here]

lemma withCode_code (r : Routine) : (s.withCode r).code = r := by
  have found := sound.withCode_routines r s.frame.routine
  rw [if_pos rfl] at found
  exact congrArg (Option.getD · default) found

lemma withCode_self : s.withCode s.code = s := withCode_same sound.code_found

lemma binding_eq {j k : BindingId} {b c : Binding} (found : s.scopes.bindings[j]? = some b)
    (found' : s.scopes.bindings[k]? = some c) (stored : b.storedIn = some v)
    (stored' : c.storedIn = some v) : b = c := by
  obtain rfl := sound.stored_once j k b c v found found' stored stored'
  simpa [found] using found'

lemma writtenAt_withCode (edits : s.code.Edits r new ends) {id : RoutineId} {k : BlockId}
    {j : Nat} (written : (s.withCode r).WrittenAt v id k j) :
    s.WrittenAt v id k j ∨ ∃ i, new i ∧ .var v ∈ i.dests := by
  obtain ⟨r', i, found, stands, writes⟩ := written
  rw [sound.withCode_routines] at found
  split at found
  next here =>
    cases found
    rcases edits.stands k j i stands with old | added
    · exact .inl ⟨s.code, i, here ▸ sound.code_found, old, writes⟩
    · exact .inr ⟨i, added, writes⟩
  next => exact .inl ⟨r', i, found, stands, writes⟩

lemma unknown (assigned : s.Assigned v) : s.Unknown v := by
  obtain ⟨k, b, found, stored, flag⟩ := assigned
  intro j c found_c stored_c
  obtain rfl := sound.binding_eq found found_c stored stored_c
  exact .inl flag

lemma extends_withCode (grows : s.code.Grows r) : s.Extends (s.withCode r) := by
  refine { Extends.refl s with
    grown := fun i old found => ?_, count := ?_, others := fun i old new found found' other => ?_ }
  · rw [sound.withCode_routines]
    by_cases here : i = s.frame.routine
    · obtain rfl : s.code = old := by simpa [here, sound.code_found] using found
      exact ⟨r, if_pos here, grows⟩
    · exact ⟨old, by rw [if_neg here, found], .refl old⟩
  · simp [Lowering.withCode]
  · rw [sound.withCode_routines, if_neg other, found] at found'
    rw [← Option.some.inj found']
    rfl

lemma keeps_withCode {s0 : Lowering} (before : s0.Keeps s) (edits : s.code.Edits r new ends)
    (writes : ∀ i, new i → ∀ v, .var v ∈ i.dests → s.Assigned v ∨ ∀ (k : BindingId) (b : Binding),
      s0.scopes.bindings[k]? = some b → b.storedIn ≠ some v) :
    s0.Keeps (s.withCode r) := by
  refine ⟨before.toExtends.trans (sound.extends_withCode edits.grows), ?_⟩
  intro k b b' v found found' stored unset same id block j written
  rcases sound.writtenAt_withCode edits written with old | ⟨i, added, written⟩
  · exact before.unwritten k b b' v found found' stored unset same id block j old
  · rcases writes i added v written with ⟨k', c, found_c, stored_c, assigned⟩ | absent
    · obtain ⟨b'', found'', becomes⟩ := before.bindings k b found
      cases found''.symm.trans found'
      obtain rfl := sound.binding_eq found_c found'' stored_c (becomes.stored v stored)
      simp [assigned] at unset
    · exact absurd stored (absent k b found)

/-- A state with edited code is sound, if what is new may stand there and writes no variable that is
known to hold a closure. -/
lemma withCode (edits : s.code.Edits r new ends)
    (instructions : ∀ i, new i → (s.withCode r).InstructionFits s.frame.routine i)
    (jumps : ∀ jump, ends jump → (s.withCode r).JumpFits s.frame.routine jump)
    (writes : ∀ i, new i → ∀ v, .var v ∈ i.dests → s.Unknown v) : (s.withCode r).Sound := by
  have keeps := sound.extends_withCode edits.grows
  -- A routine of the new state is the edited one or an old one.
  have split {i : RoutineId} {r' : Routine} (found : (s.withCode r).unit.routines[i]? = some r') :
      (i = s.frame.routine ∧ r' = r) ∨ s.unit.routines[i]? = some r' := by
    rw [sound.withCode_routines] at found
    split at found
    next here => exact .inl ⟨here, by simpa using found.symm⟩
    next => exact .inr found
  have current := sound.code_found
  refine ⟨⟨?_, ?_, ?_, ?_, ?_, fun k sc found => keeps.scopeFits (sound.scopes k sc found),
    fun k b found => keeps.bindingFits (sound.bindings k b found), sound.stored_once, ?_, ?_, ?_⟩,
    ?_, ?_, keeps.frameFits sound.frame⟩
  · intro i r' found
    rcases split found with ⟨rfl, rfl⟩ | old
    · exact edits.grows.same_id.trans (sound.ids _ _ current)
    · exact sound.ids i r' old
  · intro i r' found
    rcases split found with ⟨rfl, rfl⟩ | old
    · rw [edits.grows.same_parent]
      exact sound.parents _ _ current
    · exact sound.parents i r' old
  · intro i r' layout found laid
    rcases split found with ⟨rfl, rfl⟩ | old
    · rw [edits.grows.same_layout, sound.code_layout] at laid
      cases laid
    · exact sound.complete i r' layout old laid
  · intro i r' found
    rcases split found with ⟨rfl, rfl⟩ | old
    · have fits := sound.fits _ _ current
      refine ⟨fun instruction ⟨k, j, stands⟩ => ?_, fun jump last => ?_⟩
      · rcases edits.stands k j instruction stands with before | added
        · exact keeps.instructionFits (fits.instructions instruction ⟨k, j, before⟩)
        · exact instructions instruction added
      · rcases edits.endsWith jump last with before | added
        · exact keeps.jumpFits (fits.jumps jump before)
        · exact jumps jump added
    · exact keeps.codeFits (sound.fits i r' old) rfl
  · intro i r' j instruction found stands
    rcases split found with ⟨rfl, rfl⟩ | old
    · rcases edits.prologue j instruction stands with before | added
      · exact sound.prologue _ _ j instruction current before
      · exact added
    · exact sound.prologue i r' j instruction old stands
  · intro k b v routine found stored unassigned known
    refine keeps.known (sound.known k b v routine found stored unassigned known) ?_
    intro id block j written
    rcases sound.writtenAt_withCode edits written with old | ⟨i, added, written⟩
    · exact old
    · rcases writes i added v written k b found stored with assigned | unknown
      · simp [unassigned] at assigned
      · simp [known] at unknown
  · intro i r' index x found unlaid var
    rcases split found with ⟨rfl, rfl⟩ | old
    · rw [edits.same_vars] at var
      rw [edits.grows.same_layout] at unlaid
      exact sound.unset _ _ index x current unlaid var
    · exact sound.unset i r' index x old unlaid var
  · intro i r' index x routine found var known
    rcases split found with ⟨rfl, rfl⟩ | old
    · rw [edits.same_vars] at var
      exact sound.published _ _ index x routine current var known
    · exact sound.published i r' index x routine old var known
  · intro i within
    have inside := (lt_size current)
    obtain ⟨old, found, unlaid⟩ := sound.current i (sound.within_back keeps.toGrown inside within)
    obtain ⟨r', found', grows⟩ := keeps.grown i old found
    exact ⟨r', found', grows.same_layout.trans unlaid⟩
  · intro i r' found unlaid
    rcases split found with ⟨rfl, rfl⟩ | old
    · exact ⟨.refl _, edits.sound⟩
    · obtain ⟨within, built⟩ := sound.building i r' old unlaid
      exact ⟨keeps.within within, built⟩

end

end Sound

end Lowering
end Scriptc
