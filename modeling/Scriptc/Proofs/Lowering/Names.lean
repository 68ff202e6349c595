import Scriptc.Proofs.Lowering.Steps

/-!
# Names and variables in lowering

A name is looked up to a binding of the current routine or one around it. Reading or writing a
binding records the use, so that its variable may stand in the code.
-/

namespace Scriptc

open Option

lemma CodeUnit.Within.trans {u : CodeUnit} {a b c : RoutineId} (first : u.Within a b)
    (second : u.Within b c) : u.Within a c := by
  induction second with
  | refl => exact first
  | outwards found parent _ ih => exact .outwards found parent ih

namespace Lowering

variable {s s' : Lowering}
variable {id : BindingId} {name : String} {t : ScopeTree}

lemma Sound.within_top (sound : s.Sound) {i : RoutineId} (inside : i < s.unit.routines.size) :
    s.unit.Within 0 i := by
  induction i using Nat.strong_induction_on with
  | _ i ih =>
    have found := Array.getElem?_eq_getElem inside
    have parents := sound.parents i _ found
    cases parent : s.unit.routines[i].parent with
    | none =>
      obtain rfl : i = 0 := by simpa [parent] using parents
      exact .refl 0
    | some outer =>
      have earlier : outer < i := by simpa [parent] using parents
      exact .outwards found parent (ih outer earlier (Nat.lt_trans earlier inside))

def Visible (s : Lowering) (id : BindingId) : Prop :=
  ∃ b, s.scopes.bindings[id]? = some b ∧ s.unit.Within b.owner s.frame.routine

lemma Extends.visible (keeps : s.Extends s') (visible : s.Visible id) : s'.Visible id := by
  obtain ⟨b, found, within⟩ := visible
  obtain ⟨b', found', becomes⟩ := keeps.bindings id b found
  refine ⟨b', found', ?_⟩
  rw [keeps.frame, becomes.owner]
  exact keeps.within within

lemma askScopes_run {α : Type} {question : ScopeTree → Except Fault α} {a : α}
    (answer : question s.scopes = .ok a) : askScopes question s = .ok a s := by
  simp [askScopes, inScopes, EStateM.run, ScopeTree.ask, answer]

lemma askScopes_step {α β : Type} {question : ScopeTree → Except Fault α} {a : α}
    {next : α → Lower β} {post : β → Lowering → Prop} (answer : question s.scopes = .ok a)
    (rest : Runs (next a) s post) : Runs (askScopes question >>= next) s post :=
  Runs.bind ⟨a, s, askScopes_run answer, rest⟩

lemma scope_found {id : ScopeId} {sc : Scope} (found : t.scopes[id]? = some sc) :
    t.scope id = .ok sc := by
  simp [ScopeTree.scope, found]

lemma binding_found {b : Binding} (found : t.bindings[id]? = some b) : t.binding id = .ok b := by
  simp [ScopeTree.binding, found]

lemma mem_of_lookup {names : List (String × BindingId)}
    (found : names.lookup name = some id) : (name, id) ∈ names := by
  obtain ⟨before, after, rfl, -⟩ := List.lookup_eq_some_iff.mp found
  simp

lemma lookupWithin_run (sound : s.Sound) (name : String) (steps : Nat) {id : ScopeId} {sc : Scope}
    (found : s.scopes.scopes[id]? = some sc) : s.scopes.lookupWithin name steps id =
      .ok (boundFrom s.scopes.scopes (fun _ => true) name steps id) := by
  induction steps generalizing id sc with
  | zero => rfl
  | succ steps ih =>
    simp only [ScopeTree.lookupWithin, scope_found found, boundFrom, found, if_true]
    cases here : sc.names.lookup name with
    | some k => simp [bind, Except.bind, here]
    | none =>
      cases parent : sc.parent with
      | none => simp [bind, Except.bind, here, parent]
      | some p =>
        obtain ⟨-, outer, outer_found, -⟩ := (sound.scopes id sc found).parent p parent
        simpa [bind, Except.bind, here, parent] using ih outer_found

lemma boundFrom_within (sound : s.Sound) {kind : RoutineId → Bool} {steps : Nat}
    {id : ScopeId} {sc : Scope} (found : s.scopes.scopes[id]? = some sc) {k : BindingId}
    (bound : boundFrom s.scopes.scopes kind name steps id = some k) :
    ∃ b, s.scopes.bindings[k]? = some b ∧ s.unit.Within b.owner sc.owner ∧ kind b.owner = true ∧
      b.name = name := by
  induction steps generalizing id sc with
  | zero => cases bound
  | succ steps ih =>
    have fits := sound.scopes id sc found
    simp only [boundFrom, found] at bound
    split at bound
    next allowed =>
      cases here : sc.names.lookup name with
      | some k' =>
        rw [here] at bound
        cases bound
        obtain ⟨b, known, owner, same⟩ := fits.names name _ (mem_of_lookup here)
        exact ⟨b, known, owner ▸ .refl _, owner ▸ allowed, same⟩
      | none =>
        rw [here] at bound
        cases parent : sc.parent with
        | none =>
          rw [parent] at bound
          cases bound
        | some p =>
          rw [parent] at bound
          obtain ⟨-, outer, outer_found, within⟩ := fits.parent p parent
          obtain ⟨b, known, inner, of_kind, same⟩ := ih outer_found bound
          exact ⟨b, known, inner.trans within, of_kind, same⟩
    next => cases bound

lemma boundTo_visible (sound : s.Sound) (bound : s.boundTo name = some id) : s.Visible id := by
  obtain ⟨sc, found, owner, -⟩ := sound.frame.scope
  rw [boundTo] at bound
  split at bound
  all_goals
    obtain ⟨b, known, within, -⟩ := boundFrom_within sound found bound
    exact ⟨b, known, owner ▸ within⟩

lemma boundTo_name (sound : s.Sound) {b : Binding}
    (bound : s.boundTo name = some id) (found : s.scopes.bindings[id]? = some b) :
    b.name = name := by
  obtain ⟨sc, here, -⟩ := sound.frame.scope
  rw [boundTo] at bound
  split at bound
  all_goals
    obtain ⟨b', known, -, -, same⟩ := boundFrom_within sound here bound
    cases found.symm.trans known
    exact same

def withBinding (s : Lowering) (id : BindingId) (change : Binding → Binding) : Lowering :=
  { s with scopes := { s.scopes with bindings := s.scopes.bindings.modify id change } }

lemma withBinding_bindings (s : Lowering) (id k : BindingId) (change : Binding → Binding) :
    (s.withBinding id change).scopes.bindings[k]? =
      if k = id then s.scopes.bindings[k]?.map change else s.scopes.bindings[k]? := by
  rw [withBinding, Array.getElem?_modify]
  by_cases here : k = id
  · simp [here]
  · simp [here, Ne.symm here]

lemma modifyBinding_run {b : Binding} {change : Binding → Binding}
    (found : s.scopes.bindings[id]? = some b) :
    modifyBinding id change s = .ok ⟨⟩ (s.withBinding id change) := by
  have asked : ScopeTree.ask (·.binding id) s.scopes = .ok b s.scopes := by
    simp [ScopeTree.ask, binding_found found]
  have run : ScopeTree.modifyBinding id change s.scopes =
      .ok ⟨⟩ { s.scopes with bindings := s.scopes.bindings.modify id change } := by
    rw [ScopeTree.modifyBinding, Runs.bind_run asked]
    rfl
  simp [modifyBinding, inScopes, EStateM.run, run, withBinding]

/-- Whether a changed binding of the current routine may be said to hold a closure: the routine of
the closure exists, and unless the binding is assigned, its variable holds the closure. -/
structure Closes (s : Lowering) (b b' : Binding) : Prop where
  own : b.owner = s.frame.routine
  refers : ∀ routine, b'.routineRef = some routine → routine < s.unit.routines.size
  known : ∀ v routine, b.storedIn = some v → b'.assigned = false → b'.routineRef = some routine →
    s.Known v routine

section

variable (sound : s.Sound) {b : Binding} {change : Binding → Binding}
  (found : s.scopes.bindings[id]? = some b) (within : s.unit.Within b.owner s.frame.routine)
  (becomes : b.Becomes (change b)) (stored : (change b).storedIn = b.storedIn)
include sound found within becomes stored

lemma moves_withBinding (ref : (change b).routineRef = b.routineRef ∨ s.Closes b (change b)) :
    s.Moves (s.withBinding id change) {} := by
  have changed := withBinding_bindings s id
  -- Every binding of the new state comes from one that has the same variable.
  have back (k : BindingId) (c : Binding)
      (known : (s.withBinding id change).scopes.bindings[k]? = some c) :
      ∃ old, s.scopes.bindings[k]? = some old ∧ old.storedIn = c.storedIn ∧
        (old = c ∨ old = b ∧ c = change b) := by
    rw [changed] at known
    by_cases here : k = id
    · obtain rfl : change b = c := by simpa [here, found] using known
      exact ⟨b, here ▸ found, stored.symm, .inr ⟨rfl, rfl⟩⟩
    · rw [if_neg here] at known
      exact ⟨c, known, rfl, .inl rfl⟩
  have same (i : RoutineId) (r : Routine) (known : s.unit.routines[i]? = some r) :
      ∃ r', s.unit.routines[i]? = some r' ∧ r'.SameCode r := ⟨r, known, rfl⟩
  have keeps : s.Extends (s.withBinding id change) := by
    refine { Extends.refl s with
      bindings := fun k old known => ?_
      laid := fun k old c r known known' owner laid => ?_
      refs := fun k old c known known' elsewhere => ?_ }
    · rw [changed]
      by_cases here : k = id
      · obtain rfl : b = old := by simpa [here, found] using known
        exact ⟨change b, by rw [if_pos here, known]; rfl, becomes⟩
      · exact ⟨old, by rw [if_neg here, known], .refl old⟩
    · obtain ⟨old', known_old, -, rfl | ⟨rfl, rfl⟩⟩ := back k c known'
      · exact some.inj (known_old.symm.trans known)
      · cases known_old.symm.trans known
        obtain ⟨r', found', unlaid⟩ := sound.current _ within
        cases found'.symm.trans owner
        simp [unlaid] at laid
    · obtain ⟨old', known_old, -, rfl | ⟨rfl, rfl⟩⟩ := back k c known'
      · rw [some.inj (known_old.symm.trans known)]
      · cases known_old.symm.trans known
        exact ref.elim (fun ref => ref) fun closes => absurd closes.own elsewhere
  have sound' : (s.withBinding id change).Sound := by
    refine sound.of_same_code keeps same
      (fun k sc known => keeps.scopeFits (sound.scopes k sc known)) ?_ ?_ ?_
      fun i r index x known var => .inr ⟨r, known, var⟩
    · intro k c known
      obtain ⟨old, known_old, same, rfl | ⟨rfl, rfl⟩⟩ := back k c known
      · exact keeps.bindingFits (sound.bindings k old known_old)
      · have fits := keeps.bindingFits (sound.bindings k old known_old)
        refine ⟨becomes.owner ▸ fits.owner, fun v held => ?_, fun none_held => ?_,
          fun constant => ?_, ref.elim (fun ref => ref ▸ fits.refers) fun closes => closes.refers⟩
        · rw [becomes.owner]
          exact fits.stored v (same.trans held)
        · rw [becomes.constant]
          exact fits.constant (same.trans none_held)
        · rw [becomes.readOnly]
          exact fits.fixed (becomes.constant ▸ constant)
    · intro j k c d v known_c known_d held_c held_d
      obtain ⟨c', known_c', same_c, -⟩ := back j c known_c
      obtain ⟨d', known_d', same_d, -⟩ := back k d known_d
      exact sound.stored_once j k c' d' v known_c' known_d' (same_c.trans held_c)
        (same_d.trans held_d)
    · intro k c v routine known held unset known_ref
      obtain ⟨old, known_old, same_stored, rfl | ⟨rfl, rfl⟩⟩ := back k c known
      · exact sound.known k old v routine known_old held unset known_ref
      · rcases ref with ref | closes
        · refine sound.known k old v routine known_old (same_stored.trans held) ?_ (ref ▸ known_ref)
          rw [← Bool.not_eq_true]
          intro assigned
          simp [becomes.assigned assigned] at unset
        · exact closes.known v routine (same_stored.trans held) unset known_ref
  exact moves_of_same_code sound sound' (keeps.keeps same) rfl

lemma modifyBinding_moves (ref : (change b).routineRef = b.routineRef) :
    Runs (modifyBinding id change) s fun _ s' =>
      s.Moves s' {} ∧ s.Quiet s' ∧ s'.scopes.bindings[id]? = some (change b) ∧
        s'.scopes.scopes = s.scopes.scopes := by
  have moves := moves_withBinding sound found within becomes stored (.inl ref)
  refine ⟨⟨⟩, _, modifyBinding_run found, moves, ⟨rfl, rfl, moves.keeps.steady rfl⟩, ?_, rfl⟩
  rw [withBinding_bindings, if_pos rfl, found]
  rfl

end

/-- The state with a new variable of a routine, a binding for it, and scopes that may name it. -/
def withVariable (s : Lowering) (scopes : Array Scope) (r : Routine) (x : Variable) (b : Binding) :
    Lowering :=
  { s with
    unit := { s.unit with
      routines := s.unit.routines.setIfInBounds b.owner { r with vars := r.vars.push x } }
    scopes := { scopes, bindings := s.scopes.bindings.push b } }

/-- Whether scopes name the bindings that other scopes name and a new one of a routine, by its own
name. -/
def Names (before after : Array Scope) (id : BindingId) (owner : RoutineId) (title : String) :
    Prop :=
  before.size = after.size ∧ ∀ (k : ScopeId) (sc : Scope), before[k]? = some sc →
    ∃ names, after[k]? = some { sc with names } ∧ ∀ name binding, (name, binding) ∈ names →
      (name, binding) ∈ sc.names ∨ binding = id ∧ sc.owner = owner ∧ name = title

lemma names_same (scopes : Array Scope) (id : BindingId) (owner : RoutineId) (title : String) :
    Names scopes scopes id owner title :=
  ⟨rfl, fun _ sc known => ⟨sc.names, known, fun _ _ mem => .inl mem⟩⟩

section

variable {scopes : Array Scope} {r : Routine} {x : Variable} {b : Binding}

lemma withVariable_routines (found : s.unit.routines[b.owner]? = some r) (i : RoutineId) :
    (s.withVariable scopes r x b).unit.routines[i]? =
      if i = b.owner then some { r with vars := r.vars.push x } else s.unit.routines[i]? := by
  have inside := (lt_size found)
  rw [withVariable]
  by_cases here : i = b.owner
  · simp [here, inside]
  · simp [here, Ne.symm here]

lemma withVariable_sameCode (found : s.unit.routines[b.owner]? = some r) {i : RoutineId}
    {r' : Routine} (known : (s.withVariable scopes r x b).unit.routines[i]? = some r') :
    ∃ old, s.unit.routines[i]? = some old ∧ old.SameCode r' := by
  rw [withVariable_routines found] at known
  split at known
  next here =>
    cases known
    exact ⟨r, here ▸ found, rfl⟩
  next => exact ⟨r', known, rfl⟩

lemma withVariable_new :
    (s.withVariable scopes r x b).scopes.bindings[s.scopes.bindings.size]? = some b := by
  rw [withVariable, Array.getElem?_push_size]

lemma withVariable_bindings {k : BindingId} {c : Binding}
    (known : (s.withVariable scopes r x b).scopes.bindings[k]? = some c) :
    s.scopes.bindings[k]? = some c ∨ k = s.scopes.bindings.size ∧ c = b := by
  rw [withVariable, Array.getElem?_push] at known
  split at known
  next last => exact .inr ⟨last, by simpa using known.symm⟩
  next => exact .inl known

lemma extends_withVariable (found : s.unit.routines[b.owner]? = some r)
    (named : Names s.scopes.scopes scopes s.scopes.bindings.size b.owner b.name) :
    s.Extends (s.withVariable scopes r x b) := by
  have grows : r.Grows { r with vars := r.vars.push x } := by
    refine { Routine.Grows.refl r with vars := fun k v known => ?_ }
    obtain ⟨below, -⟩ := Array.getElem?_eq_some_iff.mp known
    rw [Array.getElem?_push_lt below, ← Array.getElem?_eq_getElem below, known]
  have kept {k : BindingId} {c : Binding} (known : s.scopes.bindings[k]? = some c) :
      (s.withVariable scopes r x b).scopes.bindings[k]? = some c := by
    obtain ⟨below, -⟩ := Array.getElem?_eq_some_iff.mp known
    rw [withVariable, Array.getElem?_push_lt below, ← Array.getElem?_eq_getElem below, known]
  refine { Extends.refl s with
    grown := fun i old known => ?_
    count := ?_
    bindings := fun k c known => ⟨c, kept known, .refl c⟩
    laid := fun k c c' _ known known' _ _ => ?_
    scopes := fun k sc known => ?_
    others := fun i old new known known' _ => ?_
    refs := fun k c c' known known' _ => ?_ }
  · rw [withVariable_routines found]
    by_cases here : i = b.owner
    · obtain rfl : r = old := by simpa [here, found] using known
      exact ⟨_, if_pos here, grows⟩
    · exact ⟨old, by rw [if_neg here, known], .refl old⟩
  · simp [withVariable]
  · exact some.inj (known'.symm.trans (kept known))
  · obtain ⟨names, known', -⟩ := named.2 k sc known
    exact ⟨_, known', rfl, rfl⟩
  · obtain ⟨old', known_old, same⟩ := withVariable_sameCode found known'
    rwa [← some.inj (known_old.symm.trans known)]
  · rw [some.inj ((kept known).symm.trans known')]

section

variable (sound : s.Sound) (found : s.unit.routines[b.owner]? = some r)
  (named : Names s.scopes.scopes scopes s.scopes.bindings.size b.owner b.name)
  (stored : b.storedIn = some { routine := b.owner, index := r.vars.size })
  (plain : b.constant = none) (unknown : b.routineRef = none) (unset : x.Unset)
include sound found named stored plain unknown unset

lemma Sound.withVariable : (s.withVariable scopes r x b).Sound := by
  have keeps : s.Extends (s.withVariable scopes r x b) := extends_withVariable found named
  -- No binding had the number of the new variable, for the routine had no such variable.
  have new_variable {k : BindingId} {c : Binding} (known : s.scopes.bindings[k]? = some c) :
      c.storedIn ≠ b.storedIn := by
    intro same
    obtain ⟨-, r', x', found', known'⟩ := (sound.bindings k c known).stored _ (same.trans stored)
    obtain rfl : r' = r := by simpa [found] using found'.symm
    exact absurd (lt_size known') (Nat.lt_irrefl _)
  refine sound.of_same_code keeps (fun i r' known => withVariable_sameCode found known) ?_ ?_ ?_ ?_
    ?_
  · intro k sc' known
    have below : k < s.scopes.scopes.size := by
      rw [named.1]
      exact lt_size known
    have known_old := Array.getElem?_eq_getElem below
    obtain ⟨names, known', names_bound⟩ := named.2 k _ known_old
    cases known.symm.trans known'
    have fits := keeps.scopeFits (sound.scopes k _ known_old)
    refine { fits with names := fun name binding mem => ?_ }
    rcases names_bound name binding mem with old | ⟨rfl, owner, title⟩
    · exact fits.names name binding old
    · exact ⟨b, withVariable_new, owner.symm, title.symm⟩
  · intro k c known
    rcases withVariable_bindings known with old | ⟨rfl, rfl⟩
    · exact keeps.bindingFits (sound.bindings k c old)
    · refine ⟨Nat.lt_of_lt_of_le (lt_size found) keeps.count,
        fun v held => ?_, fun none_held => ?_, fun constant => ?_, fun routine refers => ?_⟩
      · cases stored.symm.trans held
        refine ⟨rfl, { r with vars := r.vars.push x }, x, ?_, Array.getElem?_push_size⟩
        rw [withVariable_routines found, if_pos rfl]
      · rw [stored] at none_held
        cases none_held
      · rw [plain] at constant
        cases constant
      · rw [unknown] at refers
        cases refers
  · intro j k c d v known_c known_d held_c held_d
    rcases withVariable_bindings known_c with old_c | ⟨rfl, rfl⟩
    · rcases withVariable_bindings known_d with old_d | ⟨rfl, rfl⟩
      · exact sound.stored_once j k c d v old_c old_d held_c held_d
      · exact absurd (held_c.trans held_d.symm) (new_variable old_c)
    · rcases withVariable_bindings known_d with old_d | ⟨rfl, rfl⟩
      · exact absurd (held_d.trans held_c.symm) (new_variable old_d)
      · rfl
  · intro k c v routine known held unassigned ref
    rcases withVariable_bindings known with old | ⟨rfl, rfl⟩
    · exact sound.known k c v routine old held unassigned ref
    · rw [unknown] at ref
      cases ref
  · intro i r' index y known var
    rw [withVariable_routines found] at known
    split at known
    next here =>
      cases known
      rw [Array.getElem?_push] at var
      split at var
      · cases var
        exact .inl unset
      · exact .inr ⟨r, here ▸ found, var⟩
    next => exact .inr ⟨r', known, var⟩

lemma moves_withVariable : s.Moves (s.withVariable scopes r x b) {} := by
  have sound' := sound.withVariable found named stored plain unknown unset
  obtain ⟨old, known, same⟩ := withVariable_sameCode found sound'.code_found
  cases sound.code_found.symm.trans known
  exact moves_of_same_code sound sound' ((extends_withVariable found named).keeps fun i r' known =>
    withVariable_sameCode found known) same

end

end

def plainVariable (r : Routine) (name : String) (param : Option ParamId) : Variable :=
  { name, level := r.level, param, accessed := false, escapes := false, routineRef := none,
    storage := none }

def freshBinding (r : Routine) (name : String) : Binding :=
  { Binding.new name r.id with storedIn := some { routine := r.id, index := r.vars.size } }

lemma freshBinding_owner (r : Routine) (name : String) : (freshBinding r name).owner = r.id := rfl

lemma push_modify (bindings : Array Binding) (b : Binding) (change : Binding → Binding) :
    (bindings.push b).modify bindings.size change = bindings.push (change b) := by
  apply Array.ext_getElem?
  intro k
  rw [Array.getElem?_modify, Array.getElem?_push, Array.getElem?_push]
  by_cases here : k = bindings.size
  · simp [here]
  · simp [here, Ne.symm here]

lemma attachVariable_run {scope : ScopeId} {sc : Scope} {r : Routine} {scopes : Array Scope}
    (found : scopes[scope]? = some sc) (owner : s.unit.routines[sc.owner]? = some r)
    (same : r.id = sc.owner) (unfinished : r.closed = false) (name : String)
    (param : Option ParamId) :
    attachVariable s.scopes.bindings.size scope name param
        { s with scopes := ⟨scopes, s.scopes.bindings.push (Binding.new name sc.owner)⟩ } =
      .ok ⟨⟩ (s.withVariable scopes r (plainVariable r name param) (freshBinding r name)) := by
  have asked : ScopeTree.scope ⟨scopes, s.scopes.bindings.push (Binding.new name sc.owner)⟩ scope =
      .ok sc := scope_found found
  rw [attachVariable, Runs.bind_run (askScopes_run asked)]
  have added : (do
      if (← get).closed then throw .ownerFinished
      Routine.newVariable name param : Routine.Edit VariableId) r =
      .ok { routine := r.id, index := r.vars.size }
        { r with vars := r.vars.push (plainVariable r name param) } := by
    have opened : ¬r.closed = true := by simp [unfinished]
    rw [Runs.get_bind, if_neg opened]
    rfl
  have step := inRoutine_run
    (s := { s with scopes := ⟨scopes, s.scopes.bindings.push (Binding.new name sc.owner)⟩ })
    owner added
  rw [Runs.bind_run step, modifyBinding_run Array.getElem?_push_size, withBinding]
  simp only [push_modify, withVariable, freshBinding, same, Binding.new]

def withName (t : ScopeTree) (scope : ScopeId) (name : String) : Array Scope :=
  t.scopes.modify scope fun sc => { sc with names := (name, t.bindings.size) :: sc.names }

lemma withName_scopes (t : ScopeTree) (scope k : ScopeId) (name : String) :
    (withName t scope name)[k]? = if k = scope then
      t.scopes[k]?.map fun sc => { sc with names := (name, t.bindings.size) :: sc.names }
    else t.scopes[k]? := by
  rw [withName, Array.getElem?_modify]
  by_cases here : k = scope
  · simp [here]
  · simp [here, Ne.symm here]

lemma boundFrom_withName_other {scope : ScopeId} {other : String}
    (ne : other ≠ name) (kind : RoutineId → Bool) (steps : Nat) (id : ScopeId) :
    boundFrom (withName t scope name) kind other steps id =
      boundFrom t.scopes kind other steps id := by
  induction steps generalizing id with
  | zero => rfl
  | succ steps ih =>
    have unequal : (other == name) = false := by simp [ne]
    simp only [boundFrom, withName_scopes]
    by_cases here : id = scope
    · cases found : t.scopes[id]? with
      | none => simp [here]
      | some sc => simp [here, List.lookup_cons, unequal, ih]
    · simp only [here, if_false, ih]

lemma boundFrom_withName {scope : ScopeId} {kind : RoutineId → Bool} (leads : ScopeId → Prop)
    (chain : ∀ id, leads id → ∃ sc, t.scopes[id]? = some sc ∧ kind sc.owner = true ∧
      (id ≠ scope → ∃ p, sc.parent = some p ∧ p < id ∧ leads p))
    {steps : Nat} {id : ScopeId} (enough : id < steps) (led : leads id)
    (unbound : boundFrom t.scopes kind name steps id = none) :
    boundFrom (withName t scope name) kind name steps id = some t.bindings.size := by
  induction steps generalizing id with
  | zero => exact absurd enough (Nat.not_lt_zero _)
  | succ steps ih =>
    obtain ⟨sc, found, allowed, further⟩ := chain id led
    simp only [boundFrom, found, allowed, if_true] at unbound
    by_cases here : id = scope
    · simp [boundFrom, withName_scopes, here, here ▸ found, allowed]
    · obtain ⟨p, parent, earlier, led'⟩ := further here
      cases known : sc.names.lookup name with
      | some k => simp [known] at unbound
      | none =>
        have outer_unbound : boundFrom t.scopes kind name steps p = none := by
          simpa [known, parent] using unbound
        have found' := ih (Nat.lt_of_lt_of_le earlier (Nat.le_of_lt_succ enough)) led' outer_unbound
        simpa [boundFrom, withName_scopes, here, found, allowed, known, parent] using found'

lemma names_withName {scope : ScopeId} {sc : Scope} (found : t.scopes[scope]? = some sc)
    (name : String) : Names t.scopes (withName t scope name) t.bindings.size sc.owner name := by
  refine ⟨by simp [withName], fun k old known => ?_⟩
  rw [withName, Array.getElem?_modify]
  by_cases here : scope = k
  · obtain rfl : sc = old := by simpa [here, known] using found.symm
    refine ⟨(name, t.bindings.size) :: sc.names, by simp [here, known], fun other binding => ?_⟩
    intro mem
    rcases List.mem_cons.mp mem with same | inside
    · cases same
      exact .inr ⟨rfl, rfl, rfl⟩
    · exact .inl inside
  · exact ⟨old.names, by simp [here, known], fun other binding mem => .inl mem⟩

section

variable {scope : ScopeId} {sc : Scope} {r : Routine}

section

variable (found : s.scopes.scopes[scope]? = some sc) (owner : s.unit.routines[sc.owner]? = some r)
  (same : r.id = sc.owner) (unfinished : r.closed = false) (name : String) (param : Option ParamId)
include found owner same unfinished

lemma newVariable_run :
    newVariable scope name param s =
      .ok s.scopes.bindings.size (s.withVariable (withName s.scopes scope name) r
        (plainVariable r name param) (freshBinding r name)) := by
  have asked : ScopeTree.ask (·.scope scope) s.scopes = .ok sc s.scopes := by
    simp [ScopeTree.ask, scope_found found]
  have declared : ScopeTree.declare scope name s.scopes = .ok s.scopes.bindings.size
        ⟨withName s.scopes scope name, s.scopes.bindings.push (Binding.new name sc.owner)⟩ := by
    refine Runs.bind_eq_ok.mpr ⟨_, _, (Runs.bind_run asked).trans rfl, rfl⟩
  have known : (withName s.scopes scope name)[scope]? =
      some { sc with names := (name, s.scopes.bindings.size) :: sc.names } := by
    rw [withName, Array.getElem?_modify, if_pos rfl, found]
    rfl
  have run : inScopes (ScopeTree.declare scope name) s = .ok s.scopes.bindings.size
      { s with scopes := ⟨withName s.scopes scope name,
        s.scopes.bindings.push (Binding.new name sc.owner)⟩ } := by
    simp only [inScopes, EStateM.run, declared]
  have attached := attachVariable_run (s := s) (r := r) known owner same unfinished name param
  rw [newVariable, Runs.bind_run run, Runs.bind_run attached]
  rfl

lemma newAnonymous_run :
    newAnonymous scope name param s = .ok s.scopes.bindings.size (s.withVariable s.scopes.scopes r
        (plainVariable r name param) (freshBinding r name)) := by
  have asked : ScopeTree.ask (·.scope scope) s.scopes = .ok sc s.scopes := by
    simp [ScopeTree.ask, scope_found found]
  have declared : ScopeTree.declareAnonymous scope name s.scopes = .ok s.scopes.bindings.size
        ⟨s.scopes.scopes, s.scopes.bindings.push (Binding.new name sc.owner)⟩ := by
    rw [ScopeTree.declareAnonymous, Runs.bind_run asked]
    rfl
  have run : inScopes (ScopeTree.declareAnonymous scope name) s = .ok s.scopes.bindings.size
      { s with scopes := ⟨s.scopes.scopes,
        s.scopes.bindings.push (Binding.new name sc.owner)⟩ } := by
    simp only [inScopes, EStateM.run, declared]
  have attached := attachVariable_run (s := s) (r := r) found owner same unfinished name param
  rw [newAnonymous, Runs.bind_run run, Runs.bind_run attached]
  rfl

end

lemma Sound.owner_found (sound : s.Sound) {i : RoutineId}
    (within : s.unit.Within i s.frame.routine) :
    ∃ r, s.unit.routines[i]? = some r ∧ r.id = i ∧ r.Sound := by
  obtain ⟨r, found, unlaid⟩ := sound.current i within
  exact ⟨r, found, sound.ids i r found, (sound.building i r found unlaid).2⟩

/-- A step that binds a new variable, with the scopes it leaves. -/
structure Binds (s s' : Lowering) (scopes : Array Scope) (owner : RoutineId) (name : String)
    (param : Option ParamId) (id : BindingId) : Prop where
  moves : s.Moves s' {}
  openId : s'.code.openId = s.code.openId
  openBody : s'.code.openBody = s.code.openBody
  fresh : id = s.scopes.bindings.size
  scopes : s'.scopes.scopes = scopes
  found : ∃ r, r.id = owner ∧ s'.scopes.bindings[id]? = some (freshBinding r name) ∧
    s'.unit.routines[owner]? = some { r with vars := r.vars.push (plainVariable r name param) }
  others : ∀ (k : BindingId) (c : Binding), s'.scopes.bindings[k]? = some c →
    s.scopes.bindings[k]? = some c ∨ k = id

lemma binds_withVariable (sound : s.Sound) {scopes : Array Scope} (same : r.id = sc.owner)
    (owner : s.unit.routines[sc.owner]? = some r) (name : String)
    (named : Names s.scopes.scopes scopes s.scopes.bindings.size sc.owner name)
    (param : Option ParamId) :
    s.Binds (s.withVariable scopes r (plainVariable r name param) (freshBinding r name)) scopes
      sc.owner name param s.scopes.bindings.size := by
  have owner' : s.unit.routines[(freshBinding r name).owner]? = some r := by
    rw [freshBinding_owner, same]
    exact owner
  have named' : Names s.scopes.scopes scopes s.scopes.bindings.size (freshBinding r name).owner
      (freshBinding r name).name := by
    rw [freshBinding_owner, same]
    exact named
  have moves : s.Moves (s.withVariable scopes r (plainVariable r name param) (freshBinding r name))
      {} := moves_withVariable sound owner' named' rfl rfl rfl ⟨rfl, rfl⟩
  obtain ⟨old, known, code⟩ := withVariable_sameCode owner' moves.sound.code_found
  cases sound.code_found.symm.trans known
  refine ⟨moves, ?_, ?_, rfl, rfl, ⟨r, same, withVariable_new, ?_⟩, fun k c known =>
    (withVariable_bindings known).imp_right And.left⟩
  · rw [code]
    rfl
  · rw [code]
    rfl
  · rw [withVariable_routines owner', freshBinding_owner, if_pos same.symm]

section

variable (sound : s.Sound) (found : s.scopes.scopes[scope]? = some sc)
  (within : s.unit.Within sc.owner s.frame.routine) (name : String) (param : Option ParamId)
include sound found within

lemma newVariable_binds :
    Runs (newVariable scope name param) s fun id s' =>
      s.Binds s' (withName s.scopes scope name) sc.owner name param id := by
  obtain ⟨r, owner, same, built⟩ := sound.owner_found within
  exact ⟨_, _, newVariable_run found owner same built.unfinished name param,
    binds_withVariable sound same owner name (names_withName found name) param⟩

lemma newAnonymous_binds :
    Runs (newAnonymous scope name param) s fun id s' =>
      s.Binds s' s.scopes.scopes sc.owner name param id := by
  obtain ⟨r, owner, same, built⟩ := sound.owner_found within
  exact ⟨_, _, newAnonymous_run found owner same built.unfinished name param,
    binds_withVariable sound same owner name (names_same ..) param⟩

end

end

lemma Binds.steady {scope : ScopeId} {owner : RoutineId} {param : Option ParamId}
    (binds : s.Binds s' (withName s.scopes scope name) owner name param id)
    (unbound : s.boundTo name = none) : s.Steady s' := by
  intro other k bound
  have ne : other ≠ name := by
    rintro rfl
    rw [unbound] at bound
    cases bound
  have size : (withName s.scopes scope name).size = s.scopes.scopes.size := by simp [withName]
  rw [boundTo, binds.moves.keeps.frame, binds.scopes, size]
  simp only [boundFrom_withName_other ne]
  exact bound

lemma becomes_access (b : Binding) (user : RoutineId) : b.Becomes (b.access user) where
  name := rfl
  owner := rfl
  constant := rfl
  readOnly := rfl
  stored _ stored := stored
  accessed _ := rfl
  escapes escapes := by simp [Binding.access, escapes]
  assigned assigned := assigned
  routineRef _ known := .inr known

lemma fits_of_accessed (sound : s.Sound) {b : Binding} {v : VariableId}
    (found : s.scopes.bindings[id]? = some b) (within : s.unit.Within b.owner s.frame.routine)
    (stored : b.storedIn = some v) (accessed : b.accessed = true)
    (escapes : s.frame.routine ≠ b.owner → b.escapes = true) : s.Fits (.var v) := by
  obtain ⟨owner, -⟩ := (sound.bindings id b found).stored v stored
  rw [← owner] at within escapes
  obtain ⟨r, known, unlaid⟩ := sound.current _ within
  refine ⟨within, r, known, ?_⟩
  rw [unlaid]
  exact ⟨id, b, found, stored, accessed, escapes⟩

lemma variableOf_run {b : Binding} {v : VariableId} (found : s.scopes.bindings[id]? = some b)
    (stored : b.storedIn = some v) : variableOf id s = .ok (.var v) s := by
  rw [variableOf, binding, Runs.bind_run (askScopes_run (binding_found found))]
  simp only [stored]
  rfl

lemma access_moves (sound : s.Sound) {b : Binding}
    (found : s.scopes.bindings[id]? = some b) (within : s.unit.Within b.owner s.frame.routine) :
    Runs (access id) s fun _ s' =>
      s.Moves s' {} ∧ s.Quiet s' ∧ s'.scopes.bindings[id]? = some (b.access s.frame.routine) ∧
        ∀ v, b.storedIn = some v → s'.Fits (.var v) := by
  refine .get_step ((modifyBinding_moves sound found within (becomes_access b _) rfl
    rfl).mono ?_)
  rintro - s' ⟨moves, quiet, found', -⟩
  refine ⟨moves, quiet, found', fun v stored => ?_⟩
  have within' : s'.unit.Within b.owner s'.frame.routine := by
    rw [moves.keeps.frame]
    exact moves.keeps.within within
  refine fits_of_accessed moves.sound found' within' stored rfl fun other => ?_
  rw [moves.keeps.frame] at other
  simp only [Binding.access] at other ⊢
  simp [other]

lemma Sound.stored (sound : s.Sound) {b : Binding} (found : s.scopes.bindings[id]? = some b)
    (plain : b.constant = none) : ∃ v, b.storedIn = some v := by
  refine ne_none_iff_exists'.mp fun none_stored => ?_
  have has_constant := (sound.bindings id b found).constant none_stored
  simp [plain] at has_constant

lemma readBinding_moves (sound : s.Sound) (visible : s.Visible id) :
    Runs (readBinding id) s fun a s' => s.Moves s' { given := [a] } ∧ s.Quiet s' ∧
      ∃ meaning, s'.meaningOf id = some meaning ∧ a = meaning.operand := by
  obtain ⟨b, found, within⟩ := visible
  refine askScopes_step (binding_found found) ?_
  cases constant : b.constant with
  | some value =>
    have moves : s.Moves s { given := [.constant value] } :=
      (Moves.refl sound).give (by simp) ⟨trivial, by simp⟩
    refine .pure ⟨moves, .refl s, .constant value, ?_, rfl⟩
    rw [meaningOf, found, bind_some, Binding.meaning?, constant]
  | none =>
    obtain ⟨v, stored⟩ := sound.stored found constant
    refine (access_moves sound found within).step ?_
    rintro _ s' ⟨moves, quiet, found', fits⟩
    refine ⟨.var v, s', variableOf_run found' stored,
      moves.give (by simp) ⟨fits v stored, by simp⟩, quiet, .stored v b.readOnly, ?_, rfl⟩
    have plain : (b.access s.frame.routine).constant = none := constant
    rw [meaningOf, found', bind_some, Binding.meaning?, plain]
    simp [Binding.access, stored]

lemma writeBinding_moves (sound : s.Sound) (visible : s.Visible id) (loc : Location) :
    Runs (writeBinding id loc) s fun dest s' => s.Moves s' {} ∧ s.Quiet s' ∧
      (∀ a, dest = some a → s'.Holds a) ∧ (∀ v, dest = some (.var v) → s'.Assigned v) ∧
        ∃ meaning, s'.meaningOf id = some meaning ∧ dest = meaning.place := by
  obtain ⟨b, found, within⟩ := visible
  refine askScopes_step (binding_found found) ?_
  cases readOnly : b.readOnly with
  | true =>
    refine (strictError_reports sound loc _).step ?_
    rintro _ s' ⟨moves, quiet, _, _⟩
    refine .pure ⟨moves, quiet, by simp, by simp, ?_⟩
    obtain ⟨meaning, means, nowhere⟩ :
        ∃ meaning, s.meaningOf id = some meaning ∧ none = meaning.place := by
      rw [meaningOf, found, bind_some, Binding.meaning?]
      cases constant : b.constant with
      | some value => exact ⟨_, rfl, rfl⟩
      | none =>
        obtain ⟨v, stored⟩ := sound.stored found constant
        exact ⟨.stored v true, by simp [stored, readOnly], rfl⟩
    exact ⟨meaning, moves.keeps.meaningOf means, nowhere⟩
  | false =>
    have plain : b.constant = none := by
      cases constant : b.constant with
      | none => rfl
      | some value =>
        have fixed := (sound.bindings id b found).fixed (by simp [constant])
        simp [readOnly] at fixed
    obtain ⟨v, stored⟩ := sound.stored found plain
    refine (access_moves sound found within).step ?_
    rintro _ s1 ⟨moves, quiet, found1, fits⟩
    have within1 : s1.unit.Within b.owner s1.frame.routine := by
      rw [moves.keeps.frame]
      exact moves.keeps.within within
    refine (modifyBinding_moves moves.sound found1 within1 { Binding.Becomes.refl _ with
      assigned := fun _ => rfl, routineRef := fun _ _ => .inl rfl } rfl rfl).step ?_
    rintro _ s2 ⟨marked, quiet2, found2, _⟩
    have moves2 := moves.andThen marked
    refine .bind ⟨.var v, s2, variableOf_run found2 stored,
      Runs.pure ⟨moves2, quiet.trans quiet2, ?_, ?_, .stored v false, ?_, rfl⟩⟩
    · rintro _ ⟨rfl⟩
      exact ⟨marked.keeps.fits (fits v stored), by simp⟩
    · rintro _ ⟨rfl⟩
      exact ⟨id, _, found2, stored, rfl⟩
    · rw [meaningOf, found2, bind_some, Binding.meaning?]
      simp [Binding.access, plain, stored, readOnly]

lemma lookupOwn_run (sound : s.Sound) (name : String) (routine : RoutineId) (steps : Nat)
    {id : ScopeId} {sc : Scope} (found : s.scopes.scopes[id]? = some sc) :
    lookupOwn name routine steps id s =
      .ok (boundFrom s.scopes.scopes (· == routine) name steps id) s := by
  induction steps generalizing id sc with
  | zero => rfl
  | succ steps ih =>
    rw [lookupOwn, Runs.bind_run (askScopes_run (scope_found found))]
    by_cases own : sc.owner = routine
    · simp only [boundFrom, found, own, ne_eq, not_true_eq_false, if_false, beq_self_eq_true,
        if_true]
      cases here : sc.names.lookup name with
      | some k => rfl
      | none =>
        cases parent : sc.parent with
        | none => rfl
        | some p =>
          obtain ⟨-, outer, outer_found, -⟩ := (sound.scopes id sc found).parent p parent
          exact ih outer_found
    · simp only [boundFrom, found, own, ne_eq, not_false_eq_true, if_true, beq_eq_false_iff_ne.mpr,
        Bool.false_eq_true, if_false]
      rfl

lemma Moves.prologue {l : Ledger} (moves : s.Moves s' l) {i : Instruction}
    (fits : s'.InstructionFits s'.frame.routine i) (prologue : i.isPrologue = true)
    (unknown : ∀ v, .var v ∈ i.dests → s'.Unknown v)
    (new : ∀ v, .var v ∈ i.dests → ∀ (k : BindingId) (b : Binding),
      s.scopes.bindings[k]? = some b → b.storedIn ≠ some v) :
    s.Moves (s'.withCode (s'.code.withPrologue i)) l := by
  have edits := Routine.edits_withPrologue moves.sound.code_sound prologue
  refine moves.edit edits ?_ rfl rfl rfl ?_ ?_ ?_
  · rintro _ rfl
    exact (moves.sound.extends_withCode edits.grows).instructionFits fits
  · rintro _ rfl v written
    exact unknown v written
  · rintro _ rfl v written
    exact .inr (new v written)
  · intro _ aim start F charted _
    exact charted.withPrologue moves.sound.code_sound prologue

lemma arguments_moves {s0 : Lowering} (moves : s0.Moves s {}) {b : Binding}
    {v : VariableId} {routine : RoutineId} (current : routine = s.frame.routine)
    (found : s.scopes.bindings[id]? = some b) (owner : b.owner = routine)
    (stored : b.storedIn = some v) (unknown : b.routineRef = none)
    (new : s0.scopes.bindings.size ≤ id) :
    Runs (do
      inCode (Routine.pushPrologue (.newArguments (.var v)))
      modifyBinding id (·.access routine)
      pure id) s fun given s' => given = id ∧ s0.Moves s' {} ∧ s.Quiet s' ∧
        s'.scopes.scopes = s.scopes.scopes := by
  have sound := moves.sound
  have within : s.unit.Within b.owner s.frame.routine := (owner.trans current) ▸ .refl _
  -- The state in between has an instruction with an unrecorded use, so the two are swapped.
  have recorded : s.Moves (s.withBinding id (·.access routine)) {} :=
    moves_withBinding sound found within (becomes_access b routine) rfl (.inl rfl)
  have found' : (s.withBinding id (·.access routine)).scopes.bindings[id]? =
      some (b.access routine) := by
    rw [withBinding_bindings, if_pos rfl, found]
    rfl
  have fits := fits_of_accessed recorded.sound found' (recorded.keeps.within within) stored rfl
    fun other => absurd (owner.trans current).symm other
  have moved := moves.andThen recorded
  have created := moved.prologue
    (i := .newArguments (.var v)) ⟨by simpa [Instruction.operands, Fits] using fits,
      trivial, by simp [Instruction.dests, Operand.isPlace]⟩ rfl
    (fun v' written k c found_c stored_c => by
      obtain rfl : v' = v := by simpa [Instruction.dests] using written
      rw [recorded.sound.binding_eq found_c found' stored_c stored]
      exact .inr unknown)
    (fun v' written k c found_c stored_c => by
      obtain rfl : v' = v := by simpa [Instruction.dests] using written
      obtain ⟨c', found_c', becomes⟩ := moved.keeps.bindings k c found_c
      obtain rfl := recorded.sound.stored_once k id c' _ v' found_c' found'
        (becomes.stored v' stored_c) stored
      exact absurd (lt_size found_c) (Nat.not_lt_of_le new))
  refine .bind ⟨⟨⟩, _, inCode_run sound rfl, .bind ⟨⟨⟩, _, modifyBinding_run found, ?_⟩⟩
  have opened := Routine.withPrologue_open sound.code_sound (.newArguments (.var v))
  have code : (s.withCode (s.code.withPrologue (.newArguments (.var v)))).code =
      s.code.withPrologue (.newArguments (.var v)) := sound.withCode_code _
  have kept := recorded.keeps.toExtends.trans (recorded.sound.extends_withCode
    (Routine.edits_withPrologue recorded.sound.code_sound (i := .newArguments (.var v)) rfl).grows)
  refine .pure ⟨rfl, created, ⟨?_, ?_, kept.steady rfl⟩, rfl⟩
  · exact (congrArg Routine.openId code).trans opened.1
  · exact (congrArg Routine.openBody code).trans opened.2

lemma newArguments_moves (sound : s.Sound) (inner : ¬s.frame.isTop)
    (unbound : s.boundTo argumentsName = none) :
    Runs (do
      let id ← newVariable s.frame.root argumentsName none
      modifyBinding id fun b => { b with declared := true, initialized := true }
      inCode (Routine.pushPrologue (.newArguments (← variableOf id)))
      modifyBinding id (·.access s.frame.routine)
      pure id) s fun id s' => s.Moves s' {} ∧ s.Quiet s' ∧ s'.boundTo argumentsName = some id := by
  obtain ⟨sc, found, owner, whole⟩ := sound.frame.scope
  obtain ⟨root, root_found, root_owner⟩ := sound.frame.root
  have own : argumentsName = argumentsName ∧ ¬s.frame.isTop := ⟨rfl, inner⟩
  have within : s.unit.Within root.owner s.frame.routine := root_owner ▸ .refl _
  refine (newVariable_binds sound root_found within argumentsName none).step fun id s1 binds => ?_
  obtain ⟨r, same, found1, -⟩ := binds.found
  have within1 : s1.unit.Within r.id s1.frame.routine := by
    rw [binds.moves.keeps.frame, same]
    exact binds.moves.keeps.within within
  refine (modifyBinding_moves binds.moves.sound found1 within1
    { Binding.Becomes.refl _ with } rfl rfl).step ?_
  rintro - s2 ⟨marked, quiet2, found2, scopes2⟩
  have moves := binds.moves.andThen marked
  refine .bind ⟨_, _, variableOf_run found2 rfl, ?_⟩
  refine (arguments_moves moves (by rw [moves.keeps.frame]) found2 (same.trans root_owner) rfl rfl
    (Nat.le_of_eq binds.fresh.symm)).mono ?_
  rintro _ s3 ⟨rfl, moves3, quiet3, scopes3⟩
  have first : s.Quiet s1 := ⟨binds.openId, binds.openBody, binds.steady unbound⟩
  refine ⟨moves3, first.trans (quiet2.trans quiet3), ?_⟩
  -- The scopes of the routine lead to that of the whole routine, which now has the name.
  have scopes : s3.scopes.scopes = withName s.scopes s.frame.root argumentsName := by
    rw [scopes3, scopes2, binds.scopes]
  have size : (withName s.scopes s.frame.root argumentsName).size = s.scopes.scopes.size := by
    simp [withName]
  rw [boundTo, if_pos own] at unbound
  rw [boundTo, moves3.keeps.frame, if_pos own, scopes, size, binds.fresh]
  refine boundFrom_withName (fun k => ∃ sc, s.scopes.scopes[k]? = some sc ∧
    sc.owner = s.frame.routine ∧ sc.varScope = s.frame.root) ?_
    (lt_size found) ⟨sc, found, owner, whole⟩ unbound
  rintro k ⟨sc', found', owner', whole'⟩
  refine ⟨sc', found', by simp [owner'], fun other => ?_⟩
  have fits := sound.scopes k sc' found'
  obtain ⟨p, outer, parent, outer_found, outer_owner, outer_whole⟩ :=
    fits.inner (whole'.symm ▸ other)
  exact ⟨p, parent, (fits.parent p parent).1, outer, outer_found, outer_owner.trans owner',
    outer_whole.trans whole'⟩

lemma argumentsBinding_moves (sound : s.Sound) (inner : ¬s.frame.isTop) :
    Runs argumentsBinding s fun id s' =>
      s.Moves s' {} ∧ s.Quiet s' ∧ s'.boundTo argumentsName = some id := by
  obtain ⟨sc, found, -⟩ := sound.frame.scope
  have own : argumentsName = argumentsName ∧ ¬s.frame.isTop := ⟨rfl, inner⟩
  refine .get_step (.bind ⟨_, s, lookupOwn_run sound _ _ _ found, ?_⟩)
  cases bound : boundFrom s.scopes.scopes (· == s.frame.routine) argumentsName
      s.scopes.scopes.size s.frame.scope with
  | some id =>
    refine .pure ⟨.refl sound, .refl s, ?_⟩
    rw [boundTo, if_pos own, bound]
  | none =>
    refine newArguments_moves sound inner ?_
    rw [boundTo, if_pos own, bound]

lemma newGlobal_moves (sound : s.Sound) {scope : ScopeId} (outermost : s.topScope = scope)
    (ordinary : ¬(name = argumentsName ∧ ¬s.frame.isTop)) (unbound : s.boundTo name = none) :
    Runs (do
      let id ← newVariable scope name none
      modifyBinding id fun b => { b with declared := true }
      pure id) s fun id s' => s.Moves s' {} ∧ s.Quiet s' ∧ s'.boundTo name = some id := by
  subst outermost
  obtain ⟨sc, scope_found, -⟩ := sound.frame.scope
  obtain ⟨top, found, owner⟩ := sound.frame.top
  have inside := (lt_size sound.code_found)
  have within := owner ▸ sound.within_top inside
  refine (newVariable_binds sound found within name none).step fun id s1 binds => ?_
  obtain ⟨r, same, found1, -⟩ := binds.found
  have within1 : s1.unit.Within r.id s1.frame.routine := by
    rw [binds.moves.keeps.frame, same]
    exact binds.moves.keeps.within within
  refine (modifyBinding_moves binds.moves.sound found1 within1
    { Binding.Becomes.refl _ with } rfl rfl).step ?_
  rintro - s2 ⟨marked, quiet2, found2, scopes2⟩
  have moves := binds.moves.andThen marked
  have first : s.Quiet s1 := ⟨binds.openId, binds.openBody, binds.steady unbound⟩
  refine .pure ⟨moves, first.trans quiet2, ?_⟩
  -- All scopes lead to the outermost one, which now has the name.
  have scopes : s2.scopes.scopes = withName s.scopes s.topScope name := by
    rw [scopes2, binds.scopes]
  have size : (withName s.scopes s.topScope name).size = s.scopes.scopes.size := by simp [withName]
  rw [boundTo, if_neg ordinary] at unbound
  rw [boundTo, moves.keeps.frame, if_neg ordinary, scopes, size, binds.fresh]
  refine boundFrom_withName (fun k => ∃ sc, s.scopes.scopes[k]? = some sc) ?_
    (Nat.lt_of_lt_of_le (lt_size scope_found) (Nat.le_max_left _ _))
    ⟨sc, scope_found⟩ unbound
  rintro k ⟨sc', found'⟩
  refine ⟨sc', found', rfl, fun other => ?_⟩
  have fits := sound.scopes k sc' found'
  cases parent : sc'.parent with
  | none => exact absurd (fits.outermost parent) other
  | some p =>
    obtain ⟨earlier, outer, outer_found, -⟩ := fits.parent p parent
    exact ⟨p, rfl, earlier, outer, outer_found⟩

lemma resolve_moves (sound : s.Sound) (name : String) (loc : Location) :
    Runs (resolve name loc) s fun id s' =>
      s.Moves s' {} ∧ s.Quiet s' ∧ s'.boundTo name = some id := by
  refine .get_step ?_
  by_cases own : name = argumentsName ∧ ¬s.frame.isTop
  · rw [if_pos own]
    obtain ⟨rfl, inner⟩ := own
    exact argumentsBinding_moves sound inner
  · rw [if_neg own]
    obtain ⟨sc, found, -⟩ := sound.frame.scope
    refine askScopes_step (lookupWithin_run sound name _ found) ?_
    have bound_eq : s.boundTo name = boundFrom s.scopes.scopes (fun _ => true) name
        (max s.scopes.scopes.size 1) s.frame.scope := by rw [boundTo, if_neg own]
    rw [← bound_eq]
    cases bound : s.boundTo name with
    | some id => exact .pure ⟨.refl sound, .refl s, bound⟩
    | none =>
      have global {s1 : Lowering} (reports : s.Reports s1) : Runs (do
            let id ← newVariable s.topScope name none
            modifyBinding id fun b => { b with declared := true }
            pure id) s1 fun id s' => s.Moves s' {} ∧ s.Quiet s' ∧ s'.boundTo name = some id := by
        have keeps := reports.moves.keeps
        have unbound : s1.boundTo name = none := by
          rw [boundTo, reports.scopes, keeps.frame]
          exact bound
        refine (newGlobal_moves reports.moves.sound keeps.topScope (keeps.frame ▸ own)
          unbound).mono ?_
        rintro id s' ⟨moves, later, found⟩
        exact ⟨reports.moves.andThen moves, reports.quiet.trans later, found⟩
      dsimp only
      split
      · exact (error_reports sound loc _).step fun _ s1 reports => global reports.1
      · exact (warn_reports sound loc _).step fun _ s1 reports => global reports

lemma declaredBinding_moves (sound : s.Sound) (name : String) (loc : Location) :
    Runs (declaredBinding name loc) s fun id s' => s.Moves s' {} ∧ s'.Visible id := by
  refine .get_step ?_
  cases shadowed : s.frame.shadows.lookup name with
  | some id =>
    obtain ⟨b, found, owner⟩ := sound.frame.shadows name id (mem_of_lookup shadowed)
    exact .pure ⟨.refl sound, b, found, owner ▸ .refl _⟩
  | none =>
    refine (resolve_moves sound name loc).mono fun id s' ⟨moves, _, bound⟩ => ⟨moves, ?_⟩
    exact boundTo_visible moves.sound bound

end Lowering
end Scriptc
