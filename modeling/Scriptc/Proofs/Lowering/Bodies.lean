import Scriptc.Proofs.Lowering.Finishing

/-!
# Bodies of routines

The names of a body are bound before its code is lowered, and the closures of its functions are
created ahead of all other code. So the variable of a function that is declared once and never
assigned holds its closure from the start.
-/

namespace Scriptc.Lowering

variable {s s' s'' : Lowering} {b : Binding} {name : String} {id : BindingId}

lemma Keeps.reframe (keeps : s.Keeps s') {frame : Frame}
    (same : frame.routine = s.frame.routine) : { s with frame }.Keeps { s' with frame } where
  __ := keeps
  frame := rfl
  others i r r' found found' other := keeps.others i r r' found found' (same ▸ other)
  refs k b b' found found' other := keeps.refs k b b' found found' (same ▸ other)

lemma Sound.reframe (sound : s.Sound) {frame : Frame} (same : frame.routine = s.frame.routine)
    (fits : { s with frame }.FrameFits) : { s with frame }.Sound where
  toCoherent := sound.toCoherent.reframe frame
  current i within := sound.current i (same ▸ within)
  building i r found unlaid := by
    have built := sound.building i r found unlaid
    exact ⟨same ▸ built.1, built.2⟩
  frame := fits

lemma reframe_self (same : s'.frame = s.frame) : { s' with frame := s.frame } = s' := by rw [← same]

/-- What declaring names does: the frame may get names that stand in for others, and bindings that
have a value go on to have one. -/
structure Prepares (s s' : Lowering) : Prop where
  keeps : s.Keeps { s' with frame := s.frame }
  shadows : ∃ shadows, s'.frame = { s.frame with shadows }
  initialized : ∀ (k : BindingId) (b b' : Binding), s.scopes.bindings[k]? = some b →
    s'.scopes.bindings[k]? = some b' → b.initialized = true → b'.initialized = true

namespace Prepares

lemma routine (prepares : s.Prepares s') : s'.frame.routine = s.frame.routine := by
  obtain ⟨shadows, frame⟩ := prepares.shadows
  rw [frame]

lemma root (prepares : s.Prepares s') : s'.frame.root = s.frame.root := by
  obtain ⟨shadows, frame⟩ := prepares.shadows
  rw [frame]

lemma refl (s : Lowering) : s.Prepares s where
  keeps := .refl s
  shadows := ⟨_, rfl⟩
  initialized k b b' found found' := by
    rw [Option.some.inj (found'.symm.trans found)]
    exact id

lemma trans (first : s.Prepares s') (second : s'.Prepares s'') : s.Prepares s'' where
  keeps := first.keeps.trans (second.keeps.reframe first.routine.symm)
  shadows := by
    obtain ⟨shadows, frame⟩ := first.shadows
    obtain ⟨more, frame'⟩ := second.shadows
    exact ⟨more, by rw [frame', frame]⟩
  initialized k b b'' found found'' valued := by
    obtain ⟨b', found', -⟩ := first.keeps.bindings k b found
    exact second.initialized k b' b'' found' found'' (first.initialized k b b' found found' valued)

lemma of_moves {l : Ledger} (moves : s.Moves s' l)
    (initialized : ∀ (k : BindingId) (b b' : Binding), s.scopes.bindings[k]? = some b →
      s'.scopes.bindings[k]? = some b' → b.initialized = true → b'.initialized = true) :
    s.Prepares s' where
  keeps := by
    rw [reframe_self moves.keeps.frame]
    exact moves.keeps
  shadows := ⟨s.frame.shadows, moves.keeps.frame⟩
  initialized := initialized

end Prepares

def Valued (s : Lowering) (b : Binding) : Prop :=
  ∀ v r x, b.storedIn = some v → s.unit.routines[v.routine]? = some r →
    r.vars[v.index]? = some x → x.param.isSome = true → b.initialized = true

lemma Grown.valued (grown : s.Grown s') {b' : Binding} (fits : s.BindingFits b)
    (valued : s.Valued b) (stored : b'.storedIn = b.storedIn)
    (initialized : b.initialized = true → b'.initialized = true) : s'.Valued b' := by
  intro v r' x' held found' var' param
  rw [stored] at held
  obtain ⟨-, r, x, found, var⟩ := fits.stored v held
  obtain ⟨r'', found'', grows⟩ := grown.grown _ r found
  cases found''.symm.trans found'
  cases (grows.vars _ _ var).symm.trans var'
  exact initialized (valued v r _ held found var param)

/-- What holds while the closures of functions are created, ahead of all other code. -/
structure Opening (s : Lowering) : Prop where
  clear : s.Clear
  openId : s.code.openId = 1
  closures : ∀ i ∈ s.code.openBody, ∃ dest routine, i = .closure dest routine

lemma Opening.moves (opening : s.Opening) {leaves : Bool} (moves : s.Moves s' { leaves })
    (openId : s'.code.openId = s.code.openId) (openBody : s'.code.openBody = s.code.openBody) :
    s'.Opening :=
  ⟨opening.clear.moves moves, openId.trans opening.openId, openBody ▸ opening.closures⟩

/-- What holds before there is any code: no binding of the routine is used, none holds a closure,
and named parameters have values, except some that wait for them. -/
structure Blank (s : Lowering) (waiting : List BindingId) : Prop extends s.Opening where
  unused : ∀ (k : BindingId) (b : Binding), s.scopes.bindings[k]? = some b →
    b.owner = s.frame.routine → b.accessed = false ∧ b.routineRef = none
  params : ∀ (sc : Scope) (name : String) (k : BindingId) (b : Binding),
    s.scopes.scopes[s.frame.root]? = some sc → (name, k) ∈ sc.names →
      s.scopes.bindings[k]? = some b → k ∉ waiting → s.Valued b

namespace Blank

variable {waiting : List BindingId}

lemma reports (blank : s.Blank waiting) (reports : s.Reports s') :
    s.Prepares s' ∧ s'.Blank waiting := by
  have moves := reports.moves
  have scopes := reports.scopes
  refine ⟨.of_moves moves fun k b b' found found' => ?_, blank.toOpening.moves moves
    reports.quiet.openId reports.quiet.openBody, fun k b found owner => ?_,
    fun sc name k b root named found settled => ?_⟩
  · rw [scopes] at found'
    rw [Option.some.inj (found'.symm.trans found)]
    exact id
  · rw [scopes] at found
    rw [moves.keeps.frame] at owner
    exact blank.unused k b found owner
  · rw [scopes, moves.keeps.frame] at root
    rw [scopes] at found
    exact moves.keeps.valued (blank.clear.sound.bindings k b found)
      (blank.params sc name k b root named found settled) rfl id

lemma binds (blank : s.Blank []) {scopes : Array Scope} {owner : RoutineId} {param : Option ParamId}
    (binds : s.Binds s' scopes owner name param id)
    (names : Names s.scopes.scopes scopes s.scopes.bindings.size owner name) :
    s.Prepares s' ∧ s'.Blank [id] := by
  have moves := binds.moves
  have kept {k : BindingId} {b b' : Binding} (found : s.scopes.bindings[k]? = some b)
      (found' : s'.scopes.bindings[k]? = some b') : b' = b := by
    rcases binds.others k b' found' with old | here
    · exact Option.some.inj (old.symm.trans found)
    · have inside := (lt_size found)
      rw [here, binds.fresh] at inside
      exact absurd inside (Nat.lt_irrefl _)
  obtain ⟨r, -, fresh, -⟩ := binds.found
  refine ⟨.of_moves moves fun k b b' found found' => ?_, blank.toOpening.moves moves
    binds.openId binds.openBody, fun k b found own => ?_,
    fun sc title k b root named found settled => ?_⟩
  · rw [kept found found']
    exact fun valued => valued
  · rcases binds.others k b found with old | rfl
    · rw [moves.keeps.frame] at own
      exact blank.unused k b old own
    · rw [← Option.some.inj (fresh.symm.trans found)]
      exact ⟨rfl, rfl⟩
  · rcases binds.others k b found with old | rfl
    · rw [binds.scopes, moves.keeps.frame] at root
      have inside := names.1 ▸ (lt_size root)
      have before := Array.getElem?_eq_getElem inside
      obtain ⟨after, root', ms⟩ := names.2 _ _ before
      rw [← Option.some.inj (root'.symm.trans root)] at named
      rcases ms title k named with earlier | ⟨here, -⟩
      · exact moves.keeps.valued (blank.clear.sound.bindings k b old)
          (blank.params _ title k b before earlier old (by simp)) rfl fun valued => valued
      · have below := (lt_size old)
        exact absurd below (here ▸ Nat.lt_irrefl _)
    · exact absurd (List.mem_singleton.mpr rfl) settled

lemma settle (blank : s.Blank [id]) (valued : ∀ b, s.scopes.bindings[id]? = some b → s.Valued b) :
    s.Blank [] where
  toOpening := blank.toOpening
  unused := blank.unused
  params sc name k b root named found _ := by
    by_cases here : k = id
    · exact valued b (here ▸ found)
    · exact blank.params sc name k b root named found (by simpa using here)

lemma unnamed (blank : s.Blank [id])
    (absent : ∀ sc name, s.scopes.scopes[s.frame.root]? = some sc → (name, id) ∉ sc.names) :
    s.Blank [] where
  toOpening := blank.toOpening
  unused := blank.unused
  params sc name k b root named found _ := by
    refine blank.params sc name k b root named found fun waits => ?_
    obtain rfl := List.mem_singleton.mp waits
    exact absent sc name root named

lemma change (blank : s.Blank waiting) (change : Binding → Binding)
    (found : s.scopes.bindings[id]? = some b) (own : b.owner = s.frame.routine)
    (becomes : b.Becomes (change b)) (stored : (change b).storedIn = b.storedIn)
    (ref : (change b).routineRef = b.routineRef) (accessed : (change b).accessed = b.accessed)
    (initialized : b.initialized = true → (change b).initialized = true)
    (valued : ∀ k ∈ waiting, k = id ∧ (change b).initialized = true) :
    s.Prepares (s.withBinding id change) ∧ (s.withBinding id change).Blank [] := by
  have sound := blank.clear.sound
  have moves := moves_withBinding sound found (own ▸ .refl _) becomes stored (.inl ref)
  have cases (k : BindingId) (c : Binding)
      (known : (s.withBinding id change).scopes.bindings[k]? = some c) :
      (k = id ∧ c = change b) ∨ (k ≠ id ∧ s.scopes.bindings[k]? = some c) := by
    rw [withBinding_bindings] at known
    split at known
    next here => exact .inl ⟨here, by simpa [here, found] using known.symm⟩
    next other => exact .inr ⟨other, known⟩
  refine ⟨.of_moves moves fun k c c' known known' => ?_, blank.toOpening.moves moves rfl rfl,
    fun k c known owner => ?_, fun sc name k c root named known _ => ?_⟩
  · rcases cases k c' known' with ⟨rfl, rfl⟩ | ⟨-, old⟩
    · rw [← Option.some.inj (found.symm.trans known)]
      exact initialized
    · rw [Option.some.inj (old.symm.trans known)]
      exact fun valued => valued
  · rcases cases k c known with ⟨rfl, rfl⟩ | ⟨-, old⟩
    · rw [accessed, ref]
      exact blank.unused k b found own
    · exact blank.unused k c old owner
  · rcases cases k c known with ⟨rfl, rfl⟩ | ⟨other, old⟩
    · by_cases waits : k ∈ waiting
      · exact fun _ _ _ _ _ _ _ => (valued k waits).2
      · exact moves.keeps.valued (sound.bindings k b found)
          (blank.params sc name k b root named found waits) stored initialized
    · exact moves.keeps.valued (sound.bindings k c old)
        (blank.params sc name k c root named old fun waits => other (valued k waits).1) rfl
        fun valued => valued

lemma addParam (blank : s.Blank waiting) :
    Runs (inCode Routine.addParam) s fun _ s' => s.Prepares s' ∧ s'.Blank waiting := by
  have sound := blank.clear.sound
  let r : Routine := { s.code with paramCount := s.code.paramCount + 1 }
  have edits : s.code.Edits r (fun _ => False) fun _ => False :=
    { sound := { sound.code_sound with }
      grows := { Routine.Grows.refl s.code with }
      same_vars := rfl
      stands := fun _ _ _ stands => .inl stands
      prologue := fun _ _ stands => .inl stands
      endsWith := fun _ ends => .inl ends }
  have moves : s.Moves (s.withCode r) {} :=
    moves_withTemps sound edits rfl rfl rfl (fun id => by simp [InUse, Routine.InUse, r])
      (by simp) (by simp) List.Pairwise.nil (by simp)
  have quiet := quiet_withCode sound edits.grows rfl rfl
  refine inCode_runs sound ⟨_, r, rfl, .of_moves moves fun k b b' found found' => ?_,
    blank.toOpening.moves moves quiet.openId quiet.openBody, blank.unused,
    fun sc name k b root named found settled => ?_⟩
  · rw [Option.some.inj (found'.symm.trans found)]
    exact fun valued => valued
  · exact moves.keeps.valued (sound.bindings k b found)
      (blank.params sc name k b root named found settled) rfl fun valued => valued

end Blank

lemma Binds.valued {scopes : Array Scope} {owner : RoutineId}
    (binds : s.Binds s' scopes owner name none id) (b : Binding)
    (found : s'.scopes.bindings[id]? = some b) : s'.Valued b := by
  obtain ⟨r, same, fresh, routine⟩ := binds.found
  rw [← Option.some.inj (fresh.symm.trans found)]
  intro v r' x held found' var param
  cases held
  rw [same, routine] at found'
  rw [← Option.some.inj found', Array.getElem?_push_size] at var
  rw [← Option.some.inj var] at param
  cases param

lemma Sound.root_found (sound : s.Sound) :
    ∃ sc, s.scopes.scopes[s.frame.root]? = some sc ∧ sc.owner = s.frame.routine :=
  sound.frame.root

lemma bindParams_prepares (blank : s.Blank []) (params : List Pattern) :
    Runs (bindParams s.frame.root params) s fun _ s' => s.Prepares s' ∧ s'.Blank [] := by
  induction params generalizing s with
  | nil => exact ⟨⟨⟩, s, rfl, .refl s, blank⟩
  | cons p rest ih =>
    -- What is left is done in a state with the same scope for the routine.
    have later {s₁ : Lowering} (prepares : s.Prepares s₁) (blank₁ : s₁.Blank []) :
        Runs (bindParams s.frame.root rest) s₁ fun _ s' => s.Prepares s' ∧ s'.Blank [] := by
      rw [← prepares.root]
      exact (ih blank₁).mono fun _ s' ⟨more, blank'⟩ => ⟨prepares.trans more, blank'⟩
    rw [bindParams]
    cases named : p.name? with
    | none =>
      refine (notSupported_reports blank.clear.sound _ _).step fun _ s1 ⟨reports, _⟩ => ?_
      obtain ⟨prepares1, blank1⟩ := blank.reports reports
      refine blank1.addParam.step fun param s2 ⟨prepares2, blank2⟩ => ?_
      have prepares := prepares1.trans prepares2
      obtain ⟨sc, root, owner⟩ := blank2.clear.sound.root_found
      rw [prepares.root] at root
      refine (newAnonymous_binds blank2.clear.sound root (owner ▸ .refl _) "" (some param)).step
        fun id s3 binds => ?_
      obtain ⟨prepares3, blank3⟩ := blank2.binds binds (names_same ..)
      refine later (prepares.trans prepares3) (blank3.unnamed fun sc' name root' mem => ?_)
      rw [binds.scopes, prepares3.root, prepares.root] at root'
      cases root.symm.trans root'
      obtain ⟨b, found, -⟩ := (blank2.clear.sound.scopes _ sc root).names name id mem
      have below := (lt_size found)
      exact absurd below (binds.fresh ▸ Nat.lt_irrefl _)
    | some name =>
      obtain ⟨sc, root, owner⟩ := blank.clear.sound.root_found
      have looked : s.scopes.lookupLocal s.frame.root name = .ok (sc.names.lookup name) := by
        simp [ScopeTree.lookupLocal, scope_found root, bind, Except.bind, pure, Except.pure]
      refine askScopes_step looked ?_
      -- The parameter is bound whether the name was reported or not.
      have bound {s1 : Lowering} (prepares1 : s.Prepares s1) (blank1 : s1.Blank []) : Runs (do
            let param ← inCode Routine.addParam
            let id ← newVariable s.frame.root name (some param)
            modifyBinding id fun b => { b with declared := true, initialized := true }
            bindParams s.frame.root rest) s1 fun _ s' => s.Prepares s' ∧ s'.Blank [] := by
        refine blank1.addParam.step fun param s2 ⟨prepares2, blank2⟩ => ?_
        have prepares := prepares1.trans prepares2
        obtain ⟨sc, root, owner⟩ := blank2.clear.sound.root_found
        rw [prepares.root] at root
        refine (newVariable_binds blank2.clear.sound root (owner ▸ .refl _) name (some param)).step
          fun id s3 binds => ?_
        obtain ⟨prepares3, blank3⟩ := blank2.binds binds (names_withName root name)
        obtain ⟨r, same, found, -⟩ := binds.found
        have own : (freshBinding r name).owner = s3.frame.routine := by
          rw [freshBinding_owner, same, owner, prepares3.routine]
        refine .after (modifyBinding_run found) ?_
        obtain ⟨prepares4, blank4⟩ := blank3.change
          (fun b => { b with declared := true, initialized := true }) found own
          { Binding.Becomes.refl (freshBinding r name) with } rfl rfl rfl (fun _ => rfl)
          (fun k waits => ⟨List.mem_singleton.mp waits, rfl⟩)
        exact later ((prepares.trans prepares3).trans prepares4) blank4
      split
      · refine (strictError_reports blank.clear.sound _ _).step fun _ s1 reports => ?_
        obtain ⟨prepares1, blank1⟩ := blank.reports reports
        exact bound prepares1 blank1
      · exact bound (.refl s) blank

def withShadow (s : Lowering) (name : String) (id : BindingId) : Lowering :=
  { s with frame := { s.frame with shadows := (name, id) :: s.frame.shadows } }

lemma Blank.withShadow {waiting : List BindingId} (blank : s.Blank waiting) (name : String)
    (found : s.scopes.bindings[id]? = some b) (own : b.owner = s.frame.routine) :
    s.Prepares (s.withShadow name id) ∧ (s.withShadow name id).Blank waiting := by
  have fits := blank.clear.sound.frame
  have sound : (s.withShadow name id).Sound := by
    refine blank.clear.sound.reframe rfl ⟨fits.scope, fits.root, fits.top, fun other k mem => ?_,
      fits.tries, fits.exits⟩
    rcases List.mem_cons.mp mem with here | earlier
    · obtain ⟨rfl, rfl⟩ := Prod.mk.inj here
      exact ⟨b, found, own⟩
    · exact fits.shadows other k earlier
  have clear : (s.withShadow name id).Clear :=
    ⟨sound, blank.clear.targets, blank.clear.tries, blank.clear.exit, blank.clear.owes,
      blank.clear.unused, blank.clear.charted⟩
  refine ⟨⟨.refl s, ⟨_, rfl⟩, fun k c c' known known' => ?_⟩,
    ⟨clear, blank.openId, blank.closures⟩, blank.unused, blank.params⟩
  rw [Option.some.inj (known'.symm.trans known)]
  exact fun valued => valued

/-- Whether a binding can get the closure of a declared function. -/
def Takes (s : Lowering) (id : BindingId) : Prop :=
  ∃ b, s.scopes.bindings[id]? = some b ∧ b.owner = s.frame.routine ∧
    (∃ v, b.storedIn = some v) ∧ s.Valued b

lemma Takes.reports (takes : s.Takes id) (sound : s.Sound) (reports : s.Reports s') :
    s'.Takes id := by
  obtain ⟨b, found, own, stored, valued⟩ := takes
  have keeps := reports.moves.keeps
  refine ⟨b, reports.scopes ▸ found, by rw [keeps.frame, own], stored, ?_⟩
  exact keeps.valued (sound.bindings id b found) valued rfl fun valued => valued

lemma shadow_prepares (blank : s.Blank []) (name : String) :
    Runs (shadow s.frame.root name) s fun id s' => s.Prepares s' ∧ s'.Blank [] ∧ s'.Takes id := by
  obtain ⟨sc, root, owner⟩ := blank.clear.sound.root_found
  refine (newAnonymous_binds blank.clear.sound root (owner ▸ .refl _) name none).step
    fun id s1 binds => ?_
  obtain ⟨prepares, blank1⟩ := blank.binds binds (names_same ..)
  obtain ⟨r, same, found, -⟩ := binds.found
  have own : (freshBinding r name).owner = s1.frame.routine := by
    rw [freshBinding_owner, same, owner, prepares.routine]
  obtain ⟨prepares', blank'⟩ := (blank1.settle binds.valued).withShadow name found own
  exact ⟨id, s1.withShadow name id, rfl, prepares.trans prepares', blank',
    _, found, own, ⟨_, rfl⟩, binds.valued _ found⟩

lemma varScope_run (sound : s.Sound) : varScope s = .ok s.frame.root s := by
  obtain ⟨sc, found, -, whole⟩ := sound.frame.scope
  have asked : askScopes (·.scope s.frame.scope) s = .ok sc s := askScopes_run (scope_found found)
  rw [varScope, Runs.get_bind, Runs.bind_run asked, whole]
  rfl

lemma lookupLocal_run {scope : ScopeId} {sc : Scope} (found : s.scopes.scopes[scope]? = some sc)
    (name : String) : s.scopes.lookupLocal scope name = .ok (sc.names.lookup name) := by
  simp [ScopeTree.lookupLocal, scope_found found, bind, Except.bind, pure, Except.pure]

lemma pointAtDeclaration_reports (sound : s.Sound) (b : Binding) :
    Runs (pointAtDeclaration b) s fun _ s' => s.Reports s' := by
  rw [pointAtDeclaration]
  split
  next range declared =>
    refine .modify (reports_withLog sound (Nat.le_of_eq ?_))
    exact (Log.errorCount_pointLast s.log range "previous declaration").symm
  next => exact .pure (.refl sound)

lemma Blank.takes (blank : s.Blank []) {sc : Scope}
    (root : s.scopes.scopes[s.frame.root]? = some sc) (bound : sc.names.lookup name = some id)
    (found : s.scopes.bindings[id]? = some b) (free : b.readOnly = false) : s.Takes id := by
  have sound := blank.clear.sound
  have mem := mem_of_lookup bound
  obtain ⟨c, found_c, owner, -⟩ := (sound.scopes _ sc root).names name id mem
  cases found.symm.trans found_c
  obtain ⟨whole, root', own⟩ := sound.root_found
  cases root.symm.trans root'
  have plain : b.constant = none := by
    cases constant : b.constant with
    | none => rfl
    | some value =>
      have fixed := (sound.bindings id b found).fixed (by rw [constant]; rfl)
      simp [free] at fixed
  exact ⟨b, found, owner.trans own, sound.stored found plain,
    blank.params sc name id b root mem found (by simp)⟩

/-- A warning about what is declared again, and the note that points at its declaration. -/
lemma Blank.warnAgain (blank : s.Blank []) (takes : s.Takes id) (loc : Location)
    (message : String) (b : Binding) {α : Type} {next : Lower α} {post : α → Lowering → Prop}
    (rest : ∀ s', s.Prepares s' → s'.Blank [] → s'.Takes id → Runs next s' post) :
    Runs (do warn loc message; pointAtDeclaration b; next) s post := by
  refine (warn_reports blank.clear.sound loc message).step fun _ s1 first => ?_
  refine (pointAtDeclaration_reports first.moves.sound b).step fun _ s2 second => ?_
  obtain ⟨prepares1, blank1⟩ := blank.reports first
  obtain ⟨prepares2, blank2⟩ := blank1.reports second
  exact rest s2 (prepares1.trans prepares2) blank2
    ((takes.reports blank.clear.sound first).reports first.moves.sound second)

lemma functionBinding_prepares (blank : s.Blank []) (ident : Ident) :
    Runs (functionBinding ident) s fun id s' => s.Prepares s' ∧ s'.Blank [] ∧ s'.Takes id := by
  have sound := blank.clear.sound
  obtain ⟨sc, root, owner⟩ := sound.root_found
  refine .after (varScope_run sound) (askScopes_step (lookupLocal_run root ident.name) ?_)
  split
  next id bound =>
    obtain ⟨b, found, -⟩ := (sound.scopes _ sc root).names _ id (mem_of_lookup bound)
    refine .after (askScopes_run (binding_found found)) ?_
    split
    next fixed =>
      refine (strictError_reports sound _ _).step fun _ s1 reports => ?_
      obtain ⟨prepares, blank1⟩ := blank.reports reports
      rw [← prepares.root]
      exact (shadow_prepares blank1 ident.name).mono fun id s' ⟨more, rest⟩ =>
        ⟨prepares.trans more, rest⟩
    next free =>
      have takes := blank.takes root bound found (by simpa using free)
      split
      · exact blank.warnAgain takes _ _ b fun _ prepares blank' takes' =>
          Runs.pure ⟨prepares, blank', takes'⟩
      · exact .pure ⟨.refl s, blank, takes⟩
  next =>
    refine (newVariable_binds sound root (owner ▸ .refl _) ident.name none).mono
      fun id s1 binds => ?_
    obtain ⟨prepares, blank1⟩ := blank.binds binds (names_withName root ident.name)
    obtain ⟨r, same, found, -⟩ := binds.found
    have own : (freshBinding r ident.name).owner = s1.frame.routine := by
      rw [freshBinding_owner, same, owner, prepares.routine]
    exact ⟨prepares, blank1.settle binds.valued, _, found, own, ⟨_, rfl⟩, binds.valued _ found⟩

def Reassigned (s : Lowering) (id : BindingId) : Prop :=
  ∃ b, s.scopes.bindings[id]? = some b ∧ b.assigned = true

/-- Whether a binding of the routine waits for the closure of a declared function: it is assigned,
or its variable is no parameter. -/
def Awaits (s : Lowering) (id : BindingId) : Prop :=
  ∃ b v, s.scopes.bindings[id]? = some b ∧ b.owner = s.frame.routine ∧ b.storedIn = some v ∧
    b.initialized = true ∧ (b.assigned = true ∨ ∃ r x, s.unit.routines[v.routine]? = some r ∧
      r.vars[v.index]? = some x ∧ x.param = none)

lemma Grown.reassigned (grown : s.Grown s') (assigned : s.Reassigned id) : s'.Reassigned id := by
  obtain ⟨b, found, flag⟩ := assigned
  obtain ⟨b', found', becomes⟩ := grown.bindings id b found
  exact ⟨b', found', becomes.assigned flag⟩

namespace Prepares

lemma reassigned (prepares : s.Prepares s') (assigned : s.Reassigned id) : s'.Reassigned id :=
  prepares.keeps.toGrown.reassigned assigned

lemma awaits (prepares : s.Prepares s') (awaits : s.Awaits id) : s'.Awaits id := by
  obtain ⟨b, v, found, own, stored, valued, plain⟩ := awaits
  obtain ⟨b', found', becomes⟩ := prepares.keeps.bindings id b found
  refine ⟨b', v, found', by rw [becomes.owner, prepares.routine, own], becomes.stored v stored,
    prepares.initialized id b b' found found' valued, ?_⟩
  rcases plain with assigned | ⟨r, x, owner, var, unbound⟩
  · exact .inl (becomes.assigned assigned)
  · obtain ⟨r', owner', grows⟩ := prepares.keeps.grown _ r owner
    exact .inr ⟨r', x, owner', grows.vars _ _ var, unbound⟩

end Prepares

/-- What hoisting leaves to be done: bindings wait for closures, and one that had a value, or that
waits for several closures, is assigned. -/
structure Hoists (s s' : Lowering) (hoisted : List Hoisted) : Prop where
  prepares : s.Prepares s'
  blank : s'.Blank []
  each : ∀ h ∈ hoisted, s'.Awaits h.binding
  again : ∀ h ∈ hoisted, ∀ b, s.scopes.bindings[h.binding]? = some b → b.initialized = true →
    s'.Reassigned h.binding
  apart : hoisted.Pairwise fun h later => h.binding = later.binding → s'.Reassigned h.binding

section

variable (blank : s.Blank [])
include blank

lemma declareFunction_hoists (loc : Location) (func : Func) :
    Runs (declareFunction loc func) s fun hoisted s' => s.Hoists s' hoisted.toList := by
  rw [declareFunction]
  split
  next =>
    refine (error_reports blank.clear.sound _ _).step fun _ s1 ⟨reports, _⟩ => ?_
    obtain ⟨prepares, blank1⟩ := blank.reports reports
    exact .pure ⟨prepares, blank1, by simp, by simp, .nil⟩
  next ident named =>
    refine (functionBinding_prepares blank ident).step fun id s1 ⟨prepares, blank1, takes⟩ => ?_
    obtain ⟨b, found, own, ⟨v, stored⟩, valued⟩ := takes
    let change (b : Binding) : Binding := { b.declareAt ident.loc.range with
        isFunction := true, initialized := true, assigned := b.assigned || b.initialized }
    have becomes : b.Becomes (change b) := { Binding.Becomes.refl b with
        assigned := fun assigned => by simp [change, assigned]
        routineRef := fun _ => .inr }
    obtain ⟨prepares', blank'⟩ := blank1.change change found own becomes rfl rfl rfl (fun _ => rfl)
      (by simp)
    have found' : (s1.withBinding id change).scopes.bindings[id]? = some (change b) := by
      rw [withBinding_bindings, if_pos rfl, found]
      rfl
    refine .after (modifyBinding_run found) (.pure ⟨prepares.trans prepares', blank',
      fun h mem => ?_, fun h mem c known initialized => ?_, List.pairwise_singleton _ _⟩)
    · obtain rfl : h = ⟨id, ident.name, loc⟩ := by simpa using mem
      refine ⟨change b, v, found', own, stored, rfl, ?_⟩
      obtain ⟨-, r, x, owner, var⟩ := (blank1.clear.sound.bindings id b found).stored v stored
      cases bound : x.param with
      | none => exact .inr ⟨r, x, owner, var, bound⟩
      | some param =>
        have initialized := valued v r x stored owner var (by rw [bound]; rfl)
        exact .inl (by simp [change, initialized])
    · obtain rfl : h = ⟨id, ident.name, loc⟩ := by simpa using mem
      have initialized' := prepares.initialized id c b known found initialized
      exact ⟨change b, found', by simp [change, initialized']⟩

lemma Blank.declare (takes : s.Takes id) (change : Binding → Binding)
    (same : ∀ b, change b =
      { b with declared := (change b).declared, declaredAt := (change b).declaredAt }) :
    Runs (modifyBinding id change) s fun _ s' => s.Prepares s' ∧ s'.Blank [] := by
  obtain ⟨b, found, own, -⟩ := takes
  have becomes : b.Becomes (change b) := by
    rw [same]
    exact { Binding.Becomes.refl b with }
  refine ⟨⟨⟩, _, modifyBinding_run found, blank.change change found own
    becomes ?_ ?_ ?_ ?_ (by simp)⟩
  all_goals rw [same]
  exact fun valued => valued

lemma declareVariable_prepares (name : String) (loc : Location) :
    Runs (declareVariable name loc) s fun _ s' => s.Prepares s' ∧ s'.Blank [] := by
  have sound := blank.clear.sound
  obtain ⟨sc, root, owner⟩ := sound.root_found
  refine .after (varScope_run sound) (askScopes_step (lookupLocal_run root name) ?_)
  -- The declaration of a binding is recorded.
  have declared {s1 : Lowering} {id : BindingId} (prepares : s.Prepares s1)
      (blank1 : s1.Blank []) (takes : s1.Takes id) :
      Runs (modifyBinding id (·.declareAt loc.range)) s1 fun _ s' => s.Prepares s' ∧ s'.Blank [] :=
    (blank1.declare takes _ fun _ => rfl).mono fun _ s' ⟨more, blank'⟩ =>
      ⟨prepares.trans more, blank'⟩
  split
  next id bound =>
    obtain ⟨b, found, -⟩ := (sound.scopes _ sc root).names _ id (mem_of_lookup bound)
    refine .after (askScopes_run (binding_found found)) ?_
    split
    next fixed =>
      refine (strictError_reports sound _ _).step fun _ s1 reports => ?_
      obtain ⟨prepares, blank1⟩ := blank.reports reports
      refine .get_step ?_
      split
      · rw [← prepares.root]
        refine (shadow_prepares blank1 name).step fun id s2 ⟨prepares', blank2, takes⟩ => ?_
        exact (blank2.declare takes _ fun _ => rfl).mono fun _ s' ⟨more, blank'⟩ =>
          ⟨(prepares.trans prepares').trans more, blank'⟩
      · exact .pure ⟨prepares, blank1⟩
    next free =>
      have takes := blank.takes root bound found (by simpa using free)
      split
      · exact blank.warnAgain takes _ _ b fun _ => declared
      · exact declared (.refl s) blank takes
  next =>
    refine (newVariable_binds sound root (owner ▸ .refl _) name none).step fun id s1 binds => ?_
    obtain ⟨prepares, blank1⟩ := blank.binds binds (names_withName root name)
    obtain ⟨r, same, found, -⟩ := binds.found
    have own : (freshBinding r name).owner = s1.frame.routine := by
      rw [freshBinding_owner, same, owner, prepares.routine]
    exact declared prepares (blank1.settle binds.valued)
      ⟨_, found, own, ⟨_, rfl⟩, binds.valued _ found⟩

lemma declareAll_prepares (ds : List Declarator) :
    Runs (declareAll ds) s fun _ s' => s.Prepares s' ∧ s'.Blank [] := by
  induction ds generalizing s with
  | nil => exact .pure ⟨.refl s, blank⟩
  | cons declarator rest ih =>
    obtain ⟨loc, target, init⟩ := declarator
    rw [declareAll]
    split
    next name named =>
      refine (declareVariable_prepares blank name loc).step fun _ s1 ⟨prepares, blank1⟩ => ?_
      exact (ih blank1).mono fun _ s' ⟨more, blank'⟩ => ⟨prepares.trans more, blank'⟩
    next => exact ih blank

lemma hoist_hoists (declarations : List Declaration) :
    Runs (hoist declarations) s fun hoisted s' => s.Hoists s' hoisted := by
  induction declarations generalizing s with
  | nil => exact .pure ⟨.refl s, blank, by simp, by simp, .nil⟩
  | cons declaration rest ih =>
    cases declaration with
    | function loc func =>
      refine (declareFunction_hoists blank loc func).step fun first s1 hoists1 => ?_
      refine (ih hoists1.blank).step fun later s2 hoists2 => .pure ?_
      have prepares := hoists2.prepares
      refine ⟨hoists1.prepares.trans prepares, hoists2.blank, fun h mem => ?_,
        fun h mem b found valued => ?_, List.pairwise_append.mpr ⟨?_, hoists2.apart, ?_⟩⟩
      · rcases List.mem_append.mp mem with early | late
        · exact prepares.awaits (hoists1.each h early)
        · exact hoists2.each h late
      · rcases List.mem_append.mp mem with early | late
        · exact prepares.reassigned (hoists1.again h early b found valued)
        · obtain ⟨b', found', -⟩ := hoists1.prepares.keeps.bindings _ b found
          exact hoists2.again h late b' found'
            (hoists1.prepares.initialized _ b b' found found' valued)
      · exact hoists1.apart.imp fun apart same => prepares.reassigned (apart same)
      · intro h early h' late same
        obtain ⟨b, v, found, -, -, valued, -⟩ := hoists1.each h early
        rw [same] at found ⊢
        exact hoists2.again h' late b found valued
    | varDecl loc kind ds =>
      rw [hoist]
      have declared {s1 : Lowering} (prepares : s.Prepares s1) (blank1 : s1.Blank []) :
          Runs (do declareAll ds; hoist rest) s1 fun hoisted s' => s.Hoists s' hoisted := by
        refine (declareAll_prepares blank1 ds).step fun _ s2 ⟨more, blank2⟩ => ?_
        refine (ih blank2).mono fun hoisted s' hoists => ?_
        have before := prepares.trans more
        refine ⟨before.trans hoists.prepares, hoists.blank, hoists.each,
          fun h mem b found valued => ?_, hoists.apart⟩
        obtain ⟨b', found', -⟩ := before.keeps.bindings _ b found
        exact hoists.again h mem b' found' (before.initialized _ b b' found found' valued)
      split
      · refine (error_reports blank.clear.sound _ _).step fun _ s1 ⟨reports, _⟩ => ?_
        obtain ⟨prepares, blank1⟩ := blank.reports reports
        exact declared prepares blank1
      · exact declared (.refl s) blank

end

end Scriptc.Lowering
