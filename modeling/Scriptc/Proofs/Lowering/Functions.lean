import Scriptc.Proofs.Lowering.Leaving
import Scriptc.Proofs.Lowering.Calls

/-!
# Functions in lowering

A function leaves the code around it and gives a complete routine nested in the current one. The
closure of a declared function is written to its variable before anything else is done.
-/

namespace Scriptc

lemma Instruction.dests_subset (i : Instruction) {a : Operand} (mem : a ∈ i.dests) :
    a ∈ i.operands := by
  cases i with
  | splice bindings resultCount parts => exact List.mem_of_mem_take mem
  | call dest callee argc => exact List.mem_append_left _ mem
  | _ => simp_all [dests, operands]

namespace Lowering

variable {k : BindingId} {post : PUnit → Lowering → Prop} {body : BodyCode} {scope : ScopeId}
  {lower : FunctionCode}

variable {V : Type} {s s' : Lowering}
variable {routine : RoutineId} {id : BindingId} {v : VariableId} {b : Binding}

/-- Whether a routine is nested in the current one. -/
abbrev Encloses (s : Lowering) (routine : RoutineId) : Prop :=
  ∃ r, s.unit.routines[routine]? = some r ∧ r.parent = some s.frame.routine

/-- What lowering a function leaves: the code around it as it was, and a complete routine that is
nested in the current one. -/
structure Nests (s s' : Lowering) (routine : RoutineId) : Prop where
  around : s.Around s'
  frame : s'.frame = s.frame
  sound : s'.Sound
  nested : s'.Encloses routine

def Nesting (lower : FunctionCode) : Prop :=
  ∀ (name : Option String) (loc : Location) (scope : ScopeId) (s : Lowering), s.Sound →
    (∃ sc, s.scopes.scopes[scope]? = some sc ∧ sc.owner = s.frame.routine) →
      Runs (lower name loc scope) s fun routine s' => s.Nests s' routine

section

variable (nests : s.Nests s' routine) (start : s.Sound)
include nests start

lemma Nests.same_code : s.code.SameCode s'.code := by
  have found := nests.sound.code_found
  rw [nests.frame] at found
  exact nests.around.same _ _ _ start.code_found found

lemma Nests.moves : s.Moves s' {} := by
  have keeps := nests.around.keeps
  rw [reframe_self nests.frame] at keeps
  exact moves_of_same_code start nests.sound keeps (nests.same_code start)

lemma Nests.quiet : s'.code.openId = s.code.openId ∧ s'.code.openBody = s.code.openBody := by
  rw [nests.same_code start]
  exact ⟨rfl, rfl⟩

end

lemma Sound.not_written (sound : s.Sound) (found : s.scopes.bindings[k]? = some b)
    (own : b.owner = s.frame.routine) (stored : b.storedIn = some v) (unused : b.accessed = false)
    (id : RoutineId) (block : BlockId) (j : Nat) : ¬s.WrittenAt v id block j := by
  rintro ⟨r, i, owner, stands, writes⟩
  have fits := ((sound.fits id r owner).instructions i ⟨block, j, stands⟩).operands _
    (i.dests_subset writes)
  obtain ⟨-, r', owner', recorded⟩ := fits
  have current := ((sound.bindings k b found).stored v stored).1.trans own
  obtain rfl : s.code = r' := by simpa [current, sound.code_found] using owner'
  rw [sound.code_layout] at recorded
  obtain ⟨k', c, found', stored', accessed, -⟩ := recorded
  rw [← sound.binding_eq found found' stored stored', unused] at accessed
  cases accessed

lemma withBinding_withBinding (s : Lowering) (id : BindingId) (f g : Binding → Binding) :
    (s.withBinding id f).withBinding id g = s.withBinding id fun b => g (f b) := by
  have bindings : ((s.withBinding id f).withBinding id g).scopes.bindings =
      (s.withBinding id fun b => g (f b)).scopes.bindings := by
    apply Array.ext_getElem?
    intro k
    simp only [withBinding_bindings]
    split <;> simp [Option.map_map, Function.comp_def]
  calc
    (s.withBinding id f).withBinding id g = { s with scopes := { s.scopes with
          bindings := ((s.withBinding id f).withBinding id g).scopes.bindings } } := rfl
    _ = s.withBinding id fun b => g (f b) := by rw [bindings]; rfl

def closedBy (routine : RoutineId) (b : Binding) : Binding := { b with routineRef := some routine }

/-- Whether a closure may be created in the variable of a binding: the binding is assigned, or the
closure is the only value that the variable gets, ahead of all but other closures. -/
def Vacant (s : Lowering) (b : Binding) (v : VariableId) : Prop :=
  b.assigned = true ∨ b.routineRef = none ∧ (∀ id block j, ¬s.WrittenAt v id block j) ∧
    (∃ r x, s.unit.routines[v.routine]? = some r ∧ r.vars[v.index]? = some x ∧ x.param = none) ∧
      s.code.openId = 1 ∧ ∀ i ∈ s.code.openBody, ∃ dest routine, i = .closure dest routine

lemma Sound.known_appended (sound : s.Sound)
    (own : v.routine = s.frame.routine) (unwritten : ∀ id block j, ¬s.WrittenAt v id block j)
    (plain : ∃ r x, s.unit.routines[v.routine]? = some r ∧ r.vars[v.index]? = some x ∧
      x.param = none)
    (openId : s.code.openId = 1)
    (closures : ∀ i ∈ s.code.openBody, ∃ dest routine, i = .closure dest routine) :
    (s.withCode (s.code.appended (.closure (.var v) routine))).Known v routine := by
  have built := sound.code_sound.toBuilt
  have found :
      (s.withCode (s.code.appended (.closure (.var v) routine))).unit.routines[v.routine]? =
      some (s.code.appended (.closure (.var v) routine)) := by
    rw [sound.withCode_routines, if_pos own]
  constructor
  · refine ⟨_, s.code.openBody.size, found, openId ▸ Routine.at_appended_last built _, ?_, ?_⟩
    · rintro j i earlier ⟨b, block, here⟩
      rw [Routine.appended, Routine.withOpen_blocks built, if_pos openId.symm] at block
      cases block
      rw [Array.getElem?_push, if_neg (Nat.ne_of_lt earlier)] at here
      exact closures i (Array.mem_of_getElem? here)
    · rintro id k j ⟨r, i, owner, stands, writes⟩
      rw [sound.withCode_routines] at owner
      by_cases current : id = s.frame.routine
      · obtain rfl : s.code.appended (.closure (.var v) routine) = r := by
          simpa [current] using owner
        rcases Routine.at_appended built stands with old | ⟨block, last, -⟩
        · exact absurd ⟨s.code, i, current ▸ sound.code_found, old, writes⟩ (unwritten id k j)
        · exact ⟨current.trans own.symm, block.trans openId, last⟩
      · rw [if_neg current] at owner
        exact absurd ⟨r, i, owner, stands, writes⟩ (unwritten id k j)
  · obtain ⟨r, x, owner, var, none⟩ := plain
    refine ⟨_, x, found, ?_, none⟩
    obtain rfl : s.code = r := by simpa [own, sound.code_found] using owner
    exact var

lemma closure_moves (sound : s.Sound) (found : s.scopes.bindings[id]? = some b)
    (own : b.owner = s.frame.routine) (stored : b.storedIn = some v) (accessed : b.accessed = true)
    (nested : s.Encloses routine) (vacant : s.Vacant b v) :
    s.Moves ((s.withCode (s.code.appended (.closure (.var v) routine))).withBinding id
      (closedBy routine)) {} := by
  have within : s.unit.Within b.owner s.frame.routine := own ▸ .refl _
  let i : Instruction := .closure (.var v) routine
  let created := s.withCode (s.code.appended i)
  have edits := Routine.edits_appended sound.code_sound i
  have grown := sound.extends_withCode edits.grows
  have variable_eq {a : VariableId} (writes : .var a ∈ i.dests) : a = v := by
    simpa [i, Instruction.dests] using writes
  have sound_created : created.Sound := by
    refine sound.withCode edits ?_ (by simp) ?_
    · rintro _ rfl
      refine ⟨fun a mem => ?_, grown.refers nested, fun a mem => ?_⟩
      · obtain rfl : a = .var v := by simpa [i, Instruction.operands] using mem
        exact grown.fits (fits_of_accessed sound found within stored accessed
          fun other => absurd own.symm other)
      · obtain rfl : a = .var v := by simpa [i, Instruction.dests] using mem
        rfl
    · rintro _ rfl a writes k c known held
      obtain rfl := variable_eq writes
      obtain rfl := sound.binding_eq found known stored held
      exact vacant.imp (fun assigned => assigned) fun fresh => fresh.1
  have becomes : b.Becomes (closedBy routine b) := { Binding.Becomes.refl b with
      routineRef := fun other recorded => by
        rcases vacant with assigned | ⟨absent, -⟩
        · exact .inl assigned
        · cases absent.symm.trans recorded }
  have closes : created.Closes b (closedBy routine b) := by
    refine ⟨own, fun other same => ?_, fun a other held unset same => ?_⟩
    · cases same
      obtain ⟨r, inside, -⟩ := grown.refers (i := i) nested
      exact lt_size inside
    · cases same
      cases stored.symm.trans held
      rcases vacant with assigned | ⟨-, unwritten, plain, openId, closures⟩
      · cases assigned.symm.trans unset
      · have current := ((sound.bindings id b found).stored v stored).1.trans own
        exact sound.known_appended current unwritten plain openId closures
  have records :=
    moves_withBinding sound_created found (grown.within within) becomes rfl (.inr closes)
  have found' : (created.withBinding id (closedBy routine)).scopes.bindings[id]? =
      some (closedBy routine b) := by
    rw [withBinding_bindings, if_pos rfl]
    exact congrArg (Option.map _) found
  have keeps : s.Keeps (created.withBinding id (closedBy routine)) := by
    refine ⟨grown.trans records.keeps.toExtends, ?_⟩
    intro k c c' a known known' held unset recorded id' block j written
    rcases sound.writtenAt_withCode edits written with old | ⟨_, rfl, writes⟩
    · exact old
    · -- The variable is that of the binding, which is known to hold the closure now.
      obtain rfl := variable_eq writes
      obtain rfl := sound.stored_once k id c b a known found held stored
      cases found.symm.trans known
      cases found'.symm.trans known'
      rcases vacant with assigned | ⟨absent, -⟩
      · cases assigned.symm.trans unset
      · cases absent.symm.trans recorded.symm
  exact moves_of_appended sound records.sound keeps (sound.withCode_code _) rfl
    (by simp [Instruction.touched, Instruction.dests])

/-- Whether a closure of a declared function may go to the variable of a binding at the start of the
current routine. -/
def Fillable (s : Lowering) (id : BindingId) : Prop :=
  ∃ b v, s.scopes.bindings[id]? = some b ∧ b.owner = s.frame.routine ∧ b.storedIn = some v ∧
    (b.assigned = true ∨ b.routineRef = none ∧ (∀ id block j, ¬s.WrittenAt v id block j) ∧
      ∃ r x, s.unit.routines[v.routine]? = some r ∧ r.vars[v.index]? = some x ∧ x.param = none)

lemma Keeps.fillable (keeps : s.Keeps s') (fillable : s.Fillable id)
    (same : ∀ b b', s.scopes.bindings[id]? = some b → s'.scopes.bindings[id]? = some b' →
      b'.assigned = false → b'.routineRef = b.routineRef) : s'.Fillable id := by
  obtain ⟨b, v, found, own, stored, free⟩ := fillable
  obtain ⟨b', found', becomes⟩ := keeps.bindings id b found
  refine ⟨b', v, found', ?_, becomes.stored v stored, ?_⟩
  · rw [becomes.owner, own, keeps.frame]
  · cases assigned : b'.assigned with
    | true => exact .inl rfl
    | false =>
      rcases free with absurdly | ⟨absent, unwritten, r, x, owner, var, plain⟩
      · cases (becomes.assigned absurdly).symm.trans assigned
      · have ref := same b b' found found' assigned
        refine .inr ⟨ref.trans absent, fun id' block j written => ?_, ?_⟩
        · exact unwritten id' block j
            (keeps.unwritten id b b' v found found' stored assigned ref id' block j written)
        · obtain ⟨r', owner', grows⟩ := keeps.grown _ r owner
          exact ⟨r', x, owner', grows.vars _ x var, plain⟩

lemma Hoists.fillable {hoisted : List Hoisted} (hoists : s.Hoists s' hoisted) {h : Hoisted}
    (mem : h ∈ hoisted) : s'.Fillable h.binding := by
  obtain ⟨b, v, found, own, stored, -, free⟩ := hoists.each h mem
  obtain ⟨unused, absent⟩ := hoists.blank.unused _ b found own
  refine ⟨b, v, found, own, stored, free.imp_right fun plain => ⟨absent, ?_, plain⟩⟩
  exact hoists.blank.clear.sound.not_written found own stored unused

/-- The state with a closure of a routine created in the variable of a binding. -/
def withClosure (s : Lowering) (id : BindingId) (v : VariableId) (routine : RoutineId) : Lowering :=
  ((s.withBinding id (·.access s.frame.routine)).withBinding id (closedBy routine)).withCode
    (s.code.appended (.closure (.var v) routine))

lemma withClosure_bindings (s : Lowering) (v : VariableId) (routine : RoutineId) (other : k ≠ id) :
    (s.withClosure id v routine).scopes.bindings[k]? = s.scopes.bindings[k]? := by
  show ((s.withBinding id _).withBinding id _).scopes.bindings[k]? = _
  rw [withBinding_withBinding, withBinding_bindings, if_neg other]

lemma withClosure_moves (sound : s.Sound) (found : s.scopes.bindings[id]? = some b)
    (own : b.owner = s.frame.routine) (stored : b.storedIn = some v)
    (nested : s.Encloses routine) (vacant : s.Vacant b v) :
    s.Moves (s.withClosure id v routine) {} := by
  have uses : s.Moves (s.withBinding id (·.access s.frame.routine)) {} :=
    moves_withBinding sound found (own ▸ .refl _) (becomes_access b _) rfl (.inl rfl)
  have found' : (s.withBinding id (·.access s.frame.routine)).scopes.bindings[id]? =
      some (b.access s.frame.routine) := by
    rw [withBinding_bindings, if_pos rfl, found]
    rfl
  exact uses.andThen (closure_moves uses.sound found' own stored rfl nested vacant)

lemma withClosure_runs (sound : s.Sound) (found : s.scopes.bindings[id]? = some b)
    (routine : RoutineId) {next : Lower PUnit}
    (rest : Runs next (s.withClosure id v routine) post) : Runs (do
      access id
      modifyBinding id (closedBy routine)
      push (.closure (.var v) routine)
      next) s post := by
  have accessed : access id s = .ok ⟨⟩ (s.withBinding id (·.access s.frame.routine)) := by
    exact modifyBinding_run found
  have found' : (s.withBinding id (·.access s.frame.routine)).scopes.bindings[id]? =
      some (b.access s.frame.routine) := by
    rw [withBinding_bindings, if_pos rfl, found]
    rfl
  have pushed : push (.closure (.var v) routine)
      ((s.withBinding id (·.access s.frame.routine)).withBinding id (closedBy routine)) =
        .ok ⟨⟩ (s.withClosure id v routine) := by
    exact inRoutine_run sound.code_found (Routine.push_run sound.code_sound _)
  exact .after accessed (.after (modifyBinding_run found') (.after pushed rest))

lemma Opening.withClosure (opening : s.Opening) (moves : s.Moves (s.withClosure id v routine) {}) :
    (s.withClosure id v routine).Opening := by
  have sound := opening.clear.sound
  have code : (s.withClosure id v routine).code = s.code.appended (.closure (.var v) routine) :=
    sound.withCode_code _
  obtain ⟨openId, openBody⟩ := Routine.withOpen_open sound.code_sound.toBuilt
    (s.code.openBody.push (.closure (.var v) routine))
  refine ⟨opening.clear.moves moves, ?_, ?_⟩
  · rw [code, Routine.appended, openId, opening.openId]
  · intro i mem
    rw [code, Routine.appended, openBody, Array.mem_push] at mem
    rcases mem with old | rfl
    · exact opening.closures i old
    · exact ⟨_, _, rfl⟩

lemma Nests.fillable (nests : s.Nests s' routine) (sound : s.Sound) (fillable : s.Fillable id) :
    s'.Fillable id :=
  (nests.moves sound).keeps.fillable fillable fun b b' found found' _ =>
    nests.around.refs _ b b' found found'

lemma Nests.creates (nests : s.Nests s' routine) (opening : s.Opening) (fillable : s.Fillable id) :
    s'.Opening ∧ ∃ b v, s'.scopes.bindings[id]? = some b ∧ b.owner = s'.frame.routine ∧
      b.storedIn = some v ∧ s'.Moves (s'.withClosure id v routine) {} := by
  have start := opening.clear.sound
  have quiet := nests.quiet start
  have opened := opening.moves (nests.moves start) quiet.1 quiet.2
  obtain ⟨b, v, found, own, stored, free⟩ := nests.fillable start fillable
  have vacant : s'.Vacant b v := free.imp_right fun ⟨absent, unwritten, plain⟩ =>
    ⟨absent, unwritten, plain, opened.openId, opened.closures⟩
  exact ⟨opened, b, v, found, own, stored,
    withClosure_moves nests.sound found own stored nests.nested vacant⟩

lemma instantiate_moves (pairs : List (Hoisted × FunctionCode)) (opening : s.Opening)
    (nesting : ∀ p ∈ pairs, Nesting p.2) (fillable : ∀ p ∈ pairs, s.Fillable p.1.binding)
    (apart : pairs.Pairwise fun p later => p.1.binding = later.1.binding → s.Reassigned p.1.binding)
    : Runs (instantiate pairs) s fun _ s' => s.Moves s' {} := by
  induction pairs generalizing s with
  | nil => exact .pure (.refl opening.clear.sound)
  | cons pair rest ih =>
    obtain ⟨hoisted, lower⟩ := pair
    have start := opening.clear.sound
    obtain ⟨alone, apart⟩ := List.pairwise_cons.mp apart
    refine .get_step ((nesting _ List.mem_cons_self _ _ _ _ start start.root_found).step ?_)
    intro routine t nests
    have lowered := nests.moves start
    obtain ⟨opened, b, v, found, -, stored, creates⟩ :=
      nests.creates opening (fillable _ List.mem_cons_self)
    refine .after (variableOf_run found stored) (withClosure_runs lowered.sound found routine ?_)
    have moves := lowered.andThen creates
    refine (ih (opened.withClosure creates) (fun p mem => nesting p (.tail _ mem)) ?_ ?_).mono
      fun _ _ rest => moves.andThen rest
    · intro p mem
      refine creates.keeps.fillable (nests.fillable start (fillable p (.tail _ mem))) ?_
      intro c c' known known' unset
      by_cases other : p.1.binding = hoisted.binding
      · -- A name that several functions share is assigned.
        obtain ⟨new, found_new, assigned⟩ :=
          moves.keeps.toGrown.reassigned (alone p mem other.symm)
        rw [other] at known'
        cases found_new.symm.trans known'
        cases assigned.symm.trans unset
      · rw [withClosure_bindings t v routine other, known] at known'
        rw [Option.some.inj known']
    · exact apart.imp fun shared same => moves.keeps.toGrown.reassigned (shared same)

lemma pairwise_zip {α β : Type} {apart : α → α → Prop} {xs : List α} (pairwise : xs.Pairwise apart)
    (ys : List β) : (xs.zip ys).Pairwise fun p q => apart p.1 q.1 := by
  induction xs generalizing ys with
  | nil => exact .nil
  | cons x xs ih =>
    obtain ⟨first, rest⟩ := List.pairwise_cons.mp pairwise
    cases ys with
    | nil => exact .nil
    | cons y ys =>
      refine .cons (fun p mem => ?_) (ih rest ys)
      exact first p.1 (List.of_mem_zip mem).1

/-- What the code of a body needs: its functions nest, and its statements are steps. -/
structure BodyRuns (body : BodyCode) : Prop where
  functions : ∀ lower ∈ body.functions, Nesting lower
  statements : Proceeds body.statements

lemma lowerBody_clear (blank : s.Blank []) (runs : BodyRuns body) :
    Runs (lowerBody body) s fun _ s' =>
      s'.Clear ∧ s.Keeps { s' with frame := s.frame } ∧ s'.frame.routine = s.frame.routine := by
  refine (hoist_hoists blank body.declarations).step fun hoisted s1 hoists => ?_
  have opening := hoists.blank.toOpening
  refine (instantiate_moves (hoisted.zip body.functions) opening ?_ ?_ ?_).step
    fun _ s2 instantiated => ?_
  · exact fun p mem => runs.functions p.2 (List.of_mem_zip mem).2
  · exact fun p mem => hoists.fillable (List.of_mem_zip mem).1
  · exact pairwise_zip hoists.apart body.functions
  · refine (runs.statements s2 instantiated.sound).mono fun _ s3 executed => ?_
    have moves := instantiated.andThen executed
    have routine := hoists.prepares.routine
    have keeps := moves.keeps.reframe routine.symm
    exact ⟨opening.clear.moves moves, hoists.prepares.keeps.trans keeps,
      moves.keeps.frame ▸ routine⟩

lemma entered_blank (sound : s.Sound) {sc : Scope} {level : Nat} {name : Option String}
    {strict : Bool} (found : s.scopes.scopes[scope]? = some sc)
    (owner : sc.owner = s.frame.routine) : (s.entered scope level name strict).Blank [] := by
  refine ⟨⟨entered_clear sound found owner, ?_, ?_⟩, ?_, ?_⟩
  · rw [entered_code sound]
    rfl
  · have empty : (s.innerCode name strict).openBody = #[] := rfl
    rw [entered_code sound, empty]
    simp
  · intro k b known own
    exact absurd own (Nat.ne_of_lt (sound.bindings k b known).owner)
  · intro inner title k b root mem
    have last : (s.entered scope level name strict).scopes.scopes[s.scopes.scopes.size]? =
        some (s.innerScope scope level) := Array.getElem?_push_size
    cases last.symm.trans root
    cases mem

lemma Clear.nests {outer : Lowering} (clear : s.Clear) (around : outer.Around s)
    (sound : outer.Sound) (nested : s.frame.routine = outer.unit.routines.size)
    (parent : s.code.parent = some outer.frame.routine) :
    outer.Nests { s.withCode s.laidOut with frame := outer.frame } outer.unit.routines.size where
  around := (around.laidOut sound clear (Nat.le_of_eq nested.symm)).reframe _
  frame := rfl
  sound := around.leave sound clear nested parent
  nested := by
    refine ⟨s.laidOut, ?_, ?_⟩
    · have found := clear.sound.withCode_routines s.laidOut s.frame.routine
      rw [if_pos rfl, nested] at found
      exact found
    · have same : s.laidOut.parent = s.code.parent := by
        rw [laidOut, Routine.layOut, recordedCode, endedCode_eq]
      exact same.trans parent

lemma routine_nests (sound : s.Sound) {sc : Scope} (found : s.scopes.scopes[scope]? = some sc)
    (name : Option String) (strict : Bool) (action : RoutineId → ScopeId → Lower PUnit)
    (runs : Runs (action s.unit.routines.size s.scopes.scopes.size)
      (s.entered scope (sc.level + 1) name strict) fun _ t => t.Clear ∧
        (s.entered scope (sc.level + 1) name strict).Keeps
          { t with frame := (s.entered scope (sc.level + 1) name strict).frame } ∧
        t.frame.routine = s.unit.routines.size) : Runs (do
      let routine ← inUnit (CodeUnit.newRoutine (some s.frame.routine) name strict)
      let root ← inScopes (ScopeTree.newScope (some scope) routine true)
      inFrame (.new routine root strict) do
        action routine root
        finishRoutine
      pure routine) s fun routine s' => s.Nests s' routine := by
  refine nested_runs sound found name strict (fun routine root => do
    action routine root
    finishRoutine) (runs.step fun _ t ⟨clear, keeps, routine⟩ => ?_)
  have around := ((around_entered sound).andThen sound (Nat.le_refl _) keeps).reframe t.frame
  refine ⟨⟨⟩, _, finishRoutine_run clear, clear.nests around sound routine ?_⟩
  obtain ⟨r, last, grows⟩ := keeps.grown _ _ (entered_last sound)
  have current := clear.sound.code_found
  rw [routine] at current
  cases current.symm.trans last
  exact grows.same_parent

lemma Reports.nests {t : Lowering} (reports : s.Reports t) (nests : t.Nests s' routine) :
    s.Nests s' routine := by
  have around := nests.around
  have frame := reports.moves.keeps.frame
  refine ⟨⟨reports.moves.keeps.toGrown.trans around.toGrown, ?_, ?_, ?_⟩,
    nests.frame.trans frame, nests.sound, nests.nested⟩
  · rw [← reports.unit]
    exact around.same
  · rw [← reports.scopes]
    exact around.refs
  · intro k b b' v found found' stored unset id block j written
    rw [← reports.scopes] at found
    obtain ⟨r, i, owner, stands, writes⟩ :=
      around.unwritten k b b' v found found' stored unset id block j written
    exact ⟨r, i, reports.unit ▸ owner, stands, writes⟩

lemma lowerFunction_nesting (func : Func) (runs : BodyRuns body) :
    Nesting (lowerFunction func body) := by
  intro name loc scope s sound ⟨sc, found, owner⟩
  -- What may be reported first leaves scopes and code.
  have rest (t : Lowering) (reports : s.Reports t) : Runs (do
      let routine ← inUnit (CodeUnit.newRoutine (some s.frame.routine) name
        (s.frame.strict || Stmt.startStrict func.body))
      let root ← inScopes (ScopeTree.newScope (some scope) routine true)
      inFrame (.new routine root (s.frame.strict || Stmt.startStrict func.body)) do
        bindParams root func.params
        lowerBody body
        finishRoutine
      pure routine) t fun routine s' => s.Nests s' routine := by
    have sound := reports.moves.sound
    rw [← reports.scopes] at found
    rw [← reports.moves.keeps.frame] at owner ⊢
    have blank : (t.entered scope (sc.level + 1) name
        (t.frame.strict || Stmt.startStrict func.body)).Blank [] := entered_blank sound found owner
    have nests := routine_nests sound found name (t.frame.strict || Stmt.startStrict func.body)
      (fun _ root => do
        bindParams root func.params
        lowerBody body) ((bindParams_prepares blank func.params).step ?_)
    · simp only [bind_assoc] at nests
      exact nests.mono fun routine s' nests => reports.nests nests
    · rintro - t1 ⟨prepares, blank1⟩
      refine (lowerBody_clear blank1 runs).mono fun _ t2 ⟨clear, keeps, routine⟩ => ?_
      exact ⟨clear, prepares.keeps.trans (keeps.reframe prepares.routine.symm),
        routine.trans prepares.routine⟩
  simp only [lowerFunction]
  refine .get_step ?_
  split
  · refine (notSupported_reports sound loc _).step fun _ t ⟨reports, _⟩ => ?_
    split
    · refine (notSupported_reports reports.moves.sound loc _).step fun _ t' ⟨more, _⟩ => ?_
      exact rest t' (reports.trans more)
    · exact rest t reports
  · split
    · exact (notSupported_reports sound loc _).step fun _ t ⟨reports, _⟩ => rest t reports
    · exact rest s (.refl sound)

def ownName (r : Routine) (name : String) : Binding :=
  { freshBinding r name with readOnly := true, declared := true, initialized := true }

lemma Opening.bindsName (opening : s.Opening) (name : String) {next : BindingId → Lower PUnit}
    (rest : ∀ id t, s.Moves t {} → t.Opening → t.Fillable id →
      (∀ b, t.scopes.bindings[id]? = some b → b.constant = none) → Runs (next id) t post) : Runs (do
      let id ← newVariable s.frame.root name none
      modifyBinding id fun b => { b with readOnly := true, declared := true, initialized := true }
      next id) s post := by
  have sound := opening.clear.sound
  obtain ⟨sc, root, owner⟩ := sound.root_found
  have current := sound.code_found
  have same := (sound.ids _ _ current).trans owner.symm
  rw [← owner] at current
  let scopes := withName s.scopes s.frame.root name
  let x := plainVariable s.code name none
  have created := newVariable_run root current same sound.code_sound.unfinished name none
  have fresh : (s.withVariable scopes s.code x (freshBinding s.code name)).scopes.bindings[
      s.scopes.bindings.size]? = some (freshBinding s.code name) := withVariable_new
  have final : (s.withVariable scopes s.code x (freshBinding s.code name)).withBinding
      s.scopes.bindings.size (fun b => { b with
        readOnly := true, declared := true, initialized := true }) =
      s.withVariable scopes s.code x (ownName s.code name) := by
    simp only [withBinding, withVariable, push_modify]
    rfl
  have changed := (modifyBinding_run fresh).trans (by rw [final])
  refine .after created (.after changed ?_)
  rw [← same] at current
  have moves : s.Moves (s.withVariable scopes s.code x (ownName s.code name)) {} := by
    refine moves_withVariable sound current ?_ rfl rfl rfl ⟨rfl, rfl⟩
    have named := names_withName root name
    rwa [← same] at named
  have new : (s.withVariable scopes s.code x (ownName s.code name)).scopes.bindings[
      s.scopes.bindings.size]? = some (ownName s.code name) := withVariable_new
  have own := same.trans owner
  obtain ⟨old, known, code⟩ := withVariable_sameCode current moves.sound.code_found
  cases sound.code_found.symm.trans known
  have vars : (s.withVariable scopes s.code x (ownName s.code name)).unit.routines[s.code.id]? =
      some { s.code with vars := s.code.vars.push x } :=
    (withVariable_routines current s.code.id).trans (if_pos rfl)
  refine rest _ _ moves (opening.moves moves (code ▸ rfl) (code ▸ rfl)) ⟨_, _, new, own, rfl, ?_⟩ ?_
  · exact .inr ⟨rfl, moves.sound.not_written new own rfl rfl, _, x, vars, by simp, rfl⟩
  · intro b found
    rw [← Option.some.inj (new.symm.trans found)]
    rfl

lemma named_runs (sound : s.Sound) (found : s.scopes.bindings[id]? = some b)
    (stored : b.storedIn = some v) (plain : b.constant = none) (routine : RoutineId)
    {next : Operand → Lower PUnit} (rest : Runs (next (.var v)) (s.withClosure id v routine) post) :
    Runs (do
      modifyBinding id (closedBy routine)
      let dest ← readBinding id
      push (.closure dest routine)
      next dest) s post := by
  have found1 : (s.withBinding id (closedBy routine)).scopes.bindings[id]? =
      some (closedBy routine b) := by
    rw [withBinding_bindings, if_pos rfl, found]
    rfl
  have swapped : (s.withBinding id (closedBy routine)).withBinding id (·.access s.frame.routine) =
      (s.withBinding id (·.access s.frame.routine)).withBinding id (closedBy routine) := by
    rw [withBinding_withBinding, withBinding_withBinding]
    rfl
  have found2 : ((s.withBinding id (closedBy routine)).withBinding id
      (·.access s.frame.routine)).scopes.bindings[id]? =
        some ((closedBy routine b).access s.frame.routine) := by
    rw [withBinding_bindings, if_pos rfl, found1]
    rfl
  have read : readBinding id (s.withBinding id (closedBy routine)) =
      .ok (.var v) ((s.withBinding id (closedBy routine)).withBinding id
        (·.access s.frame.routine)) := by
    have asked : binding id (s.withBinding id (closedBy routine)) =
        .ok (closedBy routine b) (s.withBinding id (closedBy routine)) :=
      askScopes_run (binding_found found1)
    have accessed : access id (s.withBinding id (closedBy routine)) = .ok ⟨⟩
        ((s.withBinding id (closedBy routine)).withBinding id (·.access s.frame.routine)) := by
      exact modifyBinding_run found1
    rw [readBinding, Runs.bind_run asked]
    simp only [closedBy, plain]
    exact (Runs.bind_run accessed).trans (variableOf_run found2 stored)
  have pushed : push (.closure (.var v) routine)
      ((s.withBinding id (closedBy routine)).withBinding id (·.access s.frame.routine)) =
        .ok ⟨⟩ (s.withClosure id v routine) := by
    rw [swapped, push, inCode]
    exact inRoutine_run sound.code_found (Routine.push_run sound.code_sound _)
  exact .after (modifyBinding_run found) (.after read (.after pushed rest))

lemma withClosure_fits (moves : s.Moves s' {}) (same : s' = s.withClosure id v routine)
    (found : s.scopes.bindings[id]? = some b) (own : b.owner = s.frame.routine)
    (stored : b.storedIn = some v) : s'.Fits (.var v) := by
  have found' : s'.scopes.bindings[id]? = some (closedBy routine (b.access s.frame.routine)) := by
    rw [same]
    show ((s.withBinding id _).withBinding id _).scopes.bindings[id]? = _
    rw [withBinding_bindings, if_pos rfl, withBinding_bindings, if_pos rfl, found]
    rfl
  have frame := moves.keeps.frame
  have within : s'.unit.Within b.owner s'.frame.routine := by
    rw [own, frame]
    exact .refl _
  exact fits_of_accessed moves.sound found' within stored rfl fun other =>
    absurd (own.trans (congrArg Frame.routine frame.symm)).symm other

lemma lowerNamed_nests (sound : s.Sound) (name : String) (loc : Location)
    (nesting : Nesting lower) :
    Runs (lowerNamed name loc lower) s fun routine s' => s.Nests s' routine := by
  obtain ⟨sc, found, owner, -⟩ := sound.frame.scope
  have blank : (s.entered s.frame.scope (sc.level + 1) none s.frame.strict).Blank [] :=
    entered_blank sound found owner
  have nests := routine_nests sound found none s.frame.strict (fun _ root => do
    let id ← newVariable root name none
    modifyBinding id fun b => { b with readOnly := true, declared := true, initialized := true }
    let inner ← lower (some name) loc root
    modifyBinding id (closedBy inner)
    let dest ← readBinding id
    push (.closure dest inner)
    inCode (Routine.ret dest)) ?_
  · refine .get_step ?_
    simp only [bind_assoc] at nests
    exact nests
  · refine blank.toOpening.bindsName name fun id t bound opened fillable constant => ?_
    have start := bound.sound
    have root : ∃ sc, t.scopes.scopes[s.scopes.scopes.size]? = some sc ∧
        sc.owner = t.frame.routine := by
      have own := start.root_found
      rwa [bound.keeps.frame] at own ⊢
    refine (nesting _ _ _ _ start root).step fun inner t1 nests => ?_
    have lowered := nests.moves start
    obtain ⟨opened1, b, v, found1, own, stored, creates⟩ := nests.creates opened fillable
    have plain : b.constant = none := by
      obtain ⟨old, -, known, -⟩ := fillable
      obtain ⟨new, known', becomes⟩ := lowered.keeps.bindings id old known
      rw [← Option.some.inj (known'.symm.trans found1), becomes.constant]
      exact constant old known
    refine named_runs lowered.sound found1 stored plain inner ?_
    have opened2 := opened1.withClosure creates
    refine (ret_moves creates.sound (withClosure_fits creates rfl found1 own stored)).mono
      fun _ t2 ⟨returned, flows⟩ => ?_
    -- No region is active at the start of a routine.
    have leaves : (t1.withClosure id v inner).Moves t2 { leaves := true } := by
      refine returned.leave (fun label mem => .inl (List.mem_singleton.mp mem)) ?_
      intro aim F charted _ _ leaves
      obtain ⟨rfl, aims⟩ := leaves rfl
      refine ⟨aim, fun _ _ => rfl, by simp, flows aim _ ?_ aims.exit⟩
      rwa [Frame.flow, opened2.clear.tries] at charted
    have moves := (bound.andThen (lowered.andThen creates)).andThen leaves
    refine ⟨opened2.clear.moves leaves, ?_, ?_⟩
    · rw [reframe_self moves.keeps.frame]
      exact moves.keeps
    · rw [moves.keeps.frame]
      rfl

lemma closureOf_moves (sound : s.Sound) (nested : s.Encloses routine) :
    Runs (closureOf routine) s fun a s' => ∃ id, a = .cell id ∧ s.Moves s' { given := [.cell id] } ∧
      ∀ aim F, s.Charted aim F → (∀ other known, F.holds other known → s.InUse other) →
        s'.Charted aim (F.grown id (.closure routine)) := by
  refine (allocTemp_still sound).step ?_
  rintro _ s1 ⟨⟨id, rfl⟩, allocated, still⟩
  have fits : s1.InstructionFits s1.frame.routine (.closure (.cell id) routine) := by
    refine ⟨fun a mem => ?_, ?_, by simp [Instruction.dests, Operand.isPlace]⟩
    · obtain rfl : a = .cell id := by simpa [Instruction.operands] using mem
      exact allocated.fits (by simp)
    · rw [allocated.keeps.frame]
      exact allocated.keeps.refers (i := .closure (.cell id) routine) nested
  have filled := allocated.filled fits ⟨rfl, rfl, rfl⟩ (by simp)
  refine push_step allocated.sound (.pure ⟨id, rfl, filled, fun aim F charted used => ?_⟩)
  refine charted_made allocated.sound (still.charted charted) rfl ⟨rfl, rfl⟩ ?_
  intro other known held touched
  obtain rfl : other = id := by simpa [Instruction.touched, Instruction.dests] using touched
  exact absurd (allocated.fresh other (by simp) (used other known held)) (by simp)

lemma wrapper_moves (rt : Runtime V) (sound : s.Sound) {wrapper : RoutineId}
    (nested : s.Encloses wrapper) :
    Runs (do
      let closure ← closureOf wrapper
      emitCall (.direct wrapper closure) closure .undefined [] true) s fun a s' =>
        s.Moves s' { given := [a] } := by
  refine (closureOf_moves sound nested).step ?_
  rintro _ s1 ⟨id, rfl, closes, knows⟩
  have given := (closes.give_constant .undefined).reorder (List.Perm.swap _ _ _)
  have refers (routine : RoutineId) (closure : Operand)
      (same : Callee.direct wrapper (.cell id) = .direct routine closure) :
      routine < s1.unit.routines.size := by
    obtain ⟨rfl, -⟩ := Callee.direct.inj same
    obtain ⟨r, inside, -⟩ := nested
    exact Nat.lt_of_lt_of_le (lt_size inside) closes.keeps.count
  refine (emitCall_spec rt given.sound (fun a mem => given.ready mem) given.apart rfl refers
    true).mono fun a s2 ⟨called, charts, _⟩ => ?_
  have both := given.andThen called
  refine both.chart fun aim F charted spared _ _ => ⟨aim, fun _ _ => rfl, by simp, ?_⟩
  refine charts aim F _ (knows aim F charted fun other known held => (spared other known held).1)
    ⟨rfl, fun _ _ held => .inl held⟩ (fun other known held => ?_) fun _ _ =>
      ⟨id, rfl, .inr ⟨rfl, rfl⟩⟩
  exact given.spared (by simp) (spared other known held)

lemma functionValue_moves (rt : Runtime V) (func : Func) (loc : Location)
    (nesting : Nesting lower) (sound : s.Sound) :
    Runs (functionValue func loc lower) s fun a s' => s.Moves s' { given := [a] } := by
  rw [functionValue]
  split
  · refine Runs.get_step ?_
    obtain ⟨sc, found, owner, -⟩ := sound.frame.scope
    refine (nesting _ _ _ _ sound ⟨sc, found, owner⟩).step fun routine s1 nests => ?_
    refine (closureOf_moves nests.sound nests.nested).mono ?_
    rintro _ s2 ⟨id, rfl, closes, -⟩
    exact (nests.moves sound).andThen closes
  next own _ =>
    refine (lowerNamed_nests sound own loc nesting).step fun wrapper s1 nests => ?_
    refine (wrapper_moves rt nests.sound nests.nested).mono fun a s2 called => ?_
    exact (nests.moves sound).andThen called

end Lowering
end Scriptc
