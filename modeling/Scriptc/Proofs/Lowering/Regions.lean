import Scriptc.Proofs.Lowering.Control

/-!
# Protected regions in lowering

A protected block is entered by a jump that names its handler. The block is lowered with one region
more around it, the handler with those that were active before.
-/

open Function

namespace Scriptc

open Instruction

namespace Lowering

variable {V : Type} {rt : Runtime V} {s s' : Lowering}

lemma newLabel_charted (sound : s.Sound) :
    Runs newLabel s fun label s' => s.Moves s' { made := [label] } ∧
      ∀ aim F, s.Charted aim F → s'.Charted aim F := by
  have run : newLabel s = .ok s.labelCount (s.withCode s.code.withLabel) := inCode_run sound rfl
  have moves := ((newLabel_moves sound).holds_of_run run).1
  refine ⟨_, _, run, moves, fun aim F ⟨start, charted⟩ => ⟨start, ?_⟩⟩
  rw [sound.withCode_code]
  exact charted.withLabel

lemma newTryIndex_moves (sound : s.Sound) :
    Runs (inCode Routine.newTryIndex) s fun index s' => s.Moves s' {} ∧
      index = s.code.tryCount ∧ index < s'.code.tryCount ∧
        ∀ aim F, s.Charted aim F → s'.Charted aim F := by
  let r : Routine := { s.code with tryCount := s.code.tryCount + 1 }
  have edits : s.code.Edits r (fun _ => False) fun _ => False :=
    { sound := { sound.code_sound with }
      grows := { Routine.Grows.refl s.code with tries := Nat.le_succ _ }
      same_vars := rfl
      stands := fun _ _ _ here => .inl here
      prologue := fun _ _ here => .inl here
      endsWith := fun _ ends => .inl ends }
  have run : inCode Routine.newTryIndex s = .ok s.code.tryCount (s.withCode r) :=
    inCode_run sound rfl
  have moves : s.Moves (s.withCode r) {} :=
    moves_withTemps sound edits rfl rfl rfl (fun id => by simp [InUse, r, Routine.InUse])
      (by simp) (by simp) List.Pairwise.nil (by simp)
  refine ⟨_, _, run, moves, rfl, ?_, ?_⟩
  · rw [sound.withCode_code]
    exact Nat.lt_succ_self _
  · rintro aim F ⟨start, charted⟩
    refine ⟨start, ?_⟩
    rw [sound.withCode_code]
    exact charted.of_same rfl rfl rfl

lemma Moves.conceal {made settled owed kept : List Label} {leaves : Bool}
    {taken given : List Operand}
    (moves : s.Moves s' { made, settled, owed, leaves, uncharted := true, taken, given })
    (covered : ∀ label ∈ owed, label ∈ kept ∨ label ∈ settled) (fewer : ∀ label ∈ kept,
      label ∈ owed) :
    s.Moves s' { made, owed := kept, leaves, uncharted := true, taken, given } where
  __ := moves
  settled _ absent := by cases absent
  owed label member := moves.owed label (fewer label member)
  owes label owes := by
    rcases moves.owes label owes with before | added | leaving
    · exact .inl before
    · rcases covered label added with allowed | placed
      · exact .inr (.inl allowed)
      · exact absurd owes (moves.settled label placed).1.not_owes
    · exact .inr (.inr leaving)
  flows said := by cases said

lemma enterRegion_step (sound : s.Sound) {α : Type} {post : α → Lowering → Prop}
    {next : Nat → Label → Label → Label → Lower α}
    (rest : ∀ index start onCatch done t,
      s.Moves t { made := [onCatch, done], settled := [start], owed := [start, onCatch],
                  uncharted := true } →
      index < t.code.tryCount →
      (∀ aim, s.Charted aim s.frame.flow → ∃ aim', (∀ label, label < s.labelCount →
        aim' label = aim label) ∧ aim' onCatch = s.frame.flow ∧ aim' done = s.frame.flow ∧
          t.Charted aim' (.regions (index :: s.frame.tries))) →
      Runs (next index start onCatch done) t post) :
    Runs (do
      let index ← inCode Routine.newTryIndex
      let start ← newLabel
      let onCatch ← newLabel
      let done ← newLabel
      inCode (Routine.setJump (.beginTry index onCatch start))
      place start
      next index start onCatch done) s post := by
  refine (newTryIndex_moves sound).step ?_
  rintro index s1 ⟨moves1, count, below1, charts1⟩
  refine (newLabel_charted moves1.sound).step ?_
  rintro start s2 ⟨made2, charts2⟩
  refine (newLabel_charted made2.sound).step ?_
  rintro onCatch s3 ⟨made3, charts3⟩
  refine (newLabel_charted made3.sound).step ?_
  rintro done s4 ⟨made4, charts4⟩
  have moves4 := ((moves1.andThen made2).andThen made3).andThen made4
  have below4 := Nat.lt_of_lt_of_le below1
      (((made2.andThen made3).andThen made4).keeps.code_grows moves1.sound).tries
  have fits : s4.JumpFits s4.frame.routine (.beginTry index onCatch start) := by
    refine ⟨by simp [Jump.operands], by simp, fun _ _ _ same => ?_⟩
    cases same
    exact ⟨s4.code, moves4.sound.code_found, below4⟩
  have known : s4.Knows (Jump.beginTry index onCatch start).targets :=
    moves4.knows_own (by simp [Jump.targets])
  have run := inCode_run moves4.sound
    (Routine.setJump_run moves4.sound.code_sound.toBuilt (.beginTry index onCatch start))
  refine .after run ?_
  have jumped := moves_jump moves4.sound fits known
  have moves5 := moves4.andThenTo jumped (by simp [Jump.targets])
  refine (place_places moves5.sound (moves5.made start (by simp)).1).step ?_
  rintro _ s6 ⟨places, _⟩
  refine rest index start onCatch done s6 (moves5.place places) ?_ fun aim charted => ?_
  · have more := ((jumped.keeps.trans places.keeps).code_grows moves4.sound).tries
    exact Nat.lt_of_lt_of_le below4 more
  · let aim' := update (update (update aim done s.frame.flow)
      onCatch s.frame.flow) start (.regions (index :: s.frame.tries))
    have new (label : Label) (mem : label ∈ [start, onCatch, done]) : s.labelCount ≤ label :=
      (moves4.made label mem).2
    have old (label : Label) (inside : label < s.labelCount) : aim' label = aim label := by
      have other (own : Label) (mem : own ∈ [start, onCatch, done]) : label ≠ own :=
        Nat.ne_of_lt (Nat.lt_of_lt_of_le inside (new own mem))
      simp [aim', update_of_ne (other start (by simp)),
        update_of_ne (other onCatch (by simp)), update_of_ne (other done (by simp))]
    obtain ⟨distinct, between, -⟩ : (start ≠ onCatch ∧ start ≠ done) ∧ onCatch ≠ done ∧ True := by
      simpa using moves4.made_nodup
    have handler : aim' onCatch = s.frame.flow := by
      simp [aim', update_of_ne distinct.1.symm]
    have ending : aim' done = s.frame.flow := by
      simp [aim', update_of_ne distinct.2.symm, update_of_ne between.symm]
    have inner : aim' start = .regions (index :: s.frame.tries) := by simp [aim']
    have charted0 : s.Charted aim' s.frame.flow := by
      obtain ⟨blocks, charted⟩ := charted
      exact ⟨blocks, charted.congr old⟩
    have charted4 := charts4 _ _ (charts3 _ _ (charts2 _ _ (charts1 _ _ charted0)))
    have leads : s.frame.flow.Leads aim' (.beginTry index onCatch start) := by
      refine ⟨?_, inner ▸ Flow.le_refl _, by rw [handler]; exact Flow.le_refl _⟩
      obtain ⟨r, found, -, tries⟩ := sound.frame.exits
      cases sound.code_found.symm.trans found
      exact fun mem => Nat.lt_irrefl _ (count ▸ tries index mem)
    have charted5 := moves4.sound.charted_ended charted4 leads known
      (.regions (index :: s.frame.tries))
    exact ⟨aim', old, handler, ending, places.flows aim' _ charted5 inner⟩

def guarded (s : Lowering) (index : Nat) : Lowering :=
  { s with frame := { s.frame with tries := index :: s.frame.tries } }

lemma Sound.guarded (sound : s.Sound) {index : Nat} (below : index < s.code.tryCount) :
    (s.guarded index).Sound := by
  have fits := sound.frame
  refine sound.reframe rfl ⟨fits.scope, fits.root, fits.top, fits.shadows, ?_, ?_⟩
  · exact fun t mem => Nat.le_succ_of_le (fits.tries t mem)
  · obtain ⟨r, found, labels, tries⟩ := fits.exits
    cases sound.code_found.symm.trans found
    refine ⟨s.code, found, labels, fun other mem => ?_⟩
    rcases List.mem_cons.mp mem with rfl | outer
    · exact below
    · exact tries other outer

lemma guarded_aims (sound : s.Sound) {aim : Label → Flow} (aims : s.frame.Aims aim) (index : Nat) :
    (s.guarded index).frame.Aims aim := by
  have same (t : JumpTarget) (mem : t ∈ s.frame.targets) :
      (s.guarded index).frame.flowAt t.tryDepth = s.frame.flowAt t.tryDepth := by
    have deep := sound.frame.tries t mem
    have further : s.frame.tries.length + 1 - t.tryDepth =
        s.frame.tries.length - t.tryDepth + 1 := by
      omega
    simp only [Frame.flowAt, guarded, List.length_cons, further, List.drop_succ_cons]
  exact ⟨aims.exit, fun t mem => (aims.breaks t mem).trans (same t mem).symm,
    fun t mem label continues =>
      (aims.continues t mem label continues).trans (same t mem).symm⟩

lemma Moves.unguarded {index : Nat} (moves : (s.guarded index).Moves s' { leaves := true })
    (sound : s.Sound) :
    s.Moves { s' with frame := s.frame } { leaves := true, uncharted := true } ∧
      ∀ aim, s.frame.Aims aim → s.Charted aim (.regions (index :: s.frame.tries)) →
        ∃ aim', (∀ label, label < s.labelCount → aim' label = aim label) ∧
          { s' with frame := s.frame }.Charted aim' (.regions (index :: s.frame.tries)) := by
  have none_more : s.Knows [] := by simp [Knows]
  have outside := moves.reframe sound rfl none_more fun _ label exit => .inl exit
  refine ⟨outside, fun aim aims charted => ?_⟩
  obtain ⟨aim', old, -, charted'⟩ := moves.flows rfl aim (s.guarded index).frame.flow charted
    (fun _ _ absurdly => absurdly.elim) (by simp) fun _ => ⟨rfl, guarded_aims sound aims index⟩
  refine ⟨aim', old, (charted_reframe ?_ aim' _).mpr charted'⟩
  rw [moves.keeps.frame]
  rfl

lemma region_step {block : Lower PUnit} (proceeds : Proceeds block) (sound : s.Sound) {α : Type}
    {post : α → Lowering → Prop} {next : Label → Label → Lower α}
    (rest : ∀ onCatch done t,
      s.Moves t { made := [onCatch, done], owed := [done, onCatch], leaves := true } →
      Runs (next onCatch done) t post) :
    Runs (do
      let index ← inCode Routine.newTryIndex
      let start ← newLabel
      let onCatch ← newLabel
      let done ← newLabel
      inCode (Routine.setJump (.beginTry index onCatch start))
      place start
      modifyFrame fun f => { f with tries := index :: f.tries }
      block
      modifyFrame fun f => { f with tries := f.tries.tail }
      push (.endTry index)
      goto done
      next onCatch done) s post := by
  refine enterRegion_step sound fun index start onCatch done s1 moves1 below enters => ?_
  have entered : modifyFrame (fun f => { f with tries := index :: f.tries }) s1 =
      .ok ⟨⟩ (s1.guarded index) := rfl
  refine .after entered ((proceeds _ (moves1.sound.guarded below)).step fun _ t inside => ?_)
  obtain ⟨outside, keeps_region⟩ := inside.unguarded moves1.sound
  have left : modifyFrame (fun f => { f with tries := f.tries.tail }) t =
      .ok ⟨⟩ { t with frame := s1.frame } := by
    have frame : { t.frame with tries := t.frame.tries.tail } = s1.frame := by
      rw [inside.keeps.frame]
      rfl
    rw [← frame]
    rfl
  refine .after left ?_
  have moves2 := moves1.andThen outside
  have allowed : { t with frame := s1.frame }.InstructionFits s1.frame.routine (.endTry index) := by
    have more := (outside.keeps.code_grows moves1.sound).tries
    exact ⟨by simp [operands],
      ⟨_, moves2.sound.code_found, Nat.lt_of_lt_of_le below more⟩, by simp [dests]⟩
  refine push_step moves2.sound ?_
  have moves3 := moves2.appended allowed (by simp) (by simp [dests])
    (by simp [touched, dests])
  have known := (moves3.made done (by simp)).1.lt
  refine (goto_moves moves3.sound known).step ?_
  rintro - _ ⟨gone, rfl⟩
  have moves4 := moves3.andThenTo gone (by simp)
  refine rest onCatch done _ ((moves4.conceal (by simp) (by simp)).chart ?_)
  intro aim F charted _ _ leaves
  obtain ⟨rfl, aims⟩ := leaves rfl
  obtain ⟨aim1, old1, handler, ending, charted1⟩ := enters aim charted
  have frame1 := moves1.keeps.frame
  have aims1 : s1.frame.Aims aim1 := by
    rw [frame1]
    exact aims.congr fun label exit => old1 label (sound.exit_lt exit)
  have inner : s1.Charted aim1 (.regions (index :: s1.frame.tries)) := by rwa [frame1]
  obtain ⟨aim2, old2, charted2⟩ := keeps_region aim1 aims1 inner
  have expects (label : Label) (mem : label ∈ [onCatch, done]) : aim2 label = s.frame.flow := by
    rw [old2 label (moves1.made label mem).1.lt]
    rcases List.mem_cons.mp mem with rfl | last
    · exact handler
    · rwa [List.mem_singleton.mp last]
  have ended : ({ t with frame := s1.frame }.withCode
      ({ t with frame := s1.frame }.code.appended (.endTry index))).Charted aim2 s.frame.flow := by
    obtain ⟨blocks, charted2⟩ := charted2
    have top : (Flow.regions (index :: s1.frame.tries)).Admits (.endTry index) := rfl
    refine ⟨blocks, ?_⟩
    rw [moves2.sound.withCode_code, ← frame1]
    exact (charted2.appended moves2.sound.code_sound top).weaken
      ⟨rfl, fun _ _ absurdly => absurdly.elim⟩
  refine ⟨aim2, fun label inside => ?_, fun label own => ?_, ?_⟩
  · have later := Nat.lt_of_lt_of_le inside (moves1.keeps.labelCount_le sound)
    exact (old2 label later).trans (old1 label inside)
  · exact expects label (by simpa using own)
  · exact moves3.sound.charted_goto ended known (expects done (by simp) ▸ Flow.le_refl _) _

lemma Moves.unscoped {scope : ScopeId}
    (moves : { s with frame := { s.frame with scope } }.Moves s' { leaves := true })
    (sound : s.Sound) : s.Moves { s' with frame := s.frame } { leaves := true } := by
  have none_more : s.Knows [] := by simp [Knows]
  refine (moves.reframe sound rfl none_more fun _ label exit => .inl exit).chart ?_
  intro aim F charted _ _ leaves
  obtain ⟨rfl, aims⟩ := leaves rfl
  obtain ⟨aim', old, -, charted'⟩ := moves.flows rfl aim s.frame.flow charted
    (fun _ _ absurdly => absurdly.elim) (by simp)
    fun _ => ⟨rfl, aims.exit, aims.breaks, aims.continues⟩
  refine ⟨aim', old, by simp, (charted_reframe ?_ aim' _).mpr charted'⟩
  rw [moves.keeps.frame]

lemma newScope_moves (sound : s.Sound) :
    Runs (inScopes (ScopeTree.newScope (some s.frame.scope) s.frame.routine false))
      s fun scope s' =>
      s.Moves s' {} ∧ ∃ sc, s'.scopes.scopes[scope]? = some sc ∧ sc.owner = s.frame.routine ∧
        sc.varScope = s.frame.root := by
  obtain ⟨outer, found, owner, whole⟩ := sound.frame.scope
  let sc : Scope :=
    { parent := some s.frame.scope, level := outer.level + 1, varScope := outer.varScope,
      owner := s.frame.routine, names := [] }
  let s' : Lowering := { s with scopes := { s.scopes with scopes := s.scopes.scopes.push sc } }
  have run : inScopes (ScopeTree.newScope (some s.frame.scope) s.frame.routine false) s =
      .ok s.scopes.scopes.size s' := by
    have added : ScopeTree.newScope (some s.frame.scope) s.frame.routine false s.scopes =
        .ok s.scopes.scopes.size s'.scopes := by
      rw [ScopeTree.newScope, Runs.get_bind]
      simp [bind, EStateM.bind, ScopeTree.ask, scope_found found, modify, Runs.modifyGet_run,
        pure, EStateM.pure, s', sc]
    simp [inScopes, EStateM.run, added, s']
  have last : s'.scopes.scopes[s.scopes.scopes.size]? = some sc := Array.getElem?_push_size
  have earlier {k : ScopeId} {old : Scope} (known : s.scopes.scopes[k]? = some old) :
      s'.scopes.scopes[k]? = some old := by
    have inside := (lt_size known)
    rw [Array.getElem?_push_lt inside, ← Array.getElem?_eq_getElem inside, known]
  have keeps : s.Extends s' :=
    { Extends.refl s with scopes := fun k old known => ⟨old, earlier known, rfl, rfl⟩ }
  have same (i : RoutineId) (r : Routine) (known : s'.unit.routines[i]? = some r) :
      ∃ r', s.unit.routines[i]? = some r' ∧ r'.SameCode r := ⟨r, known, rfl⟩
  have sound' : s'.Sound := by
    refine sound.of_same_code keeps same (fun k c known => ?_)
      (fun k b known => keeps.bindingFits (sound.bindings k b known)) sound.stored_once sound.known
      fun i r index x known var => .inr ⟨r, known, var⟩
    by_cases here : k = s.scopes.scopes.size
    · subst here
      cases last.symm.trans known
      obtain ⟨all, found_all, owner_all⟩ := (sound.scopes _ _ found).varScope
      exact {
        owner := ⟨s.code, sound.code_found⟩
        parent := fun p same => by
          cases same
          exact ⟨(lt_size found), outer, earlier found, owner ▸ .refl _⟩
        outermost := fun absurdly => by cases absurdly
        varScope := ⟨all, earlier found_all, owner_all.trans owner⟩
        inner := fun _ => ⟨s.frame.scope, outer, rfl, earlier found, owner, rfl⟩
        names := fun _ _ absent => by cases absent }
    · have old : s.scopes.scopes[k]? = some c := by
        rw [Array.getElem?_push, if_neg here] at known
        exact known
      exact keeps.scopeFits (sound.scopes k c old)
  exact ⟨_, s', run, moves_of_same_code sound sound' (keeps.keeps same) rfl, sc, last, rfl, whole⟩

lemma instructionFits_loadThrown {dest : Operand} (fits : s.Fits dest)
    (place : dest.isPlace = true) : s.InstructionFits s.frame.routine (.loadThrown dest) := by
  refine ⟨fun a mem => ?_, trivial, fun a mem => ?_⟩
  · rwa [List.mem_singleton.mp mem]
  · rwa [List.mem_singleton.mp mem]

lemma bindThrown_moves (sound : s.Sound) {scope : ScopeId} {sc : Scope}
    (found : s.scopes.scopes[scope]? = some sc) (owner : sc.owner = s.frame.routine)
    (param : Option Pattern) : Runs (bindThrown scope param) s fun _ s' => s.Moves s' {} := by
  unfold bindThrown
  split
  · exact .pure (.refl sound)
  next p =>
    split
    · exact (notSupported_reports sound p.loc _).mono fun _ _ reports => reports.1.moves
    next name _ =>
      refine (newVariable_binds sound found (owner ▸ .refl _) name none).step fun id s1 binds => ?_
      obtain ⟨r, same, known, -⟩ := binds.found
      have within : s1.unit.Within r.id s1.frame.routine := by
        rw [binds.moves.keeps.frame, same, owner]
        exact .refl _
      refine (modifyBinding_moves binds.moves.sound known within
        { Binding.Becomes.refl _ with } rfl rfl).step ?_
      rintro - s2 ⟨marked, -, found2, -⟩
      have moves2 := binds.moves.andThen marked
      have visible : s2.Visible id := ⟨_, found2, by
        rw [marked.keeps.frame]
        exact marked.keeps.within within⟩
      refine (writeBinding_place moves2.sound visible p.loc).step ?_
      rintro dest s3 ⟨written, places⟩
      have moves3 := moves2.andThen written
      cases dest with
      | none => exact .pure moves3
      | some dest =>
        obtain ⟨v, rfl, fits, assigned⟩ := places dest rfl
        have allowed := instructionFits_loadThrown fits rfl
        refine (push_moves moves3.sound allowed rfl ?_ ?_).mono fun _ s4 loaded =>
          moves3.andThen loaded.1
        · simpa [dests] using assigned
        · simp [touched, dests]

lemma handlerCode_proceeds {handler : HandlerCode} (proceeds : Proceeds handler.body) :
    Proceeds (handlerCode handler) := by
  intro s sound
  refine .get_step ((newScope_moves sound).step fun scope s1 ⟨moves1, sc, found,
    owner, whole⟩ => ?_)
  have frame1 := moves1.keeps.frame
  have entered : modifyFrame (fun f => { f with scope }) s1 =
      .ok ⟨⟩ { s1 with frame := { s1.frame with scope } } := rfl
  have fits := moves1.sound.frame
  have sound2 : { s1 with frame := { s1.frame with scope } }.Sound :=
    moves1.sound.reframe rfl ⟨⟨sc, found, by rw [owner, ← frame1], by rw [whole, ← frame1]⟩,
      fits.root, fits.top, fits.shadows, fits.tries, fits.exits⟩
  refine .after entered ?_
  refine (bindThrown_moves sound2 found (by rw [owner, ← frame1]) handler.param).step
    fun _ s2 bound => ?_
  refine (proceeds s2 bound.sound).step fun _ s3 moves3 => ?_
  have inside := bound.andThen moves3
  have moves := moves1.andThen (inside.unscoped moves1.sound)
  have frame3 : { s3.frame with scope := s.frame.scope } = s1.frame := by
    rw [inside.keeps.frame, frame1]
  rw [← frame3] at moves
  exact .modify moves

lemma rethrow_proceeds : Proceeds rethrow := by
  intro s sound
  refine (allocTemp_moves sound).step ?_
  rintro _ s1 ⟨⟨id, rfl⟩, moves1, -⟩
  have fits := moves1.fits (a := .cell id) (by simp)
  have allowed := instructionFits_loadThrown fits rfl
  have moves2 := moves1.filled allowed ⟨rfl, rfl, rfl⟩ (by simp)
  exact push_step moves1.sound (thrown_moves moves2)

def finallyCode (loc : Location) : Option (Lower PUnit) → Lower PUnit
  | some body => do
    body
    notSupported loc "finally"
  | none => pure ()

lemma tryCode_proceeds {block : Lower PUnit} {handler : Option HandlerCode}
    {finalizer : Option (Lower PUnit)} (proceeds : Proceeds block)
    (handles : ∀ h ∈ handler, Proceeds h.body) (finalizes : ∀ body ∈ finalizer, Proceeds body)
    (loc : Location) : Proceeds (tryCode loc block handler finalizer) := by
  intro s sound
  refine region_step proceeds sound fun onCatch done s1 moves1 => ?_
  have last (t : Lowering) (moves : s.Moves t { leaves := true }) :
      Runs (finallyCode loc finalizer) t fun _ s' => s.Moves s' { leaves := true } := by
    cases finalizer with
    | some body =>
      refine (finalizes body rfl t moves.sound).step fun _ t1 more => ?_
      exact (notSupported_reports more.sound loc _).mono fun _ _ reports =>
        (moves.andThen more).andThen reports.1.moves
    | none => exact .pure moves
  have ends (t : Lowering)
      (moves : s.Moves t { made := [done], settled := [onCatch], owed := [done, onCatch],
                           leaves := true }) :
      Runs (do
        place done
        finallyCode loc finalizer) t fun _ s' => s.Moves s' { leaves := true } :=
    (place_places moves.sound (moves.made done (by simp)).1).step fun _ t1 places =>
      last t1 ((moves.place places.1).close (by simp) knows_nil)
  refine (place_places moves1.sound (moves1.made onCatch (by simp)).1).step ?_
  rintro _ s2 ⟨places, _⟩
  have moves2 := moves1.place places
  cases handler with
  | some h =>
    exact (handlerCode_proceeds (handles h rfl) s2 moves2.sound).step fun _ s3 handled =>
      ends s3 (moves2.andThen handled)
  | none =>
    exact (rethrow_proceeds s2 moves2.sound).step fun _ s3 thrown => ends s3 (moves2.andThen thrown)

end Lowering
end Scriptc
