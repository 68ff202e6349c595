import Scriptc.Proofs.Lowering.Assignments

/-!
# Literals of lowered code

The code of an array or object literal makes the object and then puts its parts, each evaluated when
its turn comes.
-/

namespace Scriptc

lemma Lowered.Spec.weaken {V : Type} {rt : Runtime V} {e : Lowered} {covered fewer : Prop}
    {eval : Action V V} (spec : e.Spec rt covered eval) (stronger : fewer → covered) :
    e.Spec rt fewer eval where
  runs d s sound labels := (spec.runs d s sound labels).mono fun _ _ ⟨moves, executes⟩ =>
    ⟨moves, fun known => executes (stronger known)⟩
  simple known := spec.simple (stronger known)

namespace Lowering

variable {V : Type} {rt : Runtime V} {s s' s'' : Lowering}

/-- Whether the code of a step does a computation and goes on behind it. -/
structure Computes {α : Type} (rt : Runtime V) (s s' : Lowering)
    (eval : Context V → Memory V → Evaluation V α) (post : α → Memory V → Prop) : Prop where
  follows : s.Follows s'
  performs : ∀ (ctx : Context V) (m : Memory V), s'.Suits ctx m →
    s'.Performs rt s.InUse ⟨s.point, m⟩ (eval ctx m m.world) (fun _ => s'.point) post

namespace Computes

variable {α β : Type} {eval : Context V → Memory V → Evaluation V α}
  {post : α → Memory V → Prop}

lemma pure (sound : s.Sound) {a : α} (holds : ∀ m, post a m) :
    s.Computes rt s (fun _ _ => Pure.pure a) post where
  follows := sound.follows
  performs _ m _ := .stays sound (holds m)

lemma quiet (computes : s.Computes rt s' eval post) {l : Ledger} (moves : s'.Moves s'' l)
    (quiet : s'.Quiet s'') : s.Computes rt s'' eval post where
  follows := computes.follows.trans (moves.follows quiet)
  performs ctx m suits := by
    have follows := moves.follows quiet
    rw [quiet.point]
    exact (computes.performs ctx m (suits.back follows)).later follows

lemma after (computes : s'.Computes rt s'' eval post) {l : Ledger} (moves : s.Moves s' l)
    (nothing : l.taken = []) (quiet : s.Quiet s') : s.Computes rt s'' eval post where
  follows := (moves.follows quiet).trans computes.follows
  performs ctx m suits := by
    rw [← quiet.point]
    exact (computes.performs ctx m suits).within fun _ => moves.still_inUse nothing

lemma andThen (first : s.Computes rt s' eval post)
    {next : Context V → Memory V → α → Evaluation V β} {last : β → Memory V → Prop}
    (follows : s'.Follows s'')
    (second : ∀ (ctx : Context V) (m0 m : Memory V) (a : α), s''.Suits ctx m →
      m0.Same s.InUse m → post a m →
        s''.Performs rt s.InUse ⟨s'.point, m⟩ (next ctx m0 a m.world) (fun _ => s''.point) last) :
    s.Computes rt s'' (fun ctx m => eval ctx m >>= next ctx m) last where
  follows := first.follows.trans follows
  performs ctx m suits := by
    refine ((first.performs ctx m (suits.back follows)).later follows).bind ?_
    intro a m' _ same holds
    exact second ctx m m' a (suits.same same) same holds

end Computes

lemma putValue_step {e : Lowered} {covered : Prop} {eval : Action V V}
    (spec : e.Spec rt covered eval) (sound : s.Sound) {id : LocalId} (used : s.InUse id)
    {key : Operand} (key_ready : s.Ready key)
    (leaves : covered → ∀ s', s.Follows s' → s'.Leaves eval [key]) {β : Type}
    {next : Operand → Lower β} {last : β → Lowering → Prop}
    (rest : ∀ a s', s.Moves s' { given := [a] } → (covered → s.Computes rt s' (fun ctx m => do
        let x ← eval ctx
        let _ ← Evaluation.ask rt (.put (m.cells id) (m.read rt key) x)) fun _ _ => True) →
      Runs (next a) s' last) :
    Runs (do
      let value ← e.value
      push (.put (.cell id) key value)
      next value) s last := by
  refine (spec.value sound).step fun a s1 ⟨done, executes⟩ => ?_
  have object_ready := sound.ready_inUse used
  have still (b : Operand) (ready : s.Ready b) : s1.Ready b := done.still_ready ready (by simp)
  refine (put_spec rt done.sound (still _ object_ready) (still _ key_ready)
    (done.ready (by simp))).step ?_
  rintro - s2 ⟨put, follows, puts⟩
  refine rest a s2 (done.andThen put) fun known => ?_
  have executes := executes known
  refine ⟨executes.follows.trans follows, fun ctx m suits => ?_⟩
  have both_ready : ∀ b ∈ [.cell id, key], s.Ready b := by simpa using ⟨object_ready, key_ready⟩
  have held := (executes.holding both_ready (fun ctx' m' suits' v mem =>
    leaves known s1 executes.follows ctx' m' suits' v (by simpa using mem)) ctx m
    (suits.back follows)).later follows
  refine held.bind fun x m1 _ _ ⟨value_read, kept⟩ => ?_
  have last := puts m1
  rw [show m1.read rt a = x from value_read, kept key (by simp), kept (.cell id) (by simp)] at last
  exact ((last.mono (fun _ _ => trivial) fun _ _ _ _ _ => trivial).bind fun _ m2 _ _ _ =>
    .stays put.sound trivial)

def PutsElements (rt : Runtime V) (elements : List (Option Lowered)) (covered : Prop)
    (eval : V → Nat → Action V PUnit) : Prop :=
  ∀ (id : LocalId) (index : Nat) (s : Lowering), s.Sound → s.InUse id →
    Runs (putElements (.cell id) index elements) s fun _ s' => s.Moves s' {} ∧
      (covered → s.Computes rt s' (fun ctx m => eval (m.cells id) index ctx) fun _ _ => True)

namespace PutsElements

variable {e : Lowered} {rest : List (Option Lowered)} {covered coversRest : Prop}
  {eval : Action V V} {evalRest : V → Nat → Action V PUnit}

lemma nil : PutsElements rt [] covered fun _ _ _ => pure () := fun _ _ _ sound _ =>
  Runs.pure ⟨.refl sound, fun _ => .pure sound fun _ => trivial⟩

lemma hole (puts : PutsElements rt rest covered evalRest) :
    PutsElements rt (none :: rest) covered fun array index => evalRest array (index + 1) :=
  fun id index s sound used => puts id (index + 1) s sound used

lemma cons (spec : e.Spec rt covered eval) (puts : PutsElements rt rest coversRest evalRest)
    (plain : covered → e.expr.isSpread = false) :
    PutsElements rt (some e :: rest) (covered ∧ coversRest) (fun array index ctx => do
      let x ← eval ctx
      let _ ← Evaluation.ask rt (.put array (rt.ofConstant (.number (Float.ofNat index))) x)
      evalRest array (index + 1) ctx) := by
  intro id index s sound used
  rw [putElements]
  cases spread : e.expr.isSpread with
  | true =>
    refine (spec.discard sound).step fun _ s1 ⟨discarded, _⟩ => ?_
    refine (puts id (index + 1) s1 discarded.sound (discarded.still_inUse rfl used)).mono ?_
    rintro - s2 ⟨moves, -⟩
    exact ⟨discarded.andThen moves, fun known => by simp [plain known.1] at spread⟩
  | false =>
    have key_ready : s.Ready (.ofNumber (Float.ofNat index)) :=
      ⟨holds_constant s _, by simp [Operand.ofNumber]⟩
    refine putValue_step spec sound used key_ready
      (fun _ _ _ _ _ _ _ mem => by simp [Operand.ofNumber] at mem) fun a s1 put computes => ?_
    refine (release_moves put.sound (put.ready (by simp)).inUse).step ?_
    rintro - s2 ⟨freed, quiet⟩
    have moves2 := put.andThen freed
    refine (puts id (index + 1) s2 moves2.sound (moves2.still_inUse rfl used)).mono ?_
    rintro - s3 ⟨moves3, computes3⟩
    refine ⟨moves2.andThen moves3, fun known => ?_⟩
    have first := (computes known.1).quiet freed quiet
    have second := computes3 known.2
    have whole := first.andThen second.follows fun ctx m0 m _ suits same _ => by
      have object := same.cells id used
      have last := second.performs ctx m suits
      rw [object] at last
      exact last.mono (fun other used => moves2.still_inUse rfl used) fun _ _ _ _ _ => trivial
    refine ⟨whole.follows, fun ctx m suits => ?_⟩
    have performs := whole.performs ctx m suits
    simp only [bind_assoc, pure_bind] at performs
    exact performs

end PutsElements

lemma filledValue_gives (i : Operand → Instruction) (event : Event V)
    (operands : ∀ dest, (i dest).operands = [dest])
    (refers : ∀ s user dest, Lowering.Refers s user (i dest))
    (fills : ∀ id, (i (.cell id)).Fills id)
    (performs : ∀ (m : Memory V) dest, m.perform rt (i dest) = some (m.ask rt event [dest]))
    {code : Operand → Lower PUnit} {covered : Prop} {eval : V → Action V PUnit}
    (runs : ∀ (id : LocalId) (s : Lowering), s.Sound → s.InUse id →
      Runs (code (.cell id)) s fun _ s' => s.Moves s' {} ∧
        (covered → s.Computes rt s' (fun ctx m => eval (m.cells id) ctx) fun _ _ => True)) :
    Gives rt (do
      let dest ← allocTemp
      push (i dest)
      code dest
      pure dest) covered (fun ctx => do
        let object ← Evaluation.request rt event
        eval object ctx
        pure object) := by
  intro s sound
  refine (allocTemp_moves sound).step ?_
  rintro _ s1 ⟨⟨id, rfl⟩, fresh, quiet⟩
  have fits : s1.InstructionFits s1.frame.routine (i (.cell id)) := by
    refine ⟨fun a mem => ?_, refers _ _ _, by simp [(fills id).dests, Operand.isPlace]⟩
    obtain rfl : a = .cell id := by simpa [operands] using mem
    exact fresh.fits (by simp)
  refine push_step fresh.sound ?_
  obtain ⟨made, makes⟩ := acts_appended rt fresh quiet fits (fills id) fun m =>
    performs m (.cell id)
  have used := (made.ready (by simp)).inUse id rfl
  refine (runs id _ made.sound used).step ?_
  rintro _ s3 ⟨filled, computes⟩
  refine .pure ⟨made.andThen filled, fun known => ?_⟩
  have computes := computes known
  refine ⟨makes.follows.trans computes.follows, fun ctx m suits => ?_⟩
  have first := (makes.performs ctx m (suits.back computes.follows)).later computes.follows
  refine (first.within fun _ used => ⟨used, by simp⟩).bind ?_
  rintro x m1 - same x_read
  have held : m1.cells id = x := x_read
  have second := computes.performs ctx m1 (suits.same same)
  have kept := second.mono (fun _ used => used) fun _ m2 _ same2 _ => same2.cells id used
  rw [held] at kept
  exact (kept.within fun _ => made.still_inUse rfl).bind
    fun _ m2 _ _ read => .stays filled.sound read

lemma arrayValue_gives {es : List (Option Lowered)} {covered : Prop}
    {eval : V → Nat → Action V PUnit} (puts : PutsElements rt es covered eval) :
    Gives rt (arrayValue es) covered (fun ctx => do
      let array ← Evaluation.request rt (.newArray es.length)
      eval array 0 ctx
      pure array) :=
  filledValue_gives (.newArray · es.length) (.newArray es.length) (fun _ => rfl)
    (fun _ _ _ => trivial) (fun _ => ⟨rfl, rfl, rfl⟩) (fun _ _ => rfl) fun id s sound used =>
      puts id 0 s sound used

def PutsMembers (rt : Runtime V) (members : List LiteralMember) (covered : Prop)
    (eval : V → Action V PUnit) : Prop :=
  ∀ (id : LocalId) (s : Lowering), s.Sound → s.InUse id →
    Runs (putMembers (.cell id) members) s fun _ s' => s.Moves s' {} ∧
      (covered → s.Computes rt s' (fun ctx m => eval (m.cells id) ctx) fun _ _ => True)

lemma objectValue_gives {ms : List LiteralMember} {covered : Prop}
    {eval : V → Action V PUnit} (puts : PutsMembers rt ms covered eval) :
    Gives rt (objectValue ms) covered (fun ctx => do
      let object ← Evaluation.request rt .newObject
      eval object ctx
      pure object) :=
  filledValue_gives .newObject .newObject (fun _ => rfl) (fun _ _ _ => trivial)
    (fun _ => ⟨rfl, rfl, rfl⟩) (fun _ _ => rfl) puts

/-- Whether the code of a value leaves what the code of a key before it returns. -/
def Spares (key : Lowered) (evalValue : Action V V) : Prop :=
  ∀ s : Lowering, s.Sound → Runs key.value s fun k s' =>
    ∀ s'', s'.Follows s'' → s''.Leaves evalValue [k]

namespace PutsMembers

variable {rest : List LiteralMember} {coversRest : Prop}
  {evalRest : V → Action V PUnit}

lemma nil {covered : Prop} : PutsMembers rt [] covered fun _ _ => pure () := fun _ _ sound _ =>
  Runs.pure ⟨.refl sound, fun _ => .pure sound fun _ => trivial⟩

lemma refused {m : LiteralMember} {covered : Prop} {eval : V → Action V PUnit}
    (puts : PutsMembers rt rest coversRest evalRest)
    (runs : ∀ (a : Operand) (s : Lowering), s.Sound → Runs (putMember a m) s fun _ s' =>
      s.Moves s' {})
    (never : ¬covered) : PutsMembers rt (m :: rest) covered eval := by
  intro id s sound used
  refine (runs (.cell id) s sound).step fun _ s1 moves1 => ?_
  refine (puts id s1 moves1.sound (moves1.still_inUse rfl used)).mono fun _ s2 ⟨moves2, _⟩ => ?_
  exact ⟨moves1.andThen moves2, fun known => absurd known never⟩

end PutsMembers

section

variable {key value : Lowered} {computed : Bool} {coversKey coversValue : Prop}
  {evalKey evalValue : Action V V}

def KeyCovered (key : Lowered) (computed : Bool) (coversKey : Prop)
    (evalValue : Action V V) : Prop :=
  if computed then coversKey ∧ Spares key evalValue else key.expr.plainKey?.isSome = true

def keyOf (rt : Runtime V) (key : Lowered) (computed : Bool)
    (evalKey : Action V V) (ctx : Context V) : Evaluation V V :=
  if computed then evalKey ctx
  else pure (rt.ofConstant (.text (key.expr.plainKey?.getD "")))

lemma literalKey_step (spec : key.Spec rt coversKey evalKey) (sound : s.Sound)
    (evalValue : Action V V) {β : Type}
    {next : Option Operand → Lower β} {last : β → Lowering → Prop}
    (refused : ∀ s', s.Moves s' {} → ¬KeyCovered key computed coversKey evalValue →
      Runs (next none) s' last)
    (rest : ∀ k s', s.Moves s' { given := [k] } → (KeyCovered key computed coversKey evalValue →
        s.Executes rt s' .value k (keyOf rt key computed evalKey) ∧
          ∀ s'', s'.Follows s'' → s''.Leaves evalValue [k]) → Runs (next (some k)) s' last) :
    Runs (literalKey key computed >>= next) s last := by
  rw [literalKey]
  cases computed with
  | true =>
    simp only [if_true, bind_assoc, pure_bind]
    obtain ⟨k, s1, run, moves, executes⟩ := spec.value sound
    refine .bind ⟨k, s1, run, rest k s1 moves fun known => ?_⟩
    refine ⟨?_, (known.2 s sound).holds_of_run run⟩
    exact executes known.1
  | false =>
    simp only [Bool.false_eq_true, if_false]
    cases plain : key.expr.plainKey? with
    | none =>
      simp only [bind_assoc, pure_bind]
      refine (error_reports sound _ _).step fun _ s1 ⟨reports, _⟩ => ?_
      exact refused s1 reports.moves (by simp [KeyCovered, plain])
    | some name =>
      have given : s.Moves s { given := [.ofText name] } := (Moves.refl sound).give_constant _
      refine rest _ s given fun _ => ⟨given.executes (.refl s) fun ctx m _ => ?_, ?_⟩
      · simp only [keyOf, Bool.false_eq_true, if_false, plain, Option.getD_some]
        rfl
      · intro s'' _ ctx m _ v mem
        simp [Operand.ofText] at mem

lemma putProperty_step {s0 : Lowering} (spec : value.Spec rt coversValue evalValue) {k : Operand}
    (moves : s0.Moves s { given := [k] }) {id : LocalId} (used : s.InUse id) {known : Prop}
    (leaves : known → ∀ s', s.Follows s' → s'.Leaves evalValue [k]) {β : Type} {next : Lower β}
    {last : β → Lowering → Prop}
    (rest : ∀ s', s0.Moves s' {} → (known ∧ coversValue → s.Computes rt s' (fun ctx m => do
        let x ← evalValue ctx
        let _ ← Evaluation.ask rt (.put (m.cells id) (m.read rt k) x)) fun _ _ => True) →
      Runs next s' last) :
    Runs (do
      let value ← value.value
      push (.put (.cell id) k value)
      release k
      release value
      next) s last := by
  have weaker : value.Spec rt (known ∧ coversValue) evalValue := spec.weaken And.right
  refine putValue_step weaker moves.sound used (moves.ready (by simp))
    (fun both => leaves both.1) fun a s1 put computes => ?_
  have both := moves.andThen put
  have swapped := both.reorder (.swap _ _ _)
  refine (release_moves both.sound (both.ready (by simp)).inUse).step ?_
  rintro - s2 ⟨freed, quiet2⟩
  have moves2 : s0.Moves s2 { given := [a] } := swapped.andThen freed
  refine (release_moves moves2.sound (moves2.ready (by simp)).inUse).step ?_
  rintro - s3 ⟨dropped, quiet3⟩
  exact rest s3 (moves2.andThen dropped) fun covered =>
    ((computes covered).quiet freed quiet2).quiet dropped quiet3

lemma PutsMembers.property {rest : List LiteralMember} {coversRest : Prop}
    {evalRest : V → Action V PUnit} (key_spec : key.Spec rt coversKey evalKey)
    (value_spec : value.Spec rt coversValue evalValue)
    (puts : PutsMembers rt rest coversRest evalRest) (loc : Location) (kind : PropertyKind) :
    PutsMembers rt (.property loc key value kind computed :: rest)
      (kind = .init ∧ coversValue ∧ coversRest ∧ KeyCovered key computed coversKey evalValue)
      (fun object ctx => do
        let k ← keyOf rt key computed evalKey ctx
        let x ← evalValue ctx
        let _ ← Evaluation.ask rt (.put object k x)
        evalRest object ctx) := by
  intro id s sound used
  rw [putMembers, putMember]
  by_cases init : kind = .init
  · simp only [init, ne_eq, not_true_eq_false, if_false, bind_assoc]
    refine literalKey_step key_spec sound evalValue (fun s1 moves1 never => ?_) ?_
    · refine (puts id s1 moves1.sound (moves1.still_inUse rfl used)).mono fun _ s2 ⟨moves2, _⟩ => ?_
      exact ⟨moves1.andThen moves2, fun known => absurd known.2.2.2 never⟩
    intro k s1 moves1 evaluates
    simp only [bind_assoc]
    have used1 := moves1.still_inUse rfl used
    refine putProperty_step value_spec moves1 used1 (fun known => (evaluates known).2) ?_
    intro s3 moves3 computes
    refine (puts id s3 moves3.sound (moves3.still_inUse rfl used)).mono fun _ s4
      ⟨moves4, rest⟩ => ?_
    refine ⟨moves3.andThen moves4, fun ⟨_, value_known, rest_known, key_known⟩ => ?_⟩
    have executes := (evaluates key_known).1
    have second := computes ⟨key_known, value_known⟩
    have third := rest rest_known
    have later := second.follows.trans third.follows
    refine ⟨executes.follows.trans later, fun ctx m suits => ?_⟩
    refine ((executes.performs ctx m (suits.back later)).later later).bind ?_
    intro x m1 _ same1 x_read
    have object := same1.cells id used
    have puts1 := (second.performs ctx m1 ((suits.back third.follows).same same1)).later
      third.follows
    rw [object, show m1.read rt k = x from x_read] at puts1
    have kept := puts1.within fun _ => moves1.still_inUse rfl
    have order : (do
        let y ← evalValue ctx
        let _ ← Evaluation.ask rt (.put (m.cells id) x y)
        evalRest (m.cells id) ctx) = ((do
          let y ← evalValue ctx
          let _ ← Evaluation.ask rt (.put (m.cells id) x y)) >>= fun _ =>
            evalRest (m.cells id) ctx) := by
      simp only [bind_assoc, pure_bind]
    rw [order]
    refine kept.bind fun _ m2 _ same2 _ => ?_
    have object2 := (same2.cells id used).trans object
    have last := third.performs ctx m2 ((suits.same same1).same same2)
    rw [object2] at last
    exact last.mono (fun id used => moves3.still_inUse rfl used) fun _ _ _ _ _ => trivial
  · simp only [ne_eq, init, not_false_eq_true, if_true]
    refine (notSupported_reports sound loc _).step fun _ s1 ⟨reports, _⟩ => ?_
    refine (puts id s1 reports.moves.sound (reports.moves.still_inUse rfl used)).mono ?_
    rintro - s2 ⟨moves2, -⟩
    exact ⟨reports.moves.andThen moves2, fun known => known.1.elim⟩

end

end Lowering
end Scriptc
