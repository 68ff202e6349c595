import Scriptc.Proofs.Lowering.Operators

/-!
# Places of lowered code

The parts of a member are evaluated once and kept while the code after it runs. What is read from
the evaluated place and written to it is what the place of the expression holds.
-/

namespace Scriptc

open Lowering Target Evaluation Instruction List Operand

namespace Evaluation

variable {V : Type} {rt : Runtime V} {event : Event V} {w w' : World V} {object key value : Operand}

lemma ask_variables {value : Nat → V} (run : ask rt event w = .ok value w') : w'.vars = w.vars := by
  rw [ask] at run
  split at run
  · rw [← (EStateM.Result.ok.inj run).2]
    rfl
  · cases run

lemma request_variables {x : V} (run : request rt event w = .ok x w') : w'.vars = w.vars := by
  cases asked : ask rt event w with
  | ok value middle =>
    have whole : request rt event w = .ok (value 0) middle := by
      simp [request, bind, EStateM.bind, asked, pure, EStateM.pure]
    rw [← (EStateM.Result.ok.inj (whole.symm.trans run)).2]
    exact ask_variables asked
  | error stop middle => simp [request, bind, EStateM.bind, asked] at run

end Evaluation

namespace Target

variable {V : Type} (rt : Runtime V)

def operands : Target → List Operand
  | stored v | readOnly v => [v]
  | member object key => [key, object]
  | invalid => []

def parts : Target → List Operand
  | member object key => [key, object]
  | stored _ | readOnly _ | invalid => []

lemma parts_subset {t : Target} {a : Operand} (mem : a ∈ t.parts) : a ∈ t.operands := by
  cases t <;> first | exact mem | cases mem

/-- Whether a place that can be written and is no member is a variable that is marked as
assigned. -/
def IsPlace (s : Lowering) (t : Target) : Prop :=
  ∀ v, t = .stored v → ∃ id, v = .var id ∧ s.Assigned id

lemma IsPlace.extends {s s' : Lowering} {t : Target} (place : t.IsPlace s)
    (extended : s.Extends s') : t.IsPlace s' := fun v same =>
  (place v same).imp fun _ ⟨variable_eq, assigned⟩ => ⟨variable_eq, extended.assigned assigned⟩

def readIn (m : Memory V) : Target → Evaluation V V
  | stored v | readOnly v => pure (m.read rt v)
  | member object key => Evaluation.request rt (.get (m.read rt object) (m.read rt key))
  | invalid => pure rt.undefined

def writeIn (m : Memory V) (x : V) : Target → Evaluation V PUnit
  | stored (.var id) => modify (·.assign id x)
  | member object key => do
    let _ ← Evaluation.ask rt (.put (m.read rt object) (m.read rt key) x)
  | _ => pure ()

lemma readIn_variables {t : Target} {m : Memory V} {w w' : World V} {x : V}
    (run : t.readIn rt m w = .ok x w') : w'.vars = w.vars := by
  cases t with
  | stored | readOnly | invalid => rw [← (EStateM.Result.ok.inj run).2]
  | member object key => exact request_variables run

def assignIn (m : Memory V) (x : V) (t : Target) : Evaluation V V := do
  t.writeIn rt m x
  pure x

def holder (t : Target) (value : Operand) : Operand :=
  if value.isConstant then value
  else
    match t with
    | stored v => v
    | _ => value

/-- Whether an evaluated place is that of an expression. -/
inductive Denotes (ctx : Context V) (m : Memory V) : Target → Site V → Prop
  | stored {name : String} {id : VariableId} (means : ctx.names name = .stored id false) :
      Denotes ctx m (.stored (.var id)) (.name name)
  | readOnly {name : String} {id : VariableId} (means : ctx.names name = .stored id true) :
      Denotes ctx m (.readOnly (.var id)) (.name name)
  | constant {name : String} {c : Constant} (means : ctx.names name = .constant c) :
      Denotes ctx m (.readOnly (.constant c)) (.name name)
  | member {object key : Operand} {x k : V} (object_read : m.read rt object = x)
      (key_read : m.read rt key = k) : Denotes ctx m (.member object key) (.member x k)

namespace Denotes

variable {rt} {ctx : Context V} {m m' : Memory V} {t : Target} {site : Site V}

lemma same (denotes : t.Denotes rt ctx m site)
    (parts : ∀ a ∈ t.parts, m'.read rt a = m.read rt a) : t.Denotes rt ctx m' site := by
  cases denotes with
  | stored means => exact .stored means
  | readOnly means => exact .readOnly means
  | constant means => exact .constant means
  | @member object key x k object_read key_read =>
    exact .member ((parts object (by simp [Target.parts])).trans object_read)
      ((parts key (by simp [Target.parts])).trans key_read)

lemma read (denotes : t.Denotes rt ctx m site) :
    Evaluation.read rt ctx site m.world = t.readIn rt m m.world := by
  cases denotes with
  | stored means =>
    simp only [Evaluation.read, means]
    rfl
  | readOnly means =>
    simp only [Evaluation.read, means]
    rfl
  | constant means =>
    simp only [Evaluation.read, means]
    rfl
  | member object_read key_read => rw [Evaluation.read, Target.readIn, object_read, key_read]

lemma write (denotes : t.Denotes rt ctx m site) (x : V) :
    Evaluation.write rt ctx x site = t.writeIn rt m x := by
  cases denotes with
  | stored means | readOnly means | constant means =>
    simp only [Evaluation.write, means, Target.writeIn]
  | member object_read key_read => rw [Evaluation.write, Target.writeIn, object_read, key_read]

end Denotes

end Target

namespace Lowering

variable {V : Type} (rt : Runtime V) {s s' s'' : Lowering}

/-- Whether the code of a step evaluates a place. -/
structure Reaches (s s' : Lowering) (t : Target)
    (evalSite : Action V (Site V)) : Prop where
  follows : s.Follows s'
  performs : ∀ (ctx : Context V) (m : Memory V), s'.Suits ctx m →
    s'.Performs rt s.InUse ⟨s.point, m⟩ (evalSite ctx m.world) (fun _ => s'.point) fun site m' =>
      t.Denotes rt ctx m' site

lemma instructionFits_get {user : RoutineId} {dest : Operand} (dest_fits : s.FitsIn user dest)
    (object_fits : s.FitsIn user object) (key_fits : s.FitsIn user key)
    (place : dest.isPlace = true) : s.InstructionFits user (.get dest object key) := by
  refine ⟨fun a mem => ?_, trivial, by simp [dests, place]⟩
  simp only [Instruction.operands, List.mem_cons, List.not_mem_nil, or_false] at mem
  rcases mem with rfl | rfl | rfl
  · exact dest_fits
  · exact object_fits
  · exact key_fits

lemma instructionFits_put {user : RoutineId} (object_fits : s.FitsIn user object)
    (key_fits : s.FitsIn user key) (value_fits : s.FitsIn user value) :
    s.InstructionFits user (.put object key value) := by
  refine ⟨fun a mem => ?_, trivial, by simp [dests]⟩
  simp only [Instruction.operands, List.mem_cons, List.not_mem_nil, or_false] at mem
  rcases mem with rfl | rfl | rfl
  · exact object_fits
  · exact key_fits
  · exact value_fits

lemma put_spec (sound : s.Sound) (object_ready : s.Ready object) (key_ready : s.Ready key)
    (value_ready : s.Ready value) :
    Runs (push (.put object key value)) s fun _ s' => s.Moves s' {} ∧ s.Follows s' ∧
      ∀ m : Memory V, s'.Performs rt (fun _ => True) ⟨s.point, m⟩
        (ask rt (.put (m.read rt object) (m.read rt key) (m.read rt value)) m.world)
        (fun _ => s'.point) fun _ m' => ∀ a, m'.read rt a = m.read rt a := by
  refine (push_moves sound (instructionFits_put object_ready.holds.1 key_ready.holds.1
    value_ready.holds.1) rfl (by simp [dests])
    (by simp [touched, dests])).mono ?_
  rintro - _ ⟨moves, rfl⟩
  refine ⟨moves, ⟨sound, moves.keeps.toExtends, moves.keeps.steady rfl⟩, fun m => ?_⟩
  have performs : m.perform rt (.put object key value) = some (m.ask rt
      (.put (m.read rt object) (m.read rt key) (m.read rt value)) (map .cell [])) := rfl
  have asks := performs_asked rt sound [] (fun _ => True) performs (by simp)
  refine asks.mono (fun _ keep => keep) fun value m' _ _ written a => ?_
  rw [written]
  cases a <;> rfl

section

variable (sound : s.Sound) {t : Target} (ready : ∀ a ∈ t.operands, s.Ready a)
include sound ready

lemma read_spec (place : t.IsPlace s) (kind : ∀ v, t = .readOnly v → ∀ id, v ≠ .cell id) :
    Runs t.read s fun a s' => s.Moves s' { given := [a] } ∧
      s.Acts rt s' [] .value a fun _ m => t.readIn rt m := by
  have same (a : Operand) : s.Acts rt s [] .value a fun _ m => pure (m.read rt a) :=
    ⟨sound.follows, fun ctx m _ => (settles_same rt sound).performs m⟩
  cases t with
  | stored v =>
    obtain ⟨id, rfl, -⟩ := place v rfl
    exact Runs.pure ⟨(Moves.refl sound).give (by simp) (ready _ (by simp [Target.operands])).holds,
      same _⟩
  | readOnly v =>
    exact Runs.pure ⟨(Moves.refl sound).give (kind v rfl)
      (ready _ (by simp [Target.operands])).holds, same v⟩
  | invalid => exact Runs.pure ⟨(Moves.refl sound).give_constant _, same .undefined⟩
  | member object key =>
    refine (allocTemp_moves sound).step ?_
    rintro _ s1 ⟨⟨id, rfl⟩, fresh, quiet⟩
    have fits (a : Operand) (mem : a ∈ [key, object]) : s1.Fits a :=
      fresh.keeps.fits (ready a mem).holds.1
    have dest_fits : s1.Fits (.cell id) := fresh.fits (by simp)
    have get_fits := instructionFits_get dest_fits (fits object (by simp)) (fits key (by simp)) rfl
    refine push_step fresh.sound ?_
    exact .pure (acts_appended rt fresh quiet get_fits ⟨rfl, rfl, rfl⟩ fun m => rfl)

lemma write_spec (place : t.IsPlace s) (value_ready : s.Ready value) :
    Runs (t.write value) s fun _ s' => s.Moves s' {} ∧ s.Follows s' ∧
      ∀ m : Memory V, s'.Performs rt (fun _ => True) ⟨s.point, m⟩
        (t.writeIn rt m (m.read rt value) m.world) (fun _ => s'.point) fun _ m' =>
          m'.read rt (t.holder value) = m.read rt value ∧ m'.read rt value = m.read rt value ∧
            ∀ a, (∀ v, a ≠ .var v) → m'.read rt a = m.read rt a := by
  cases t with
  | stored v =>
    obtain ⟨id, rfl, assigned⟩ := place v rfl
    have dest_ready := ready (.var id) (by simp [Target.operands])
    refine (assign_does rt (.refl sound) dest_ready.holds.1 value_ready.holds.1 rfl
      (by rintro _ ⟨rfl⟩; exact assigned) (by simp)).mono ?_
    rintro - s' ⟨moves, does⟩
    refine ⟨moves, does.follows, fun m => ?_⟩
    refine ⟨_, does.goes m, rfl, .write_var _ m id _, ?_, ?_, fun a other => ?_⟩
    · rw [holder]
      split
      next constant =>
        obtain ⟨c, known⟩ := Option.isSome_iff_exists.mp constant
        rw [constant?_eq_some.mp known]
        rfl
      next => exact m.read_write_var id _
    · by_cases same : value = .var id
      · rw [same]
        exact m.read_write_var id _
      · cases value with
        | var v =>
          have ne : v ≠ id := fun here => same (here ▸ rfl)
          exact Function.update_of_ne ne _ _
        | cell | param | slot | constant => rfl
    · cases a <;> first | rfl | exact absurd rfl (other _)
  | readOnly v =>
    refine .pure ⟨.refl sound, sound.follows, fun m => ?_⟩
    refine ⟨m, .refl sound.point_outside, rfl, .refl _ m, ?_, rfl, fun _ _ => rfl⟩
    simp [holder]
  | invalid =>
    refine .pure ⟨.refl sound, sound.follows, fun m => ?_⟩
    refine ⟨m, .refl sound.point_outside, rfl, .refl _ m, ?_, rfl, fun _ _ => rfl⟩
    simp [holder]
  | member object key =>
    refine (put_spec rt sound (ready object (by simp [Target.operands]))
      (ready key (by simp [Target.operands])) value_ready).mono ?_
    rintro - s' ⟨moves, follows, puts⟩
    refine ⟨moves, follows, fun m => ?_⟩
    refine (puts m).bind fun x m' _ _ kept => ?_
    refine .stays moves.sound ⟨?_, kept value, fun a _ => kept a⟩
    simp [holder, kept]

lemma releaseTarget_moves (apart : t.operands.Pairwise Apart) :
    Runs t.release s fun _ s' => s.Moves s' { taken := t.operands } ∧ s.Quiet s' := by
  cases t with
  | stored v | readOnly v => exact release_moves sound (ready v (by simp [Target.operands])).inUse
  | invalid => exact .pure ⟨.refl sound, .refl s⟩
  | member object key =>
    have away : key.Apart object := by simpa [Target.operands] using apart
    have object_ready := ready object (by simp [Target.operands])
    refine (release_moves sound object_ready.inUse).step fun _ s1 ⟨first, quiet1⟩ => ?_
    have key_ready := first.still_ready (ready key (by simp [Target.operands]))
      fun id here => by simpa using fun same => away id here same.symm
    refine (release_moves first.sound key_ready.inUse).mono fun _ s2 ⟨second, quiet2⟩ => ?_
    exact ⟨first.take second (by simp), quiet1.trans quiet2⟩

end

lemma assignedValue_moves (sound : s.Sound) {t : Target}
    (ready : ∀ a ∈ value :: t.operands, s.Ready a) (apart : (value :: t.operands).Pairwise Apart)
    (place : t.IsPlace s) (needed : Bool) : Runs (t.assignedValue value needed) s fun a s' =>
      s.Moves s' { taken := value :: t.operands, given := [a] } ∧ s.Quiet s' ∧
        (needed = true → a = t.holder value) := by
  obtain ⟨away, apart⟩ := pairwise_cons.mp apart
  have value_ready := ready value (by simp)
  have elsewhere {id : LocalId} (here : .cell id ∈ t.operands) : .cell id ∉ [value] := fun there =>
    away _ here id (mem_singleton.mp there).symm rfl
  -- The value is released, and another operand that is no temporary is the result.
  have freed (result : Operand) (kind : ∀ id, result ≠ .cell id)
      (holds : ∀ s', s.Keeps s' → s'.Holds result)
      (same : needed = true → result = t.holder value) :
      Runs (do release value; t.release; pure result) s fun a s' =>
        s.Moves s' { taken := value :: t.operands, given := [a] } ∧ s.Quiet s' ∧
          (needed = true → a = t.holder value) := by
    refine (release_moves sound value_ready.inUse).step fun _ s1 ⟨first, quiet1⟩ => ?_
    have still : ∀ a ∈ t.operands, s1.Ready a := fun a mem =>
      first.still_ready (ready a (mem_cons_of_mem _ mem)) fun id here =>
        elsewhere (here ▸ mem)
    refine (releaseTarget_moves first.sound still apart).step fun _ s2 ⟨second, quiet2⟩ => ?_
    have moves := (first.take second (by simp)).give kind
      (holds s2 (first.keeps.trans second.keeps))
    exact .pure ⟨moves.retake (by simp [or_comm]), quiet1.trans quiet2, same⟩
  -- The value is the result.
  have kept (same : needed = true → value = t.holder value) :
      Runs (do t.release; pure value) s fun a s' =>
        s.Moves s' { taken := value :: t.operands, given := [a] } ∧ s.Quiet s' ∧
          (needed = true → a = t.holder value) := by
    refine (releaseTarget_moves sound (fun a mem => ready a (mem_cons_of_mem _ mem))
      apart).step fun _ s1 ⟨second, quiet⟩ => ?_
    have moves := (Moves.keep sound value_ready).take second fun id here => elsewhere here
    exact .pure ⟨moves.retake (by simp [or_comm]), quiet, same⟩
  unfold assignedValue
  cases needed with
  | false =>
    simpa [bind_assoc] using freed .undefined (by simp [undefined])
      (fun s' _ => holds_constant s' _) (by simp)
  | true =>
    cases constant : value.isConstant with
    | true => simpa [constant] using kept (by simp [holder, constant])
    | false =>
      cases t with
      | stored v =>
        obtain ⟨id, rfl, -⟩ := place v rfl
        have dest_ready := ready (.var id) (by simp [Target.operands])
        simpa [constant, bind_assoc] using freed (.var id) (by simp)
          (fun s' keeps => keeps.holds dest_ready.holds) (by simp [holder, constant])
      | readOnly | member | invalid => simpa [constant] using kept (by simp [holder])

end Lowering

namespace Demand

def ofNeed : Bool → Demand
  | true => .value
  | false => .effect

end Demand

namespace Lowering

variable {V : Type} (rt : Runtime V) {s s' s'' : Lowering}

lemma assignInto_spec (sound : s.Sound) {t : Target} (ready : ∀ a ∈ value :: t.operands, s.Ready a)
    (apart : (value :: t.operands).Pairwise Apart) (place : t.IsPlace s) (needed : Bool) :
    Runs (do t.write value; t.assignedValue value needed) s fun a s' =>
      s.Moves s' { taken := value :: t.operands, given := [a] } ∧
        s.Acts rt s' (value :: t.operands) (.ofNeed needed) a (fun _ m =>
          t.assignIn rt m (m.read rt value)) ∧ (needed = true → a = t.holder value) := by
  have target_ready : ∀ a ∈ t.operands, s.Ready a := fun a mem =>
    ready a (mem_cons_of_mem _ mem)
  refine (write_spec rt sound target_ready place (ready value (by simp))).step ?_
  rintro - s1 ⟨wrote, follows, writes⟩
  have still : ∀ a ∈ value :: t.operands, s1.Ready a := fun a mem =>
    wrote.still_ready (ready a mem) (by simp)
  refine (assignedValue_moves wrote.sound still apart (place.extends wrote.keeps.toExtends)
    needed).mono ?_
  rintro a s2 ⟨freed, quiet, same⟩
  have later := freed.follows quiet
  refine ⟨(wrote.take freed (by simp)).balance (by simp) (by simp) (by simp) knows_nil,
    ⟨follows.trans later, fun ctx m _ => ?_⟩, same⟩
  refine (((writes m).later later).within fun _ _ => trivial).bind ?_
  rintro - m1 - - ⟨held, -⟩
  have arrival : (Demand.ofNeed needed).arrival rt s2.point (m.read rt value) = s1.point := by
    rw [quiet.point]
    cases needed <;> rfl
  refine ⟨m1, ?_, rfl, Memory.Same.refl _ m1, ?_⟩
  · rw [arrival]
    exact Goes.refl wrote.sound.point_outside
  · cases needed with
    | false => trivial
    | true =>
      rw [same rfl]
      exact held

end Lowering

namespace MemberCode

variable {V : Type}

/-- What the code of a member access does. A key whose code is simple has no effects. -/
structure Spec (rt : Runtime V) (m : MemberCode) (coversObject coversKey : Prop)
    (evalBase evalKey : Action V V) : Prop where
  object : m.object.Spec rt coversObject evalBase
  key : Lowering.Gives rt m.evalKey coversKey evalKey
  simple : coversKey → (m.computed && !m.property.isSimple) = false →
    ∀ ctx w, ∃ v, evalKey ctx w = .ok v w

def siteOf (evalBase evalKey : Action V V) (ctx : Context V) :
    Evaluation V (Site V) := do
  let x ← evalBase ctx
  let k ← evalKey ctx
  pure (.member x k)

lemma siteOf_bind {α : Type} (evalBase evalKey : Action V V) (ctx : Context V)
    (next : V → V → Evaluation V α) :
    (do
      let x ← evalBase ctx
      let k ← evalKey ctx
      next x k) = (do
        match ← siteOf evalBase evalKey ctx with
        | .member x k => next x k
        | _ => unspecified) := by
  simp only [siteOf, bind_assoc, pure_bind]

variable {rt : Runtime V} {m : MemberCode} {coversObject coversKey : Prop}
  {evalBase evalKey : Action V V} {s : Lowering}

section

variable (spec : m.Spec rt coversObject coversKey evalBase evalKey)
include spec

lemma Spec.step (sound : s.Sound) {keep keepKey : Bool} {β : Type}
    {next : Operand → Operand → Lower β} {post : β → Lowering → Prop}
    (rest : ∀ object key s', (keep = true → ∀ v, object ≠ .var v) →
      (keepKey = true → ∀ v, key ≠ .var v) → s.Moves s' { given := [key, object] } →
      (coversObject ∧ coversKey →
        s.Reaches rt s' (.member object key) (siteOf evalBase evalKey)) →
      Runs (next object key) s' post) :
    Runs (do
      let object ← m.evalObject keep
      let key ← Lowering.pinIf keepKey (← m.evalKey)
      next object key) s post := by
  simp only [MemberCode.evalObject, bind_assoc]
  refine pinned_step rt spec.object sound fun object s1 pinned moves1 executes1 => ?_
  refine (spec.key s1 moves1.sound).step fun k s2 ⟨done, executes2⟩ => ?_
  refine (pinIf_spec rt done.sound keepKey (done.ready (by simp))).step ?_
  rintro key s3 ⟨pinned_key, held, settles⟩
  have moves2 := moves1.andThen done
  refine rest object key s3 (fun kept => pinned (by simp [kept])) pinned_key
    (moves2.andThen held) ?_
  rintro ⟨object_covered, key_covered⟩
  have executes1 := executes1 object_covered
  have executes2 := executes2 key_covered
  have later := executes2.follows.trans settles.follows
  refine ⟨executes1.follows.trans later, fun ctx mem suits => ?_⟩
  have object_ready : s1.Ready object := moves1.ready (by simp)
  have leaves : s2.Leaves evalKey [object] := by
    intro ctx' mem' _ v member x w run
    cases effects : (m.computed && !m.property.isSimple) with
    | true =>
      have same := (mem_singleton.mp member).symm
      exact absurd same (pinned (by simp [effects]) v)
    | false =>
      obtain ⟨y, unchanged⟩ := spec.simple key_covered effects ctx' mem'.world
      have world := (EStateM.Result.ok.inj (unchanged.symm.trans run)).2
      rw [world]
  have first := (executes1.performs ctx mem (suits.back later)).later later
  refine first.bind fun x m1 _ same1 x_read => ?_
  have second := (executes2.holding (by simpa using object_ready) leaves ctx m1
    ((suits.back settles.follows).same same1)).later settles.follows
  refine (second.within fun _ => moves1.still_inUse rfl).bind ?_
  rintro y m2 - same2 ⟨k_read, kept⟩
  obtain ⟨m3, goes3, world3, same3, key_read⟩ := settles.performs m2
  have object_kept : m3.read rt object = m2.read rt object := by
    refine same3.read object_ready.holds.2 (fun id here => ?_) fun v _ => by rw [world3]
    have apart : k.Apart object := by simpa using moves2.apart
    refine ⟨(moves2.ready (by simp)).inUse id here, fun taken => ?_⟩
    exact apart id (mem_singleton.mp taken).symm here
  have arrives : s3.Performs rt s.InUse ⟨s3.point, m3⟩ (.ok (.member x y) m3.world)
      (fun _ => s3.point) fun site m' => (member object key).Denotes rt ctx m' site := by
    refine .stays held.sound ?_
    exact .member (object_kept.trans ((kept object (by simp)).trans x_read))
      (Eq.trans key_read k_read)
  rw [world3] at arrives
  exact .after goes3 (same3.mono fun id used => moves2.inUse_spared rfl (by simp) used) arrives

lemma Spec.request (sound : s.Sound) (i : Operand → Operand → Operand → Instruction)
    (event : V → V → Event V)
    (operands : ∀ dest object key, (i dest object key).operands = [dest, object, key])
    (refers : ∀ s user dest object key, Refers s user (i dest object key))
    (fills : ∀ id object key, (i (.cell id) object key).Fills id)
    (performs : ∀ (mem : Memory V) dest object key, mem.perform rt (i dest object key) =
      some (mem.ask rt (event (mem.read rt object) (mem.read rt key)) [dest])) :
    Runs (do
      let object ← m.evalObject false
      let key ← m.evalKey
      let dest ← resultTemp [object, key]
      push (i dest object key)
      pure dest) s fun a s' => s.Moves s' { given := [a] } ∧ (coversObject ∧ coversKey →
        s.Executes rt s' .value a fun ctx => do
          let x ← evalBase ctx
          let k ← evalKey ctx
          Evaluation.request rt (event x k)) := by
  have steps : Runs (do
      let object ← m.evalObject false
      let key ← Lowering.pinIf false (← m.evalKey)
      let dest ← resultTemp [object, key]
      push (i dest object key)
      pure dest) s fun a s' => s.Moves s' { given := [a] } ∧ (coversObject ∧ coversKey →
        s.Executes rt s' .value a fun ctx => do
          let x ← evalBase ctx
          let k ← evalKey ctx
          Evaluation.request rt (event x k)) := by
    refine spec.step sound fun object key s1 _ _ moves1 reaches => ?_
    have swapped := moves1.reorder (.swap _ _ _)
    have ready : ∀ a ∈ [object, key], s1.Ready a := fun a member => swapped.ready member
    refine (resultTemp_moves moves1.sound ready swapped.apart).step ?_
    rintro _ s2 ⟨⟨id, rfl⟩, moves2, quiet⟩
    have fits : s2.InstructionFits s2.frame.routine (i (.cell id) object key) := by
      refine ⟨fun a member => ?_, refers _ _ _ _ _, ?_⟩
      · rw [operands, List.mem_cons] at member
        rcases member with rfl | part
        · exact moves2.fits (by simp)
        · exact moves2.keeps.fits (ready a part).holds.1
      · simp [(fills id object key).dests, isPlace]
    refine push_step moves2.sound ?_
    obtain ⟨asked, acts⟩ := acts_appended rt moves2 quiet fits (fills id object key)
      fun mem => performs mem (.cell id) object key
    refine .pure ⟨swapped.andThen asked, fun covered => ?_⟩
    have reaches := reaches covered
    refine ⟨reaches.follows.trans acts.follows, fun ctx mem suits => ?_⟩
    have first := (reaches.performs ctx mem (suits.back acts.follows)).later acts.follows
    rw [siteOf_bind evalBase evalKey ctx fun x k => Evaluation.request rt (event x k)]
    refine first.bind fun site m1 _ same denotes => ?_
    cases denotes with
    | member object_read key_read =>
      have last := acts.performs ctx m1 (suits.same same)
      rw [object_read, key_read] at last
      exact last.within fun _ => swapped.inUse_spared rfl (by simp)
  simpa only [Lowering.pinIf, Bool.false_eq_true, if_false, pure_bind] using steps

lemma Spec.read (loc : Location) :
    Lowering.Gives rt (m.read loc) (m.isOptional = false ∧ coversObject ∧ coversKey) (fun ctx => do
        let x ← evalBase ctx
        let k ← evalKey ctx
        Evaluation.request rt (.get x k)) := by
  intro s sound
  have gets (s : Lowering) (sound : s.Sound) := spec.request sound .get .get (fun _ _ _ => rfl)
      (fun _ _ _ _ _ => trivial) (fun _ _ _ => ⟨rfl, rfl, rfl⟩) fun _ _ _ _ => rfl
  simp only [MemberCode.read]
  split
  next optional =>
    refine (notSupported_reports sound loc _).step fun _ s1 ⟨reports, _⟩ => ?_
    refine (gets s1 reports.moves.sound).mono fun a s' ⟨moves, _⟩ => ?_
    exact ⟨reports.moves.andThen moves, by simp [optional]⟩
  next =>
    refine (gets s sound).mono fun a s' ⟨moves, executes⟩ => ⟨moves, fun covered => ?_⟩
    exact executes covered.2

lemma Spec.delete : Lowering.Gives rt m.delete (coversObject ∧ coversKey) (fun ctx => do
      let x ← evalBase ctx
      let k ← evalKey ctx
      Evaluation.request rt (.delete x k)) := fun _ sound =>
  spec.request sound (.binary .delete) .delete (fun _ _ _ => rfl)
    (fun _ _ _ _ _ => trivial) (fun _ _ _ => ⟨rfl, rfl, rfl⟩) fun _ _ _ _ => rfl

end

end MemberCode

namespace Place

variable {V : Type}

def isPlace (p : Place) : Bool :=
  match p.reference with
  | .name _ | .member _ => true
  | .pattern | .other => false

/-- What the code of a place does. With `stable`, the parts of the evaluated place are kept by later
code. -/
def Evaluates (rt : Runtime V) (p : Place) (covered : Prop)
    (evalSite : Action V (Site V)) : Prop :=
  ∀ (stable : Bool) (s : Lowering), s.Sound → Runs (p.evaluate stable) s fun t s' =>
    s.Moves s' { given := t.operands } ∧ t.IsPlace s' ∧
      (∀ v, t = .readOnly v → ∀ id, v ≠ .cell id) ∧
        (stable = true → ∀ v, .var v ∉ t.parts) ∧ (covered → s.Reaches rt s' t evalSite)

lemma evaluates_name (rt : Runtime V) (whole : Lowered) (name : String) :
    Evaluates rt { whole, reference := .name name } True fun _ => pure (.name name) := by
  intro stable s sound
  refine (resolve_moves sound name whole.loc).step fun id s1 ⟨resolved, quiet1, bound⟩ => ?_
  have visible := boundTo_visible resolved.sound bound
  refine (writeBinding_moves resolved.sound visible whole.loc).step ?_
  rintro dest s2 ⟨marked, quiet2, holds, assigned, meaning, means, place⟩
  have moves2 := resolved.andThen marked
  have quiet := quiet1.trans quiet2
  -- Nothing is run, so the place is there at once.
  have reaches {s' : Lowering} {l : Ledger} (t : Target) (moves : s.Moves s' l) (quiet : s.Quiet s')
      (denotes : ∀ (ctx : Context V) (m : Memory V), s'.Suits ctx m →
        t.Denotes rt ctx m (.name name)) : s.Reaches rt s' t fun _ => pure (.name name) := by
    refine ⟨moves.follows quiet, fun ctx m suits => ?_⟩
    rw [quiet.point]
    exact .arrives (.refl sound.point_outside) (denotes ctx m suits)
  have known {s' : Lowering} (keeps : s2.Keeps s') (steady : s2.Steady s') :
      s'.meaning? name = some meaning := by
    rw [meaning?, steady name id (quiet2.steady name id bound)]
    exact keeps.meaningOf means
  have fixed (denotes : ∀ (ctx : Context V) (m : Memory V), ctx.names name = meaning →
      (Target.readOnly meaning.operand).Denotes rt ctx m (.name name)) :
      Runs (do pure (.readOnly (← readBinding id))) s2 fun t s' =>
        s.Moves s' { given := t.operands } ∧ t.IsPlace s' ∧
          (∀ v, t = .readOnly v → ∀ id, v ≠ .cell id) ∧
            (stable = true → ∀ v, .var v ∉ t.parts) ∧
              (True → s.Reaches rt s' t fun _ => pure (.name name)) := by
    refine (readBinding_moves moves2.sound (marked.keeps.visible visible)).step ?_
    rintro a s3 ⟨read, quiet3, meaning, means3, rfl⟩
    cases means3.symm.trans (read.keeps.meaningOf means)
    refine .pure ⟨moves2.andThen read, by simp [Target.IsPlace], ?_, by simp [Target.parts],
      fun _ => reaches _ (moves2.andThen read) (quiet.trans quiet3) fun ctx m suits =>
        denotes ctx m (suits.names _ _ (known read.keeps quiet3.steady))⟩
    rintro _ ⟨rfl⟩
    cases meaning <;> simp [Meaning.operand]
  cases meaning with
  | stored v isFixed =>
    cases isFixed with
    | false =>
      subst place
      refine .pure ⟨moves2.give (by simp) (holds _ rfl), ?_, by simp, by simp [Target.parts],
        fun _ => reaches _ moves2 quiet fun ctx m suits => .stored ?_⟩
      · rintro _ ⟨rfl⟩
        exact ⟨v, rfl, assigned v rfl⟩
      · exact suits.names _ _ (known (.refl s2) (.refl s2))
    | true =>
      subst place
      exact fixed fun _ _ => .readOnly
  | constant c =>
    subst place
    exact fixed fun _ _ => .constant

lemma evaluates_member {rt : Runtime V} (whole : Lowered) {m : MemberCode}
    {coversObject coversKey : Prop} {evalBase evalKey : Action V V}
    (spec : m.Spec rt coversObject coversKey evalBase evalKey) :
    Evaluates rt { whole, reference := .member m }
      (m.isOptional = false ∧ coversObject ∧ coversKey) (MemberCode.siteOf evalBase evalKey) := by
  intro stable s sound
  have parts {s : Lowering} (sound : s.Sound) : Runs (do
      let object ← m.evalObject stable
      let key ← Lowering.pinIf stable (← m.evalKey)
      pure (member object key)) s fun t s' =>
        s.Moves s' { given := t.operands } ∧ t.IsPlace s' ∧
          (∀ v, t = .readOnly v → ∀ id, v ≠ .cell id) ∧
            (stable = true → ∀ v, .var v ∉ t.parts) ∧ (coversObject ∧ coversKey →
              s.Reaches rt s' t (MemberCode.siteOf evalBase evalKey)) := by
    refine spec.step sound fun object key s' object_kept key_kept moves reaches => ?_
    refine .pure ⟨moves, by simp [Target.IsPlace], by simp, fun kept v => ?_, reaches⟩
    simp [Target.parts, (object_kept kept v).symm, (key_kept kept v).symm]
  simp only [Place.evaluate]
  split
  next optional =>
    refine (Lowering.error_reports sound _ _).step fun _ s1 ⟨reports, _⟩ => ?_
    refine (parts reports.moves.sound).mono fun t s' ⟨moves, place, other_kind, kept, _⟩ => ?_
    exact ⟨(reports.moves.andThen moves).balance (by simp) (by simp) (by simp) Lowering.knows_nil,
      place, other_kind, kept, by simp [optional]⟩
  next =>
    refine (parts sound).mono fun t s' ⟨moves, place, other_kind, kept, reaches⟩ => ?_
    exact ⟨moves, place, other_kind, kept, fun covered => reaches covered.2⟩

lemma evaluates_invalid {rt : Runtime V} {p : Place} {covered : Prop}
    {eval : Action V V} {evalSite : Action V (Site V)}
    (whole : p.whole.Spec rt covered eval) (invalid : p.isPlace = false) :
    p.Evaluates rt False evalSite := by
  intro stable s sound
  obtain ⟨e, reference⟩ := p
  cases reference with
  | name | member => cases invalid
  | pattern =>
    refine (notSupported_reports sound _ _).step fun _ s1 ⟨reports, _⟩ => ?_
    exact .pure ⟨reports.moves, by simp [Target.IsPlace], by simp, by simp [Target.parts],
      False.elim⟩
  | other =>
    refine (Lowering.error_reports sound _ _).step fun _ s1 ⟨reports, _⟩ => ?_
    refine (whole.discard reports.moves.sound).step fun _ s2 ⟨moves, _⟩ => ?_
    exact .pure ⟨reports.moves.andThen moves, by simp [Target.IsPlace], by simp,
      by simp [Target.parts], False.elim⟩

end Place

end Scriptc
