import Scriptc.Proofs.Code.Operations

/-!
# Every construction of a routine

A routine is built by any sequence of operations, each of which may fail. One step preserves what
holds of the routine alone (`Built`) and of the routine beside an earlier one (`Continues`); so does
a whole run.
-/

namespace Scriptc.Routine

variable {label : Label}

variable {r r' : Routine}

/-- An operation on the code, the labels or the locals of a routine. -/
inductive Operation
  | newLabel
  | place (label : Label)
  | push (i : Instruction)
  | setJump (jump : Jump)
  | goto (label : Label)
  | assign (dest source : Operand)
  | binary (op : Opcode) (dest left right : Operand)
  | unary (op : Opcode) (dest argument : Operand)
  | branchCompare (op : Opcode) (left right : Operand) (onTrue onFalse : Label)
  | branchTrue (value : Operand) (onTrue onFalse : Label)
  | call (dest : Option Operand) (callee : Callee) (receiver : Operand) (args : List Operand)
  | ret (value : Operand)
  | pushPrologue (i : Instruction)
  | newLocal (temp : Bool)
  | allocTemp
  | release (a : Operand)
  | allocSpecific (a : Operand)
  | newTryIndex
  | finish

namespace Operation

def run : Operation → Edit PUnit
  | newLabel => do let _ ← Routine.newLabel
  | place label => Routine.place label
  | push i => Routine.push i
  | setJump jump => Routine.setJump jump
  | goto label => Routine.goto label
  | assign dest source => Routine.assign dest source
  | binary op dest left right => Routine.binary op dest left right
  | unary op dest argument => Routine.unary op dest argument
  | branchCompare op left right onTrue onFalse => do
    let _ ← Routine.branchCompare op left right onTrue onFalse
  | branchTrue value onTrue onFalse => do let _ ← Routine.branchTrue value onTrue onFalse
  | call dest callee receiver args => Routine.call dest callee receiver args
  | ret value => Routine.ret value
  | pushPrologue i => Routine.pushPrologue i
  | newLocal temp => do let _ ← Routine.newLocal temp
  | allocTemp => do let _ ← Routine.allocTemp
  | release a => Routine.release a
  | allocSpecific a => Routine.allocSpecific a
  | newTryIndex => do let _ ← Routine.newTryIndex
  | finish => Routine.finish

def prologue : Operation → List Instruction
  | pushPrologue i => [i]
  | _ => []

def runAll : List Operation → Edit PUnit
  | [] => pure ⟨⟩
  | op :: rest => do
    op.run
    runAll rest

end Operation

/-- How a routine goes on from an earlier moment, when `added` was put in its prologue since. Jumps
stay, and nothing is appended ahead of one but the prologue; placed labels stay, and one that was
placed since is at a block that had nothing in it. -/
structure Continues (r r' : Routine) (added : List Instruction) : Prop where
  ended : ∀ (k : BlockId) (b : Block) (jump : Jump), r.blocks[k]? = some b → b.jump = some jump →
    ∃ b', r'.blocks[k]? = some b' ∧ b'.jump = some jump ∧
      b'.body.toList = b.body.toList ++ if k = entry then added else []
  longer : ∀ (k : BlockId) (b : Block), r.blocks[k]? = some b →
    ∃ b', r'.blocks[k]? = some b' ∧ b.body.toList <+: b'.body.toList
  stays : ∀ (label : Label) (k : BlockId), r.labels[label]? = some (some k) →
    r'.labels[label]? = some (some k)
  binds : ∀ (label : Label) (k : BlockId), r'.labels[label]? = some (some k) →
    r.labels[label]? ≠ some (some k) → ∀ b, r.blocks[k]? = some b → b.isEmpty = true

namespace Continues

lemma refl (r : Routine) : r.Continues r [] where
  ended k b jump found ends := ⟨b, found, ends, by simp⟩
  longer k b found := ⟨b, found, List.prefix_refl _⟩
  stays _ _ placed := placed
  binds _ _ placed new := absurd placed new

lemma trans {r'' : Routine} {added more : List Instruction} (first : r.Continues r' added)
    (second : r'.Continues r'' more) : r.Continues r'' (added ++ more) where
  ended k b jump found ends := by
    obtain ⟨b', found', ends', body'⟩ := first.ended k b jump found ends
    obtain ⟨b'', found'', ends'', body''⟩ := second.ended k b' jump found' ends'
    refine ⟨b'', found'', ends'', ?_⟩
    rw [body'', body', List.append_assoc]
    split <;> rfl
  longer k b found := by
    obtain ⟨b', found', body'⟩ := first.longer k b found
    obtain ⟨b'', found'', body''⟩ := second.longer k b' found'
    exact ⟨b'', found'', body'.trans body''⟩
  stays label k placed := second.stays label k (first.stays label k placed)
  binds label k placed new b found := by
    by_cases between : r'.labels[label]? = some (some k)
    · exact first.binds label k between new b found
    · -- The block had nothing in it when the label was placed, so it had nothing before.
      obtain ⟨b', found', body'⟩ := first.longer k b found
      have empty := second.binds label k placed between b' found'
      have nothing : b'.body = #[] ∧ b'.jump = none := by simpa [Block.isEmpty] using empty
      have body : b.body = #[] := by simpa [nothing.1] using body'
      have jump : b.jump = none := by
        by_contra ends
        obtain ⟨jump, ends⟩ := Option.ne_none_iff_exists'.mp ends
        obtain ⟨b'', found'', ends'', -⟩ := first.ended k b jump found ends
        obtain rfl : b' = b'' := by simpa [found'] using found''
        simp [nothing.2] at ends''
      simp [Block.isEmpty, body, jump]

end Continues

lemma Grows.continues (grows : r.Grows r') (prologue : r'.blocks[entry]? = r.blocks[entry]?)
    (labels : ∀ (label : Label) (k : BlockId), r'.labels[label]? = some (some k) →
      r.labels[label]? = some (some k) ∨ ∀ b, r.blocks[k]? = some b → b.isEmpty = true) :
    r.Continues r' [] where
  ended k b jump found ends := by
    obtain ⟨b', found', -, same⟩ := grows.blocks k b found
    obtain ⟨ends', body⟩ := same jump ends
    refine ⟨b', found', ends', ?_⟩
    by_cases first : k = entry
    · subst first
      obtain rfl : b = b' := by simpa [prologue, found] using found'
      simp
    · simp [body first]
  longer k b found := by
    obtain ⟨b', found', longer, -⟩ := grows.blocks k b found
    exact ⟨b', found', longer⟩
  stays := grows.labels
  binds label k placed new := (labels label k placed).resolve_left new

lemma withOpen_entry (built : r.Built) (b : Block) :
    (r.withOpen b).blocks[entry]? = r.blocks[entry]? := by
  rw [withOpen_blocks built, if_neg built.openId_ne.symm]

lemma continues_withOpen (built : r.Built) {b : Block}
    (longer : r.openBody.toList <+: b.body.toList) : r.Continues (r.withOpen b) [] :=
  (grows_withOpen built longer).continues (withOpen_entry built b) fun _ _ placed => .inl placed

lemma startAt_blank (built : r.Built) (label : Label) {b : Block}
    (found : r.blocks[(r.startAt label).current]? = some b) : b.isEmpty = true := by
  rw [startAt] at found
  split at found
  next empty =>
    have nothing := Array.isEmpty_iff.mp empty
    rw [open_block_eq built found, nothing]
    rfl
  next =>
    -- The open block gets its jump, so a new one follows.
    have size : r.blocks.size ≤ (r.ended (.goto label)).openId := by
      rw [(ended_closed built _).1, ended, withOpen_size built]
      exact Nat.le_max_left _ _
    have absent := Array.getElem?_eq_none size
    rw [show r.blocks[(r.ended (.goto label)).openId]? = some b from found] at absent
    cases absent

lemma continues_placeAt (built : r.Built) (pending : r.Pending label) :
    r.Continues (r.placeAt label) [] := by
  refine (grows_placeAt built pending).continues ?_ ?_
  · change (r.startAt label).blocks[entry]? = r.blocks[entry]?
    rw [startAt]
    split
    · exact withOpen_entry built _
    · exact (withOpen_entry (built.ended _) _).trans (withOpen_entry built _)
  · intro other k placed
    rw [placeAt_labels pending] at placed
    split at placed
    · obtain rfl : (r.placeAt label).current = k := by simpa using placed
      exact .inr fun b found => startAt_blank built label found
    · exact .inl placed

/-- An operation that keeps the shape of a routine and goes on from it, if it does not fail. -/
def Extending {α : Type} (code : Edit α) : Prop :=
  ∀ (r : Routine) (a : α) (r' : Routine), r.Built → code r = .ok a r' → r'.Built ∧ r.Continues r' []

namespace Extending

variable {α β : Type} {code : Edit α} {next : α → Edit β}

protected lemma pure (a : α) : Extending (pure a) := by
  intro r b r' built run
  obtain ⟨-, rfl⟩ : a = b ∧ r = r' := by simpa [pure, EStateM.pure] using run
  exact ⟨built, .refl r⟩

protected lemma bind (first : Extending code) (second : ∀ a, Extending (next a)) :
    Extending (code >>= next) := by
  intro r b r'' built run
  obtain ⟨a, r', start, rest⟩ := Runs.bind_eq_ok.mp run
  obtain ⟨between, goes⟩ := first r a r' built start
  obtain ⟨last, further⟩ := second a r' b r'' between rest
  exact ⟨last, goes.trans further⟩

protected lemma ask (question : Routine → Except Fault α) : Extending (ask question) := by
  intro r a r' built run
  rw [ask] at run
  split at run
  · cases run
    exact ⟨built, .refl r⟩
  · cases run

protected lemma ite {p : Prop} [Decidable p] {other : Edit α} (first : Extending code)
    (second : Extending other) : Extending (if p then code else other) := by
  split
  · exact first
  · exact second

protected lemma throw (fault : Fault) : Extending ((throw fault : Edit α) >>= next) := by
  intro r a r' _ run
  cases run

lemma sideways {change : Routine → α × Routine}
    (built : ∀ r : Routine, r.Built → (change r).2.Built)
    (blocks : ∀ r : Routine, (change r).2.blocks = r.blocks)
    (labels : ∀ (r : Routine) (label : Label) (k : BlockId),
      (change r).2.labels[label]? = some (some k) ↔ r.labels[label]? = some (some k)) :
    Extending (modifyGet change) := by
  intro r a r' start run
  cases run
  refine ⟨built r start, ?_, ?_, ?_, ?_⟩
  · intro k b jump found ends
    exact ⟨b, by rw [blocks, found], ends, by simp⟩
  · intro k b found
    exact ⟨b, by rw [blocks, found], List.prefix_refl _⟩
  · exact fun label k placed => (labels r label k).mpr placed
  · exact fun label k placed new => absurd ((labels r label k).mp placed) new

end Extending

lemma setJump_extending (jump : Jump) : Extending (setJump jump) := by
  intro r a r' built run
  rw [setJump_run built] at run
  cases run
  exact ⟨built.withOpen _ rfl, continues_withOpen built (List.prefix_refl _)⟩

lemma push_extending (i : Instruction) : Extending (push i) := by
  intro r a r' built run
  by_cases finished : r.closed = true
  · rw [push, Runs.get_bind, if_pos finished] at run
    cases run
  · have sound : r.Sound := { built with unfinished := by simpa using finished }
    rw [push_run sound] at run
    cases run
    exact ⟨built.withOpen _ rfl, continues_withOpen built (by simp)⟩

lemma pending_of_place {a : PUnit} (run : place label r = .ok a r') : r.Pending label := by
  obtain ⟨block, r'', asked, rest⟩ := Runs.bind_eq_ok.mp run
  rw [ask, labelBlock] at asked
  cases found : r.labels[label]? with
  | none => simp [found] at asked
  | some placed =>
    obtain ⟨rfl, rfl⟩ : placed = block ∧ r = r'' := by simpa [found] using asked
    cases placed with
    | none => exact found
    | some block => cases rest

lemma place_extending (label : Label) : Extending (place label) := by
  intro r a r' built run
  have pending := pending_of_place run
  rw [place_run built pending] at run
  cases run
  exact ⟨built.placeAt pending, continues_placeAt built pending⟩

lemma assign_extending (dest source : Operand) : Extending (assign dest source) :=
  .ite (push_extending _) (.pure _)

lemma binary_extending (op : Opcode) (dest left right : Operand) :
    Extending (Routine.binary op dest left right) := by
  rw [Routine.binary]
  split
  · exact .throw _
  · refine .bind (.ask _) fun value => ?_
    cases value with
    | some value => exact assign_extending dest value
    | none => exact .ite (push_extending _) (push_extending _)

lemma unary_extending (op : Opcode) (dest arg : Operand) :
    Extending (Routine.unary op dest arg) := by
  rw [Routine.unary]
  split
  · exact .throw _
  · refine .bind (.ask _) fun value => ?_
    cases value with
    | some value => exact assign_extending dest value
    | none => exact push_extending _

lemma branchTaken_extending (taken : Bool) (onTrue onFalse : Label) :
    Extending (branchTaken taken onTrue onFalse) :=
  (setJump_extending _).bind fun _ => .pure _

lemma branchCompare_extending (op : Opcode) (left right : Operand) (onTrue onFalse : Label) :
    Extending (branchCompare op left right onTrue onFalse) := by
  have jumps (jump : Jump) : Extending (do setJump jump; pure (none : Option Bool)) :=
    (setJump_extending jump).bind fun _ => .pure _
  refine .bind (.ask _) fun value => ?_
  split
  · exact branchTaken_extending _ onTrue onFalse
  · exact .bind (.ask _) fun branch => .ite (jumps _) (jumps _)

lemma branchTrue_extending (value : Operand) (onTrue onFalse : Label) :
    Extending (branchTrue value onTrue onFalse) := by
  rw [branchTrue]
  split
  · exact branchTaken_extending _ onTrue onFalse
  · exact (setJump_extending _).bind fun _ => .pure _

lemma stage_extending (slot : SlotId) (args : List Operand) : Extending (stage slot args) := by
  induction args generalizing slot with
  | nil => exact .pure _
  | cons a rest ih => exact (push_extending _).bind fun _ => ih (slot + 1)

lemma call_extending (dest : Option Operand) (callee : Callee) (receiver : Operand)
    (args : List Operand) : Extending (call dest callee receiver args) :=
  .bind (.sideways (fun _ built => { built with }) (fun _ => rfl) fun _ _ _ => Iff.rfl)
    fun _ => (stage_extending 0 _).bind fun _ => push_extending _

lemma ret_extending (value : Operand) : Extending (ret value) :=
  (assign_extending result value).bind fun _ => setJump_extending _

lemma newLabel_extending : Extending newLabel := by
  have placed (r : Routine) (label : Label) (k : BlockId) :
      (r.labels.push none)[label]? = some (some k) ↔ r.labels[label]? = some (some k) := by
    rw [Array.getElem?_push]
    split
    next new => simp [new]
    next => exact Iff.rfl
  refine .sideways (fun r built => ?_) (fun _ => rfl) placed
  exact { built with
    entry_target := (placed r 1 1).mpr built.entry_target
    placed := fun label k found => built.placed label k ((placed r label k).mp found) }

lemma newLocal_extending (temp : Bool) : Extending (newLocal temp) := by
  refine .sideways (fun r built => ?_) (fun _ => rfl) fun _ _ _ => Iff.rfl
  have kept (id : LocalId) (kind : Bool) (found : r.isTemp[id]? = some kind) :
      (r.isTemp.push temp)[id]? = some kind := by
    have inside := (lt_size found)
    rw [Array.getElem?_push_lt inside, ← found, Array.getElem?_eq_getElem inside]
  exact { built with
    free_temp := fun id mem => kept id true (built.free_temp id mem)
    result_local := kept 0 false built.result_local }

lemma setFree_extending (r : Routine) {free : List LocalId} (built : r.Built)
    (nodup : free.Nodup) (temps : ∀ id ∈ free, r.isTemp[id]? = some true) :
    ({ r with freeTemps := free } : Routine).Built ∧ r.Continues { r with freeTemps := free } [] :=
  ⟨{ built with free_nodup := nodup, free_temp := temps }, { Continues.refl r with }⟩

lemma allocTemp_extending : Extending allocTemp := by
  intro r a r' built run
  rw [allocTemp, Runs.get_bind] at run
  cases free : r.freeTemps with
  | nil =>
    rw [free] at run
    exact ((newLocal_extending true).bind fun _ => .pure _) r a r' built run
  | cons id rest =>
    rw [free] at run
    cases run
    have nodup := built.free_nodup
    rw [free, List.nodup_cons] at nodup
    exact setFree_extending r built nodup.2 fun other mem =>
      built.free_temp other (by simp [free, mem])

lemma release_extending (a : Operand) : Extending (release a) := by
  intro r done r' built run
  obtain ⟨temp, r'', asked, rest⟩ := Runs.bind_eq_ok.mp run
  have same : r = r'' ∧ r.holdsTemp a = .ok temp := by
    rw [ask] at asked
    split at asked
    next value answer =>
      cases asked
      exact ⟨rfl, answer⟩
    next => cases asked
  obtain ⟨rfl, answer⟩ := same
  have unchanged (rest : (pure ⟨⟩ : Edit PUnit) r = .ok done r') :
      r'.Built ∧ r.Continues r' [] := Extending.pure _ r done r' built rest
  cases temp with
  | false => exact unchanged rest
  | true =>
    cases a with
    | cell id =>
      simp only [if_true] at rest
      rw [Runs.get_bind] at rest
      by_cases free : id ∈ r.freeTemps
      · rw [if_pos (by simpa using free)] at rest
        cases rest
      · rw [if_neg (by simpa using free)] at rest
        cases rest
        have kind : r.isTemp[id]? = some true := by
          cases found : r.isTemp[id]? <;> simp_all [holdsTemp]
        refine setFree_extending r built (List.nodup_cons.mpr ⟨free, built.free_nodup⟩) ?_
        intro other mem
        rcases List.mem_cons.mp mem with rfl | old
        · exact kind
        · exact built.free_temp other old
    | var | param | slot | constant => exact unchanged rest

lemma allocSpecific_extending (a : Operand) : Extending (allocSpecific a) := by
  intro r done r' built run
  cases a with
  | cell id =>
    rw [allocSpecific, Runs.get_bind] at run
    split at run
    · cases run
    · cases run
      exact setFree_extending r built (built.free_nodup.erase id) fun other mem =>
        built.free_temp other (List.mem_of_mem_erase mem)
  | var | param | slot | constant => cases run

lemma finish_extending : Extending finish :=
  (place_extending exitLabel).bind fun _ => (setJump_extending _).bind fun _ =>
    .sideways (fun _ built => { built with }) (fun _ => rfl) fun _ _ _ => Iff.rfl

lemma continues_withPrologue (built : r.Built) (i : Instruction) :
    (r.withPrologue i).Built ∧ r.Continues (r.withPrologue i) [i] := by
  refine ⟨built.withPrologue i, fun k b jump found ends => ?_, fun k b found => ?_,
    fun _ _ placed => placed, fun _ _ placed new => absurd placed new⟩
  all_goals refine ⟨_, withPrologue_kept i found, ?_⟩
  · refine ⟨ends, ?_⟩
    dsimp only
    split <;> simp
  · dsimp only
    split <;> simp

namespace Operation

lemma run_extending {op : Operation} (body : op.prologue = []) : Extending op.run := by
  have ignoring {α : Type} {code : Edit α} (extends_code : Extending code) :
      Extending (code >>= fun _ => (pure ⟨⟩ : Edit PUnit)) := extends_code.bind fun _ => .pure _
  cases op with
  | newLabel => exact ignoring newLabel_extending
  | place label => exact place_extending label
  | push i => exact push_extending i
  | setJump jump => exact setJump_extending jump
  | goto label => exact setJump_extending _
  | assign dest source => exact assign_extending dest source
  | binary op dest left right => exact binary_extending op dest left right
  | unary op dest arg => exact unary_extending op dest arg
  | branchCompare => exact ignoring (branchCompare_extending _ _ _ _ _)
  | branchTrue => exact ignoring (branchTrue_extending _ _ _)
  | call dest callee receiver args => exact call_extending dest callee receiver args
  | ret value => exact ret_extending value
  | pushPrologue i => cases body
  | newLocal temp => exact ignoring (newLocal_extending temp)
  | allocTemp => exact ignoring allocTemp_extending
  | release a => exact release_extending a
  | allocSpecific a => exact allocSpecific_extending a
  | newTryIndex =>
    exact ignoring (.sideways (fun _ built => { built with }) (fun _ => rfl) fun _ _ _ => Iff.rfl)
  | finish => exact finish_extending

lemma run_continues {op : Operation} (built : r.Built)
    (run : op.run r = .ok ⟨⟩ r') : r'.Built ∧ r.Continues r' op.prologue := by
  by_cases body : op.prologue = []
  · rw [body]
    exact run_extending body r _ r' built run
  · obtain ⟨i, rfl⟩ : ∃ i, op = .pushPrologue i := by
      cases op <;> first | exact ⟨_, rfl⟩ | exact absurd rfl body
    cases run
    exact continues_withPrologue built i

lemma runAll_continues {ops : List Operation} (built : r.Built)
    (run : runAll ops r = .ok ⟨⟩ r') : r'.Built ∧ r.Continues r' (ops.flatMap prologue) := by
  induction ops generalizing r with
  | nil =>
    cases run
    exact ⟨built, .refl _⟩
  | cons op rest ih =>
    obtain ⟨⟨⟩, between, first, later⟩ := Runs.bind_eq_ok.mp run
    obtain ⟨shape, goes⟩ := run_continues built first
    obtain ⟨last, further⟩ := ih shape later
    exact ⟨last, goes.trans further⟩

lemma runAll_append (first second : List Operation) (r : Routine) :
    runAll (first ++ second) r = (runAll first >>= fun _ => runAll second) r := by
  induction first generalizing r with
  | nil => rfl
  | cons op rest ih =>
    have unfolded : runAll (op :: rest ++ second) r =
        (op.run >>= fun _ => runAll (rest ++ second)) r := rfl
    have folded : (runAll (op :: rest) >>= fun _ => runAll second) r =
        ((op.run >>= fun _ => runAll rest) >>= fun _ => runAll second) r := rfl
    rw [folded, bind_assoc]
    exact congrFun (congrArg (op.run >>= ·) (funext fun _ => funext ih)) r

end Operation

/-- A routine whose last operation placed its exit: all blocks have their jumps, and the one at the
exit returns the result. -/
lemma finish_closes (built : r.Built) (run : finish r = .ok ⟨⟩ r') :
    (∀ (k : BlockId) (b : Block), r'.blocks[k]? = some b → b.isClosed = true) ∧
      ∃ exit b, r'.labels[exitLabel]? = some (some exit) ∧ r'.blocks[exit]? = some b ∧
        b.jump = some (.ret result) := by
  obtain ⟨⟨⟩, placed, start, rest⟩ := Runs.bind_eq_ok.mp run
  have pending := pending_of_place start
  rw [place_run built pending] at start
  cases start
  have shape := built.placeAt pending
  rw [Runs.bind_run (setJump_run shape _)] at rest
  cases rest
  have here := (startAt_open built exitLabel).1
  have blocks (k : BlockId) : ((r.placeAt exitLabel).ended (.ret result)).blocks[k]? = _ :=
    withOpen_blocks shape _ k
  constructor
  · intro k b found
    replace found := (blocks k).symm.trans found
    split at found
    · cases found
      rfl
    next other => exact shape.closed_of_ne found other
  · refine ⟨(r.placeAt exitLabel).current, _, ?_, (blocks _).trans (if_pos here.symm), rfl⟩
    exact (placeAt_labels pending exitLabel).trans (if_pos rfl)

lemma place_current (built : r.Built) (run : place label r = .ok ⟨⟩ r') :
    r'.labels[label]? = some (some r'.current) ∧ r'.currentBlock.isEmpty = true := by
  have pending := pending_of_place run
  rw [place_run built pending] at run
  cases run
  refine ⟨(placeAt_labels pending label).trans (if_pos rfl), ?_⟩
  have current : (r.placeAt label).currentBlock = (r.startAt label).currentBlock := rfl
  rw [current, startAt]
  split
  · rw [withOpen_currentBlock built]
    rfl
  · rw [withOpen_currentBlock (built.ended _)]
    rfl

/-- Any sequence of operations on a new routine that does not fail, seen at any two moments of it.
At the later one the routine has its shape, and the successors of a block are the targets of its
jump. Since the earlier one, jumps and placed labels have stayed, closed blocks got no instructions
but those for the prologue, and labels were placed at blocks with nothing in them; so was the label
that a new routine has. If the end of the routine was the last operation, all blocks have their
jumps and the block at the exit returns the result. -/
theorem construction_invariant {id : RoutineId} {parent : Option RoutineId} {level : Nat}
    {name : Option String} {strict : Bool} {earlier later : List Operation} {r r' : Routine}
    (start : Operation.runAll earlier (Routine.new id parent level name strict) = .ok ⟨⟩ r)
    (rest : Operation.runAll later r = .ok ⟨⟩ r') :
    r'.Built ∧ (∀ b ∈ r'.blocks, b.successors = (b.jump.map Jump.targets).getD []) ∧
      r.Continues r' (later.flatMap Operation.prologue) ∧
      (∀ (label : Label) (k : BlockId), (Routine.new id parent level name strict).labels[label]? =
        some (some k) → (Routine.new id parent level name strict).blocks[k]? = some Block.empty) ∧
      (∀ label, later = [.place label] →
        r'.labels[label]? = some (some r'.current) ∧ r'.currentBlock.isEmpty = true) ∧
      (later.getLast? = some .finish →
        (∀ (k : BlockId) (b : Block), r'.blocks[k]? = some b → b.isClosed = true) ∧
          ∃ exit b, r'.labels[exitLabel]? = some (some exit) ∧ r'.blocks[exit]? = some b ∧
            b.jump = some (.ret result)) := by
  have built := (Operation.runAll_continues (new_built id parent level name strict) start).1
  obtain ⟨built', continues⟩ := Operation.runAll_continues built rest
  refine ⟨built', ?_, continues, ?_, ?_, ?_⟩
  · intro b member
    obtain ⟨k, found⟩ := Array.getElem?_of_mem member
    exact built'.mirrors k b found
  · intro label k placed
    match label with
    | 0 => simp [new] at placed
    | 1 =>
      obtain rfl : 1 = k := by simpa [new] using placed
      rfl
    | label + 2 => simp [new] at placed
  · rintro label rfl
    obtain ⟨⟨⟩, between, placed, same⟩ := Runs.bind_eq_ok.mp rest
    obtain ⟨-, rfl⟩ := EStateM.Result.ok.inj same
    exact place_current built placed
  · intro last
    obtain ⟨before, rfl⟩ := List.getLast?_eq_some_iff.mp last
    rw [Operation.runAll_append] at rest
    obtain ⟨⟨⟩, between, first, final⟩ := Runs.bind_eq_ok.mp rest
    obtain ⟨⟨⟩, after, done, same⟩ := Runs.bind_eq_ok.mp final
    obtain ⟨-, rfl⟩ := EStateM.Result.ok.inj same
    exact finish_closes (Operation.runAll_continues built first).1 done

def countingLoop : List Operation :=
  [.newLabel, .newLabel, .allocTemp, .place 2, .binary .add (.cell 1) (.cell 1) (.param 1),
    .pushPrologue (.assign (.cell 1) (.param 0)), .branchTrue (.cell 1) 2 3]

def countingRest : List Operation :=
  [.place 3, .pushPrologue (.assign (.cell 1) (.param 1)), .release (.cell 1), .ret (.cell 1),
    .goto 2, .finish]

/-- The counting loop is built without a failure, and gets one more instruction in its prologue
while the code after it is built. -/
theorem counting_constructed :
    ∃ r r', Operation.runAll countingLoop (Routine.new 0 none 0 none false) = .ok ⟨⟩ r ∧
      Operation.runAll countingRest r = .ok ⟨⟩ r' ∧ r'.Built ∧
      r.Continues r' [.assign (.cell 1) (.param 1)] ∧
      ∀ (k : BlockId) (b : Block), r'.blocks[k]? = some b → b.isClosed = true := by
  have whole : ∃ r', Operation.runAll (countingLoop ++ countingRest)
      (Routine.new 0 none 0 none false) = .ok ⟨⟩ r' := ⟨_, rfl⟩
  obtain ⟨r', run⟩ := whole
  rw [Operation.runAll_append] at run
  obtain ⟨⟨⟩, r, start, rest⟩ := Runs.bind_eq_ok.mp run
  have ⟨built, _, continues, _, _, ends⟩ := construction_invariant start rest
  exact ⟨r, r', start, rest, built, continues, (ends rfl).1⟩

end Scriptc.Routine
