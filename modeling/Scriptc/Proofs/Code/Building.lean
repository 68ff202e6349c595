import Mathlib.Data.List.Basic
import Scriptc.Code.Routine
import Scriptc.Proofs.Results

/-!
# Building routines

Code is appended to one open block: the current one, or a new one if that has its jump. Every
operation puts another block in the place of the open one (`withOpen`), places a label, or hands out
or takes back a temporary.
-/

namespace Scriptc

open Runs

/-- Whether the successors of a block are the targets of its jump. -/
def Block.Mirrors (b : Block) : Prop := b.successors = (b.jump.map Jump.targets).getD []

def Instruction.isPrologue : Instruction → Bool
  | newArguments (.var _) => true
  | assign (.var _) (.param _) => true
  | _ => false

namespace Routine

variable {body : Array Instruction}

variable {r r' : Routine} {b : Block} {k : BlockId} {j : Nat} {i : Instruction} {label : Label}

def openId (r : Routine) : BlockId :=
  if r.currentBlock.isClosed then r.blocks.size else r.current

def openBody (r : Routine) : Array Instruction :=
  if r.currentBlock.isClosed then #[] else r.currentBlock.body

/-- The routine with another block in the place of the open one. -/
def withOpen (r : Routine) (b : Block) : Routine := { r with
    blocks := if r.currentBlock.isClosed then r.blocks.push b else
      r.blocks.setIfInBounds r.current b
    current := r.openId }

def appended (r : Routine) (i : Instruction) : Routine :=
  r.withOpen { body := r.openBody.push i, jump := none }

def ended (r : Routine) (jump : Jump) : Routine :=
  r.withOpen { body := r.openBody, jump := some jump, successors := jump.targets }

/-- The routine with the block at which a label is placed: the open one if nothing stands in it, or
a new one that the open block goes on to. -/
def startAt (r : Routine) (label : Label) : Routine :=
  if r.openBody.isEmpty then r.withOpen Block.empty
  else (r.ended (.goto label)).withOpen Block.empty

def placeAt (r : Routine) (label : Label) : Routine :=
  let started := r.startAt label
  { started with labels := started.labels.setIfInBounds label (some started.current) }

def At (r : Routine) (k : BlockId) (j : Nat) (i : Instruction) : Prop :=
  ∃ b, r.blocks[k]? = some b ∧ b.body[j]? = some i

def Has (r : Routine) (i : Instruction) : Prop := ∃ k j, r.At k j i

def EndsWith (r : Routine) (jump : Jump) : Prop :=
  ∃ (k : BlockId) (b : Block), r.blocks[k]? = some b ∧ b.jump = some jump

def Pending (r : Routine) (label : Label) : Prop := r.labels[label]? = some none

def Owes (r : Routine) (label : Label) : Prop :=
  (∃ jump, r.EndsWith jump ∧ label ∈ jump.targets) ∧ ∀ k, r.labels[label]? ≠ some (some k)

def InUse (r : Routine) (id : LocalId) : Prop := r.isTemp[id]? = some true ∧ id ∉ r.freeTemps

/-- The shape that every routine keeps: all blocks but the current one have their jumps, placed
labels name blocks of the body, and free temporaries are temporaries. -/
structure Built (r : Routine) : Prop where
  current_lt : r.current < r.blocks.size
  current_ne : r.current ≠ entry
  others_closed : ∀ (k : BlockId) (b : Block), r.blocks[k]? = some b → k ≠ r.current →
    b.isClosed = true
  entry_jump : ∃ b, r.blocks[entry]? = some b ∧ b.jump = some (.goto 1)
  mirrors : ∀ (k : BlockId) (b : Block), r.blocks[k]? = some b → b.Mirrors
  entry_target : r.labels[1]? = some (some 1)
  placed : ∀ (label : Label) (k : BlockId), r.labels[label]? = some (some k) →
    k ≠ entry ∧ k < r.blocks.size
  free_nodup : r.freeTemps.Nodup
  free_temp : ∀ id ∈ r.freeTemps, r.isTemp[id]? = some true
  result_local : r.isTemp[0]? = some false

/-- A routine to which code can be added. -/
structure Sound (r : Routine) : Prop extends Built r where
  unfinished : r.closed = false

/-- What later code leaves of a routine: instructions stay, closed blocks of the body stay as they
are, and so do placed labels and the kinds of locals. -/
structure Grows (r r' : Routine) : Prop where
  same_id : r'.id = r.id
  same_parent : r'.parent = r.parent
  same_layout : r'.layout = r.layout
  same_closed : r'.closed = r.closed
  vars : ∀ (k : Nat) (v : Variable), r.vars[k]? = some v → r'.vars[k]? = some v
  blocks : ∀ (k : BlockId) (b : Block), r.blocks[k]? = some b → ∃ b', r'.blocks[k]? = some b' ∧
    b.body.toList <+: b'.body.toList ∧
      ∀ jump, b.jump = some jump → b'.jump = some jump ∧ (k ≠ entry → b'.body = b.body)
  labels : ∀ (label : Label) (k : BlockId), r.labels[label]? = some (some k) →
    r'.labels[label]? = some (some k)
  label_count : r.labels.size ≤ r'.labels.size
  temps : ∀ (id : LocalId) (temp : Bool), r.isTemp[id]? = some temp → r'.isTemp[id]? = some temp
  slots : r.argSlotCount ≤ r'.argSlotCount
  tries : r.tryCount ≤ r'.tryCount

lemma Grows.refl (r : Routine) : r.Grows r where
  same_id := rfl
  same_parent := rfl
  same_layout := rfl
  same_closed := rfl
  vars _ _ found := found
  blocks _ b found := ⟨b, found, List.prefix_refl _, fun _ jump => ⟨jump, fun _ => rfl⟩⟩
  labels _ _ placed := placed
  label_count := Nat.le_refl _
  temps _ _ found := found
  slots := Nat.le_refl _
  tries := Nat.le_refl _

lemma Grows.trans {r'' : Routine} (first : r.Grows r') (second : r'.Grows r'') : r.Grows r'' where
  same_id := second.same_id.trans first.same_id
  same_parent := second.same_parent.trans first.same_parent
  same_layout := second.same_layout.trans first.same_layout
  same_closed := second.same_closed.trans first.same_closed
  vars k v found := second.vars k v (first.vars k v found)
  blocks k b found := by
    obtain ⟨b', found', body', jump'⟩ := first.blocks k b found
    obtain ⟨b'', found'', body'', jump''⟩ := second.blocks k b' found'
    refine ⟨b'', found'', body'.trans body'', fun jump ends => ?_⟩
    obtain ⟨ends', same'⟩ := jump' jump ends
    obtain ⟨ends'', same''⟩ := jump'' jump ends'
    exact ⟨ends'', fun inner => (same'' inner).trans (same' inner)⟩
  labels label k placed := second.labels label k (first.labels label k placed)
  label_count := Nat.le_trans first.label_count second.label_count
  temps id temp found := second.temps id temp (first.temps id temp found)
  slots := Nat.le_trans first.slots second.slots
  tries := Nat.le_trans first.tries second.tries

lemma Grows.local_lt (grows : r.Grows r') {id : LocalId}
    (inside : id < r.isTemp.size) : id < r'.isTemp.size :=
  (Array.getElem?_eq_some_iff.mp (grows.temps id _ (Array.getElem?_eq_getElem inside))).1

lemma Built.current_block (built : r.Built) : r.blocks[r.current]? = some r.currentBlock := by
  rw [currentBlock, Array.getElem?_eq_getElem built.current_lt, Option.getD_some]

lemma Built.openId_ne (built : r.Built) : r.openId ≠ entry := by
  rw [openId]
  split
  · exact Nat.ne_of_gt (Nat.zero_lt_of_lt built.current_lt)
  · exact built.current_ne

lemma openId_cases (r : Routine) :
    (r.currentBlock.isClosed = true ∧ r.openId = r.blocks.size ∧ r.openBody = #[]) ∨
      (r.currentBlock.isClosed = false ∧ r.openId = r.current ∧
        r.openBody = r.currentBlock.body) := by
  cases closed : r.currentBlock.isClosed <;> simp [openId, openBody, closed]

section

variable (built : r.Built)
include built

lemma withOpen_blocks (b : Block) (k : BlockId) :
    (r.withOpen b).blocks[k]? = if k = r.openId then some b else r.blocks[k]? := by
  have inside := built.current_lt
  rcases openId_cases r with ⟨closed, id, -⟩ | ⟨opened, id, -⟩
  · simp only [withOpen, closed, if_true, id, Array.getElem?_push]
  · simp only [withOpen, opened, id, Bool.false_eq_true, if_false, Array.getElem?_setIfInBounds,
      eq_comm, inside, if_true]

lemma withOpen_size (b : Block) :
    (r.withOpen b).blocks.size = max r.blocks.size (r.openId + 1) := by
  have inside := built.current_lt
  rcases openId_cases r with ⟨closed, id, -⟩ | ⟨opened, id, -⟩
  · simp [withOpen, closed, id]
  · simp [withOpen, opened, id, Nat.max_eq_left (Nat.succ_le_of_lt inside)]

lemma open_block (opened : r.currentBlock.isClosed = false) :
    r.blocks[r.openId]? = some { body := r.openBody, jump := none } := by
  have jump : r.currentBlock.jump = none := by simpa [Block.isClosed] using opened
  rcases openId_cases r with ⟨closed, -, -⟩ | ⟨-, id, body⟩
  · simp [opened] at closed
  · have none : r.currentBlock.successors = [] := by
      rw [built.mirrors _ _ built.current_block, jump]
      rfl
    rw [id, built.current_block, body, ← jump, ← none]

lemma open_block_eq (found : r.blocks[r.openId]? = some b) :
    b = { body := r.openBody, jump := none } := by
  rcases openId_cases r with ⟨-, id, -⟩ | ⟨opened, -, -⟩
  · rw [id, Array.getElem?_eq_none (Nat.le_refl _)] at found
    cases found
  · simpa [open_block built opened] using found.symm

lemma Built.closed_of_ne (found : r.blocks[k]? = some b) (other : k ≠ r.openId) :
    b.isClosed = true := by
  rcases openId_cases r with ⟨closed, -, -⟩ | ⟨-, id, -⟩
  · by_cases current : k = r.current
    · obtain rfl : r.currentBlock = b := by simpa [current, built.current_block] using found
      exact closed
    · exact built.others_closed k b found current
  · exact built.others_closed k b found (id ▸ other)

lemma Built.withOpen (b : Block) (mirrors : b.Mirrors) : (r.withOpen b).Built where
  __ := built
  current_lt := by
    rw [withOpen_size built]
    exact Nat.lt_of_lt_of_le (Nat.lt_succ_self _) (Nat.le_max_right _ _)
  current_ne := built.openId_ne
  others_closed k other found different := by
    have other_id : k ≠ r.openId := different
    rw [withOpen_blocks built, if_neg other_id] at found
    exact built.closed_of_ne found other_id
  entry_jump := by
    obtain ⟨first, found, jump⟩ := built.entry_jump
    exact ⟨first, by rw [withOpen_blocks built, if_neg built.openId_ne.symm, found], jump⟩
  mirrors k other found := by
    rw [withOpen_blocks built] at found
    split at found
    · cases found
      exact mirrors
    · exact built.mirrors k other found
  placed label k at_k := by
    obtain ⟨not_entry, inside⟩ := built.placed label k at_k
    refine ⟨not_entry, ?_⟩
    rw [withOpen_size built]
    exact Nat.lt_of_lt_of_le inside (Nat.le_max_left _ _)

end

lemma Sound.withOpen (sound : r.Sound) (b : Block) (mirrors : b.Mirrors) : (r.withOpen b).Sound :=
  { sound.toBuilt.withOpen b mirrors with unfinished := sound.unfinished }

section

variable (built : r.Built)
include built

lemma grows_withOpen (longer : r.openBody.toList <+: b.body.toList) : r.Grows (r.withOpen b) where
  same_id := rfl
  same_parent := rfl
  same_layout := rfl
  same_closed := rfl
  vars _ _ found := found
  blocks k old found := by
    rw [withOpen_blocks built]
    by_cases here : k = r.openId
    · obtain rfl := open_block_eq built (here ▸ found)
      exact ⟨b, if_pos here, longer, fun jump ends => by cases ends⟩
    · exact ⟨old, by rw [if_neg here, found], List.prefix_refl _, fun _ ends =>
        ⟨ends, fun _ => rfl⟩⟩
  labels _ _ placed := placed
  label_count := Nat.le_refl _
  temps _ _ found := found
  slots := Nat.le_refl _
  tries := Nat.le_refl _

lemma at_withOpen (stands : (r.withOpen b).At k j i) :
    r.At k j i ∨ k = r.openId ∧ b.body[j]? = some i := by
  obtain ⟨found, at_k, here⟩ := stands
  rw [withOpen_blocks built] at at_k
  split at at_k
  next open_here =>
    cases at_k
    exact .inr ⟨open_here, here⟩
  next => exact .inl ⟨found, at_k, here⟩

lemma at_entry_withOpen (stands : (r.withOpen b).At entry j i) : r.At entry j i := by
  rcases at_withOpen built stands with old | ⟨here, -⟩
  · exact old
  · exact absurd here.symm built.openId_ne

lemma endsWith_withOpen {jump : Jump} (ends : (r.withOpen b).EndsWith jump) :
    r.EndsWith jump ∨ b.jump = some jump := by
  obtain ⟨k, found, at_k, ends⟩ := ends
  rw [withOpen_blocks built] at at_k
  split at at_k
  · cases at_k
    exact .inr ends
  · exact .inl ⟨k, found, at_k, ends⟩

lemma at_openBody (here : r.openBody[j]? = some i) : r.At r.openId j i := by
  rcases openId_cases r with ⟨-, -, body⟩ | ⟨opened, -, -⟩
  · simp [body] at here
  · exact ⟨_, open_block built opened, here⟩

lemma at_appended {other : Instruction} (stands : (r.appended i).At k j other) :
    r.At k j other ∨ k = r.openId ∧ j = r.openBody.size ∧ other = i := by
  rcases at_withOpen built stands with old | ⟨rfl, here⟩
  · exact .inl old
  · rw [Array.getElem?_push] at here
    split at here
    next last => exact .inr ⟨rfl, last, by simpa using here.symm⟩
    next => exact .inl (at_openBody built here)

lemma at_appended_last (i : Instruction) : (r.appended i).At r.openId r.openBody.size i :=
  ⟨{ body := r.openBody.push i, jump := none }, by rw [appended, withOpen_blocks built, if_pos rfl],
    by simp⟩

lemma withOpen_currentBlock (b : Block) : (r.withOpen b).currentBlock = b := by
  have current : (r.withOpen b).current = r.openId := rfl
  rw [currentBlock, current, withOpen_blocks built, if_pos rfl, Option.getD_some]

lemma withOpen_open (body : Array Instruction) :
    (r.withOpen { body, jump := none }).openId = r.openId ∧
      (r.withOpen { body, jump := none }).openBody = body := by
  have current := withOpen_currentBlock built { body, jump := none }
  constructor
  · rw [openId, current]
    rfl
  · rw [openBody, current]
    rfl

lemma Built.ended (jump : Jump) : (r.ended jump).Built := built.withOpen _ rfl

lemma ended_closed (jump : Jump) :
    (r.ended jump).openId = (r.ended jump).blocks.size ∧ (r.ended jump).openBody = #[] := by
  have current : (r.ended jump).currentBlock = _ := withOpen_currentBlock built _
  rw [openId, openBody, current]
  exact ⟨rfl, rfl⟩

lemma withOpen_self (opened : r.currentBlock.isClosed = false) :
    r.withOpen { body := r.openBody, jump := none } = r := by
  have blocks : (r.withOpen { body := r.openBody, jump := none }).blocks = r.blocks := by
    apply Array.ext_getElem?
    intro k
    rw [withOpen_blocks built]
    split
    next here => rw [here, open_block built opened]
    next => rfl
  have current : r.openId = r.current := by simp [openId, opened]
  calc
    r.withOpen { body := r.openBody, jump := none } =
        { r with blocks := (r.withOpen { body := r.openBody, jump := none }).blocks,
                 current := r.openId } := rfl
    _ = r := by rw [blocks, current]

lemma withOpen_withOpen (body : Array Instruction) (b : Block) :
    (r.withOpen { body, jump := none }).withOpen b = r.withOpen b := by
  have blocks : ((r.withOpen { body, jump := none }).withOpen b).blocks =
      (r.withOpen b).blocks := by
    apply Array.ext_getElem?
    intro k
    rw [withOpen_blocks (built.withOpen { body, jump := none } rfl), withOpen_blocks built,
      withOpen_blocks built, (withOpen_open built body).1]
    split <;> rfl
  calc
    (r.withOpen { body, jump := none }).withOpen b =
        { r with blocks := ((r.withOpen { body, jump := none }).withOpen b).blocks,
                 current := (r.withOpen { body, jump := none }).openId } := rfl
    _ = r.withOpen b := by
      rw [blocks, (withOpen_open built body).1]
      rfl

end

lemma openBlock_run (closed : r.currentBlock.isClosed = true) :
    openBlock r = .ok ⟨⟩ (r.withOpen Block.empty) := by
  have edit : openBlock r =
      .ok ⟨⟩ { r with blocks := r.blocks.push Block.empty, current := r.blocks.size } := rfl
  simp [edit, withOpen, openId, closed]

lemma ensureOpen_run (built : r.Built) :
    ensureOpen r = .ok ⟨⟩ (r.withOpen { body := r.openBody, jump := none }) := by
  rw [ensureOpen, get_bind]
  rcases openId_cases r with ⟨closed, -, body⟩ | ⟨opened, -, -⟩
  · rw [body, if_pos closed]
    exact openBlock_run closed
  · rw [if_neg (by simp [opened]), withOpen_self built opened]
    rfl

lemma pushTo_run (found : r.blocks[k]? = some { body, jump := none }) (i : Instruction) :
    pushTo k i r = .ok ⟨⟩ { r with
      blocks := r.blocks.setIfInBounds k { body := body.push i, jump := none } } := by
  have same : (r.blocks.modify k fun b => { b with body := b.body.push i }) =
      r.blocks.setIfInBounds k { body := body.push i, jump := none } := by
    apply Array.ext_getElem?
    intro j
    rw [Array.getElem?_modify, Array.getElem?_setIfInBounds]
    split
    next here =>
      subst here
      have inside := (lt_size found)
      rw [found, if_pos inside]
      rfl
    next => rfl
  rw [pushTo, get_bind, found, ← same]
  rfl

lemma withOpen_of_open (opened : r.currentBlock.isClosed = false) (b : Block) :
    r.withOpen b = { r with blocks := r.blocks.setIfInBounds r.current b } := by
  simp [withOpen, openId, opened]

lemma ensured_run (built : r.Built) (edit : BlockId → Edit PUnit)
    (run : ∀ r' : Routine, r'.blocks[r'.current]? = some { body := r.openBody, jump := none } →
      edit r'.current r' = .ok ⟨⟩ { r' with blocks := r'.blocks.setIfInBounds r'.current b }) :
    (ensureOpen >>= fun _ => get >>= fun now => edit now.current) r = .ok ⟨⟩ (r.withOpen b) := by
  have current := withOpen_currentBlock built { body := r.openBody, jump := none }
  have found := (built.withOpen { body := r.openBody, jump := none } rfl).current_block
  have changed := withOpen_of_open (by rw [current]; rfl) b
  rw [current] at found
  rw [withOpen_withOpen built] at changed
  rw [bind_run (ensureOpen_run built), changed]
  exact run _ found

lemma push_run (sound : r.Sound) (i : Instruction) : push i r = .ok ⟨⟩ (r.appended i) := by
  have start : push i r = (ensureOpen >>= fun _ => get >>= fun now => pushTo now.current i) r := by
    rw [push, get_bind, sound.unfinished]
    rfl
  rw [start]
  exact ensured_run sound.toBuilt (pushTo · i) fun r' found => pushTo_run found i

lemma close_run (found : r.blocks[k]? = some { body, jump := none }) (jump : Jump) :
    close k jump r = .ok ⟨⟩ { r with
      blocks := r.blocks.setIfInBounds k
        { body, jump := some jump, successors := jump.targets } } := by
  have same : (r.blocks.modify k fun b =>
        { b with jump := some jump, successors := jump.targets }) =
      r.blocks.setIfInBounds k { body, jump := some jump, successors := jump.targets } := by
    apply Array.ext_getElem?
    intro j
    rw [Array.getElem?_modify, Array.getElem?_setIfInBounds]
    split
    next here =>
      subst here
      have inside := (lt_size found)
      rw [found, if_pos inside]
      rfl
    next => rfl
  rw [close, get_bind, found, ← same]
  rfl

lemma setJump_run (built : r.Built) (jump : Jump) : setJump jump r = .ok ⟨⟩ (r.ended jump) :=
  ensured_run built (close · jump) fun _ found => close_run found jump

lemma place_run (built : r.Built) (pending : r.Pending label) :
    place label r = .ok ⟨⟩ (r.placeAt label) := by
  have asked : ask (·.labelBlock label) r = .ok none r := by
    rw [Pending] at pending
    simp [ask, labelBlock, pending]
  rw [place, bind_run asked]
  simp only [get_bind]
  rcases openId_cases r with ⟨closed, id, body⟩ | ⟨opened, -, body⟩
  · simp only [closed, if_true]
    have started : r.startAt label = r.withOpen Block.empty := by simp [startAt, body]
    rw [bind_run (openBlock_run closed), get_bind, withOpen_currentBlock built, placeAt,
      started]
    rfl
  · have jump : r.currentBlock.jump = none := by simpa [Block.isClosed] using opened
    simp only [opened, Bool.false_eq_true, if_false]
    by_cases empty : r.openBody.isEmpty
    · have started : r.startAt label = r := by
        rw [startAt]
        simpa [Block.empty, Array.isEmpty_iff.mp empty] using withOpen_self built opened
      have blank : r.currentBlock.isEmpty = true := by simp [Block.isEmpty, ← body, empty, jump]
      simp only [blank, Bool.not_true, Bool.false_eq_true, if_false, get_bind, placeAt, started]
      rfl
    · have full : r.currentBlock.isEmpty = false := by simp [Block.isEmpty, ← body, empty]
      simp only [full, Bool.not_false, if_true]
      have gone := setJump_run built (.goto label)
      have closed : (r.ended (.goto label)).currentBlock.isClosed := by
        rw [ended, withOpen_currentBlock built]
        rfl
      have current := withOpen_currentBlock (built.ended (.goto label)) Block.empty
      have started : r.startAt label = (r.ended (.goto label)).withOpen Block.empty := by
        rw [startAt, if_neg empty]
      rw [placeAt, started]
      refine bind_eq_ok.mpr ⟨⟨⟩, _, gone, ?_⟩
      refine bind_eq_ok.mpr ⟨⟨⟩, _, openBlock_run closed, ?_⟩
      rw [get_bind, current]
      rfl

lemma Grows.stands (grows : r.Grows r') (stands : r.At k j i) : r'.At k j i := by
  obtain ⟨b, found, here⟩ := stands
  obtain ⟨b', found', longer, -⟩ := grows.blocks k b found
  refine ⟨b', found', ?_⟩
  obtain ⟨inside, same⟩ := Array.getElem?_eq_some_iff.mp here
  rw [← Array.getElem?_toList, ← same]
  exact List.prefix_iff_getElem?.mp longer j inside

lemma Grows.stands_back (grows : r.Grows r') {j' : Nat} {i' : Instruction} (later : r.At k j i)
    (earlier : j' < j) (stands : r'.At k j' i') : r.At k j' i' := by
  obtain ⟨b, found, here⟩ := later
  have inside := Nat.lt_trans earlier (lt_size here)
  have old : r.At k j' b.body[j'] := ⟨b, found, Array.getElem?_eq_getElem inside⟩
  obtain ⟨b', found', new⟩ := grows.stands old
  obtain ⟨b'', found'', there⟩ := stands
  obtain rfl : b' = b'' := by simpa [found'] using found''
  obtain rfl : b.body[j'] = i' := by simpa [new] using there
  exact old

/-- What an operation on the code of a routine leaves, and what it may add: instructions and
jumps. -/
structure Edits (r r' : Routine) (new : Instruction → Prop) (ends : Jump → Prop) : Prop where
  sound : r'.Sound
  grows : r.Grows r'
  same_vars : r'.vars = r.vars
  stands : ∀ k j i, r'.At k j i → r.At k j i ∨ new i
  prologue : ∀ j i, r'.At entry j i → r.At entry j i ∨ i.isPrologue = true
  endsWith : ∀ jump, r'.EndsWith jump → r.EndsWith jump ∨ ends jump

lemma edits_appended (sound : r.Sound) (i : Instruction) :
    r.Edits (r.appended i) (· = i) fun _ => False where
  sound := sound.withOpen _ rfl
  grows := grows_withOpen sound.toBuilt (by simp)
  same_vars := rfl
  stands k j other here := by
    rcases at_withOpen sound.toBuilt here with old | ⟨rfl, inside⟩
    · exact .inl old
    · rw [Array.getElem?_push] at inside
      split at inside
      · exact .inr (Option.some.inj inside).symm
      · exact .inl (at_openBody sound.toBuilt inside)
  prologue _ _ here := .inl (at_entry_withOpen sound.toBuilt here)
  endsWith jump ends := (endsWith_withOpen sound.toBuilt ends).imp_right (by simp)

lemma edits_ended (sound : r.Sound) (jump : Jump) :
    r.Edits (r.ended jump) (fun _ => False) (· = jump) where
  sound := sound.withOpen _ rfl
  grows := grows_withOpen sound.toBuilt (List.prefix_refl _)
  same_vars := rfl
  stands k j other here := by
    rcases at_withOpen sound.toBuilt here with old | ⟨rfl, inside⟩
    · exact .inl old
    · exact .inl (at_openBody sound.toBuilt inside)
  prologue _ _ here := .inl (at_entry_withOpen sound.toBuilt here)
  endsWith other ends := (endsWith_withOpen sound.toBuilt ends).imp_right (by simp [eq_comm])

lemma Built.startAt (built : r.Built) (label : Label) : (r.startAt label).Built := by
  rw [Routine.startAt]
  split
  · exact built.withOpen _ rfl
  · exact (built.ended _).withOpen _ rfl

lemma grows_startAt (built : r.Built) (label : Label) : r.Grows (r.startAt label) := by
  rw [startAt]
  split
  next empty => exact grows_withOpen built (by simp [Array.isEmpty_iff.mp empty])
  next =>
    refine (grows_withOpen built (List.prefix_refl _)).trans
      (grows_withOpen (built.ended (.goto label)) ?_)
    change (r.ended (.goto label)).openBody.toList <+: _
    rw [(ended_closed built (.goto label)).2]
    exact List.nil_prefix

lemma edits_startAt (sound : r.Sound) (label : Label) :
    r.Edits (r.startAt label) (fun _ => False) (· = .goto label) where
  sound := { sound.toBuilt.startAt label with
    unfinished := (grows_startAt sound.toBuilt label).same_closed.trans sound.unfinished }
  grows := grows_startAt sound.toBuilt label
  same_vars := by
    rw [startAt]
    split <;> rfl
  stands k j i here := by
    rw [startAt] at here
    split at here
    · exact (at_withOpen sound.toBuilt here).imp_right (by simp [Block.empty])
    · rcases at_withOpen (sound.toBuilt.ended _) here with old | ⟨-, absent⟩
      · exact (edits_ended sound (.goto label)).stands k j i old
      · simp [Block.empty] at absent
  prologue j i here := by
    rw [startAt] at here
    split at here
    · exact .inl (at_entry_withOpen sound.toBuilt here)
    · exact .inl (at_entry_withOpen sound.toBuilt
        (at_entry_withOpen (sound.toBuilt.ended _) here))
  endsWith jump ends := by
    rw [startAt] at ends
    split at ends
    · exact (endsWith_withOpen sound.toBuilt ends).imp_right (by simp [Block.empty])
    · rcases endsWith_withOpen (sound.toBuilt.ended _) ends with old | absent
      · exact (edits_ended sound (.goto label)).endsWith jump old
      · simp [Block.empty] at absent

lemma startAt_open (built : r.Built) (label : Label) :
    (r.startAt label).openId = (r.startAt label).current ∧ (r.startAt label).openBody = #[] := by
  rw [startAt]
  split
  · exact withOpen_open built #[]
  · exact withOpen_open (built.ended (.goto label)) #[]

lemma placeAt_labels (pending : r.Pending label) (other : Label) :
    (r.placeAt label).labels[other]? =
      if other = label then some (some (r.placeAt label).current) else r.labels[other]? := by
  have same : (r.startAt label).labels = r.labels := by
    rw [startAt]
    split <;> rfl
  have inside := (lt_size pending)
  rw [placeAt, same]
  by_cases here : other = label
  · simp [here, inside]
  · simp [here, Ne.symm here]

lemma Built.placeAt (built : r.Built) (pending : r.Pending label) : (r.placeAt label).Built := by
  have started := built.startAt label
  have labels := placeAt_labels pending
  refine { started with entry_target := ?_, placed := fun other k found => ?_ }
  · rw [labels, if_neg, built.entry_target]
    rintro rfl
    simp [Pending, built.entry_target] at pending
  · rw [labels] at found
    split at found
    · cases found
      exact ⟨started.current_ne, started.current_lt⟩
    · obtain ⟨not_entry, inside⟩ := built.placed other k found
      obtain ⟨b, there, -⟩ :=
        (grows_startAt built label).blocks k _ (Array.getElem?_eq_getElem inside)
      exact ⟨not_entry, (lt_size there)⟩

lemma grows_placeAt (built : r.Built) (pending : r.Pending label) : r.Grows (r.placeAt label) := by
  have started := grows_startAt built label
  refine { started with labels := fun other k found => ?_, label_count := ?_ }
  · rw [placeAt_labels pending, if_neg, found]
    rintro rfl
    simp [Pending, found] at pending
  · simpa [placeAt] using started.label_count

lemma edits_placeAt (sound : r.Sound) (pending : r.Pending label) :
    r.Edits (r.placeAt label) (fun _ => False) (· = .goto label) :=
  { edits_startAt sound label with
    sound := { sound.toBuilt.placeAt pending with
      unfinished := (grows_placeAt sound.toBuilt pending).same_closed.trans sound.unfinished }
    grows := grows_placeAt sound.toBuilt pending }

section

variable (id : RoutineId) (parent : Option RoutineId) (level : Nat) (name : Option String)
  (strict : Bool)
include id parent level name strict

lemma new_built : (Routine.new id parent level name strict).Built where
  current_lt := Nat.one_lt_two
  current_ne := Nat.one_ne_zero
  others_closed k b found other := by
    match k with
    | 0 =>
      cases found
      rfl
    | 1 => exact absurd rfl other
    | k + 2 => cases found
  entry_jump := ⟨_, rfl, rfl⟩
  mirrors k b found := by
    match k with
    | 0 | 1 =>
      cases found
      rfl
    | k + 2 => cases found
  entry_target := rfl
  placed label k placed := by
    match label with
    | 0 => cases placed
    | 1 =>
      cases Option.some.inj placed
      exact ⟨Nat.one_ne_zero, Nat.one_lt_two⟩
    | label + 2 => cases placed
  free_nodup := List.nodup_nil
  free_temp _ absent := by cases absent
  result_local := rfl

lemma new_sound : (Routine.new id parent level name strict).Sound :=
  { new_built id parent level name strict with unfinished := rfl }

end

end Routine
end Scriptc
