import Mathlib.Algebra.BigOperators.Group.Finset.Basic
import Scriptc.Code.Order
import Scriptc.Proofs.Results

/-!
# What the order of blocks holds

The walk from the entry takes every pending label, since its number of steps counts the successors
of all blocks. So it is the recursive walk, depth first, and meets each block that can be reached
once.
-/

open List

namespace Scriptc.Routine

variable {r : Routine} {exit block : BlockId} {visited : List BlockId} {label : Label}
  {pending : List Label}

/-- A label that some run from the entry may reach. -/
inductive Reaches (r : Routine) : Label → Prop
  | start {label : Label} (next : label ∈ r.followed entry) : Reaches r label
  | step {label further : Label} {block : BlockId} (earlier : Reaches r label)
      (target : r.target label = .ok block) (next : further ∈ r.followed block) :
      Reaches r further

lemma Reaches.placed (reached : r.Reaches label)
    (successors : ∀ block, ∀ next ∈ r.followed block, ∃ b, r.target next = .ok b) :
    ∃ b, r.target label = .ok b := by
  cases reached with
  | start next => exact successors entry label next
  | step earlier target next => exact successors _ label next

/-- A routine that has its exit: a block of its own that only returns the result. -/
structure Finished (r : Routine) (exit : BlockId) : Prop where
  placed : r.exitBlock = .ok exit
  not_entry : exit ≠ entry
  returns : ∃ b, r.blocks[exit]? = some b ∧ b.jump = some (.ret result) ∧ b.successors = []

lemma Finished.followed_exit (finished : r.Finished exit) : r.followed exit = [] := by
  obtain ⟨b, found, -, none⟩ := finished.returns
  simp [followed, found, none]

/-- The recursive walk through some labels, depth first, with the blocks that it meets and that are
not seen yet. From a new block its own successors are followed before the labels after it. -/
inductive Preorder (r : Routine) : List BlockId → List Label → List BlockId → Prop
  | done {seen : List BlockId} : Preorder r seen [] []
  | again {seen met : List BlockId} {label : Label} {labels : List Label} {block : BlockId}
      (target : r.target label = .ok block) (old : block ∈ seen)
      (later : Preorder r seen labels met) : Preorder r seen (label :: labels) met
  | visit {seen below met : List BlockId} {label : Label} {labels : List Label} {block : BlockId}
      (target : r.target label = .ok block) (new : block ∉ seen)
      (inner : Preorder r (block :: seen) (r.followed block) below)
      (later : Preorder r (below.reverse ++ block :: seen) labels met) :
      Preorder r seen (label :: labels) (block :: (below ++ met))

namespace Preorder

variable {seen met : List BlockId} {labels : List Label}

lemma unique {other : List BlockId} (first : r.Preorder seen labels met)
    (second : r.Preorder seen labels other) : met = other := by
  induction first generalizing other with
  | done => cases second; rfl
  | again target old _ ih =>
    cases second with
    | again _ _ later => exact ih later
    | visit target' new =>
      obtain rfl := Except.ok.inj (target.symm.trans target')
      exact absurd old new
  | visit target new _ _ ih_inner ih_later =>
    cases second with
    | again target' old =>
      obtain rfl := Except.ok.inj (target.symm.trans target')
      exact absurd old new
    | visit target' _ inner later =>
      obtain rfl := Except.ok.inj (target.symm.trans target')
      obtain rfl := ih_inner inner
      rw [ih_later later]

section

variable (walk : r.Preorder seen labels met)
include walk

lemma nodup (distinct : seen.Nodup) : (met.reverse ++ seen).Nodup := by
  induction walk with
  | done => exact distinct
  | again _ _ _ ih => exact ih distinct
  | visit _ new _ _ ih_inner ih_later =>
    simpa using ih_later (ih_inner (nodup_cons.mpr ⟨new, distinct⟩))

lemma closed :
    (∀ label ∈ labels, ∃ block, r.target label = .ok block ∧ block ∈ met.reverse ++ seen) ∧
      ∀ block ∈ met, ∀ label ∈ r.followed block,
        ∃ next, r.target label = .ok next ∧ next ∈ met.reverse ++ seen := by
  induction walk with
  | done => simp
  | again target old _ ih =>
    refine ⟨forall_mem_cons.mpr ⟨⟨_, target, ?_⟩, ih.1⟩, ih.2⟩
    exact mem_append_right _ old
  | @visit seen below met label labels block target new _ _ ih_inner ih_later =>
    have more : (block :: (below ++ met)).reverse ++ seen =
        met.reverse ++ (below.reverse ++ block :: seen) := by simp
    rw [more]
    have grown {P : BlockId → Prop} (found : ∃ next, P next ∧ next ∈ below.reverse ++
        block :: seen) : ∃ next, P next ∧ next ∈ met.reverse ++ (below.reverse ++ block :: seen) :=
      found.imp fun _ ⟨holds, member⟩ => ⟨holds, mem_append_right _ member⟩
    refine ⟨forall_mem_cons.mpr ⟨grown ⟨block, target, by simp⟩, ih_later.1⟩, fun k member => ?_⟩
    rcases mem_cons.mp member with rfl | member
    · exact fun next follows => grown (ih_inner.1 next follows)
    · rcases mem_append.mp member with first | second
      · exact fun next follows => grown (ih_inner.2 k first next follows)
      · exact ih_later.2 k second

lemma reached (start : ∀ label ∈ labels, r.Reaches label) {k : BlockId} (member : k ∈ met) :
    ∃ label, r.Reaches label ∧ r.target label = .ok k := by
  induction walk with
  | done => cases member
  | again _ _ _ ih => exact ih (forall_mem_cons.mp start).2 member
  | visit target _ _ _ ih_inner ih_later =>
    obtain ⟨here, rest⟩ := forall_mem_cons.mp start
    rcases mem_cons.mp member with rfl | member
    · exact ⟨_, here, target⟩
    · rcases mem_append.mp member with first | second
      · exact ih_inner (fun _ next => .step here target next) first
      · exact ih_later rest second

end

end Preorder

/-- The number of successors of the blocks that are not visited yet. -/
def unseenCount (r : Routine) (visited : List BlockId) : Nat :=
  ∑ block ∈ Finset.range r.blocks.size \ visited.toFinset, (r.followed block).length

lemma followed_outside (outside : r.blocks.size ≤ block) : r.followed block = [] := by
  simp [followed, Array.getElem?_eq_none outside]

lemma unseenCount_cons (unseen : block ∉ visited) :
    (r.followed block).length + r.unseenCount (block :: visited) = r.unseenCount visited := by
  rw [unseenCount, toFinset_cons, Finset.sdiff_insert]
  by_cases inside : block < r.blocks.size
  · have present : block ∈ Finset.range r.blocks.size \ visited.toFinset := by simp [inside, unseen]
    exact Finset.add_sum_erase _ (fun b => (r.followed b).length) present
  · have absent : block ∉ Finset.range r.blocks.size \ visited.toFinset := by simp [inside]
    rw [Finset.erase_eq_of_notMem absent, followed_outside (Nat.le_of_not_lt inside)]
    exact Nat.zero_add _

lemma unseenCount_nil (r : Routine) : r.unseenCount [] = r.edgeCount := by
  have lengths : r.blocks.toList.map (·.successors.length) =
      (range r.blocks.size).map fun block => (r.followed block).length := by
    apply ext_getElem?
    intro block
    by_cases inside : block < r.blocks.size
    · simp [followed, inside]
    · simp [inside]
  rw [edgeCount, lengths, unseenCount, toFinset_nil]
  rfl

lemma edgeCount_entry (r : Routine) :
    (r.followed entry).length + r.unseenCount [entry] = r.edgeCount := by
  rw [unseenCount_cons (by simp), unseenCount_nil]

lemma walk_step {steps : Nat} (target : r.target label = .ok block) :
    r.walk exit (steps + 1) (label :: pending) visited =
      if block = exit ∨ block ∈ visited then r.walk exit steps pending visited
      else r.walk exit steps (r.followed block ++ pending) (block :: visited) := by
  simp [walk, target, bind, Except.bind]

/-- A walk with steps for all successors does not run out of them. -/
lemma walk_succeeds (placed : ∀ label, r.Reaches label → ∃ b, r.target label = .ok b)
    (exit : BlockId) {steps : Nat} {pending : List Label} {visited : List BlockId}
    (reached : ∀ label ∈ pending, r.Reaches label)
    (enough : pending.length + r.unseenCount visited ≤ steps) :
    ∃ result, r.walk exit steps pending visited = .ok result := by
  induction steps generalizing pending visited with
  | zero =>
    obtain rfl : pending = [] := length_eq_zero_iff.mp (by omega)
    exact ⟨visited, rfl⟩
  | succ steps ih =>
    cases pending with
    | nil => exact ⟨visited, rfl⟩
    | cons label pending =>
      rw [length_cons] at enough
      obtain ⟨block, target⟩ := placed label (reached label (by simp))
      have later : ∀ further ∈ pending, r.Reaches further := fun further mem =>
        reached further (by simp [mem])
      rw [walk_step target]
      split
      · exact ih later (by omega)
      next new =>
        have count := unseenCount_cons (r := r) (not_or.mp new).2
        refine ih (fun further mem => ?_) (by rw [length_append]; omega)
        rcases mem_append.mp mem with next | old
        · exact .step (reached label (by simp)) target next
        · exact later further old

/-- A walk with steps for all successors is the recursive one: it goes through the first labels and
then on to the rest. -/
lemma walk_preorder {steps : Nat} {labels rest : List Label} {result : List BlockId}
    (enough : labels.length + rest.length + r.unseenCount visited ≤ steps)
    (run : r.walk exit steps (labels ++ rest) visited = .ok result) :
    ∃ met left, r.Preorder (visited ++ [exit]) labels met ∧ left ≤ steps ∧
      rest.length + r.unseenCount (met.reverse ++ visited) ≤ left ∧
        r.walk exit left rest (met.reverse ++ visited) = .ok result := by
  induction steps using Nat.strong_induction_on generalizing labels rest visited with
  | _ steps ih =>
    cases labels with
    | nil => exact ⟨[], steps, .done, Nat.le_refl _, by simpa using enough, run⟩
    | cons label labels =>
      rw [length_cons] at enough
      obtain ⟨steps, rfl⟩ := Nat.exists_eq_add_of_le' (show 1 ≤ steps by omega)
      obtain ⟨block, target, -⟩ := Result.bind_eq_ok.mp run
      rw [cons_append, walk_step target] at run
      split at run
      next known =>
        obtain ⟨met, left, walk, fewer, still, last⟩ := ih steps (by omega) (by omega) run
        exact ⟨met, left, .again target (by simpa [or_comm] using known) walk, by omega, still,
          last⟩
      next new =>
        have unseen := (not_or.mp new).2
        have count := unseenCount_cons (r := r) unseen
        obtain ⟨below, middle, inner, fewer, still, run⟩ :=
          ih steps (by omega) (by rw [length_append]; omega) run
        rw [length_append] at still
        obtain ⟨met, left, later, fewer', still', last⟩ := ih middle (by omega) still run
        refine ⟨block :: (below ++ met), left, .visit target (by simpa [or_comm] using new)
          (by simpa using inner) (by simpa using later), by omega, ?_, ?_⟩
        · simpa using still'
        · simpa using last

/-- The order of a finished routine: no block twice, the entry in it, and each successor of one of
its blocks in it. -/
structure Ordered (r : Routine) (order : List BlockId) : Prop where
  nodup : order.Nodup
  entry_mem : entry ∈ order
  closed : ∀ block ∈ order, ∀ label ∈ r.followed block,
    ∃ next, r.target label = .ok next ∧ next ∈ order

section

variable (finished : r.Finished exit)
include finished

lemma blockOrder_succeeds (placed : ∀ label, r.Reaches label → ∃ b, r.target label = .ok b) :
    ∃ order, r.blockOrder = .ok order := by
  obtain ⟨visited, run⟩ := walk_succeeds placed exit (fun _ next => .start next)
    r.edgeCount_entry.le
  refine ⟨visited.reverse ++ [exit], ?_⟩
  simp [blockOrder, finished.placed, run, bind, Except.bind]

lemma blockOrder_preorder {order : List BlockId} (ordered : r.blockOrder = .ok order) :
    ∃ met, r.Preorder [entry, exit] (r.followed entry) met ∧ order = entry :: (met ++ [exit]) := by
  obtain ⟨exit', placed, rest⟩ := Result.bind_eq_ok.mp ordered
  obtain ⟨visited, run, last⟩ := Result.bind_eq_ok.mp rest
  obtain rfl : exit = exit' := by simpa [finished.placed] using placed
  cases last
  rw [← append_nil (r.followed entry)] at run
  obtain ⟨met, left, walk, -, -, ended⟩ := walk_preorder (by simp [edgeCount_entry]) run
  obtain rfl : met.reverse ++ [entry] = visited := by
    cases left <;> simpa [Routine.walk] using ended
  exact ⟨met, walk, by simp⟩

lemma Finished.order_nodup {met : List BlockId}
    (walk : r.Preorder [entry, exit] (r.followed entry) met) :
    (entry :: (met ++ [exit])).Nodup := by
  have distinct := walk.nodup (by simpa using finished.not_entry.symm)
  refine (Perm.nodup_iff ?_).mp distinct
  exact (perm_middle.trans (.cons _ ((reverse_perm met).append_right _)))

lemma blockOrder_ordered {order : List BlockId} (ordered : r.blockOrder = .ok order) :
    r.Ordered order := by
  obtain ⟨met, walk, rfl⟩ := blockOrder_preorder finished ordered
  refine ⟨finished.order_nodup walk, by simp, fun block member label follows => ?_⟩
  have inside {next : BlockId} (member : next ∈ met.reverse ++ [entry, exit]) :
      next ∈ entry :: (met ++ [exit]) := by simpa [or_comm, or_assoc, or_left_comm] using member
  rcases mem_cons.mp member with rfl | member
  · exact (walk.closed.1 label follows).imp fun _ found => ⟨found.1, inside found.2⟩
  · rcases mem_append.mp member with inner | last
    · exact (walk.closed.2 block inner label follows).imp fun _ found => ⟨found.1, inside found.2⟩
    · obtain rfl : block = exit := by simpa using last
      rw [finished.followed_exit] at follows
      cases follows

end

/-- The order of a finished routine whose reachable labels are placed is the recursive walk from the
entry, depth first and the last successor first, for which the exit is seen from the start, with the
exit at the end. It holds the entry, the exit and all blocks that can be reached, each once. -/
theorem blockOrder_isPreorder (finished : r.Finished exit)
    (placed : ∀ label, r.Reaches label → ∃ b, r.target label = .ok b) :
    ∃ order met, r.blockOrder = .ok order ∧ order = entry :: (met ++ [exit]) ∧ order.Nodup ∧
      (∀ walked, r.Preorder [entry, exit] (r.followed entry) walked ↔ walked = met) ∧
        ∀ block, block ∈ order ↔ block = entry ∨ block = exit ∨
          ∃ label, r.Reaches label ∧ r.target label = .ok block := by
  obtain ⟨order, ordered⟩ := blockOrder_succeeds finished placed
  have closed := (blockOrder_ordered finished ordered).closed
  obtain ⟨met, walk, rfl⟩ := blockOrder_preorder finished ordered
  refine ⟨_, met, ordered, rfl, finished.order_nodup walk, fun walked => ⟨fun other => ?_, ?_⟩,
    fun block => ⟨fun member => ?_, ?_⟩⟩
  · exact other.unique walk
  · rintro rfl
    exact walk
  · rcases List.mem_cons.mp member with first | member
    · exact .inl first
    · rcases List.mem_append.mp member with inner | last
      · exact .inr (.inr (walk.reached (fun _ next => .start next) inner))
      · exact .inr (.inl (by simpa using last))
  · rintro (rfl | rfl | ⟨label, reached, target⟩)
    · simp
    · simp
    · induction reached generalizing block with
      | start next =>
        obtain ⟨b, target', member⟩ := closed entry (by simp) _ next
        exact Except.ok.inj (target.symm.trans target') ▸ member
      | step _ target' next ih =>
        obtain ⟨b, target'', member⟩ := closed _ (ih _ target') _ next
        exact Except.ok.inj (target.symm.trans target'') ▸ member

def looping : Routine := { new 0 none 0 none false with
    blocks := #[{ body := #[], jump := some (.goto 1), successors := [1] },
      { body := #[], jump := some (.ifTrue receiver 2 3), successors := [2, 3] },
      { body := #[.newObject result], jump := some (.switch receiver [(1, 0), (2, 3)] 2)
        successors := [0, 3, 2] },
      { body := #[], jump := some (.throw receiver) },
      { body := #[], jump := some (.ret result) }]
    labels := #[some 4, some 1, some 2, some 3]
    current := 4
    layout := some ⟨0, 1, 1, []⟩
    closed := true }

lemma looping_placed (label : Label) (reached : looping.Reaches label) :
    ∃ block, looping.target label = .ok block := by
  apply reached.placed
  intro block next follows
  have known : next < 4 := by
    match block with
    | 0 | 1 | 2 | 3 | 4 => revert next; decide
    | block + 5 => cases follows
  match next with
  | 0 | 1 | 2 | 3 => exact ⟨_, rfl⟩

/-- The blocks of the looping routine in order: the branch goes to its second way first. -/
theorem looping_isPreorder :
    looping.Finished 4 ∧ (∀ label, looping.Reaches label → ∃ b, looping.target label = .ok b) ∧
      looping.blockOrder = .ok [0, 1, 3, 2, 4] ∧
        looping.Preorder [entry, 4] (looping.followed entry) [1, 3, 2] := by
  have finished : looping.Finished 4 := ⟨rfl, by decide, _, rfl, rfl, rfl⟩
  obtain ⟨order, met, ordered, same, -, walks, -⟩ := blockOrder_isPreorder finished looping_placed
  obtain rfl : [0, 1, 3, 2, 4] = order := Except.ok.inj ordered
  have same : [1, 3, 2] ++ [4] = met ++ [4] := (List.cons.inj same).2
  obtain rfl := List.append_cancel_right same
  exact ⟨finished, looping_placed, rfl, (walks _).mpr rfl⟩

end Scriptc.Routine
