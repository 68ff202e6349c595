import Mathlib.Algebra.BigOperators.Group.Finset.Basic
import Mathlib.Algebra.Order.BigOperators.Group.Finset
import Scriptc.Emission.StringTable
import Scriptc.Code.CodeUnit

/-!
# String constants

Each string of a unit keeps its number, by which the table gives a part of the buffer with its
bytes. The buffer has no more bytes than the strings that do not occur inside of another one.
-/

open List Array

namespace Scriptc

open StringTable

/-! ## Places in the buffer -/

namespace Text

variable {needle hay : List UInt8}

lemma eq_append_of_find {offset : Nat} (found : find? needle hay = some offset) :
    ∃ before after, hay = before ++ needle ++ after ∧ before.length = offset := by
  induction hay generalizing offset with
  | nil =>
    simp only [find?, List.isEmpty_iff] at found
    split at found
    next empty => exact ⟨[], [], by simp [empty], by simpa using found⟩
    next => cases found
  | cons byte rest ih =>
    rw [find?] at found
    split at found
    next start =>
      obtain ⟨after, same⟩ := List.isPrefixOf_iff_prefix.mp start
      exact ⟨[], after, by simp [same], by simpa using found⟩
    next =>
      obtain ⟨offset, later, rfl⟩ := Option.map_eq_some_iff.mp found
      obtain ⟨before, after, same, length⟩ := ih later
      exact ⟨byte :: before, after, by simp [same], by simp [length]⟩

lemma not_infix_of_find (absent : find? needle hay = none) : ¬needle <:+: hay := by
  induction hay with
  | nil =>
    simp only [find?, List.isEmpty_iff] at absent
    split at absent
    next => cases absent
    next other => simpa using other
  | cons byte rest ih =>
    rw [find?] at absent
    split at absent
    next => cases absent
    next start =>
      rw [infix_cons_iff, not_or, ← List.isPrefixOf_iff_prefix]
      exact ⟨start, ih (Option.map_eq_none_iff.mp absent)⟩

end Text

namespace StringTable

/-- Whether a table has the places of some strings by their numbers. Its buffer is made of strings
that are no parts of others. -/
structure Packs (count : Nat) (placed : List (List UInt8 × Nat)) (table : StringTable) : Prop where
  size : table.entries.size = count
  has : ∀ bytes id, (bytes, id) ∈ placed → ∃ before after, table.buffer = before ++ bytes ++ after ∧
      table.entries[id]? = some (before.length, bytes.length)
  parts : ∃ parts : List (List UInt8), table.buffer = parts.flatten ∧ parts.Nodup ∧
    ∀ part ∈ parts, part ∈ placed.map Prod.fst ∧
      ∀ bytes ∈ placed.map Prod.fst, part <:+: bytes → bytes = part

namespace Packs

variable {count : Nat} {placed : List (List UInt8 × Nat)} {table : StringTable}

lemma has_place (packs : Packs count placed table) {bytes : List UInt8} {id : Nat}
    (inside : id < count) (fresh : id ∉ placed.map Prod.snd) (old : List UInt8) (other : Nat)
    (member : (old, other) ∈ placed ++ [(bytes, id)]) : ∃ before after,
      (table.place bytes id).buffer = before ++ old ++ after ∧
        (table.place bytes id).entries[other]? = some (before.length, old.length) := by
  have bound := packs.size ▸ inside
  rcases List.mem_append.mp member with member | member
  · have apart : id ≠ other := fun same => fresh (same ▸ mem_map.mpr ⟨_, member, rfl⟩)
    obtain ⟨before, after, same, entry⟩ := packs.has old other member
    rw [place]
    split
    · exact ⟨before, after, same, by simpa [apart] using entry⟩
    · exact ⟨before, after ++ bytes, by simp [same], by simpa [apart] using entry⟩
  · cases List.mem_singleton.mp member
    rw [place]
    split
    next found =>
      obtain ⟨before, after, same, rfl⟩ := Text.eq_append_of_find found
      exact ⟨before, after, same, by simp [bound]⟩
    next => exact ⟨table.buffer, [], by simp, by simp [bound]⟩

lemma parts_place (packs : Packs count placed table) {bytes : List UInt8} {id : Nat}
    (shortest : ∀ longer ∈ placed.map Prod.fst, bytes.length ≤ longer.length) :
    ∃ parts : List (List UInt8), (table.place bytes id).buffer = parts.flatten ∧ parts.Nodup ∧
      ∀ part ∈ parts, part ∈ (placed ++ [(bytes, id)]).map Prod.fst ∧
        ∀ other ∈ (placed ++ [(bytes, id)]).map Prod.fst, part <:+: other → other = part := by
  obtain ⟨parts, whole, distinct, maximal⟩ := packs.parts
  have old : ∀ part ∈ parts, part ∈ (placed ++ [(bytes, id)]).map Prod.fst ∧
      ∀ other ∈ (placed ++ [(bytes, id)]).map Prod.fst, part <:+: other → other = part := by
    intro part member
    obtain ⟨known, alone⟩ := maximal part member
    simp only [List.map_append, List.mem_append, List.map_cons, List.map_nil, List.mem_singleton]
    refine ⟨.inl known, ?_⟩
    rintro other (earlier | rfl) inside
    · exact alone other earlier inside
    · exact (inside.eq_of_length (Nat.le_antisymm inside.length_le (shortest part known))).symm
  rw [place]
  split
  next => exact ⟨parts, whole, distinct, old⟩
  next absent =>
    have unseen := Text.not_infix_of_find absent
    have new : ∀ other ∈ (placed ++ [(bytes, id)]).map Prod.fst,
        bytes <:+: other → other = bytes := by
      simp only [List.map_append, List.mem_append, List.map_cons, List.map_nil, List.mem_singleton]
      rintro other (earlier | rfl) inside
      · obtain ⟨⟨_, other_id⟩, member, rfl⟩ := mem_map.mp earlier
        obtain ⟨before, after, same, -⟩ := packs.has _ _ member
        exact absurd (inside.trans ⟨before, after, same.symm⟩) unseen
      · rfl
    refine ⟨parts ++ [bytes], by simp [whole], ?_, ?_⟩
    · refine nodup_append.mpr ⟨distinct, by simp, ?_⟩
      rintro part member _ (last : _ ∈ [bytes]) rfl
      rw [List.mem_singleton.mp last] at member
      exact unseen (whole ▸ infix_of_mem_flatten member)
    · intro part member
      rcases List.mem_append.mp member with member | member
      · exact old part member
      · rw [List.mem_singleton.mp member]
        exact ⟨by simp, new⟩

lemma size_place (table : StringTable) (bytes : List UInt8) (id : Nat) :
    (table.place bytes id).entries.size = table.entries.size := by
  rw [place]
  split <;> simp

lemma foldl (packs : Packs count placed table) {order : List (List UInt8 × Nat)}
    (falling : (placed ++ order).Pairwise fun a b => b.1.length ≤ a.1.length)
    (distinct : ((placed ++ order).map Prod.snd).Nodup) (inside : ∀ entry ∈ order,
      entry.2 < count) :
    Packs count (placed ++ order)
      (order.foldl (fun table (bytes, id) => table.place bytes id) table) := by
  induction order generalizing placed table with
  | nil => simpa using packs
  | cons first rest ih =>
    obtain ⟨bytes, id⟩ := first
    rw [append_cons] at falling distinct ⊢
    have bound := inside (bytes, id) (by simp)
    have shortest : ∀ longer ∈ placed.map Prod.fst, bytes.length ≤ longer.length := by
      intro longer mem
      obtain ⟨entry, there, rfl⟩ := mem_map.mp mem
      exact (pairwise_append.mp (pairwise_append.mp falling).1).2.2 entry there
        (bytes, id) (by simp)
    have fresh : id ∉ placed.map Prod.snd := by
      intro mem
      rw [List.map_append, List.map_append] at distinct
      exact (nodup_append.mp (nodup_append.mp distinct).1).2.2 id mem id (by simp) rfl
    exact ih ⟨(size_place ..).trans packs.size, packs.has_place bound fresh,
      packs.parts_place shortest⟩ falling distinct fun entry mem => inside entry (by simp [mem])

end Packs

lemma ofStrings_packs (strings : List String) :
    Packs strings.length (placementOrder (strings.map Text.bytes)) (ofStrings strings) := by
  have start : Packs strings.length []
      { buffer := [], entries := replicate (strings.map Text.bytes).length (0, 0) } :=
    ⟨by simp, by simp, [], by simp⟩
  have order := mergeSort_perm (strings.map Text.bytes).zipIdx
    fun a b => decide (b.1.length ≤ a.1.length)
  refine start.foldl ?_ ?_ ?_
  · have sorted := @List.pairwise_mergeSort _ (fun (a b : List UInt8 × Nat) =>
      decide (b.1.length ≤ a.1.length))
      (by simpa using fun a b c first second => second.trans first)
      (by simpa using fun a b => Nat.le_total _ _) (strings.map Text.bytes).zipIdx
    simpa [placementOrder] using sorted
  · refine (order.map Prod.snd).nodup_iff.mpr ?_
    rw [List.zipIdx_map_snd]
    exact nodup_range'
  · intro entry mem
    have found := mem_zipIdx_iff_getElem?.mp (order.mem_iff.mp mem)
    simpa using (List.getElem?_eq_some_iff.mp found).1

end StringTable

/-! ## Numbers of strings -/

namespace CodeUnit

variable {strings : List String} {s : String}

variable {u : CodeUnit}

lemma foldl_withString_routines (u : CodeUnit) (strings : List String) :
    (strings.foldl withString u).routines = u.routines := by
  induction strings generalizing u with
  | nil => rfl
  | cons first rest ih =>
    rw [foldl_cons, ih, withString]
    split <;> rfl

lemma strings_withString (u : CodeUnit) (s : String) : (u.withString s).strings.toList =
    if s ∈ u.strings.toList then u.strings.toList else u.strings.toList ++ [s] := by
  rw [withString]
  split
  next old => simp_all
  next new => simpa using new

lemma mem_foldl_withString :
    s ∈ (strings.foldl withString u).strings ↔ s ∈ u.strings ∨ s ∈ strings := by
  induction strings generalizing u with
  | nil => simp
  | cons first rest ih =>
    rw [foldl_cons, ih, ← mem_toList_iff, strings_withString]
    split <;> simp
    · grind
    · tauto

lemma eraseDups_of_nodup (distinct : strings.Nodup) : strings.eraseDups = strings := by
  induction strings with
  | nil => rfl
  | cons first rest ih =>
    obtain ⟨other, distinct⟩ := nodup_cons.mp distinct
    rw [List.eraseDups_cons, List.filter_eq_self.mpr, ih distinct]
    intro later mem
    simpa using fun same : later = first => other (same ▸ mem)

lemma foldl_withString_strings (u : CodeUnit) (strings : List String) :
    (strings.foldl withString u).strings.toList = (u.strings.toList ++ strings).eraseDups := by
  induction strings generalizing u with
  | nil => simp [eraseDups_of_nodup u.distinct]
  | cons first rest ih =>
    have next := u.strings_withString first
    split at next
    next old =>
      have removed : (first :: rest).removeAll u.strings.toList =
          rest.removeAll u.strings.toList := by
        rw [removeAll, filter_cons_of_neg (by simpa using old)]
        rfl
      rw [eraseDups_append, removed, ← eraseDups_append, ← next]
      exact ih _
    next new =>
      rw [append_cons, ← next]
      exact ih _

lemma stringId_toList (u : CodeUnit) (s : String) : u.stringId? s = u.strings.toList.idxOf? s := by
  rw [stringId?, ← List.idxOf?_toArray]

lemma stringId_eq_some_iff {id : Nat} :
    u.stringId? s = some id ↔ u.strings[id]? = some s := by
  rw [stringId_toList, ← Array.getElem?_toList, List.idxOf?_eq_some_iff, List.getElem?_eq_some_iff]
  refine exists_congr fun inside => and_iff_left_of_imp fun found earlier before same => ?_
  exact Nat.ne_of_lt before ((u.distinct.getElem_inj_iff).mp (same.trans found.symm))

lemma stringId_foldl {id : Nat} (known : u.stringId? s = some id) (strings : List String) :
    (strings.foldl withString u).stringId? s = some id := by
  induction strings generalizing u with
  | nil => exact known
  | cons first rest ih =>
    refine ih ?_
    rw [stringId_toList] at known ⊢
    rw [strings_withString]
    split
    · exact known
    · rw [List.idxOf?, List.findIdx?_append, ← List.idxOf?, known]
      rfl

lemma intern_eq (u : CodeUnit) (s : String) :
    ∃ id, (intern s).run u = .ok id (u.withString s) ∧ (u.withString s).stringId? s = some id := by
  have run :
      (intern s).run u = (u.stringId? s).elim (.ok u.strings.size (u.withString s)) (.ok · u) := by
    change EStateM.Result.ok _ _ = _
    cases u.stringId? s <;> rfl
  rw [run]
  cases known : u.stringId? s with
  | some id =>
    have old : s ∈ u.strings := by
      obtain ⟨inside, rfl, -⟩ := List.idxOf?_eq_some_iff.mp ((u.stringId_toList s).symm.trans known)
      simp
    have same : u.withString s = u := by rw [withString, dif_pos (contains_iff_mem.mpr old)]
    exact ⟨id, by rw [same]; rfl, by rw [same, known]⟩
  | none =>
    rw [stringId_toList] at known
    refine ⟨_, rfl, ?_⟩
    rw [stringId_toList, strings_withString, if_neg (List.idxOf?_eq_none_iff.mp known), List.idxOf?,
      List.findIdx?_append, ← List.idxOf?, known]
    simp

lemma mem_usedStrings {r : Routine} (mem : r ∈ u.routines) (used : .text s ∈ r.constants) :
    s ∈ u.usedStrings :=
  mem_flatMap.mpr ⟨r, mem_toList_iff.mpr mem, mem_filterMap.mpr ⟨_, used, rfl⟩⟩

lemma mem_usedStrings_block {r : Routine} {b : Block} (mem : r ∈ u.routines)
    (block : b ∈ r.blocks) (stands : (∃ i ∈ b.body, .constant (.text s) ∈ i.operands) ∨
      ∃ jump, b.jump = some jump ∧ .constant (.text s) ∈ jump.operands) : s ∈ u.usedStrings := by
  refine mem_usedStrings mem (mem_flatMap.mpr ⟨b, mem_toList_iff.mpr block,
    mem_filterMap.mpr ⟨.constant (.text s), List.mem_append.mpr ?_, rfl⟩⟩)
  rcases stands with ⟨i, inside, operand⟩ | ⟨jump, last, operand⟩
  · exact .inl (mem_flatMap.mpr ⟨i, mem_toList_iff.mpr inside, operand⟩)
  · exact .inr (by rwa [last])

/-- Every string among the operands of a unit gets a number. Numbers count the strings in the order
of their first occurrence, tell them apart, and do not change later. In the table of any strings,
each number has a part of the buffer that holds the bytes of its string, and the buffer is not
longer than all strings together that do not occur inside of another one. -/
theorem strings_delivered (u : CodeUnit) :
    (∀ r ∈ u.routines, ∀ b ∈ r.blocks, ∀ s, ((∃ i ∈ b.body, .constant (.text s) ∈ i.operands) ∨
        ∃ jump, b.jump = some jump ∧ .constant (.text s) ∈ jump.operands) →
      ∃ id, u.internConstants.stringId? s = some id) ∧
    u.internConstants.strings.toList = (u.strings.toList ++ u.usedStrings).eraseDups ∧
    (∀ s id, u.internConstants.stringId? s = some id ↔ u.internConstants.strings[id]? = some s) ∧
    (∀ (later : List String) s id, u.internConstants.stringId? s = some id →
      (later.foldl withString u.internConstants).stringId? s = some id) ∧
    (∀ v s, ∃ id, (intern s).run v = .ok id (v.withString s) ∧
      (v.withString s).stringId? s = some id) ∧
    ∀ strings : List String, (∀ (id : Nat) (s : String), strings[id]? = some s → ∃ offset length,
        (ofStrings strings).entries[id]? = some (offset, length) ∧
          offset + length ≤ (ofStrings strings).buffer.length ∧
          ((ofStrings strings).buffer.drop offset).take length = Text.bytes s) ∧
      (ofStrings strings).buffer.length ≤
        ∑ part ∈ (strings.map Text.bytes).toFinset with
          ∀ s ∈ strings, part <:+: Text.bytes s → Text.bytes s = part, part.length := by
  refine ⟨?_, foldl_withString_strings u _, fun s id => stringId_eq_some_iff,
    fun later s id known =>
    stringId_foldl known later, intern_eq, fun strings => ⟨?_, ?_⟩⟩
  · intro r member b block s stands
    have used : s ∈ u.internConstants.strings :=
      mem_foldl_withString.mpr (.inr (mem_usedStrings_block member block stands))
    obtain ⟨id, found⟩ := Array.mem_iff_getElem?.mp used
    exact ⟨id, stringId_eq_some_iff.mpr found⟩
  · intro id s found
    have member : (Text.bytes s, id) ∈ placementOrder (strings.map Text.bytes) := by
      rw [placementOrder, (List.mergeSort_perm ..).mem_iff, List.mem_zipIdx_iff_getElem?]
      simp [found]
    obtain ⟨before, after, buffer, entry⟩ := (ofStrings_packs strings).has _ _ member
    refine ⟨_, _, entry, ?_, ?_⟩
    · simp [buffer]
    · simp [buffer]
  · obtain ⟨parts, whole, apart, maximal⟩ := (ofStrings_packs strings).parts
    have placed (bytes : List UInt8) : bytes ∈ (placementOrder
        (strings.map Text.bytes)).map Prod.fst ↔ bytes ∈ strings.map Text.bytes := by
      rw [placementOrder, ((List.mergeSort_perm ..).map Prod.fst).mem_iff,
        List.zipIdx_map_fst]
    rw [whole, List.length_flatten, ← List.sum_toFinset _ apart]
    refine Finset.sum_le_sum_of_subset fun part member => ?_
    obtain ⟨known, alone⟩ := maximal part (List.mem_toFinset.mp member)
    refine Finset.mem_filter.mpr ⟨List.mem_toFinset.mpr ((placed part).mp known),
      fun s inside => ?_⟩
    exact alone _ ((placed _).mpr (List.mem_map_of_mem inside))

def greeting : CodeUnit :=
  let block : Block :=
    { body :=
        #[.put (.cell 0) (.ofText "ell") (.ofText "hello"), .assign (.cell 0) (.ofText "hello")],
      jump := some (.throw (.ofText "lo")) }
  { routines := #[{ Routine.new 0 none 0 none false with blocks := #[block] }], strings := #["lo"],
    headers := #[], distinct := by decide }

theorem greeting_delivered :
    greeting.internConstants.strings = #["lo", "ell", "hello"] ∧
      ∀ (later : List String) s id, greeting.internConstants.stringId? s = some id →
        (later.foldl withString greeting.internConstants).stringId? s = some id :=
  ⟨by decide +kernel, (strings_delivered greeting).2.2.2.1⟩

end CodeUnit
end Scriptc
