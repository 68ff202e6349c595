import Mathlib.Algebra.Order.Group.Nat
import Mathlib.Data.List.Basic
import Mathlib.Order.Bounds.Basic
import Scriptc.Source.Lines

/-!
# Lines and columns of a source text

A text is cut in the middle of one of its lines. All that is derived from an offset is read off such
a cut.
-/

open List Nat

namespace Scriptc
namespace Text

@[simp] lemma byteLength_nil : byteLength [] = 0 := rfl

@[simp] lemma byteLength_cons (c : Char) (chars : List Char) :
    byteLength (c :: chars) = c.utf8Size + byteLength chars := rfl

@[simp] lemma byteLength_append (xs ys : List Char) :
    byteLength (xs ++ ys) = byteLength xs + byteLength ys := by
  induction xs with
  | nil => simp
  | cons c xs ih => simp [ih, add_assoc]

lemma prefix_of_le {xs ys chars : List Char} (first : xs <+: chars) (second : ys <+: chars)
    (le : byteLength xs ≤ byteLength ys) : xs <+: ys := by
  rcases prefix_or_prefix_of_prefix first second with part | ⟨more, rfl⟩
  · exact part
  · cases more with
    | nil => simp
    | cons c more =>
      have := c.utf8Size_pos
      simp only [byteLength_append, byteLength_cons] at le
      omega

lemma cutAt_append (xs ys : List Char) : cutAt (xs ++ ys) (byteLength xs) = (xs, ys) := by
  induction xs with
  | nil => cases ys <;> simp [cutAt, Char.utf8Size_pos, ne_of_gt]
  | cons c xs ih => simp [cutAt, ih]

lemma cutAt_spec (chars : List Char) (offset : Nat) :
    (cutAt chars offset).1 ++ (cutAt chars offset).2 = chars ∧
      byteLength (cutAt chars offset).1 ≤ offset ∧
      ∀ c next, (cutAt chars offset).2 = c :: next →
        offset < byteLength (cutAt chars offset).1 + c.utf8Size := by
  fun_induction cutAt chars offset with
  | case1 => simp
  | case2 c rest offset fits before after cut ih => grind [byteLength_cons]
  | case3 c rest offset beyond => grind [byteLength_nil]

section

variable (offset : Nat) (xs ys : List Char)

lemma offsetsAfterNewlines_append : offsetsAfterNewlines offset (xs ++ ys) =
    offsetsAfterNewlines offset xs ++ offsetsAfterNewlines (offset + byteLength xs) ys := by
  induction xs generalizing offset with
  | nil => simp [offsetsAfterNewlines]
  | cons c xs ih =>
    simp only [cons_append, offsetsAfterNewlines, ih, byteLength_cons, add_assoc]
    split <;> rfl

lemma length_offsetsAfterNewlines : (offsetsAfterNewlines offset xs).length = xs.count '\n' := by
  induction xs generalizing offset with
  | nil => rfl
  | cons c xs ih => by_cases newline : c = '\n' <;> simp [offsetsAfterNewlines, newline, ih]

variable {offset xs}

lemma mem_offsetsAfterNewlines {o : Nat} (mem : o ∈ offsetsAfterNewlines offset xs) :
    offset < o ∧ o ≤ offset + byteLength xs := by
  induction xs generalizing offset with
  | nil => simp [offsetsAfterNewlines] at mem
  | cons c xs ih =>
    have := c.utf8Size_pos
    grind [offsetsAfterNewlines, byteLength_cons]

end

/-- A line without the carriage return at its end. -/
def trimReturn (line : List Char) : List Char :=
  if line.getLast? = some '\r' then line.dropLast else line

end Text

namespace SourceText

open Text

/-- Whether an offset is between two characters, or at an end. -/
def IsBoundary (t : SourceText) (offset : Nat) : Prop :=
  ∃ before after, t.chars = before ++ after ∧ byteLength before = offset

/-- A text cut in the middle of a line: the lines before it, its two parts, and what comes after
it. -/
structure Cut (t : SourceText) where
  earlier : List Char
  current : List Char
  rest : List Char
  later : List Char
  whole : t.chars = earlier ++ (current ++ rest ++ later)
  starts : earlier = [] ∨ ∃ front, earlier = front ++ ['\n']
  single : '\n' ∉ current ++ rest
  ends : later = [] ∨ ∃ next, later = '\n' :: next

variable {t : SourceText}

lemma slice_eq {xs ys zs : List Char} (whole : t.chars = xs ++ (ys ++ zs)) :
    t.slice (byteLength xs) (byteLength xs + byteLength ys) = ys := by
  rw [slice, whole, cutAt_append, Nat.add_sub_cancel_left, cutAt_append]

namespace Cut

variable (c : t.Cut)

/-- The number of the line, counted from zero. -/
def number : Nat :=
  c.earlier.count '\n'

def line : List Char :=
  c.current ++ c.rest

/-- The line without its line end. -/
def content : List Char :=
  trimReturn c.line

def start : Nat :=
  byteLength c.earlier

def stop : Nat :=
  c.start + byteLength c.content

/-- The offset at which the text is cut. -/
def place : Nat :=
  byteLength (c.earlier ++ c.current)

lemma whole' : t.chars = c.earlier ++ c.current ++ (c.rest ++ c.later) := by
  simp [c.whole]

lemma count_eq : (c.earlier ++ c.current).count '\n' = c.number := by
  have none : c.current.count '\n' = 0 :=
    count_eq_zero.mpr fun mem => c.single (mem_append_left _ mem)
  rw [count_append, none, number, add_zero]

lemma byteSize_eq : t.byteSize = c.start + byteLength c.line + byteLength c.later := by
  rw [byteSize, c.whole, byteLength_append, byteLength_append, start, line, add_assoc]

lemma lineStarts_eq : t.lineStarts = (0 :: offsetsAfterNewlines 0 c.earlier) ++
    offsetsAfterNewlines (c.start + byteLength c.line) c.later := by
  have none : offsetsAfterNewlines c.start c.line = [] := by
    rw [← length_eq_zero_iff, length_offsetsAfterNewlines]
    exact count_eq_zero.mpr c.single
  rw [lineStarts, c.whole, offsetsAfterNewlines_append, ← line, offsetsAfterNewlines_append,
    zero_add, ← start, none, nil_append, cons_append]

lemma lineOf_eq {offset : Nat} (above : c.start ≤ min offset t.byteSize)
    (below : min offset t.byteSize ≤ c.start + byteLength c.line) : t.lineOf offset = c.number := by
  have before : ∀ o ∈ 0 :: offsetsAfterNewlines 0 c.earlier, o ≤ min offset t.byteSize := by
    intro o member
    rcases mem_cons.mp member with rfl | member
    · exact zero_le _
    · exact (mem_offsetsAfterNewlines member).2.trans (by rwa [zero_add])
  have after : ∀ o ∈ offsetsAfterNewlines (c.start + byteLength c.line) c.later,
      ¬o ≤ min offset t.byteSize := fun o member =>
    (below.trans_lt (mem_offsetsAfterNewlines member).1).not_ge
  rw [lineOf, c.lineStarts_eq, countP_append, countP_eq_length.mpr (by simpa using before),
    countP_eq_zero.mpr (by simpa using after)]
  simp [length_offsetsAfterNewlines, number]

lemma content_prefix : c.content <+: c.line := by
  rw [content, trimReturn]
  split
  · exact dropLast_prefix _
  · exact prefix_rfl

lemma whole_prefix {part : List Char} (inside : part <+: c.line) :
    ∃ more, t.chars = c.earlier ++ (part ++ more) := by
  obtain ⟨left, same⟩ := inside
  exact ⟨left ++ c.later, by rw [c.whole, ← line, ← same, append_assoc]⟩

lemma slice_start {part : List Char} (inside : part <+: c.line) :
    t.slice c.start (c.start + byteLength part) = part := by
  obtain ⟨more, whole⟩ := c.whole_prefix inside
  exact slice_eq whole

lemma isBoundary_start : t.IsBoundary c.start := ⟨_, _, c.whole, rfl⟩

lemma isBoundary_stop : t.IsBoundary c.stop := by
  obtain ⟨more, whole⟩ := c.whole_prefix c.content_prefix
  exact ⟨c.earlier ++ c.content, more, by rw [whole, append_assoc], byteLength_append ..⟩

lemma stop_eq : max (if c.line.getLast? = some '\r' then c.start + byteLength c.line - 1
    else c.start + byteLength c.line) c.start = c.stop := by
  rw [stop, content, trimReturn]
  split
  next ended =>
    obtain ⟨front, same⟩ := getLast?_eq_some_iff.mp ended
    have one : '\r'.utf8Size = 1 := rfl
    simp [same, one, ← add_assoc]
  next => simp

lemma lineBounds_eq : t.lineBounds c.number = (c.start, c.stop) := by
  have start : t.lineStarts[c.number]? = some c.start := by
    rw [c.lineStarts_eq, number, Cut.start]
    rcases c.starts with nothing | ⟨front, same⟩
    · simp [nothing, offsetsAfterNewlines]
    · simp [same, offsetsAfterNewlines_append, offsetsAfterNewlines, length_offsetsAfterNewlines]
  have next : t.lineStarts[c.number + 1]? =
      (offsetsAfterNewlines (c.start + byteLength c.line) c.later)[0]? := by
    rw [c.lineStarts_eq, getElem?_append_right] <;> simp [length_offsetsAfterNewlines, number]
  have line := c.slice_start prefix_rfl
  rw [← c.stop_eq]
  rcases c.ends with nothing | ⟨after, same⟩
  · simp [lineBounds, start, next, nothing, offsetsAfterNewlines, c.byteSize_eq, line]
  · have one : '\n'.utf8Size = 1 := rfl
    simp [lineBounds, start, next, same, offsetsAfterNewlines, one, line]

lemma lineText_eq : t.lineText c.number = c.content := by
  rw [lineText, c.lineBounds_eq]
  exact c.slice_start c.content_prefix

lemma column_eq : (t.slice c.start (max (min c.place c.stop) c.start)).length =
    min c.current.length c.content.length := by
  have part : c.current <+: c.line := ⟨c.rest, rfl⟩
  have place : c.place = c.start + byteLength c.current := byteLength_append ..
  rcases prefix_or_prefix_of_prefix part c.content_prefix with shorter | longer
  · obtain ⟨more, same⟩ := id shorter
    rw [place, stop, ← same, byteLength_append, min_eq_left (by omega), max_eq_left (by omega),
      c.slice_start part, same, min_eq_left shorter.length_le]
  · obtain ⟨more, same⟩ := id longer
    rw [place, stop, ← same, byteLength_append, min_eq_right (by omega), max_eq_left (by omega),
      c.slice_start c.content_prefix, same, min_eq_right longer.length_le]

end Cut

section

variable {before after : List Char} (whole : t.chars = before ++ after)
include whole

lemma exists_cut : ∃ c : t.Cut, c.earlier ++ c.current = before ∧ c.rest ++ c.later = after := by
  have right (after : List Char) : ∃ rest later, rest ++ later = after ∧ '\n' ∉ rest ∧
      (later = [] ∨ ∃ next, later = '\n' :: next) := by
    induction after with
    | nil => exact ⟨[], [], by simp⟩
    | cons c next ih =>
      by_cases newline : c = '\n'
      · exact ⟨[], c :: next, by simp [newline]⟩
      · obtain ⟨rest, later, rfl, single, ends⟩ := ih
        exact ⟨c :: rest, later, rfl, by simp [single, Ne.symm newline], ends⟩
  obtain ⟨current, earlier, same, above, starts⟩ := right before.reverse
  obtain ⟨rest, later, rfl, below, ends⟩ := right after
  have front : earlier.reverse ++ current.reverse = before := by
    rw [← reverse_append, same, reverse_reverse]
  refine ⟨⟨earlier.reverse, current.reverse, rest, later, ?_, ?_, ?_, ends⟩, front, rfl⟩
  · rw [whole, ← front]
    simp
  · rcases starts with rfl | ⟨next, rfl⟩
    · exact .inl rfl
    · exact .inr ⟨next.reverse, by simp⟩
  · simp [above, below]

lemma lineOf_split {offset : Nat} (fits : byteLength before ≤ offset)
    (last : ∀ c next, after = c :: next → offset < byteLength before + c.utf8Size) :
    t.lineOf offset = before.count '\n' := by
  obtain ⟨c, rfl, rfl⟩ := exists_cut whole
  have size := c.byteSize_eq
  have line : byteLength c.line = byteLength c.current + byteLength c.rest := byteLength_append ..
  rw [c.count_eq]
  rw [byteLength_append, ← Cut.start] at fits last
  refine c.lineOf_eq (by omega) ?_
  cases rest : c.rest with
  | cons d more =>
    have := last d _ (by rw [rest]; rfl)
    simp only [rest, byteLength_cons] at line
    omega
  | nil =>
    rcases c.ends with nothing | ⟨next, same⟩
    · rw [nothing, byteLength_nil] at size
      omega
    · have := last '\n' next (by rw [rest, same]; rfl)
      have one : '\n'.utf8Size = 1 := rfl
      omega

lemma lineOf_length : t.lineOf (byteLength before) = before.count '\n' :=
  lineOf_split whole le_rfl fun c _ _ => Nat.lt_add_of_pos_right c.utf8Size_pos

end

/-- Whether a text is cut at the last boundary that is not after an offset. -/
structure Cut.IsAt (c : t.Cut) (offset : Nat) : Prop where
  greatest : IsGreatest {o | t.IsBoundary o ∧ o ≤ min offset t.byteSize} c.place
  clamp : t.clamp offset = c.place
  lineOf : t.lineOf offset = c.number

lemma exists_cut_at (t : SourceText) (offset : Nat) : ∃ c : t.Cut, c.IsAt offset := by
  obtain ⟨whole, fits, last⟩ := cutAt_spec t.chars offset
  obtain ⟨c, before, after⟩ := exists_cut whole.symm
  rw [← before] at whole fits last
  rw [← after] at whole last
  have size : t.byteSize =
      byteLength (c.earlier ++ c.current) + byteLength (c.rest ++ c.later) := by
    rw [byteSize, ← whole, byteLength_append]
  refine ⟨c, ⟨⟨⟨_, _, whole.symm, rfl⟩, by rw [Cut.place]; omega⟩, ?_⟩,
    by rw [clamp, Cut.place, before], ?_⟩
  · rintro o ⟨⟨front, back, same, rfl⟩, near⟩
    by_contra! beyond
    obtain ⟨more, rfl⟩ := prefix_of_le ⟨_, whole⟩ ⟨back, same.symm⟩ beyond.le
    cases more with
    | nil => simp [Cut.place] at beyond
    | cons d more =>
      have := last d (more ++ back) (by simpa using whole.trans same)
      simp only [byteLength_append, byteLength_cons] at near this
      omega
  · rw [lineOf_split whole.symm fits last, c.count_eq]

lemma Cut.IsAt.lineColumn {c : t.Cut} {offset : Nat} (here : c.IsAt offset) : t.lineColumn offset =
    ⟨c.number + 1, min c.current.length c.content.length + 1⟩ := by
  have line : t.lineOf c.place = c.number := (lineOf_length c.whole').trans c.count_eq
  rw [SourceText.lineColumn, here.clamp, line, c.lineBounds_eq]
  simp only [c.column_eq]

lemma Cut.IsAt.le {c d : t.Cut} {offset next : Nat} (here : c.IsAt offset) (there : d.IsAt next)
    (le : offset ≤ next) : c.number < d.number ∨ c.number = d.number ∧
      c.current.length ≤ d.current.length := by
  have reached : c.place ≤ d.place := by
    obtain ⟨boundary, near⟩ := here.greatest.1
    exact there.greatest.2 ⟨boundary, by omega⟩
  have before := prefix_of_le ⟨_, c.whole'.symm⟩ ⟨_, d.whole'.symm⟩ reached
  have lines := before.sublist.count_le '\n'
  rw [c.count_eq, d.count_eq] at lines
  refine lines.lt_or_eq.imp_right fun same => ⟨same, ?_⟩
  have start : c.start = d.start := by
    have bounds := c.lineBounds_eq
    rw [same, d.lineBounds_eq] at bounds
    exact congrArg Prod.fst bounds.symm
  have earlier := (prefix_of_le ⟨_, c.whole.symm⟩ ⟨_, d.whole.symm⟩ start.le).eq_of_length_le
    (prefix_of_le ⟨_, d.whole.symm⟩ ⟨_, c.whole.symm⟩ start.ge).length_le
  simpa [earlier] using before.length_le

/-- The line of an offset is the number of newlines before the last boundary that is not after it,
and the column the number of characters since the start of the line, up to its end. A carriage
return at the end of a line is not counted, whether a newline or nothing follows it. What is told
about lines agrees with that, all slices are taken at boundaries, and a greater offset is not at an
earlier place. -/
theorem lineColumn_counts (t : SourceText) (offset : Nat) :
    (∃ c : t.Cut, IsGreatest {o | t.IsBoundary o ∧ o ≤ min offset t.byteSize} c.place ∧
      t.clamp offset = c.place ∧ t.lineOf offset = c.number ∧
      t.lineColumn offset = ⟨1 + c.number, 1 + min c.current.length c.content.length⟩ ∧
      t.lineBounds c.number = (c.start, c.stop) ∧ t.lineText c.number = c.content ∧
      t.IsBoundary c.start ∧ t.IsBoundary c.stop) ∧
    ∀ next, offset ≤ next → (t.lineColumn offset).line < (t.lineColumn next).line ∨
      (t.lineColumn offset).line = (t.lineColumn next).line ∧
        (t.lineColumn offset).column ≤ (t.lineColumn next).column := by
  obtain ⟨c, here⟩ := exists_cut_at t offset
  refine ⟨⟨c, here.greatest, here.clamp, here.lineOf, ?_, c.lineBounds_eq, c.lineText_eq,
    c.isBoundary_start, c.isBoundary_stop⟩, fun next le => ?_⟩
  · rw [here.lineColumn, Nat.add_comm, Nat.add_comm (min _ _)]
  · obtain ⟨d, there⟩ := exists_cut_at t next
    rw [here.lineColumn, there.lineColumn]
    rcases here.le there le with less | ⟨same, longer⟩
    · exact .inl (Nat.succ_lt_succ less)
    · have content : c.content = d.content := by rw [← c.lineText_eq, same, d.lineText_eq]
      rw [content]
      exact .inr ⟨congrArg (· + 1) same, by dsimp only; omega⟩

theorem lineColumn_counts_next : (0 : Nat) ≤ 4 ∧
    (((ofString "é\r\nx").lineColumn 0).line < ((ofString "é\r\nx").lineColumn 4).line ∨
      ((ofString "é\r\nx").lineColumn 0).line = ((ofString "é\r\nx").lineColumn 4).line ∧
        ((ofString "é\r\nx").lineColumn 0).column ≤ ((ofString "é\r\nx").lineColumn 4).column) :=
  ⟨by decide, (lineColumn_counts (ofString "é\r\nx") 0).2 4 (by decide)⟩

/-- A carriage return that no newline follows is not counted in the last line, though it is not part
of a line end. -/
theorem lineColumn_lone_return : '\n' ∉ (ofString "a\r").chars ∧ (ofString "a\r").byteSize = 2 ∧
    (ofString "a\r").lineColumn 2 ≠ ⟨1, 1 + (ofString "a\r").chars.length⟩ := by
  decide

end SourceText
end Scriptc
