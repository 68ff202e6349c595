import Mathlib.Data.List.Forall2
import Mathlib.Data.List.Induction
import Scriptc.Proofs.Diagnostic.Colour
import Scriptc.Proofs.Diagnostic.Order

/-!
# Excerpts of the source

An excerpt shows the lines that a range touches, as many as the style allows, and says how many are
left out. Under each line there is a mark for every character of the range.
-/

open List Nat

namespace Scriptc

open Text

namespace SourceText

variable {before covered after : List Char}

variable {t : SourceText}

/-- The place in a line that is nearest to an offset. -/
def Cut.moved (c : t.Cut) (o : Nat) : Nat :=
  min (max o c.start) c.stop

lemma Cut.exists_prefix (c : t.Cut) {o : Nat} (boundary : t.IsBoundary o) :
    ∃ before, before <+: c.content ∧ c.start + byteLength before = c.moved o := by
  have inside : c.start ≤ c.moved o ∧ c.moved o ≤ c.stop := by
    rw [moved, stop]
    omega
  obtain ⟨front, back, whole, place⟩ : t.IsBoundary (c.moved o) := by
    rw [moved]
    rcases max_choice o c.start with same | same <;> rw [same]
    · exact min_rec' _ boundary c.isBoundary_stop
    · exact min_rec' _ c.isBoundary_start c.isBoundary_stop
  obtain ⟨more, line⟩ := c.whole_prefix c.content_prefix
  rw [← place] at inside ⊢
  obtain ⟨before, rfl⟩ := prefix_of_le ⟨_, c.whole.symm⟩ ⟨back, whole.symm⟩ inside.1
  have within : c.earlier ++ before <+: c.earlier ++ c.content :=
    prefix_of_le ⟨back, whole.symm⟩ ⟨more, by simp [line]⟩
      (by simpa [Cut.stop, Cut.start] using inside.2)
  exact ⟨before, (prefix_append_right_inj _).mp within, (byteLength_append ..).symm⟩

lemma Cut.markPlace_eq (c : t.Cut) {start stop : Nat} (first : t.IsBoundary start)
    (second : t.IsBoundary stop) (ordered : start ≤ stop) : ∃ before marked after,
      c.content = before ++ (marked ++ after) ∧ c.start + byteLength before = c.moved start ∧
      c.start + byteLength (before ++ marked) = c.moved stop ∧
      Snippet.markPlace t start stop c.number = (before.length, max marked.length 1) := by
  obtain ⟨before, part, place⟩ := c.exists_prefix first
  obtain ⟨upto, inside, end_place⟩ := c.exists_prefix second
  have le : c.moved start ≤ c.moved stop := by
    rw [moved, moved]
    omega
  obtain ⟨marked, rfl⟩ := prefix_of_le part inside (by omega)
  obtain ⟨after, content⟩ := id inside
  obtain ⟨more, whole⟩ := c.whole_prefix (inside.trans c.content_prefix)
  have split : t.chars = c.earlier ++ before ++ (marked ++ more) := by simp [whole]
  have shown := slice_eq split
  have blank := c.slice_start (part.trans c.content_prefix)
  refine ⟨before, marked, after, by rw [← content, append_assoc], place, end_place, ?_⟩
  rw [byteLength_append, ← Cut.start, add_assoc, ← byteLength_append, end_place, place] at shown
  rw [place] at blank
  rw [Snippet.markPlace, c.lineBounds_eq]
  simp only [moved] at shown blank
  simp only [shown, blank]

lemma exists_covered (t : SourceText) (start stop : Nat) : ∃ before covered after,
    t.chars = before ++ (covered ++ after) ∧ byteLength before = t.clamp start ∧
      byteLength (before ++ covered) = max (t.clamp stop) (t.clamp start) := by
  obtain ⟨c, here⟩ := exists_cut_at t start
  obtain ⟨d, there⟩ := exists_cut_at t stop
  rw [here.clamp, there.clamp]
  rcases le_total d.place c.place with reversed | ordered
  · exact ⟨_, [], _, c.whole', rfl, by rw [append_nil, max_eq_right reversed, Cut.place]⟩
  · obtain ⟨covered, same⟩ := prefix_of_le ⟨_, c.whole'.symm⟩ ⟨_, d.whole'.symm⟩ ordered
    refine ⟨_, covered, d.rest ++ d.later, by rw [d.whole', ← same, append_assoc], rfl, ?_⟩
    rw [same, max_eq_left ordered, Cut.place]

lemma lineOf_last (whole : t.chars = before ++ (covered ++ after)) :
    t.lineOf (if byteLength before < byteLength (before ++ covered) then
      byteLength (before ++ covered) - 1 else byteLength (before ++ covered)) =
        before.count '\n' + covered.dropLast.count '\n' := by
  rcases eq_nil_or_concat' covered with rfl | ⟨front, last, rfl⟩
  · simpa using lineOf_length whole
  · have := last.utf8Size_pos
    have split : t.chars = before ++ front ++ (last :: after) := by simp [whole]
    rw [if_pos (by simp; omega), lineOf_split split]
    · simp
    · simp; omega
    · intro c next same
      cases same
      simp; omega

lemma exists_line {i : Nat} (small : i ≤ t.chars.count '\n') : ∃ c : t.Cut, c.number = i := by
  have prefixes (chars : List Char) (small : i ≤ chars.count '\n') :
      ∃ before, before <+: chars ∧ before.count '\n' = i := by
    induction chars using reverseRecOn with
    | nil => exact ⟨[], by simpa [eq_comm] using small⟩
    | append_singleton chars c ih =>
      rcases small.lt_or_eq with less | same
      · have fewer : i ≤ chars.count '\n' := by
          rw [count_append, count_singleton] at less
          split at less <;> omega
        obtain ⟨before, part, count⟩ := ih fewer
        exact ⟨before, part.trans (prefix_append ..), count⟩
      · exact ⟨_, prefix_rfl, same.symm⟩
  obtain ⟨before, ⟨after, whole⟩, count⟩ := prefixes _ small
  obtain ⟨c, rfl, -⟩ := exists_cut whole.symm
  exact ⟨c, by rw [← c.count_eq, count]⟩

lemma lineCount_eq : t.lineCount = t.chars.count '\n' + 1 := by
  simp [lineCount, lineStarts, length_offsetsAfterNewlines]

/-- The lines of a range: those it touches, of which the last one may have been reached by a newline
only, and how many of them are shown. -/
lemma extent_eq (style : SnippetStyle) (whole : t.chars = before ++ (covered ++ after)) :
    Snippet.extent style t (byteLength before) (byteLength (before ++ covered)) =
      ⟨before.count '\n', before.count '\n' + covered.dropLast.count '\n',
        before.count '\n' + min (covered.dropLast.count '\n') (max style.maxLines 1 - 1)⟩ := by
  rw [Snippet.extent, lineOf_last whole, lineOf_length whole, Snippet.shownEnd]
  simp only [Snippet.Extent.mk.injEq, true_and]
  omega

end SourceText

namespace Snippet

/-- An excerpt of the lines that the characters of a range stand in. The first ones are shown, as
many as the style allows, and the number of the others is told. The marks under a line are as many
as the characters of the range in it, and one where there are none, after a blank for each character
of the line before the range. -/
def Accounts (style : SnippetStyle) (file : SourceFile) (range : TextRange) (mark : Mark)
    (message excerpt : String) : Prop :=
  ∃ (before covered after : List Char) (touched shown gutter : Nat) (lines : List String),
    file.text.chars = before ++ (covered ++ after) ∧
    byteLength before = file.text.clamp range.start ∧
    byteLength (before ++ covered) =
      max (file.text.clamp range.stop) (file.text.clamp range.start) ∧
    touched = covered.dropLast.count '\n' + 1 ∧ shown = min touched (max style.maxLines 1) ∧
    gutter = (toString (before.count '\n' + shown)).length ∧ lines.length = shown ∧
    excerpt = " --> " ++ file.name ++ ":" ++
      toString (file.text.lineColumn (byteLength before)).line ++ ":" ++
      toString (file.text.lineColumn (byteLength before)).column ++ "\n" ++
      blanks gutter ++ " |\n" ++ String.join lines ++
      (if shown < touched then
        blanks gutter ++ " | ... (" ++ toString (touched - shown) ++ " more lines)\n"
      else "") ∧
    ∀ k < shown, ∃ (c : file.text.Cut) (left marked right : List Char),
      c.number = before.count '\n' + k ∧ file.text.lineBounds c.number = (c.start, c.stop) ∧
      c.content = left ++ (marked ++ right) ∧
      c.start + byteLength left = c.moved (byteLength before) ∧
      c.start + byteLength (left ++ marked) = c.moved (byteLength (before ++ covered)) ∧
      lines[k]? = some (padded gutter (c.number + 1) ++ " | " ++ String.ofList c.content ++ "\n" ++
        blanks gutter ++ " | " ++ String.ofList (replicate left.length ' ') ++
        (if style.color then
          mark.tint.start ++ String.ofList (replicate (max marked.length 1) mark.char) ++ Tint.reset
        else String.ofList (replicate (max marked.length 1) mark.char)) ++
        (if k = 0 ∧ message ≠ "" then " " ++ message else "") ++ "\n")

lemma ofSource_accounts (style : SnippetStyle) (file : SourceFile) (range : TextRange) (mark : Mark)
    (message : String) :
    Accounts style file range mark message (ofSource style file range mark message) := by
  obtain ⟨before, covered, after, whole, start, stop⟩ :=
    SourceText.exists_covered file.text range.start range.stop
  have first : file.text.IsBoundary (byteLength before) := ⟨_, _, whole, rfl⟩
  have second : file.text.IsBoundary (byteLength (before ++ covered)) :=
    ⟨before ++ covered, after, by simp [whole], rfl⟩
  obtain ⟨shown, least⟩ : ∃ shown,
    shown = min (covered.dropLast.count '\n' + 1) (max style.maxLines 1) := ⟨_, rfl⟩
  obtain ⟨gutter, wide⟩ : ∃ gutter,
    gutter = (toString (before.count '\n' + shown)).length := ⟨_, rfl⟩
  have last : before.count '\n' + min (covered.dropLast.count '\n') (max style.maxLines 1 - 1) + 1 =
      before.count '\n' + shown := by omega
  have hidden : before.count '\n' + covered.dropLast.count '\n' - (before.count '\n' +
      min (covered.dropLast.count '\n') (max style.maxLines 1 - 1)) =
      covered.dropLast.count '\n' + 1 - shown := by omega
  refine ⟨before, covered, after, _, shown, gutter, (List.range' (before.count '\n') shown).map
    (lineWithMarks style file.text (byteLength before) (byteLength (before ++ covered)) mark message
      gutter (before.count '\n')), whole, start, stop, rfl, least, wide, by simp, ?_,
    fun k small => ?_⟩
  · rw [← start] at stop
    simp only [ofSource, ← start, ← stop, SourceText.extent_eq style whole, last, hidden,
      Nat.add_sub_cancel_left, ← wide]
    simp only [Nat.sub_pos_iff_lt]
  · obtain ⟨c, number⟩ : ∃ c : file.text.Cut, c.number = before.count '\n' + k := by
      apply SourceText.exists_line
      have := covered.dropLast_sublist.count_le '\n'
      rw [whole, count_append, count_append]
      omega
    obtain ⟨left, marked, right, content, from_start, to_stop, marks⟩ :=
      c.markPlace_eq first second (by simp)
    refine ⟨c, left, marked, right, number, c.lineBounds_eq, content, from_start, to_stop, ?_⟩
    rw [getElem?_map, getElem?_range' small, Option.map_some, one_mul, ← number, lineWithMarks,
      marks, c.lineText_eq]
    simp [number, blanks, Tint.paint]

/-- Whether a text is the excerpt for a range, which is empty where the file is not known. -/
def Shows (style : SnippetStyle) (files : SourceFiles) (span : Span) (mark : Mark)
    (message excerpt : String) : Prop :=
  match files.get? span.file with
  | some file => Accounts style file span.range mark message excerpt
  | none => excerpt = " --> <unknown>:?:?\n  | <source unavailable>\n"

lemma ofSpan_shows (style : SnippetStyle) (files : SourceFiles) (span : Span) (mark : Mark)
    (message : String) :
    Shows style files span mark message (ofSpan style files span mark message) := by
  rw [Shows, ofSpan]
  cases files.get? span.file with
  | some file => exact ofSource_accounts style file span.range mark message
  | none => rfl

lemma isNumbered_of_lt {style : SnippetStyle} {files : SourceFiles}
    (small : ∀ file ∈ files.files, style.maxLines + file.text.lineCount < 2 ^ 64) (span : Span) :
    isNumbered style files span = true := by
  cases found : files.get? span.file with
  | none => simp only [isNumbered, found]
  | some file =>
    have fewer := small file (mem_of_getElem? found)
    have line : file.text.lineOf (file.text.clamp span.range.start) ≤ file.text.lineCount - 1 :=
      Nat.sub_le_sub_right List.countP_le_length 1
    have := file.text.lineCount_eq
    have numbered : shownEnd style (file.text.lineOf (file.text.clamp span.range.start)) ≤
        SourceText.maxLine := by
      rw [shownEnd, SourceText.maxLine]
      omega
    simpa only [isNumbered, found] using decide_eq_true numbered

end Snippet

namespace Diagnostic

/-- Whether a text shows a diagnostic: a header, an excerpt for the reported range and one for each
further place, and then the notes. -/
def Shows (style : SnippetStyle) (files : SourceFiles) (d : Diagnostic) (text : String) : Prop :=
  ∃ excerpt pointers excerpts,
    text = (if style.color then d.severity.tint.start ++ d.severity.word ++ Tint.reset
        else d.severity.word) ++ "[" ++ d.code ++ "]: " ++ d.message ++ "\n" ++ excerpt ++
      String.join excerpts ++ String.join (d.notes.map fun note => "= note: " ++ note ++ "\n") ∧
    Snippet.Shows style files d.span .primary d.message excerpt ∧ pointers.Perm d.pointers ∧
    Forall₂ (fun p => Snippet.Shows style files p.span .secondary p.message) pointers excerpts

lemma render_shows (style : SnippetStyle) (files : SourceFiles) (d : Diagnostic) :
    d.Shows style files (d.render style files) := by
  refine ⟨_, Pointer.sort d.pointers, _, rfl, Snippet.ofSpan_shows .., mergeSort_perm .., ?_⟩
  exact forall₂_map_right_iff.mpr (forall₂_same.mpr fun p _ => Snippet.ofSpan_shows ..)

/-- A diagnostic is shown in every style that allows so many lines that they can be numbered. Each
of its excerpts accounts for its range, and without their escapes the colours leave what is shown
without colours. -/
theorem render_accounts (style : SnippetStyle) (files : SourceFiles) (d : Diagnostic)
    (small : ∀ file ∈ files.files, style.maxLines + file.text.lineCount < 2 ^ 64) :
    d.render? style files = some (d.render style files) ∧
    d.Shows style files (d.render style files) ∧
    ((∀ s ∈ d.code :: d.message :: (d.notes ++ d.pointers.map Pointer.message), Tint.IsPlain s) →
      (∀ file ∈ files.files, Tint.IsPlain file.name ∧ Char.ofNat 27 ∉ file.text.chars) →
      Tint.erase false (d.render ⟨true, style.maxLines⟩ files).toList =
        (d.render ⟨false, style.maxLines⟩ files).toList) := by
  refine ⟨?_, d.render_shows style files, fun said plain => ?_⟩
  · rw [render?, if_pos]
    exact List.all_eq_true.mpr fun span _ => Snippet.isNumbered_of_lt small span
  · simpa [Tint.erase] using d.render_erases style.maxLines said plain []

def twoLines : SourceFiles :=
  SourceFiles.empty.add "main.js" "é = 1;\r\nx"

theorem render_accounts_twoLines :
    (∀ file ∈ twoLines.files, 1 + file.text.lineCount < 2 ^ 64) ∧
    ((noted "a").render? ⟨true, 1⟩ twoLines).isSome = true ∧
    (noted "a").Shows ⟨true, 1⟩ twoLines ((noted "a").render ⟨true, 1⟩ twoLines) ∧
    Tint.erase false ((noted "a").render ⟨true, 1⟩ twoLines).toList =
      ((noted "a").render ⟨false, 1⟩ twoLines).toList := by
  have small : ∀ file ∈ twoLines.files, 1 + file.text.lineCount < 2 ^ 64 := by decide
  have accounts := render_accounts ⟨true, 1⟩ twoLines (noted "a") small
  exact ⟨small, by rw [accounts.1]; rfl, accounts.2.1, accounts.2.2 (by decide) (by decide)⟩

end Diagnostic
end Scriptc
