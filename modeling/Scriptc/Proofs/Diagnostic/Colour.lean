import Scriptc.Diagnostic.Snippet
import Scriptc.Proofs.Source.Lines

/-!
# Colours of diagnostics

A colour is put on by an escape before a text and taken off by one after it. Without the escapes a
coloured text is the one that is shown without colours.
-/

namespace Scriptc

open List

namespace Tint

/-- A text without its escapes, each of which ends with an `m`; at first inside of one or not. -/
def erase : Bool → List Char → List Char
  | _, [] => []
  | true, c :: rest => erase (c ≠ 'm') rest
  | false, c :: rest => if c = Char.ofNat 27 then erase true rest else c :: erase false rest

/-- Whether there is no escape character in a text. -/
def IsPlain (s : String) : Prop :=
  Char.ofNat 27 ∉ s.toList
deriving Decidable

/-- Whether the first text without its escapes is the second one, whatever follows. -/
def Erases (coloured plain : String) : Prop :=
  ∀ rest, erase false (coloured.toList ++ rest) = plain.toList ++ erase false rest

lemma IsPlain.erases {s : String} (plain : IsPlain s) : Erases s s := by
  intro rest
  rw [IsPlain] at plain
  generalize s.toList = chars at plain
  induction chars with
  | nil => rfl
  | cons c chars ih =>
    obtain ⟨other, plain⟩ := not_or.mp (mt mem_cons.mpr plain)
    simp [erase, Ne.symm other, ih plain]

lemma Erases.append {a a' b b' : String} (first : Erases a a') (second : Erases b b') :
    Erases (a ++ b) (a' ++ b') := by
  intro rest
  simp [first _, second rest]

lemma Erases.join {α : Type} {f g : α → String} {l : List α} (each : ∀ a ∈ l, Erases (f a) (g a)) :
    Erases (String.join (l.map f)) (String.join (l.map g)) := by
  induction l with
  | nil => exact fun _ => rfl
  | cons a l ih =>
    obtain ⟨first, others⟩ := forall_mem_cons.mp each
    rw [map_cons, map_cons, String.join_cons, String.join_cons]
    exact first.append (ih others)

lemma paint_erases (tint : Tint) {s : String} (plain : IsPlain s) :
    Erases (tint.paint true s) (tint.paint false s) := by
  have started : Erases tint.start "" := by cases tint <;> exact fun _ => rfl
  have ended : Erases reset "" := fun _ => rfl
  simpa [paint] using (started.append plain.erases).append ended

@[simp] lemma isPlain_append {a b : String} : IsPlain (a ++ b) ↔ IsPlain a ∧ IsPlain b := by
  simp [IsPlain]

end Tint

lemma SourceText.mem_slice {t : SourceText} {start stop : Nat} {c : Char}
    (mem : c ∈ t.slice start stop) : c ∈ t.chars := by
  rw [← (Text.cutAt_spec t.chars start).1]
  have rest := (Text.cutAt_spec (Text.cutAt t.chars start).2 (stop - start)).1
  exact mem_append_right _ (rest ▸ mem_append_left _ mem)

open Tint

namespace Snippet

@[simp] lemma isPlain_repr (n : Nat) : IsPlain n.repr := by
  intro mem
  rw [Nat.toList_repr] at mem
  exact absurd (Nat.isDigit_of_mem_toDigits (by decide) (by decide) mem) (by decide)

@[simp] lemma isPlain_blanks (n : Nat) : IsPlain (blanks n) := by
  simp [IsPlain, blanks]

section

variable {message : String} (said : IsPlain message) {limit : Nat} {mark : Mark}
include said

lemma lineWithMarks_erases {text : SourceText} (plain : Char.ofNat 27 ∉ text.chars)
    {start stop gutter first line : Nat} :
    Erases (lineWithMarks ⟨true, limit⟩ text start stop mark message gutter first line)
      (lineWithMarks ⟨false, limit⟩ text start stop mark message gutter first line) := by
  have shown : IsPlain (String.ofList (text.lineText line)) := by
    rw [IsPlain, String.toList_ofList]
    exact mt SourceText.mem_slice plain
  have marks (width : Nat) : IsPlain (String.ofList (replicate width mark.char)) := by
    cases mark <;> simp [IsPlain, Mark.char]
  have remark : IsPlain (if line = first ∧ message ≠ "" then " " ++ message else "") := by
    split <;> simp +decide [said]
  refine .append
    (.append (.append ?_ (paint_erases _ (marks _))) remark.erases) ?_
  · exact IsPlain.erases (by simp +decide [padded, shown])
  · exact IsPlain.erases (by decide)

lemma ofSource_erases {file : SourceFile} (named : IsPlain file.name)
    (plain : Char.ofNat 27 ∉ file.text.chars) {range : TextRange} :
    Erases (ofSource ⟨true, limit⟩ file range mark message)
      (ofSource ⟨false, limit⟩ file range mark message) := by
  refine Erases.append (Erases.append (IsPlain.erases ?_)
    (Erases.join fun line _ => lineWithMarks_erases said plain)) (IsPlain.erases ?_)
  · simp +decide [named]
  · split <;> simp +decide

lemma ofSpan_erases {files : SourceFiles}
    (plain : ∀ file ∈ files.files, IsPlain file.name ∧ Char.ofNat 27 ∉ file.text.chars)
    (span : Span) : Erases (ofSpan ⟨true, limit⟩ files span mark message)
      (ofSpan ⟨false, limit⟩ files span mark message) := by
  cases found : files.get? span.file with
  | none =>
    simp only [ofSpan, found]
    exact IsPlain.erases (by decide)
  | some file =>
    have known := plain file (mem_of_getElem? found)
    simp only [ofSpan, found]
    exact ofSource_erases said known.1 known.2

end

end Snippet

lemma Diagnostic.render_erases (d : Diagnostic) {files : SourceFiles} (limit : Nat)
    (said : ∀ s ∈ d.code :: d.message :: (d.notes ++ d.pointers.map Pointer.message), IsPlain s)
    (plain : ∀ file ∈ files.files, IsPlain file.name ∧ Char.ofNat 27 ∉ file.text.chars) :
    Erases (d.render ⟨true, limit⟩ files) (d.render ⟨false, limit⟩ files) := by
  simp only [forall_mem_cons, forall_mem_append, forall_mem_map] at said
  obtain ⟨code, message, notes, pointers⟩ := said
  have word : IsPlain d.severity.word := by cases d.severity <;> decide
  have bracket : IsPlain "[" := by decide
  have closing : IsPlain "]: " := by decide
  have ended : IsPlain "\n" := by decide
  have header := (((((paint_erases d.severity.tint word).append bracket.erases).append
    code.erases).append closing.erases).append message.erases).append ended.erases
  refine ((header.append (Snippet.ofSpan_erases message plain _)).append
    (.join fun p mem => ?_)).append (.join fun note mem => ?_)
  · exact Snippet.ofSpan_erases (pointers p (mem_mergeSort.mp mem)) plain _
  · exact IsPlain.erases (by simp +decide [notes note mem])

end Scriptc
