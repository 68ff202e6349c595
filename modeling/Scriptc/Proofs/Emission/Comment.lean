import Mathlib.Data.List.Infix
import Scriptc.Emission.CodeUnit
import Scriptc.Proofs.Results

/-!
# Comments in the text

A name in a comment has no control characters, and its comment marks are broken up. Of two marks
that share a character only one is: such a name can end its comment.
-/

open List

namespace Scriptc.Literal

variable {c : Char} {text : List Char}

def HasMark (text : List Char) : Prop := ['*', '/'] <:+: text ∨ ['/', '*'] <:+: text

/-- Whether a text holds two comment marks that share a character. -/
def HasOverlap (text : List Char) : Prop := ['*', '/', '*'] <:+: text ∨ ['/', '*', '/'] <:+: text

def Joins (c : Char) (text : List Char) : Prop :=
  (c = '*' ∧ text.head? = some '/') ∨ (c = '/' ∧ text.head? = some '*')

lemma hasMark_cons : HasMark (c :: text) ↔ Joins c text ∨ HasMark text := by
  cases text <;> simp [HasMark, Joins, infix_cons_iff, cons_prefix_cons]
  grind

lemma hasOverlap_cons :
    HasOverlap (c :: text) ↔ (Joins c text ∧ ∃ d rest, text = d :: rest ∧ Joins d rest) ∨
      HasOverlap text := by
  rcases text with _ | ⟨d, _ | ⟨e, rest⟩⟩ <;>
    simp [HasOverlap, Joins, infix_cons_iff, cons_prefix_cons]
  grind

lemma shown_eq {m : Char} (mark : m = '*' ∨ m = '/') :
    (if isControl c then ' ' else c) = m ↔ c = m := by
  have visible : isControl m = false ∧ ' ' ≠ m := by rcases mark with rfl | rfl <;> decide
  split
  next control =>
    refine ⟨fun blank => absurd blank visible.2, ?_⟩
    rintro rfl
    simp [control] at visible
  next => rfl

lemma head_commentChars {m : Char} (mark : m = '*' ∨ m = '/') :
    (commentChars text).head? = some m ↔ text.head? = some m := by
  fun_cases commentChars text with
  | case3 => simp [shown_eq mark]
  | _ => simp

lemma hasMark_commentChars (text : List Char) : HasMark (commentChars text) ↔ HasOverlap text := by
  fun_induction commentChars text with
  | case1 rest ih | case2 rest ih =>
    simp [hasMark_cons, hasOverlap_cons, Joins, ih, head_commentChars]
    grind
  | case3 c rest closing opening ih =>
    have apart : ¬Joins c rest := by
      rcases rest with _ | ⟨d, rest⟩
      · simp [Joins]
      · have opening := opening rest
        simp_all [Joins]
    have shown : Joins (if isControl c then ' ' else c) (commentChars rest) ↔ Joins c rest := by
      simp [Joins, shown_eq, head_commentChars]
    rw [hasMark_cons, hasOverlap_cons, ih, shown]
    simp [apart]
  | case4 => simp [HasMark, HasOverlap]

lemma commentChars_control (text : List Char) : ∀ c ∈ commentChars text, isControl c = false := by
  fun_induction commentChars text with
  | case1 rest ih | case2 rest ih => simpa [isControl] using ih
  | case3 c rest _ _ ih =>
    have first : isControl (if isControl c then ' ' else c) = false := by
      split
      · rfl
      · simp_all
    simpa [first] using ih
  | case4 => simp

def readComment : List Char → Option (List Char)
  | '*' :: '/' :: rest => some rest
  | _ :: rest => readComment rest
  | [] => none

lemma readComment_skip {before rest : List Char} (plain : '*' ∉ before) :
    readComment (before ++ rest) = readComment rest := by
  induction before with
  | nil => rfl
  | cons c before ih =>
    obtain ⟨other, plain⟩ := not_or.mp (mem_cons.not.mp plain)
    rw [readComment.eq_def]
    split
    next same => exact absurd (cons.inj same).1.symm other
    next same => cases same; exact ih plain
    next same => cases same

lemma readComment_iff {before text tail after : List Char} (plain : '*' ∉ before)
    (later : '*' ∉ tail) (apart : ∀ rest, (tail ++ '*' :: rest).head? ≠ some '/') :
    readComment (before ++ (text ++ (tail ++ '*' :: '/' :: after))) = some after ↔
      ¬['*', '/'] <:+: text := by
  rw [readComment_skip plain]
  induction text with
  | nil => simp [readComment_skip later, readComment]
  | cons c text ih =>
    rw [infix_cons_iff, not_or, ← ih, cons_append]
    by_cases closes : ['*', '/'] <+: c :: text
    · obtain ⟨rest, same⟩ := closes
      rw [← cons_append, ← same]
      simp [readComment]
      intro wrong
      have := congrArg length wrong
      simp at this
      omega
    · rw [readComment.eq_def]
      split
      next rest same =>
        exfalso
        obtain ⟨rfl, joined⟩ := cons.inj same
        cases text with
        | nil => exact apart _ (by rw [← nil_append (tail ++ _), joined]; rfl)
        | cons d text =>
          obtain ⟨rfl, -⟩ := cons.inj joined
          exact closes ⟨text, rfl⟩
      next same => cases same; simp [closes]
      next same => cases same

/-- The text of a name in a comment has no control characters, and it has a comment mark exactly if
two marks in the name share a character. The comments of routines and units with that name end where
they are closed, unless there is a closing mark among the text of the name. -/
theorem comment_closes (name : String) : (∀ c ∈ (comment name).toList, isControl c = false) ∧
      (HasMark (comment name).toList ↔ HasOverlap name.toList) ∧
      (∀ r : Routine, readComment ({ r with name := some name }.heading.toList.drop 2) =
        some ['\n'] ↔ ¬['*', '/'] <:+: (comment name).toList) ∧
      ∀ (u : CodeUnit) (options : UnitOptions) (text : String),
        u.emit { options with moduleName := name } = .ok text →
          ∃ rest, text.toList = "/* Generated from ".toList ++ ((comment name).toList ++
              (". ".toList ++ '*' :: '/' :: rest)) ∧
            (readComment (text.toList.drop 2) = some rest ↔
              ¬['*', '/'] <:+: (comment name).toList) := by
  have chars : (comment name).toList = commentChars name.toList := by simp [comment]
  refine ⟨?_, ?_, fun r => ?_, fun u options text written => ?_⟩
  · rw [chars]
    exact commentChars_control _
  · rw [chars]
    exact hasMark_commentChars _
  · have shape (text place : String) : ("/* " ++ place ++ text ++ " */\n").toList.drop 2 =
          (' ' :: place.toList) ++ (text.toList ++ ([' '] ++ '*' :: '/' :: ['\n'])) := by
      simp [String.toList_append]
    have place : '*' ∉ ' ' :: (if r.parent.isNone then "top level " else "").toList := by
      split <;> simp
    unfold Routine.heading
    simp only [shape]
    rw [readComment_iff place (by simp) (by simp)]
    by_cases empty : name = ""
    · subst empty
      simp [Routine.givenName?, Option.filter, comment, commentChars, List.infix_cons_iff]
    · simp [Routine.givenName?, Option.filter, empty]
  · unfold CodeUnit.emit at written
    obtain ⟨definitions, -, written⟩ := Result.bind_eq_ok.mp written
    obtain ⟨top, -, written⟩ := Result.bind_eq_ok.mp written
    obtain rfl := Result.pure_eq_ok.mp written
    simp only [String.toList_append, List.append_assoc]
    refine ⟨_, rfl, ?_⟩
    exact @readComment_iff " Generated from ".toList _ ". ".toList _ (by simp) (by simp) (by simp)

/-- The second of two marks that share a character ends the comment of a routine. -/
theorem comment_closes_early :
    readComment ((Routine.new 1 (some 0) 1 (some "/*/") false).heading.toList.drop 2) =
      some " */\n".toList := by
  decide +kernel

end Scriptc.Literal
