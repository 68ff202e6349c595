import Mathlib.Data.List.Basic
import Scriptc.Module.Resolver

/-!
# Normal forms of paths

A normal form is read back as the segments it was written from, and pushing them again rebuilds the
same stack. So a directory may be replaced by its normal form before anything is joined to it.
-/

open List

namespace Scriptc.Path

variable {segments : List String} {p : Path}

lemma splitSlashes_append (current before after : List Char) :
    splitSlashes current (before ++ '/' :: after) =
      splitSlashes current before ++ splitSlashes [] after := by
  fun_induction splitSlashes current before <;> simp_all [splitSlashes]

lemma splitSlashes_of_notMem (current : List Char) {chars : List Char} (plain : '/' ∉ chars) :
    splitSlashes current chars = [String.ofList (current.reverse ++ chars)] := by
  fun_induction splitSlashes current chars <;> simp_all

lemma splitSlashes_intercalate (some_segment : segments ≠ [])
    (plain : ∀ s ∈ segments, '/' ∉ s.toList) :
    splitSlashes [] (String.intercalate "/" segments).toList = segments := by
  induction segments with
  | nil => contradiction
  | cons s rest ih =>
    obtain ⟨plain, others⟩ := forall_mem_cons.mp plain
    have alone : splitSlashes [] s.toList = [s] := by simp [splitSlashes_of_notMem [] plain]
    cases rest with
    | nil => simpa using alone
    | cons t rest =>
      have cut := splitSlashes_append [] s.toList (String.intercalate "/" (t :: rest)).toList
      rw [alone, ih (by simp) others] at cut
      simpa [String.intercalate_cons_cons] using cut

/-- What is a segment of a path: all but nothing, a single dot and what has a slash in it. -/
def IsSegment (s : String) : Prop :=
  s ≠ "" ∧ s ≠ "." ∧ '/' ∉ s.toList

/-- Some parent segments, none of them after the root, and then ordinary ones. -/
def IsNormal (p : Path) : Prop :=
  ∃ parents names, p.segments = replicate parents up ++ names ∧
    (p.absolute = true → parents = 0) ∧ ∀ s ∈ names, s ≠ up ∧ IsSegment s

lemma segments_isSegment (text : String) : ∀ s ∈ (ofText text).segments, IsSegment s := by
  have noSlash (current chars : List Char) (plain : '/' ∉ current) :
      ∀ s ∈ splitSlashes current chars, '/' ∉ s.toList := by
    fun_induction splitSlashes current chars with
    | case1 => simpa using plain
    | case2 current rest ih => simpa using ⟨plain, ih (by simp)⟩
    | case3 current c rest other ih =>
      exact ih (not_mem_cons_of_ne_of_not_mem (fun same => other same.symm) plain)
  intro s mem
  obtain ⟨piece, counts⟩ := mem_filter.mp mem
  simp only [Bool.and_eq_true, bne_iff_ne] at counts
  exact ⟨counts.1, counts.2, noSlash _ _ (by simp) s piece⟩

lemma read_segments (valid : ∀ s ∈ segments, IsSegment s) :
    (splitSlashes [] (String.intercalate "/" segments).toList).filter
      (fun s => s != "" && s != ".") = segments := by
  cases segments with
  | nil => rfl
  | cons s rest =>
    rw [splitSlashes_intercalate (by simp) fun s mem => (valid s mem).2.2, filter_eq_self]
    intro s mem
    simpa using ⟨(valid s mem).1, (valid s mem).2.1⟩

lemma ofText_toText (valid : ∀ s ∈ p.segments, IsSegment s) : ofText p.toText = p := by
  obtain ⟨_ | _, segments⟩ := p
  · cases segments with
    | nil => rfl
    | cons s rest =>
      have relative : isAbsoluteText (String.intercalate "/" (s :: rest)) = false := by
        obtain ⟨⟨some_char, -, plain⟩, -⟩ := forall_mem_cons.mp valid
        cases chars : s.toList with
        | nil => exact absurd (String.toList_eq_nil_iff.mp chars) some_char
        | cons c tail =>
          have other : c ≠ '/' := fun same => plain (by simp [chars, same])
          cases rest <;> simp [isAbsoluteText, chars, other, String.intercalate_cons_cons]
      rw [toText, ofText]
      simp only [relative, Bool.false_eq_true, if_false, isEmpty_cons]
      rw [read_segments valid]
  · rw [toText, ofText]
    simpa [isAbsoluteText, splitSlashes] using read_segments valid

lemma ofText_joinText (a : String) {b : String} (relative : isAbsoluteText b = false) :
    ofText (joinText a b) = ⟨(ofText a).absolute, (ofText a).segments ++ (ofText b).segments⟩ := by
  rw [joinText, relative]
  by_cases nothing : a = ""
  · subst nothing
    simpa [ofText, splitSlashes, isAbsoluteText] using relative
  obtain ⟨chars, last, same⟩ : ∃ chars last, a.toList = chars ++ [last] := by
    simpa using eq_nil_or_concat' a.toList |>.resolve_left (by simpa using nothing)
  simp only [ofText, isAbsoluteText]
  by_cases slash : last = '/'
  · simp [same, slash, splitSlashes_append [] chars, splitSlashes]
  · have cut := splitSlashes_append [] (chars ++ [last]) b.toList
    simp only [append_assoc, singleton_append] at cut
    simp [same, slash, nothing, cut]

lemma pushSegment_parent (n : Nat) :
    pushSegment false (replicate n up) up = replicate (n + 1) up := by
  cases n with
  | zero => rfl
  | succ n => simp [pushSegment, replicate_succ]

lemma pushSegment_name (absolute : Bool) (done : List String) {s : String} (name : s ≠ up) :
    pushSegment absolute done s = s :: done := by
  cases done <;> simp [pushSegment, name]

lemma IsNormal.push {absolute : Bool} {done : List String}
    (normal : IsNormal ⟨absolute, done.reverse⟩) {segment : String} (valid : IsSegment segment) :
    IsNormal ⟨absolute, (pushSegment absolute done segment).reverse⟩ := by
  obtain ⟨parents, names, same, root, ordinary⟩ := normal
  have stack : done = names.reverse ++ replicate parents up := by
    simpa using congrArg reverse same
  by_cases parent : segment = up
  · rcases names.eq_nil_or_concat' with rfl | ⟨front, last, rfl⟩
    · cases absolute with
      | false =>
        rw [parent, stack, reverse_nil, nil_append, pushSegment_parent]
        exact ⟨parents + 1, [], by simp⟩
      | true =>
        rw [parent, stack, root rfl]
        exact ⟨0, [], by simp [pushSegment]⟩
    · have name : last ≠ up := (ordinary last (by simp)).1
      refine ⟨parents, front, by simp [parent, stack, pushSegment, name], root, ?_⟩
      exact fun s mem => ordinary s (by simp [mem])
  · refine ⟨parents, names ++ [segment], by simp [pushSegment_name _ _ parent, stack], root, ?_⟩
    intro s mem
    rcases mem_append.mp mem with earlier | last
    · exact ordinary s earlier
    · rw [mem_singleton.mp last]
      exact ⟨parent, valid⟩

lemma normalize_isNormal (text : String) : (ofText text).normalize.IsNormal := by
  have folds (segments done : List String) (valid : ∀ s ∈ segments, IsSegment s)
      (normal : IsNormal ⟨(ofText text).absolute, done.reverse⟩) :
      IsNormal ⟨(ofText text).absolute,
        (segments.foldl (pushSegment (ofText text).absolute) done).reverse⟩ := by
    induction segments generalizing done with
    | nil => exact normal
    | cons s rest ih =>
      obtain ⟨first, others⟩ := forall_mem_cons.mp valid
      exact ih _ others (normal.push first)
  exact folds _ [] (segments_isSegment text) ⟨0, [], by simp⟩

lemma IsNormal.rebuilt (normal : p.IsNormal) :
    p.segments.foldl (pushSegment p.absolute) [] = p.segments.reverse := by
  obtain ⟨parents, names, same, root, ordinary⟩ := normal
  have climbed (relative : p.absolute = false) (n : Nat) :
      (replicate n up).foldl (pushSegment p.absolute) [] = replicate n up := by
    induction n with
    | zero => rfl
    | succ n ih =>
      rw [replicate_succ', foldl_append, ih, relative, ← replicate_succ']
      exact pushSegment_parent n
  have entered (done : List String) :
      names.foldl (pushSegment p.absolute) done = names.reverse ++ done := by
    clear same
    induction names generalizing done with
    | nil => rfl
    | cons s rest ih =>
      obtain ⟨name, others⟩ := forall_mem_cons.mp ordinary
      simp [pushSegment_name _ _ name.1, ih others]
  rw [same, foldl_append, entered, reverse_append, reverse_replicate]
  cases relative : p.absolute with
  | false => rw [← relative, climbed relative]
  | true => rw [root relative]; rfl

lemma IsNormal.isSegment (normal : p.IsNormal) : ∀ s ∈ p.segments, IsSegment s := by
  obtain ⟨parents, names, same, -, ordinary⟩ := normal
  intro s mem
  rcases mem_append.mp (same ▸ mem) with parent | name
  · rw [eq_of_mem_replicate parent]
    exact ⟨by decide, by decide, by decide⟩
  · exact (ordinary s name).2

lemma IsNormal.normalizeText_eq (normal : p.IsNormal) : normalizeText p.toText = p.toText := by
  rw [normalizeText, ofText_toText normal.isSegment, normalize, normal.rebuilt, reverse_reverse]

lemma normalizeText_joinText (a b : String) :
    normalizeText (joinText (normalizeText a) b) = normalizeText (joinText a b) := by
  cases relative : isAbsoluteText b with
  | true => simp [joinText, relative]
  | false =>
    have normal := normalize_isNormal a
    have reread : ofText (normalizeText a) = (ofText a).normalize := ofText_toText normal.isSegment
    have rebuilt := normal.rebuilt
    rw [normalizeText, ofText_joinText _ relative, reread, normalizeText,
      ofText_joinText _ relative]
    simp only [normalize, foldl_append, reverse_reverse] at rebuilt ⊢
    rw [rebuilt]

/-- The normal form of a path is parent segments, of which an absolute path has none, and ordinary
ones after them, or a dot where there are none. Such a path is its own normal form. A directory may
be spelled as its normal form: what is joined to it means the same path, and requests from it find
the same module. -/
theorem normalizeText_unique (a b : String) :
    (∃ parents names, (∀ s ∈ names, s ≠ up ∧ IsSegment s) ∧ normalizeText a =
      if isAbsoluteText a then "/" ++ String.intercalate "/" names
      else if parents = 0 ∧ names = [] then "."
      else String.intercalate "/" (List.replicate parents up ++ names)) ∧
    (∀ p : Path, p.IsNormal → normalizeText p.toText = p.toText) ∧
    normalizeText (normalizeText a) = normalizeText a ∧
    normalizeText (joinText (normalizeText a) b) = normalizeText (joinText a b) ∧
    ∀ isFile searchDirs, Resolver.ofFiles isFile searchDirs (normalizeText a) b =
      Resolver.ofFiles isFile searchDirs a b := by
  have normal := normalize_isNormal a
  refine ⟨?_, fun p => IsNormal.normalizeText_eq, normal.normalizeText_eq,
    normalizeText_joinText a b, fun isFile searchDirs => ?_⟩
  · obtain ⟨parents, names, same, root, ordinary⟩ := normal
    refine ⟨parents, names, ordinary, ?_⟩
    rw [normalizeText, toText, same]
    cases absolute : isAbsoluteText a with
    | false => simp [normalize, ofText, absolute]
    | true => simp [normalize, ofText, absolute, root absolute]
  · simp only [Resolver.ofFiles, Resolver.candidates, normalizeText_joinText a b]

end Scriptc.Path
