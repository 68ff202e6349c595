import Mathlib.Data.Prod.Lex
import Mathlib.Order.Compare
import Scriptc.Diagnostic.Basic
import Scriptc.Proofs.Constant.Order

/-!
# The order of diagnostics

Diagnostics are sorted by where they are and then by what they say. Those that agree in that stay as
they were reported, and may differ in the places and notes that they carry.
-/

namespace Scriptc

open List

lemma then_compares {α β : Type} [Preorder α] [Preorder β] {first second : Ordering} {x y : α}
    {x' y' : β} (outer : first.Compares x y) (inner : second.Compares x' y') :
    (first.then second).Compares (toLex (x, x')) (toLex (y, y')) := by
  cases first with
  | lt => exact .left _ _ outer
  | gt => exact .left _ _ outer
  | eq =>
    subst outer
    cases second with
    | lt => exact .right _ inner
    | gt => exact .right _ inner
    | eq => exact congrArg (toLex (x, ·)) inner

lemma compare_compares (m n : ℕ) : (compare m n).Compares m n :=
  cmp_eq_compare m n ▸ cmp_compares m n

lemma Text.compareBytes_compares (as bs : List UInt8) :
    (compareBytes as bs).Compares (as.map UInt8.toNat) (bs.map UInt8.toNat) := by
  have units : compareBytes as bs = compareUnits (as.map UInt8.toNat) (bs.map UInt8.toNat) := by
    fun_induction compareBytes as bs <;> simp_all [compareUnits]
  rw [units]
  generalize as.map UInt8.toNat = x, bs.map UInt8.toNat = y
  cases order : compareUnits x y with
  | lt => exact compareUnits_eq_lt.mp order
  | eq => exact compareUnits_eq_eq.mp order
  | gt =>
    have more : ¬x < y := by simp [← compareUnits_eq_lt, order]
    have other : x ≠ y := by simp [ne_eq, ← compareUnits_eq_eq, order]
    exact lt_of_le_of_ne (not_lt.mp more) other.symm

namespace Diagnostic

/-- What diagnostics are sorted by, the most important part first. -/
def key (d : Diagnostic) : ℕ ×ₗ ℕ ×ₗ ℕ ×ₗ ℕ ×ₗ List ℕ ×ₗ List ℕ :=
  toLex (d.span.file, toLex (d.span.range.start, toLex (d.span.range.stop, toLex (d.severity.rank,
    toLex ((Text.bytes d.code).map UInt8.toNat, (Text.bytes d.message).map UInt8.toNat)))))

lemma compareKeys_isLE (a b : Diagnostic) : (compareKeys a b).isLE = true ↔ key a ≤ key b := by
  have compares : (compareKeys a b).Compares (key a) (key b) := by
    have text (s t : String) := Text.compareBytes_compares (Text.bytes s) (Text.bytes t)
    exact then_compares (compare_compares ..) <| then_compares (compare_compares ..) <|
      then_compares (compare_compares ..) <| then_compares (compare_compares ..) <|
      then_compares (text ..) (text ..)
  rw [← compares.ne_gt]
  cases compareKeys a b <;> simp

/-- Sorting gives the same diagnostics in the order of their keys, and leaves those with one key in
the order in which they came. So the keys come out in one order whatever the order of the reports,
and the diagnostics do where no two of them share a key. -/
theorem sort_stable (ds es : List Diagnostic) :
    (sort ds).Perm ds ∧ (sort ds).Pairwise (key · ≤ key ·) ∧
    (∀ k, (sort ds).filter (key · = k) = ds.filter (key · = k)) ∧
    (ds.Perm es → (sort ds).map key = (sort es).map key ∧
      ((∀ a ∈ ds, ∀ b ∈ ds, key a = key b → a = b) → sort ds = sort es)) := by
  have total (a b : Diagnostic) : ((compareKeys a b).isLE || (compareKeys b a).isLE) = true := by
    simpa [compareKeys_isLE] using le_total (key a) (key b)
  have trans (a b c : Diagnostic) : (compareKeys a b).isLE = true → (compareKeys b c).isLE = true →
      (compareKeys a c).isLE = true := by
    simpa only [compareKeys_isLE] using le_trans
  have perm (l : List Diagnostic) : (sort l).Perm l := mergeSort_perm ..
  have sorted (l : List Diagnostic) : (sort l).Pairwise (key · ≤ key ·) :=
    (pairwise_mergeSort trans total l).imp (compareKeys_isLE _ _).mp
  refine ⟨perm ds, sorted ds, fun k => ?_, fun same => ?_⟩
  · have ties : (ds.filter (key · = k)).Pairwise fun a b => (compareKeys a b).isLE = true := by
      refine pairwise_of_forall_mem_list fun a left b right => ?_
      simp only [mem_filter, decide_eq_true_eq] at left right
      rw [compareKeys_isLE, left.2, right.2]
    have kept := (sublist_mergeSort trans total ties filter_sublist).filter (key · = k)
    rw [filter_filter] at kept
    simp only [Bool.and_self] at kept
    exact (kept.eq_of_length ((perm ds).filter _).length_eq.symm).symm
  · have all := (perm ds).trans (same.trans (perm es).symm)
    refine ⟨(all.map key).eq_of_pairwise (fun _ _ _ _ => le_antisymm) ?_ ?_, fun apart => ?_⟩
    · exact pairwise_map.mpr (sorted ds)
    · exact pairwise_map.mpr (sorted es)
    · refine all.eq_of_pairwise (fun a b left right below above => ?_) (sorted ds) (sorted es)
      exact apart a ((perm ds).mem_iff.mp left) b (same.mem_iff.mpr ((perm es).mem_iff.mp right))
        (le_antisymm below above)

def noted (note : String) : Diagnostic :=
  { severity := .warning, code := "JSC0002", message := "unused", span := ⟨0, ⟨0, 1⟩⟩,
    pointers := [], notes := [note] }

theorem sort_stable_noted : [noted "b", noted "a"].Perm [noted "a", noted "b"] ∧
    (sort [noted "b", noted "a"]).map key = (sort [noted "a", noted "b"]).map key := by
  have swapped : [noted "b", noted "a"].Perm [noted "a", noted "b"] := .swap ..
  exact ⟨swapped, ((sort_stable _ _).2.2.2 swapped).1⟩

/-- Two reports that differ in a note only come out in the order in which they went in. -/
theorem sort_reported_order : [noted "b", noted "a"].Perm [noted "a", noted "b"] ∧
    sort [noted "b", noted "a"] ≠ sort [noted "a", noted "b"] := by
  have kept (m n : String) : sort [noted m, noted n] = [noted m, noted n] :=
    mergeSort_of_pairwise (pairwise_pair.mpr ((compareKeys_isLE _ _).mpr le_rfl))
  rw [kept, kept]
  exact ⟨.swap .., by decide⟩

end Diagnostic
end Scriptc
