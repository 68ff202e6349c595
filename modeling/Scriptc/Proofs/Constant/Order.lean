import Mathlib.Data.List.Lex
import Scriptc.Constant.Folding

/-!
# The order of strings

Strings are ordered by their 16-bit units as lists are by their members. The order is total and
agrees with equality, but is not that of characters: those above `U+FFFF` come before those from
`U+E000` on.
-/

namespace Scriptc

open Text List

namespace Text

lemma compareUnits_eq_lt {as bs : List Nat} : compareUnits as bs = .lt ↔ as < bs := by
  fun_induction compareUnits as bs with
  | case4 a as b bs ih =>
    rw [Ordering.then_eq_lt, Nat.compare_eq_lt, Nat.compare_eq_eq, ih, cons_lt_cons_iff]
  | _ => simp

lemma compareUnits_eq_eq {as bs : List Nat} : compareUnits as bs = .eq ↔ as = bs := by
  fun_induction compareUnits as bs with
  | case4 a as b bs ih => rw [Ordering.then_eq_eq, Nat.compare_eq_eq, ih, cons.injEq]
  | _ => simp

lemma charUnits_append_inj {c d : Char} {s t : List Nat}
    (same : charUnits c ++ s = charUnits d ++ t) : c = d ∧ s = t := by
  -- the first unit of a pair is a surrogate, which is no character
  have scalar (c : Char) : c.toNat < 0xD800 ∨ 0xDFFF < c.toNat ∧ c.toNat < 0x110000 := c.valid
  have := scalar c
  have := scalar d
  rw [charUnits, charUnits] at same
  rw [← Char.toNat_inj]
  split at same <;> split at same <;>
    simp only [cons_append, nil_append, cons.injEq] at same
  · exact same
  · omega
  · omega
  · exact ⟨by omega, same.2.2⟩

lemma units_inj {a b : String} (same : units a = units b) : a = b := by
  apply String.toList_injective
  rw [units, units] at same
  generalize a.toList = s, b.toList = t at same
  induction s generalizing t with
  | nil =>
    cases t with
    | nil => rfl
    | cons d t =>
      simp only [flatMap_nil, flatMap_cons, charUnits] at same
      split at same <;> simp at same
  | cons c s ih =>
    cases t with
    | nil =>
      simp only [flatMap_nil, flatMap_cons, charUnits] at same
      split at same <;> simp at same
    | cons d t =>
      obtain ⟨rfl, rest⟩ := charUnits_append_inj same
      rw [ih t rest]

end Text

namespace Constant

def Compares (op : Opcode) (a b : String) (outcome : Bool) : Prop :=
  foldBinary op (.text a) (.text b) = .ok (some (.boolean outcome))

lemma compares_lt (a b : String) : Compares .lt a b (decide (units a < units b)) := by
  have less : (order? (.text a) (.text b) == some .lt) = decide (units a < units b) := by
    rw [Bool.eq_iff_iff, beq_iff_eq, decide_eq_true_eq, ← compareUnits_eq_lt]
    exact Option.some_inj
  rw [← less]
  rfl

lemma compares_le (a b : String) : Compares .le a b (decide (units a ≤ units b)) := by
  have most : (order? (.text a) (.text b) == some .lt || order? (.text a) (.text b) == some .eq) =
      decide (units a ≤ units b) := by
    rw [Bool.eq_iff_iff, Bool.or_eq_true, beq_iff_eq, beq_iff_eq, decide_eq_true_eq,
      le_iff_lt_or_eq, ← compareUnits_eq_lt, ← compareUnits_eq_eq]
    exact or_congr Option.some_inj Option.some_inj
  rw [← most]
  rfl

lemma compares_strictEq (a b : String) :
    Compares .strictEq a b (decide (units a = units b)) := by
  have same : (a == b) = decide (units a = units b) := by
    rw [Bool.eq_iff_iff, beq_iff_eq, decide_eq_true_eq]
    exact ⟨congrArg _, units_inj⟩
  rw [← same]
  rfl

lemma Compares.lt_iff {a b : String} : Compares .lt a b true ↔ units a < units b := by
  have decided := compares_lt a b
  rw [Compares] at *
  simp [decided]

/-- Strings are totally ordered by their units, in agreement with equality, and of two that first
differ in a character above `U+FFFF` and one from `U+E000` on, the first is the smaller. -/
theorem compares_totalOrder (a b c : String) :
    (∃ less equal greater, Compares .lt a b less ∧ Compares .strictEq a b equal ∧
      Compares .lt b a greater ∧ [less, equal, greater].count true = 1) ∧
    (∃ outcome, Compares .le a b outcome ∧ Compares .lt b a (!outcome)) ∧
    (Compares .lt a b true → Compares .lt b c true → Compares .lt a c true) ∧
    Compares .lt a b (decide (units a < units b)) ∧
    ∀ (p s t : List Char) (high low : Char), 0x10000 ≤ high.toNat → 0xE000 ≤ low.toNat →
      low.toNat ≤ 0xFFFF → Compares .lt (String.ofList (p ++ high :: s))
        (String.ofList (p ++ low :: t)) true := by
  refine ⟨⟨_, _, _, compares_lt a b, compares_strictEq a b, compares_lt b a, ?_⟩, ?_, ?_,
    compares_lt a b, ?_⟩
  · rcases lt_trichotomy (units a) (units b) with less | same | more
    · simp [less, less.ne, less.not_gt]
    · simp [same]
    · simp [more, more.ne', more.not_gt]
  · refine ⟨_, compares_le a b, ?_⟩
    rw [← decide_not]
    simpa only [not_le] using compares_lt b a
  · simp only [Compares.lt_iff]
    exact lt_trans
  · intro p s t high low supplementary from_private to_private
    have valid : high.toNat < 0xD800 ∨ 0xDFFF < high.toNat ∧ high.toNat < 0x110000 := high.valid
    rw [Compares.lt_iff]
    simp only [units, String.toList_ofList, flatMap_append, flatMap_cons, charUnits]
    rw [if_neg (by omega), if_pos (by omega)]
    apply append_left_lt
    exact cons_lt_cons_iff.mpr (.inl (by omega))

theorem emoji_compares : Compares .lt "10" "9" true ∧ Compares .lt "😀" "｡" true := by
  have decided {a b : String} (less : units a < units b) : Compares .lt a b true :=
    Compares.lt_iff.mpr less
  exact ⟨(compares_totalOrder "10" "2" "9").2.2.1 (decided (by decide)) (decided (by decide)),
    (compares_totalOrder "" "" "").2.2.2.2 [] [] [] '😀' '｡' (by decide) (by decide) (by decide)⟩

end Constant
end Scriptc
