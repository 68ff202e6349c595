import Scriptc.Constant.Folding
import Scriptc.Proofs.Double.Exact

/-!
# Folding on 32-bit words

The word of a number is its whole part modulo `2 ^ 32`: none of the steps to it rounds. Bitwise
operators and shifts fold to the exact result on words.
-/

namespace Scriptc
namespace Double

def wholePart (x : Float) : Int :=
  if x.isFinite then if value x < 0 then ⌈value x⌉ else ⌊value x⌋ else 0

lemma Magnitude.floor_eq (m : Magnitude) : (m.floor : Int) = ⌊m.value⌋ := by
  obtain ⟨mantissa, exponent⟩ := m
  rw [floor, value]
  rcases le_or_gt 0 exponent with whole | fractional
  · obtain ⟨e, rfl⟩ := Int.eq_ofNat_of_zero_le whole
    have exact : (mantissa : ℚ) * 2 ^ (e : Int) = ((mantissa * 2 ^ e : Nat) : ℚ) := by
      push_cast
      rfl
    rw [if_pos whole, exact, Int.floor_natCast, Int.toNat_natCast, Nat.shiftLeft_eq]
  · obtain ⟨d, rfl⟩ : ∃ d : Nat, exponent = -d := ⟨exponent.natAbs, by omega⟩
    have quotient : (mantissa : ℚ) * 2 ^ (-d : Int) = (mantissa : ℚ) / ((2 ^ d : Nat) : ℚ) := by
      rw [zpow_neg, div_eq_mul_inv]
      push_cast
      rfl
    rw [if_neg (not_le.mpr fractional), quotient, Rat.floor_natCast_div_natCast, neg_neg,
      Nat.shiftRight_eq_div_pow]
    exact Int.natCast_ediv ..

lemma truncate_eq {x : Float} (finite : x.isFinite = true) : truncate x = wholePart x := by
  have nonneg := (magnitude x).value_nonneg
  rw [wholePart, truncate, value, Magnitude.floor_eq]
  split
  · rw [Int.ceil_neg]
    split
    · rfl
    next least =>
      have zero : (magnitude x).value = 0 := by linarith
      simp [zero]
  · rw [if_neg (not_lt.mpr nonneg)]

lemma toUInt32_eq (x : Float) : ((toUInt32 x).toNat : Int) = wholePart x % 2 ^ 32 := by
  rw [toUInt32]
  split
  next refused =>
    rw [wholePart]
    split
    next finite =>
      have zero : (x == 0.0) = true := by simpa [finite] using refused
      have zero : value x = 0 :=
        ((beq_iff_value (by decide)).mp zero).2.trans (value_eq_zero.mpr (.inl (by decide)))
      simp [zero]
    next => rfl
  next kept =>
    have finite : x.isFinite = true := by
      cases known : x.isFinite <;> simp [known] at kept ⊢
    obtain ⟨whole, truncated⟩ := value_trunc finite
    obtain ⟨bounded, remains⟩ := value_euclideanRemainder whole truncated
    rw [← truncate_eq finite, toWord, (isNaN_of_isFinite bounded).1, if_neg (by decide),
      (value_eq_int.mp remains).2, UInt32.toNat_ofNatClamp_of_lt (by change _ < 2 ^ 32; omega)]
    omega

lemma toInt_word (w : UInt32) : w.toBitVec.toInt ≡ w.toNat [ZMOD 2 ^ 32] ∧
    -2 ^ 31 ≤ w.toBitVec.toInt ∧ w.toBitVec.toInt < 2 ^ 31 := by
  have signed : w.toBitVec.toInt = (w.toNat : Int).bmod (2 ^ 32) := BitVec.toInt_eq_toNat_bmod _
  refine ⟨?_, BitVec.le_toInt w.toBitVec, BitVec.toInt_lt⟩
  rw [signed]
  exact Int.bmod_emod

end Double

namespace Constant

open Double

/-- An operator folds to a whole number in a range, exactly. -/
def FoldsTo (op : Opcode) (a b : Constant) (low high k : Int) : Prop :=
  (∃ x, foldBinary op a b = .ok (some (.number x)) ∧ x.isFinite = true ∧ value x = k) ∧
    low ≤ k ∧ k < high

lemma foldsTo_ofInt {op : Opcode} {a b : Constant} {low high k : Int}
    (folded : foldBinary op a b = .ok (some (.number (Float.ofInt k)))) (least : low ≤ k)
      (most : k < high)
    (small : -2 ^ 32 ≤ low ∧ high ≤ 2 ^ 32) : FoldsTo op a b low high k :=
  ⟨⟨_, folded, value_ofInt (by omega)⟩, least, most⟩

lemma foldsTo_word {op : Opcode} {a b : Constant} {w : UInt32}
    (folded : foldBinary op a b = .ok (some (ofSignedWord w))) :
    FoldsTo op a b (-2 ^ 31) (2 ^ 31) w.toBitVec.toInt := by
  obtain ⟨-, least, most⟩ := toInt_word w
  exact foldsTo_ofInt folded least most (by decide)

lemma foldsTo_shiftLeft (a b : Constant) : FoldsTo .shiftLeft a b (-2 ^ 31) (2 ^ 31)
    ((a.word.toNat * 2 ^ (b.word.toNat % 32) : Int).bmod (2 ^ 32)) := by
  have count : b.word.toNat % 32 % 2 ^ 32 % 32 = b.word.toNat % 32 := by omega
  have shifted : (a.word <<< UInt32.ofNat (shiftCount b)).toBitVec.toInt =
      (a.word.toNat * 2 ^ (b.word.toNat % 32) : Int).bmod (2 ^ 32) := by
    rw [BitVec.toInt_eq_toNat_bmod, UInt32.toNat_toBitVec, UInt32.toNat_shiftLeft, Nat.shiftLeft_eq,
      UInt32.toNat_ofNat', shiftCount, count, Int.natCast_emod, Int.emod_bmod]
    push_cast
    rfl
  rw [← shifted]
  exact foldsTo_word rfl

lemma foldsTo_shiftRightSigned (a b : Constant) : FoldsTo .shiftRightSigned a b (-2 ^ 31) (2 ^ 31)
    (toInt32 a.toNumber / 2 ^ (b.word.toNat % 32)) := by
  obtain ⟨-, least, most⟩ := toInt_word (toUInt32 a.toNumber)
  change -2 ^ 31 ≤ toInt32 a.toNumber at least
  change toInt32 a.toNumber < 2 ^ 31 at most
  have pos : (1 : Int) ≤ 2 ^ (b.word.toNat % 32) := one_le_pow₀ (by decide)
  refine foldsTo_ofInt ?_ (Int.le_ediv_of_mul_le (by omega) ?_)
    (Int.ediv_lt_of_lt_mul (by omega) ?_) (by decide)
  · rw [foldBinary, Int.shiftRight_eq_div_pow]
    push_cast
    rfl
  · nlinarith
  · nlinarith

lemma foldsTo_shiftRight (a b : Constant) : FoldsTo .shiftRight a b 0 (2 ^ 32)
    (a.word.toNat / 2 ^ (b.word.toNat % 32)) := by
  have most : a.word.toNat / 2 ^ (b.word.toNat % 32) < 2 ^ 32 :=
    (Nat.div_le_self ..).trans_lt a.word.toNat_lt
  refine ⟨⟨_, rfl, ?_⟩, by positivity, by exact_mod_cast most⟩
  rw [Nat.shiftRight_eq_div_pow]
  exact_mod_cast value_ofNat (most.trans (by decide))

/-- Words are whole parts modulo `2 ^ 32`, and operators on them fold to the exact results. -/
theorem foldBinary_words : (∀ x : Float, ((toUInt32 x).toNat : Int) = wholePart x % 2 ^ 32 ∧
      toInt32 x ≡ wholePart x [ZMOD 2 ^ 32] ∧ -2 ^ 31 ≤ toInt32 x ∧ toInt32 x < 2 ^ 31) ∧
    ∀ a b : Constant, FoldsTo .bitOr a b (-2 ^ 31) (2 ^ 31) (a.word ||| b.word).toBitVec.toInt ∧
      FoldsTo .bitXor a b (-2 ^ 31) (2 ^ 31) (a.word ^^^ b.word).toBitVec.toInt ∧
      FoldsTo .bitAnd a b (-2 ^ 31) (2 ^ 31) (a.word &&& b.word).toBitVec.toInt ∧
      FoldsTo .shiftLeft a b (-2 ^ 31) (2 ^ 31)
        ((a.word.toNat * 2 ^ (b.word.toNat % 32) : Int).bmod (2 ^ 32)) ∧
      FoldsTo .shiftRightSigned a b (-2 ^ 31) (2 ^ 31)
        (toInt32 a.toNumber / 2 ^ (b.word.toNat % 32)) ∧
      FoldsTo .shiftRight a b 0 (2 ^ 32) (a.word.toNat / 2 ^ (b.word.toNat % 32)) := by
  refine ⟨fun x => ⟨toUInt32_eq x, ?_⟩, fun a b =>
    ⟨foldsTo_word rfl, foldsTo_word rfl, foldsTo_word rfl,
    foldsTo_shiftLeft a b, foldsTo_shiftRightSigned a b, foldsTo_shiftRight a b⟩⟩
  obtain ⟨same, range⟩ := toInt_word (toUInt32 x)
  rw [toUInt32_eq] at same
  exact ⟨same.trans (Int.mod_modEq ..), range⟩

end Constant
end Scriptc
