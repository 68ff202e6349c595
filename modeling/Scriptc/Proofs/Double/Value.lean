import Mathlib
import Scriptc.Double.Basic

/-!
# The exact values of doubles

The bits of a finite double count units of the smallest positive one. Doubles are equal exactly if
their values are: only the two zeros share one. Mathlib is imported whole for the lemmas of floats
it comes with, which no module of its own imports.
-/

namespace Scriptc.Double

open Float.Model UnpackedFloat

def Magnitude.value (m : Magnitude) : ℚ := m.mantissa * 2 ^ m.exponent

def value (x : Float) : ℚ :=
  if isNegative x then -(magnitude x).value else (magnitude x).value

/-! ## Whole numbers -/

lemma Magnitude.value_eq_nat {m : Magnitude} {n : Nat} :
    m.value = n ↔ m.isIntegral = true ∧ m.floor = n := by
  obtain ⟨mantissa, exponent⟩ := m
  rcases le_or_gt 0 exponent with whole | fractional
  · obtain ⟨e, rfl⟩ := Int.eq_ofNat_of_zero_le whole
    simp only [value, isIntegral, floor, zpow_natCast, whole, Int.toNat_natCast, if_true,
      Nat.shiftLeft_eq]
    norm_cast
    simp
  · obtain ⟨d, rfl⟩ : ∃ d : Nat, exponent = -d := ⟨exponent.natAbs, by omega⟩
    have pos : (0 : ℚ) < 2 ^ d := by positivity
    simp only [value, isIntegral, floor, zpow_neg, zpow_natCast, not_le.mpr fractional, neg_neg,
      Int.toNat_natCast, decide_false, Bool.false_or, if_false, beq_iff_eq, Nat.one_shiftLeft,
      Nat.shiftRight_eq_div_pow]
    rw [← div_eq_mul_inv, div_eq_iff (ne_of_gt pos)]
    norm_cast
    constructor
    · rintro rfl
      simp
    · rintro ⟨divides, rfl⟩
      exact (Nat.div_mul_cancel (Nat.dvd_of_mod_eq_zero divides)).symm

lemma Magnitude.value_nonneg (m : Magnitude) : 0 ≤ m.value := by
  unfold value
  positivity

lemma Magnitude.value_eq_int {m : Magnitude} {k : Int} :
    m.value = k ↔ m.isIntegral = true ∧ (m.floor : Int) = k := by
  constructor
  · intro whole
    have nonneg : 0 ≤ k := by exact_mod_cast whole ▸ m.value_nonneg
    obtain ⟨n, rfl⟩ := Int.eq_ofNat_of_zero_le nonneg
    exact (value_eq_nat.mp (by exact_mod_cast whole)).imp_right (congrArg _)
  · rintro ⟨integral, rfl⟩
    exact_mod_cast value_eq_nat.mpr ⟨integral, rfl⟩

lemma value_eq_int {x : Float} {k : Int} : value x = k ↔ isIntegral x = true ∧ truncate x = k := by
  rw [value, truncate, isIntegral]
  split
  · have size := Magnitude.value_eq_int (m := magnitude x) (k := -k)
    rw [Int.cast_neg] at size
    rw [neg_eq_iff_eq_neg, size, neg_eq_iff_eq_neg]
  · exact Magnitude.value_eq_int

/-! ## Bits -/

variable (x : Float)

lemma exponentField_eq : exponentField x = x.toBits.toNat / 2 ^ 52 % 2 ^ 11 := by
  rw [exponentField, UInt64.toNat_and, UInt64.toNat_shiftRight, Nat.shiftRight_eq_div_pow]
  exact Nat.and_two_pow_sub_one_eq_mod _ 11

lemma fractionField_eq : fractionField x = x.toBits.toNat % 2 ^ 52 := by
  exact Nat.and_two_pow_sub_one_eq_mod _ 52

lemma fractionField_lt : fractionField x < 2 ^ 52 := by
  rw [fractionField_eq]
  exact Nat.mod_lt _ (Nat.two_pow_pos 52)

lemma isNegative_eq : isNegative x = decide (2 ^ 63 ≤ x.toBits.toNat) := by
  have below := x.toBits.toNat_lt
  have shifted : (x.toBits >>> 63).toNat = x.toBits.toNat / 2 ^ 63 := by
    rw [UInt64.toNat_shiftRight, Nat.shiftRight_eq_div_pow]
    rfl
  rw [isNegative, Bool.eq_iff_iff, beq_iff_eq, decide_eq_true_eq, ← UInt64.toNat_inj]
  change _ = 1 ↔ _
  omega

lemma isFinite_iff : x.isFinite = true ↔ exponentField x ≠ 2047 := by
  have field : exponentField x =
      (@unpackExponent Format.binary64 x.toBits.toBitVec).toNat := by
    rw [exponentField_eq, ← Nat.shiftRight_eq_div_pow]
    rfl
  rw [field]
  change (unpack Format.binary64 x.toBits.toBitVec).isFinite = true ↔ _
  unfold UnpackedFloat.unpack
  dsimp only
  split
  next all =>
    rw [all]
    split <;> simp [UnpackedFloat.isFinite]
  next other =>
    have smaller : (@unpackExponent Format.binary64 x.toBits.toBitVec).toNat ≠ 2047 :=
      fun same => other (BitVec.eq_of_toNat_eq same)
    split
    · split <;> simp [UnpackedFloat.isFinite, smaller]
    · simp [UnpackedFloat.isFinite, smaller]

lemma eq_of_toBits {x y : Float} (same : x.toBits = y.toBits) : x = y := by
  obtain ⟨⟨x_bits, _⟩⟩ := x
  obtain ⟨⟨y_bits, _⟩⟩ := y
  obtain rfl := same
  rfl

/-! ## Units -/

/-- A magnitude in units of the smallest positive double, by its exponent and fraction fields. -/
def units (exponent fraction : Nat) : Nat :=
  if exponent = 0 then fraction else (fraction + 2 ^ 52) * 2 ^ (exponent - 1)

lemma units_lt {e f e' f' : Nat} (below : f < 2 ^ 52) (larger : e < e') :
    units e f < units e' f' := by
  have step : units e f < 2 ^ 52 * 2 ^ e := by
    rw [units]
    split
    next zero => simpa [zero] using below
    next =>
      calc (f + 2 ^ 52) * 2 ^ (e - 1) < (2 ^ 52 * 2) * 2 ^ (e - 1) :=
            Nat.mul_lt_mul_of_pos_right (by omega) (Nat.two_pow_pos _)
        _ = 2 ^ 52 * 2 ^ e := by
            rw [Nat.mul_assoc, ← Nat.pow_succ', Nat.succ_eq_add_one, Nat.sub_add_cancel (by omega)]
  calc units e f < 2 ^ 52 * 2 ^ e := step
    _ ≤ (f' + 2 ^ 52) * 2 ^ (e' - 1) :=
        Nat.mul_le_mul (by omega) (Nat.pow_le_pow_right (by omega) (by omega))
    _ = units e' f' := by rw [units, if_neg (by omega)]

lemma units_inj {e f e' f' : Nat} (below : f < 2 ^ 52) (below' : f' < 2 ^ 52)
    (same : units e f = units e' f') : e = e' ∧ f = f' := by
  rcases Nat.lt_trichotomy e e' with less | rfl | more
  · exact absurd same (Nat.ne_of_lt (units_lt below less))
  · refine ⟨rfl, ?_⟩
    rw [units, units] at same
    split at same
    · exact same
    · exact Nat.add_right_cancel (Nat.eq_of_mul_eq_mul_right (Nat.two_pow_pos _) same)
  · exact absurd same.symm (Nat.ne_of_lt (units_lt below' more))

def signedUnits (x : Float) : Int :=
  if isNegative x then -units (exponentField x) (fractionField x)
  else units (exponentField x) (fractionField x)

lemma value_eq_units : value x = signedUnits x * 2 ^ (-1074 : Int) := by
  have size : (magnitude x).value =
      units (exponentField x) (fractionField x) * (2 : ℚ) ^ (-1074 : Int) := by
    rw [magnitude, units]
    split
    next => rfl
    next pos =>
      have exponent : (exponentField x : Int) - 1075 =
          ((exponentField x - 1 : Nat) : Int) + -1074 := by
        omega
      rw [Magnitude.value, exponent, zpow_add₀ two_ne_zero, zpow_natCast,
        Nat.cast_mul, Nat.cast_pow, Nat.cast_ofNat, mul_assoc]
      norm_num
  rw [value, signedUnits, size]
  split <;> simp

lemma value_eq_iff {x y : Float} : value x = value y ↔ signedUnits x = signedUnits y := by
  rw [value_eq_units, value_eq_units, mul_left_inj' (by positivity), Int.cast_inj]

lemma value_eq_zero {x : Float} : value x = 0 ↔ x.toBits.toNat = 0 ∨ x.toBits.toNat = 2 ^ 63 := by
  have size : signedUnits x = 0 ↔ exponentField x = 0 ∧ fractionField x = 0 := by
    have zero : signedUnits x = 0 ↔ units (exponentField x) (fractionField x) = units 0 0 := by
      rw [signedUnits, show units 0 0 = 0 from rfl]
      split <;> simp
    rw [zero]
    exact ⟨units_inj (fractionField_lt x) (by decide), fun ⟨e, f⟩ => by rw [e, f]⟩
  rw [value_eq_units, mul_eq_zero, or_iff_left (by positivity), Int.cast_eq_zero, size,
    exponentField_eq, fractionField_eq]
  have below := x.toBits.toNat_lt
  omega

lemma value_inj {x y : Float} (same : value x = value y) : x = y ∨ value x = 0 := by
  rw [value_eq_iff] at same
  by_cases zero : signedUnits x = 0
  · exact .inr (by rw [value_eq_units, zero, Int.cast_zero, zero_mul])
  · have both : isNegative x = isNegative y ∧
        units (exponentField x) (fractionField x) = units (exponentField y) (fractionField y) := by
      revert zero same
      rw [signedUnits, signedUnits]
      cases isNegative x <;> cases isNegative y <;> simp <;> omega
    obtain ⟨exponent, fraction⟩ := units_inj (fractionField_lt x) (fractionField_lt y) both.2
    have sign := both.1
    rw [isNegative_eq, isNegative_eq, decide_eq_decide] at sign
    rw [exponentField_eq, exponentField_eq] at exponent
    rw [fractionField_eq, fractionField_eq] at fraction
    have below := x.toBits.toNat_lt
    have below' := y.toBits.toNat_lt
    exact .inl (eq_of_toBits (UInt64.toNat_inj.mp (by omega)))

lemma beq_iff_value {x y : Float} (finite : y.isFinite = true) :
    (x == y) = true ↔ x.isFinite = true ∧ value x = value y := by
  have model := unpack_beq_unpack_iff x.toModel.valid y.toModel.valid
  simp only [ne_eq, ← BitVec.toNat_inj] at model
  change (x == y) = true ↔ x.toBits.toNat ≠ 0x7ff8000000000000 ∧
    y.toBits.toNat ≠ 0x7ff8000000000000 ∧ (x.toBits.toNat = y.toBits.toNat ∨
      x.toBits.toNat = 0 ∧ y.toBits.toNat = 2 ^ 63 ∨
        x.toBits.toNat = 2 ^ 63 ∧ y.toBits.toNat = 0) at model
  rw [isFinite_iff, exponentField_eq] at finite
  rw [model, isFinite_iff, exponentField_eq]
  constructor
  · rintro ⟨-, -, same | zeros⟩
    · obtain rfl := eq_of_toBits (UInt64.toNat_inj.mp same)
      exact ⟨finite, rfl⟩
    · have zero : value x = 0 := value_eq_zero.mpr (by omega)
      have zero' : value y = 0 := value_eq_zero.mpr (by omega)
      exact ⟨by omega, zero.trans zero'.symm⟩
  · rintro ⟨finite', same⟩
    refine ⟨by omega, by omega, ?_⟩
    rcases value_inj same with rfl | zero
    · exact .inl rfl
    · have bits := value_eq_zero.mp zero
      have bits' := value_eq_zero.mp (same.symm.trans zero)
      omega

/-! ## Operations that give numbers -/

lemma isNaN_pack (u : UnpackedFloat) : (Float.ofModel (.pack u)).isNaN = u.isNaN := by
  have components {sign : Sign} {exponent : BitVec 11} (fraction : BitVec 52)
      (less : exponent ≠ -1#11) : (unpack .binary64
        (packComponents .binary64 sign exponent fraction)).isNaN = false := by
    unfold UnpackedFloat.unpack
    rw [unpackExponent_packComponents, if_neg less]
    split
    · split <;> rfl
    · rfl
  cases u with
  | notANumber => decide
  | infinity s | zero s => cases s <;> decide
  | finite s m e pos =>
    change (unpack .binary64 (UnpackedFloat.pack .binary64 (.finite s m e pos))).isNaN = false
    unfold UnpackedFloat.pack
    dsimp only
    split
    · cases s <;> decide
    next small =>
      split
      · refine components _ fun full => small ?_
        have same := congrArg BitVec.toNat full
        have ones : (-1#11).toNat = 2047 := by decide
        rw [BitVec.toNat_ofNat, ones] at same
        omega
      · exact components _ (by decide)

lemma isNaN_round (f : Format) (s : Sign) (m : Nat) (e : Int) (a : Accuracy) :
    (roundWithAccuracy f s m e a).isNaN = false := by
  unfold roundWithAccuracy
  dsimp only
  split <;> rfl

lemma isNaN_normalize (f : Format) (m e : Int) (s : Sign) :
    (normalize f m e s).isNaN = false := by
  unfold UnpackedFloat.normalize
  split
  · exact isNaN_round ..
  · rfl
  · exact isNaN_round ..

def isRegular (x : Float) : Bool :=
  match x.toModel.unpack with
  | .finite .. => true
  | _ => false

section

variable {x y : Float} (number : x.isNaN = false)
include number

/-- Scaling by a regular double does not give not-a-number. -/
lemma isNaN_mul_div (regular : isRegular y = true) :
    (x * y).isNaN = false ∧ (x / y).isNaN = false := by
  refine And.imp (isNaN_pack (mul .binary64 x.toModel.unpack y.toModel.unpack)).trans
    (isNaN_pack (div .binary64 x.toModel.unpack y.toModel.unpack)).trans ?_
  rw [isRegular] at regular
  change x.toModel.unpack.isNaN = false at number
  generalize x.toModel.unpack = u, y.toModel.unpack = v at *
  cases v with
  | finite =>
    cases u with
    | notANumber => cases number
    | finite => exact ⟨isNaN_round .., isNaN_round ..⟩
    | _ => exact ⟨rfl, rfl⟩
  | _ => cases regular

lemma isNaN_add (finite : y.isFinite = true) : (x + y).isNaN = false := by
  refine (isNaN_pack (add .binary64 x.toModel.unpack y.toModel.unpack)).trans ?_
  change x.toModel.unpack.isNaN = false at number
  change y.toModel.unpack.isFinite = true at finite
  generalize x.toModel.unpack = u, y.toModel.unpack = v at *
  cases v with
  | zero =>
    cases u with
    | notANumber => cases number
    | zero =>
      rw [UnpackedFloat.add]
      split <;> rfl
    | _ => rfl
  | finite =>
    cases u with
    | notANumber => cases number
    | finite => exact isNaN_normalize ..
    | _ => rfl
  | _ => cases finite

end

lemma isNaN_ofScientific (significand : Nat) (negative : Bool) (exponent : Nat) :
    (Float.ofScientific significand negative exponent).isNaN = false := by
  have powers : Float.exactlyRepresentablePowersOfTen.all isRegular = true := by decide +kernel
  rw [Array.all_eq_true] at powers
  unfold Float.ofScientific
  split
  next small =>
    have whole : significand.toUInt64.toFloat.isNaN = false :=
      (isNaN_pack _).trans (isNaN_normalize ..)
    have power := powers exponent (Nat.lt_succ_of_le small.2)
    split
    · exact (isNaN_mul_div whole power).2
    · exact (isNaN_mul_div whole power).1
  next =>
    refine (isNaN_pack _).trans ?_
    generalize (if negative = true then Int.negOfNat exponent else Int.ofNat exponent) = e
    unfold UnpackedFloat.ofScientific
    repeat' split
    all_goals first | rfl | exact isNaN_round ..

end Scriptc.Double
