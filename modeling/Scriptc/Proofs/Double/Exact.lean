import Scriptc.Proofs.Double.Value

/-!
# Operations without rounding

Rounding keeps a number that has a sign, a significand and an exponent. So negation, a factor of
one, the conversion of a whole number below `2 ^ 53` and the remainder by `2 ^ 32` are exact.
-/

namespace Scriptc.Double

variable {n : Nat}

open Nat

open Float.Model UnpackedFloat

/-- A significand and an exponent of a finite double: the significand is full, or the exponent is
the smallest one. -/
structure Canonical (m : Nat) (e : Int) : Prop where
  pos : 0 < m
  below : m < 2 ^ 53
  full : 2 ^ 52 ≤ m ∨ e = -1074
  low : -1074 ≤ e

lemma log2_mul_two_pow (pos : 0 < n) (k : Nat) : (n * 2 ^ k).log2 = n.log2 + k := by
  rw [log2_eq_iff (by positivity), pow_add, Nat.add_right_comm, pow_add]
  exact ⟨Nat.mul_le_mul_right _ (log2_self_le pos.ne'),
    mul_lt_mul_of_pos_right lt_log2_self (by positivity)⟩

lemma shiftRight_scale (n k i : Nat) :
    (⟨n * 2 ^ k, false, false⟩ : ExtendedMantissa) >>> (i + k) =
      (⟨n, false, false⟩ : ExtendedMantissa) >>> i := by
  change Nat.repeat ExtendedMantissa.shiftRightOne (i + k) _ =
    Nat.repeat ExtendedMantissa.shiftRightOne i _
  induction i with
  | succ i ih => rw [Nat.add_right_comm, Nat.repeat, Nat.repeat, ih]
  | zero =>
    induction k generalizing n with
    | zero => simp
    | succ k ih =>
      rw [pow_succ', ← mul_assoc, ← add_assoc, Nat.repeat, Nat.repeat, ih]
      simp [Nat.repeat, ExtendedMantissa.shiftRightOne]

lemma round_scale {e : Int} (pos : 0 < n)
    (low : e ≤ Format.binary64.targetExponent (totalExponent n e)) (s : Sign) (k : Nat) :
    roundWithAccuracy .binary64 s (n * 2 ^ k) (e - k) .exact =
      roundWithAccuracy .binary64 s n e .exact := by
  have total : totalExponent (n * 2 ^ k) (e - k) = totalExponent n e := by
    rw [totalExponent, totalExponent, log2_mul_two_pow pos]
    omega
  have shifted : shiftToTargetExponent .binary64 (n * 2 ^ k) (e - k) .exact =
      shiftToTargetExponent .binary64 n e .exact := by
    rw [shiftToTargetExponent, shiftToTargetExponent, total]
    generalize Format.binary64.targetExponent (totalExponent n e) = t at low
    have amount : (t - (e - k)).toNat = (t - e).toNat + k := by omega
    have reached : e - k + ((t - e).toNat + k : Nat) = e + (t - e).toNat := by omega
    simp only [shiftToExponent, amount, reached]
    rw [ExtendedMantissa.ofMantissaAndAccuracy, ExtendedMantissa.ofMantissaAndAccuracy,
      shiftRight_scale]
  rw [roundWithAccuracy, roundWithAccuracy, shifted]

namespace Canonical

variable {m : Nat} {e : Int} (canonical : Canonical m e)
include canonical

lemma log2_le : m.log2 ≤ 52 ∧ (2 ^ 52 ≤ m → m.log2 = 52) := by
  have most : m.log2 < 53 := (log2_lt canonical.pos.ne').mpr canonical.below
  refine ⟨by omega, fun full => ?_⟩
  have least : 52 ≤ m.log2 := (le_log2 canonical.pos.ne').mpr full
  omega

lemma target : Format.binary64.targetExponent (totalExponent m e) = e := by
  have bits := canonical.log2_le
  have full := canonical.full
  have low := canonical.low
  rw [totalExponent, Format.targetExponent, Format.minExponent, Format.mantissaBits]
  norm_num
  omega

lemma round_eq (s : Sign) (k : Nat) :
    roundWithAccuracy .binary64 s (m * 2 ^ k) (e - k) .exact = .finite s m e canonical.pos := by
  have kept : shiftToTargetExponent .binary64 m e .exact = (⟨m, false, false⟩, e) := by
    rw [shiftToTargetExponent, canonical.target, shiftToExponent, sub_self, Int.toNat_zero]
    simp only [cast_zero, add_zero]
    rfl
  rw [round_scale canonical.pos canonical.target.ge]
  unfold roundWithAccuracy
  simp only [kept, ExtendedMantissa.roundedMantissa, ExtendedMantissa.accuracy,
    Accuracy.roundToNearestEven]
  rw [dif_neg canonical.pos.ne']

end Canonical

def packed (u : UnpackedFloat) : Float := .ofModel (.pack u)

def ofParts (s : Sign) (m : Nat) (e : Int) (pos : 0 < m) : Float :=
  .ofModel (.pack (.finite s m e pos))

lemma toNat_packComponents (s : Sign) (exponent : BitVec 11) (fraction : BitVec 52) :
    (packComponents .binary64 s exponent fraction).toNat =
      s.toBitVec.toNat * 2 ^ 63 + exponent.toNat * 2 ^ 52 + fraction.toNat := by
  change (s.toBitVec ++ exponent ++ fraction).toNat = _
  rw [BitVec.toNat_append, BitVec.toNat_append, ← shiftLeft_add_eq_or_of_lt fraction.isLt,
    ← shiftLeft_add_eq_or_of_lt exponent.isLt, Nat.shiftLeft_eq, Nat.shiftLeft_eq]
  ring

lemma Canonical.toBits_ofParts {m : Nat} {e : Int} (canonical : Canonical m e) (small : e < 972)
    (s : Sign) : (ofParts s m e canonical.pos).toBits.toNat = s.toBitVec.toNat * 2 ^ 63 +
      (if m < 2 ^ 52 then m else (e + 1075).toNat * 2 ^ 52 + (m - 2 ^ 52)) := by
  have below := canonical.below
  have bits := canonical.log2_le
  have biased :
      (e + Format.binary64.exponentBias + Format.binary64.mantissaBitsWithoutImplicit).toNat =
      (e + 1075).toNat := by
    simp only [Format.exponentBias]
    norm_num
    omega
  change (UnpackedFloat.pack .binary64 (.finite s m e canonical.pos)).toNat = _
  simp only [UnpackedFloat.pack, biased]
  rw [if_neg (by norm_num; omega)]
  split
  next full =>
    have large : ¬m < 2 ^ 52 := fun less => by
      have := (log2_lt canonical.pos.ne').mpr less
      change m.log2 + 1 = 53 at full
      omega
    rw [toNat_packComponents, if_neg large, BitVec.toNat_ofNat]
    norm_num
    omega
  next partly =>
    have less : m < 2 ^ 52 := not_le.mp fun full => partly (by rw [bits.2 full]; rfl)
    have kept : (BitVec.ofNat 52 m).toNat = m := mod_eq_of_lt less
    rw [toNat_packComponents, if_pos less]
    rw [kept]
    simp

def factor : Sign → ℚ
  | .positive => 1
  | .negative => -1

lemma Canonical.value_ofParts {m : Nat} {e : Int} (canonical : Canonical m e) (small : e < 972)
    (s : Sign) : (ofParts s m e canonical.pos).isFinite = true ∧
      value (ofParts s m e canonical.pos) = factor s * (m * 2 ^ e) := by
  have bits := canonical.toBits_ofParts small s
  have below := canonical.below
  have low := canonical.low
  have full := canonical.full
  have sign : s.toBitVec.toNat = 0 ∧ factor s = 1 ∨ s.toBitVec.toNat = 1 ∧ factor s = -1 := by
    cases s
    · exact .inr ⟨rfl, rfl⟩
    · exact .inl ⟨rfl, rfl⟩
  have fields : exponentField (ofParts s m e canonical.pos) =
      (if m < 2 ^ 52 then 0 else (e + 1075).toNat) ∧
      fractionField (ofParts s m e canonical.pos) = if m < 2 ^ 52 then m else m - 2 ^ 52 := by
    rw [exponentField_eq, fractionField_eq, bits]
    split <;> omega
  have size : (magnitude (ofParts s m e canonical.pos)).value = m * 2 ^ e := by
    rw [magnitude, fields.1, fields.2]
    rcases lt_or_ge m (2 ^ 52) with less | more
    · rw [if_pos less, if_pos less, if_pos rfl, Magnitude.value, full.resolve_left (by omega)]
    · have large : ¬m < 2 ^ 52 := not_lt.mpr more
      rw [if_neg large, if_neg large, if_neg (by omega), Magnitude.value]
      have whole : m - 2 ^ 52 + 0x10000000000000 = m := by omega
      have exponent : ((e + 1075).toNat : Int) - 1075 = e := by omega
      rw [whole, exponent]
  have finite : (ofParts s m e canonical.pos).isFinite = true := by
    rw [isFinite_iff, fields.1]
    split <;> omega
  refine ⟨finite, ?_⟩
  rw [value, size, isNegative_eq, bits]
  rcases sign with ⟨zero, plus⟩ | ⟨one, minus⟩
  · rw [zero, plus, one_mul, decide_eq_false (by split <;> omega)]
    rfl
  · rw [minus, neg_one_mul, decide_eq_true (by omega)]
    rfl

lemma canonical_of_unpack {x : Float} {s : Sign} {m : Nat} {e : Int} {pos : 0 < m}
    (unpacked : x.toModel.unpack = .finite s m e pos) : Canonical m e ∧ e < 972 := by
  change UnpackedFloat.unpack .binary64 x.toBits.toBitVec = _ at unpacked
  unfold UnpackedFloat.unpack at unpacked
  dsimp only at unpacked
  have bias : (Format.binary64.exponentBias : Int) = 1023 := rfl
  have fraction := (@unpackMantissa Format.binary64 x.toBits.toBitVec).isLt
  have exponent := (@unpackExponent Format.binary64 x.toBits.toBitVec).isLt
  split at unpacked
  · split at unpacked <;> cases unpacked
  next other =>
    have normal : (@unpackExponent Format.binary64 x.toBits.toBitVec).toNat ≠ 2047 :=
      fun same => other (BitVec.eq_of_toNat_eq same)
    split at unpacked
    next zero =>
      split at unpacked
      · cases unpacked
      · obtain ⟨-, rfl, rfl⟩ := UnpackedFloat.finite.inj unpacked
        have least : (@unpackExponent Format.binary64 x.toBits.toBitVec).toNat = 0 :=
          congrArg BitVec.toNat zero
        change _ < 2 ^ 52 at fraction
        exact ⟨⟨pos, by omega, .inr (by omega), by omega⟩, by omega⟩
    next nonzero =>
      obtain ⟨-, rfl, rfl⟩ := UnpackedFloat.finite.inj unpacked
      have more : (@unpackExponent Format.binary64 x.toBits.toBitVec).toNat ≠ 0 :=
        fun same => nonzero (BitVec.eq_of_toNat_eq same)
      have whole : (1#1 ++ @unpackMantissa Format.binary64 x.toBits.toBitVec).toNat =
          2 ^ 52 + (@unpackMantissa Format.binary64 x.toBits.toBitVec).toNat := by
        rw [BitVec.toNat_append, ← shiftLeft_add_eq_or_of_lt (BitVec.isLt _)]
        rfl
      change _ < 2 ^ 52 at fraction
      change _ < 2 ^ 11 at exponent
      exact ⟨⟨pos, by omega, .inl (by omega), by omega⟩, by omega⟩

lemma pack_unpack (x : Float) : .ofModel (.pack x.toModel.unpack) = x := by
  refine eq_of_toBits (UInt64.toBitVec_inj.mp ?_)
  exact UnpackedFloat.pack_unpack_of_valid x.toModel.valid

section

variable {x : Float} (finite : x.isFinite = true) (nonzero : value x ≠ 0)
include finite nonzero

/-- A finite double other than zero is made of its parts. -/
lemma exists_parts : ∃ s m e, ∃ canonical : Canonical m e, e < 972 ∧
      x.toModel.unpack = .finite s m e canonical.pos ∧ x = ofParts s m e canonical.pos := by
  have same := pack_unpack x
  change x.toModel.unpack.isFinite = true at finite
  cases unpacked : x.toModel.unpack with
  | finite s m e pos =>
    obtain ⟨canonical, small⟩ := canonical_of_unpack unpacked
    rw [unpacked] at same
    exact ⟨s, m, e, canonical, small, rfl, same.symm⟩
  | zero s =>
    rw [unpacked] at same
    refine absurd (value_eq_zero.mpr ?_) nonzero
    rw [← same]
    cases s
    · exact .inr rfl
    · exact .inl rfl
  | _ =>
    rw [unpacked] at finite
    cases finite

lemma value_neg : (-x).isFinite = true ∧ value (-x) = -value x := by
  obtain ⟨s, m, e, canonical, small, unpacked, same⟩ := exists_parts finite nonzero
  have negated : -x = ofParts (-s) m e canonical.pos := by
    change packed (.neg x.toModel.unpack) = _
    rw [unpacked]
    rfl
  have factors : factor (-s) = -factor s := by cases s <;> simp [factor]
  have value := (canonical.value_ofParts small s).2
  have value' := canonical.value_ofParts small (-s)
  rw [← same] at value
  rw [← negated, factors] at value'
  exact ⟨value'.1, by rw [value'.2, value, neg_mul]⟩

lemma value_mul_unit (t : Sign) {y : Float}
    (unit : y.toModel.unpack = .finite t (2 ^ 52) (-(52 : Nat)) (by decide)) :
    (x * y).isFinite = true ∧ value (x * y) = value x * factor t := by
  obtain ⟨s, m, e, canonical, small, unpacked, same⟩ := exists_parts finite nonzero
  have product : x * y = ofParts (s * t) m e canonical.pos := by
    change packed (.mul .binary64 x.toModel.unpack y.toModel.unpack) = _
    rw [unpacked, unit]
    exact congrArg packed (canonical.round_eq (s * t) 52)
  have factors : factor (s * t) = factor s * factor t := by cases s <;> cases t <;> simp [factor]
  have value := (canonical.value_ofParts small s).2
  have value' := canonical.value_ofParts small (s * t)
  rw [← same] at value
  rw [← product, factors] at value'
  exact ⟨value'.1, by rw [value'.2, value]; ring⟩

end

lemma log2_of_scaled {m : Nat} {e : Int} (pos : 0 < n) (same : (m : ℚ) * 2 ^ e = n) :
    (m.log2 : Int) + e = n.log2 := by
  rcases le_or_gt 0 e with whole | fractional
  · obtain ⟨j, rfl⟩ := Int.eq_ofNat_of_zero_le whole
    obtain rfl : n = m * 2 ^ j := by exact_mod_cast same.symm
    rw [log2_mul_two_pow (Nat.pos_of_mul_pos_right pos)]
    push_cast
    rfl
  · obtain ⟨j, rfl⟩ : ∃ j : Nat, e = -j := ⟨e.natAbs, by omega⟩
    rw [zpow_neg, zpow_natCast, ← div_eq_mul_inv, div_eq_iff (by positivity)] at same
    obtain rfl : m = n * 2 ^ j := by exact_mod_cast same
    rw [log2_mul_two_pow pos]
    omega

/-- A whole number below `2 ^ 53` is kept by rounding, with any exponent. -/
lemma round_whole {m : Nat} {e : Int} (pos : 0 < n) (below : n < 2 ^ 53)
    (same : (m : ℚ) * 2 ^ e = n) (s : Sign) : ∃ m' e', ∃ canonical : Canonical m' e', e' < 972 ∧
      (m' : ℚ) * 2 ^ e' = n ∧
        UnpackedFloat.round .binary64 s m e = .finite s m' e' canonical.pos := by
  obtain ⟨k, bits⟩ : ∃ k, n.log2 + k = 52 :=
    le.dest (Nat.lt_succ_iff.mp ((log2_lt pos.ne').mpr below))
  have scaled : (n * 2 ^ k).log2 = 52 := by rw [log2_mul_two_pow pos, bits]
  obtain ⟨full, less⟩ := (log2_eq_iff (by positivity)).mp scaled
  have canonical : Canonical (n * 2 ^ k) (-k) := ⟨by positivity, less, .inl full, by omega⟩
  have target : Format.binary64.targetExponent (totalExponent m e) = -k := by
    have total := log2_of_scaled pos same
    rw [totalExponent, Format.targetExponent, Format.minExponent, Format.mantissaBits]
    norm_num
    omega
  refine ⟨_, _, canonical, by omega, ?_, ?_⟩
  · push_cast
    rw [zpow_neg, zpow_natCast]
    field_simp
  · obtain ⟨i, j, shift, reached⟩ : ∃ i j : Nat, (e - -k).toNat = i ∧ e - i = -k - (j : Int) :=
      ⟨_, (-k - e).toNat, rfl, by omega⟩
    have moved : m <<< i = n * 2 ^ k * 2 ^ j := by
      have exponent : e = -k - (j : Int) + i := by omega
      rw [exponent, zpow_add₀ two_ne_zero, zpow_sub₀ two_ne_zero, zpow_neg, zpow_natCast,
        zpow_natCast, zpow_natCast] at same
      field_simp at same
      have shifted : m * 2 ^ i = 2 ^ k * 2 ^ j * n := by exact_mod_cast same
      rw [Nat.shiftLeft_eq, shifted, mul_comm, mul_assoc]
    rw [UnpackedFloat.round, target]
    simp only [decreaseExponent, shift, reached, moved]
    exact canonical.round_eq s j

lemma value_toFloat (positive : 0 < n) (below : n < 2 ^ 53) :
    n.toUInt64.toFloat.isFinite = true ∧ value n.toUInt64.toFloat = n := by
  obtain ⟨m, e, canonical, small, size, rounded⟩ :=
    round_whole (m := n) (e := 0) positive below (by simp) .positive
  have word : n.toUInt64.toNat = n := mod_eq_of_lt (by omega)
  have order : compare (n : Int) 0 = .gt := compare_gt_iff_gt.mpr (by omega)
  have whole : n.toUInt64.toFloat = ofParts .positive m e canonical.pos := by
    change packed (.normalize .binary64 n.toUInt64.toNat 0 .positive) = _
    rw [word, UnpackedFloat.normalize, order]
    exact congrArg packed rounded
  have value := canonical.value_ofParts small .positive
  rwa [← whole, size, factor, one_mul] at value

lemma value_ofNat {n : Nat} (below : n < 2 ^ 53) :
    (Float.ofNat n).isFinite = true ∧ value (Float.ofNat n) = n := by
  rcases Nat.eq_zero_or_pos n with rfl | positive
  · exact ⟨by decide +kernel, value_eq_zero.mpr (.inl (by decide +kernel))⟩
  · obtain ⟨finite, whole⟩ := value_toFloat positive below
    have product := value_mul_unit finite (by rw [whole]; exact_mod_cast positive.ne') .positive
      (y := Float.exactlyRepresentablePowersOfTen[0]) rfl
    rw [whole, factor, mul_one] at product
    change (Float.ofScientific n false 0).isFinite = true ∧ value (Float.ofScientific n false 0) = n
    rw [Float.ofScientific, dif_pos ⟨below, by decide⟩]
    exact product

lemma value_ofInt {k : Int} (below : k.natAbs < 2 ^ 53) :
    (Float.ofInt k).isFinite = true ∧ value (Float.ofInt k) = k := by
  cases k with
  | ofNat n => exact_mod_cast value_ofNat below
  | negSucc n =>
    obtain ⟨finite, whole⟩ := @value_ofNat (n + 1) below
    have negated := value_neg finite (by rw [whole]; positivity)
    rw [whole] at negated
    exact ⟨negated.1, negated.2.trans (by push_cast; ring)⟩

/-! ## Remainders -/

lemma factor_apply (s : Sign) (m : Nat) : ((s.apply m : Int) : ℚ) = factor s * m := by
  cases s <;> simp [Sign.apply, factor]

lemma value_shiftLeft (m : Nat) {e low : Int} (less : low ≤ e) :
    ((m <<< (e - low).toNat : Nat) : ℚ) * 2 ^ low = m * 2 ^ e := by
  obtain ⟨j, rfl⟩ : ∃ j : Nat, e = low + j := ⟨(e - low).toNat, by omega⟩
  rw [Nat.shiftLeft_eq, add_sub_cancel_left, Int.toNat_natCast, zpow_add₀ two_ne_zero,
    zpow_natCast]
  push_cast
  ring

/-- A sum that is a whole number below `2 ^ 53` is exact. -/
lemma value_add_whole {x y : Float} (finite : x.isFinite = true) (nonzero : value x ≠ 0)
    (finite' : y.isFinite = true) (nonzero' : value y ≠ 0) (pos : 0 < n) (below : n < 2 ^ 53)
    (sum : value x + value y = n) : (x + y).isFinite = true ∧ value (x + y) = n := by
  obtain ⟨s, m, e, canonical, small, unpacked, same⟩ := exists_parts finite nonzero
  obtain ⟨s', m', e', canonical', small', unpacked', same'⟩ := exists_parts finite' nonzero'
  have left := (canonical.value_ofParts small s).2
  have right := (canonical'.value_ofParts small' s').2
  rw [← same] at left
  rw [← same'] at right
  -- Both significands are brought to the smaller exponent and added with their signs.
  have total : (((s.apply (m <<< (e - min e e').toNat) +
      s'.apply (m' <<< (e' - min e e').toNat) : Int)) : ℚ) * 2 ^ min e e' = n := by
    rw [← sum, left, right, ← value_shiftLeft m (min_le_left e e'), ← value_shiftLeft m'
      (min_le_right e e')]
    rw [Int.cast_add, factor_apply, factor_apply]
    ring
  have model : x + y = packed (.add .binary64 x.toModel.unpack y.toModel.unpack) := rfl
  rw [unpacked, unpacked', UnpackedFloat.add] at model
  simp only [decreaseExponent] at model
  generalize s.apply (m <<< (e - min e e').toNat) + s'.apply (m' <<< (e' - min e e').toNat) = i
    at total model
  have positive : 0 < i := by
    have product : (0 : ℚ) < i * 2 ^ min e e' := by
      rw [total]
      exact_mod_cast pos
    exact_mod_cast (mul_pos_iff_of_pos_right (by positivity)).mp product
  obtain ⟨k, rfl⟩ := Int.eq_ofNat_of_zero_le positive.le
  obtain ⟨m'', e'', canonical'', small'', whole, rounded⟩ :=
    round_whole pos below (by exact_mod_cast total) .positive
  have order : compare (k : Int) 0 = .gt := compare_gt_iff_gt.mpr positive
  rw [UnpackedFloat.normalize, order] at model
  simp only [Int.toNat_natCast, rounded] at model
  have value := canonical''.value_ofParts small'' .positive
  rwa [factor, one_mul, whole, ofParts, ← packed, ← model] at value

lemma lt_zero_iff {x : Float} (finite : x.isFinite = true) : x < 0.0 ↔ value x < 0 := by
  by_cases zero : value x = 0
  · have signed : x = 0.0 ∨ x = -0.0 := by
      refine (value_eq_zero.mp zero).imp (fun bits => ?_) fun bits => ?_
      all_goals exact eq_of_toBits (UInt64.toNat_inj.mp bits)
    rw [zero]
    rcases signed with rfl | rfl <;> decide +kernel
  · obtain ⟨s, m, e, canonical, small, unpacked, same⟩ := exists_parts finite zero
    have known := (canonical.value_ofParts small s).2
    have size : (0 : ℚ) < m * 2 ^ e := by
      have := canonical.pos
      positivity
    rw [← same] at known
    change Float.lt x 0.0 = true ↔ _
    rw [Float.lt, decide_eq_true_eq]
    change UnpackedFloat.lt x.toModel.unpack (.zero .positive) = true ↔ _
    rw [unpacked, known]
    cases s
    · simpa [UnpackedFloat.lt, UnpackedFloat.compare, factor] using size
    · simpa [UnpackedFloat.lt, UnpackedFloat.compare, factor] using size.le

lemma value_ofMagnitude {m : Nat} {e : Int} (below : m < 2 ^ 53) (low : -1074 ≤ e) (high : e ≤ 0)
    (negative : Bool) : (ofMagnitude negative ⟨m, e⟩).isFinite = true ∧
      value (ofMagnitude negative ⟨m, e⟩) = (if negative then -1 else 1) * (m * 2 ^ e) := by
  rcases Nat.eq_zero_or_pos m with rfl | pos
  · cases negative
    · exact ⟨(by decide : (Float.ofBits 0).isFinite = true),
        (value_eq_zero.mpr (.inl rfl)).trans (by simp)⟩
    · exact ⟨(by decide : (Float.ofBits 0x8000000000000000).isFinite = true),
        (value_eq_zero.mpr (.inr rfl)).trans (by simp)⟩
  · have bits : m.log2 < 53 := (log2_lt pos.ne').mpr below
    obtain ⟨k, room⟩ : ∃ k, min (52 - m.log2) (e + 1074).toNat = k := ⟨_, rfl⟩
    have length : (m * 2 ^ k).log2 = m.log2 + k := log2_mul_two_pow pos k
    have canonical : Canonical (m * 2 ^ k) (e - k) := by
      refine ⟨by positivity, (log2_lt (by positivity)).mp (by omega), ?_, by omega⟩
      by_cases full : 52 - m.log2 ≤ (e + 1074).toNat
      · exact .inl ((le_log2 (by positivity)).mp (by omega))
      · exact .inr (by omega)
    have stored := canonical.toBits_ofParts (by omega) (if negative then .negative else .positive)
    have same : ofMagnitude negative ⟨m, e⟩ =
        ofParts (if negative then .negative else .positive) (m * 2 ^ k) (e - k) canonical.pos := by
      rw [ofMagnitude, if_neg pos.ne']
      simp only [room, Nat.shiftLeft_eq]
      refine Eq.trans (congrArg Float.ofBits (UInt64.toNat_inj.mp ?_)) (pack_unpack _)
      refine Eq.trans ?_ stored.symm
      rw [UInt64.toNat_ofNat']
      have less := canonical.below
      have sign : (if negative then 0x8000000000000000 else 0) =
          (if negative then Sign.negative else .positive).toBitVec.toNat * 2 ^ 63 := by
        cases negative <;> rfl
      have one := (if negative then Sign.negative else .positive).toBitVec.isLt
      rw [sign]
      generalize (if negative then Sign.negative else .positive).toBitVec.toNat = b at one ⊢
      generalize m * 2 ^ k = n at less ⊢
      split <;> split <;> omega
    have value := canonical.value_ofParts (by omega) (if negative then .negative else .positive)
    rw [← same] at value
    refine ⟨value.1, value.2.trans ?_⟩
    have exact : ((m * 2 ^ k : Nat) : ℚ) * 2 ^ (e - k) = m * 2 ^ e := by
      rw [zpow_sub₀ two_ne_zero, zpow_natCast]
      push_cast
      field_simp
    rw [exact]
    cases negative <;> rfl


lemma isNaN_of_isFinite {x : Float} (finite : x.isFinite = true) :
    x.isNaN = false ∧ x.isInf = false := by
  change x.toModel.unpack.isNaN = false ∧ x.toModel.unpack.isInf = false
  change x.toModel.unpack.isFinite = true at finite
  generalize x.toModel.unpack = u at finite ⊢
  cases u with
  | zero | finite => exact ⟨rfl, rfl⟩
  | _ => cases finite

lemma magnitude_bounds (x : Float) :
    (magnitude x).mantissa < 2 ^ 53 ∧ -1074 ≤ (magnitude x).exponent := by
  have below := fractionField_lt x
  rw [magnitude]
  split
  · exact ⟨by change fractionField x < _; omega, le_rfl⟩
  · exact ⟨by change fractionField x + _ < _; omega, by change -1074 ≤ (_ - 1075 : Int); omega⟩

/-- The remainder of a whole number by `2 ^ 32`. -/
lemma value_remainder {x : Float} (finite : x.isFinite = true) (whole : (magnitude x).value = n) :
    (remainder x 4294967296.0).isFinite = true ∧
      value (remainder x 4294967296.0) = (if isNegative x then -1 else 1) * (n % 2 ^ 32 : Nat) := by
  have divisor : (4294967296.0 : Float).isNaN = false ∧ (4294967296.0 : Float).isInf = false ∧
      ((4294967296.0 : Float) == 0.0) = false ∧ magnitude 4294967296.0 = ⟨2 ^ 52, -20⟩ := by
    decide +kernel
  obtain ⟨number, bounded⟩ := isNaN_of_isFinite finite
  obtain ⟨below, low⟩ := magnitude_bounds x
  obtain ⟨j, least⟩ : ∃ j : Nat, min (magnitude x).exponent (-20) = -j :=
    ⟨(-min (magnitude x).exponent (-20)).toNat, by omega⟩
  -- Both numbers are brought to the smaller exponent.
  have scaled {m n : Nat} {e : Int} (less : -(j : Int) ≤ e) (same : (m : ℚ) * 2 ^ e = n) :
      m <<< (e - -j).toNat = n * 2 ^ j := by
    rw [← value_shiftLeft m less, zpow_neg, zpow_natCast, ← div_eq_mul_inv,
      div_eq_iff (by positivity)] at same
    exact_mod_cast same
  have dividend := scaled (by omega) whole
  have modulus := scaled (m := 2 ^ 52) (n := 2 ^ 32) (e := -20) (by omega) (by norm_num)
  have small : n % 2 ^ 32 * 2 ^ j < 2 ^ 53 := by
    rcases min_choice (magnitude x).exponent (-20) with own | other
    · have same : (magnitude x).exponent = -j := own.symm.trans least
      rw [same, sub_self, Int.toNat_zero, Nat.shiftLeft_zero] at dividend
      rw [dividend] at below
      exact (Nat.mul_le_mul_right _ (Nat.mod_le ..)).trans_lt below
    · obtain rfl : j = 20 := by omega
      omega
  have written : remainder x 4294967296.0 = ofMagnitude (isNegative x)
      ⟨n % 2 ^ 32 * 2 ^ j, -j⟩ := by
    rw [remainder, number, bounded, divisor.1, divisor.2.2.1, if_neg (by simp), divisor.2.1,
      if_neg (by simp), divisor.2.2.2]
    simp only [least, dividend, modulus, Nat.mul_mod_mul_right]
  have value := value_ofMagnitude small (e := -j) (by omega) (by omega) (isNegative x)
  rw [← written] at value
  refine ⟨value.1, value.2.trans ?_⟩
  rw [zpow_neg, zpow_natCast]
  push_cast
  field_simp

lemma value_trunc {x : Float} (finite : x.isFinite = true) :
    (trunc x).isFinite = true ∧ value (trunc x) = truncate x := by
  rw [trunc]
  split
  next whole =>
    exact ⟨finite, value_eq_int.mpr ⟨by simp [isIntegral, Magnitude.isIntegral, whole], rfl⟩⟩
  next fractional =>
    have less : (magnitude x).floor < 2 ^ 53 := by
      rw [Magnitude.floor, if_neg fractional, Nat.shiftRight_eq_div_pow]
      exact (Nat.div_le_self ..).trans_lt (magnitude_bounds x).1
    obtain ⟨finite, same⟩ := value_ofMagnitude less (e := 0) (by decide) le_rfl (isNegative x)
    refine ⟨finite, same.trans ?_⟩
    rw [truncate]
    cases isNegative x <;> simp

/-- The remainder from zero up of a whole number by `2 ^ 32`. -/
lemma value_euclideanRemainder {x : Float} {k : Int} (finite : x.isFinite = true)
    (whole : value x = k) : (euclideanRemainder x 4294967296.0).isFinite = true ∧
      value (euclideanRemainder x 4294967296.0) = (k % 2 ^ 32 : Int) := by
  obtain ⟨integral, truncated⟩ := value_eq_int.mp whole
  have size := Magnitude.value_eq_nat.mpr ⟨integral, rfl⟩
  rw [truncate] at truncated
  generalize (magnitude x).floor = n at size truncated
  obtain ⟨bounded, value⟩ := value_remainder finite size
  have modulus : (4294967296.0 : Float).isFinite = true ∧
      (4294967296.0 : Float).abs = 4294967296.0 ∧
        isIntegral 4294967296.0 = true ∧ truncate 4294967296.0 = 4294967296 := by
    decide +kernel
  have modulus_value := value_eq_int.mpr modulus.2.2
  have more := Nat.mod_lt n (Nat.two_pow_pos 32)
  have sign := lt_zero_iff bounded
  rw [euclideanRemainder, modulus.2.1]
  rw [value] at sign
  cases negative : isNegative x with
  | false =>
    simp only [negative, Bool.false_eq_true, if_false, one_mul] at value truncated sign
    rw [if_neg (sign.not.mpr (not_lt.mpr (Nat.cast_nonneg _))), value, ← truncated]
    exact ⟨bounded, by norm_cast⟩
  | true =>
    simp only [negative, if_true, neg_one_mul] at value truncated sign
    rcases Nat.eq_zero_or_pos (n % 2 ^ 32) with zero | some
    · have remainder : k % 2 ^ 32 = 0 := by omega
      rw [if_neg (sign.not.mpr (by rw [zero]; simp)), value, zero, remainder]
      exact ⟨bounded, by simp⟩
    · have below : -((n % 2 ^ 32 : Nat) : ℚ) < 0 := by simpa using some
      have remainder : k % 2 ^ 32 = (2 ^ 32 - n % 2 ^ 32 : Nat) := by omega
      rw [if_pos (sign.mpr below), remainder]
      refine value_add_whole bounded (value ▸ below.ne) modulus.1 (by rw [modulus_value]; norm_num)
        (by omega) (by omega) ?_
      rw [value, modulus_value, Nat.cast_sub more.le]
      push_cast
      ring

/-! ## Decimals -/

lemma exists_full {x : Float} (finite : x.isFinite = true) (large : 1 ≤ value x) :
    ∃ (m : Nat) (e : Int) (pos : 0 < m), 2 ^ 52 ≤ m ∧ value x = m * 2 ^ e ∧ x.toModel.unpack =
      .finite .positive m e pos := by
  obtain ⟨s, m, e, canonical, small, unpacked, same⟩ := exists_parts finite (by linarith)
  have value := (canonical.value_ofParts small s).2
  rw [← same] at value
  have size : (0 : ℚ) < m * 2 ^ e := by
    have := canonical.pos
    positivity
  cases s with
  | negative =>
    rw [factor] at value
    linarith
  | positive =>
    rw [factor, one_mul] at value
    refine ⟨m, e, canonical.pos, canonical.full.resolve_right fun least => ?_, value, unpacked⟩
    have below : (m : ℚ) < 2 ^ 53 := by exact_mod_cast canonical.below
    have tiny : (2 : ℚ) ^ (-1074 : Int) ≤ (2 ^ 53)⁻¹ := by
      rw [← zpow_natCast, ← zpow_neg]
      exact zpow_le_zpow_right₀ (by norm_num) (by norm_num)
    rw [value, least] at large
    nlinarith [mul_le_mul_of_nonneg_left tiny (cast_nonneg (α := ℚ) m)]

/-- A decimal without a fraction is rounded once, from its exact value. -/
lemma ofScientific_rounds {j : Nat} (positive : 0 < n) (small : j ≤ 22) :
    ∃ (m : Nat) (e : Int), 2 ^ 52 ≤ m ∧ (m : ℚ) * 2 ^ e = n * 10 ^ j ∧
      Float.ofScientific n false j = packed (roundWithAccuracy .binary64 .positive m e .exact) := by
  have powers : ∀ j : Fin 23, (Float.exactlyRepresentablePowersOfTen[j]).isFinite = true ∧
      isIntegral Float.exactlyRepresentablePowersOfTen[j] = true ∧
        truncate Float.exactlyRepresentablePowersOfTen[j] = 10 ^ j.val := by
    decide +kernel
  obtain ⟨finite, integral, power⟩ := powers ⟨j, by omega⟩
  set t := Float.exactlyRepresentablePowersOfTen[(⟨j, by omega⟩ : Fin 23)]
  have tens : value t = 10 ^ j := by exact_mod_cast value_eq_int.mpr ⟨integral, power⟩
  unfold Float.ofScientific
  split
  next both =>
    change ∃ (m : Nat) (e : Int), _ ∧ _ ∧ n.toUInt64.toFloat * t = _
    clear_value t
    obtain ⟨finite', whole⟩ := value_toFloat positive both.1
    obtain ⟨m, e, pos, full, size, unpacked⟩ :=
      exists_full finite' (by rw [whole]; exact_mod_cast positive)
    obtain ⟨m', e', pos', full', size', unpacked'⟩ :=
      exists_full finite (by rw [tens]; exact one_le_pow₀ (by norm_num))
    refine ⟨m * m', e + e', full.trans (Nat.le_mul_of_pos_right m pos'), ?_, ?_⟩
    · rw [← whole, ← tens, size, size', cast_mul, zpow_add₀ two_ne_zero]
      ring
    · change packed (.mul .binary64 n.toUInt64.toFloat.toModel.unpack t.toModel.unpack) = _
      rw [unpacked, unpacked']
      rfl
  next =>
    refine ⟨(n <<< 53) * 10 ^ j, -53, ?_, ?_, ?_⟩
    · calc 2 ^ 52 ≤ 1 * 2 ^ 53 * 1 := by decide
        _ ≤ n <<< 53 * 10 ^ j := by
          rw [Nat.shiftLeft_eq]
          exact Nat.mul_le_mul (Nat.mul_le_mul_right _ positive) (Nat.one_le_pow j 10 (by decide))
    · rw [Nat.shiftLeft_eq]
      push_cast
      rw [zpow_neg]
      field_simp
      norm_num
    · change packed (.ofScientific .binary64 n j) = _
      rw [UnpackedFloat.ofScientific, dif_neg positive.ne', if_neg (by norm_num; omega),
        if_neg (by norm_num; omega), if_pos (by omega)]
      rfl

lemma ofScientific_zeros {j : Nat} (pos : 0 < n) (small : j ≤ 22) :
    Float.ofScientific (n * 10 ^ j) false 0 = Float.ofScientific n false j := by
  have scaled {m m' : Nat} {e e' : Int} (full : 2 ^ 52 ≤ m) (less : e' ≤ e)
      (same : (m : ℚ) * 2 ^ e = m' * 2 ^ e') :
      roundWithAccuracy .binary64 .positive m' e' .exact =
        roundWithAccuracy .binary64 .positive m e .exact := by
    obtain ⟨k, rfl⟩ : ∃ k : Nat, e' = e - k := ⟨(e - e').toNat, by omega⟩
    obtain rfl : m' = m * 2 ^ k := by
      rw [zpow_sub₀ two_ne_zero, zpow_natCast] at same
      field_simp at same
      exact_mod_cast same.symm
    have bits : 52 ≤ m.log2 := (le_log2 (by omega)).mpr full
    refine round_scale (by omega) ?_ .positive k
    rw [totalExponent, Format.targetExponent, Format.minExponent, Format.mantissaBits]
    norm_num
    omega
  obtain ⟨m, e, full, size, read⟩ := ofScientific_rounds (n := n * 10 ^ j) (j := 0)
    (by positivity) (by decide)
  obtain ⟨m', e', full', size', read'⟩ := ofScientific_rounds pos small
  have same : (m : ℚ) * 2 ^ e = m' * 2 ^ e' := by
    rw [size, size']
    push_cast
    ring
  rw [read, read']
  rcases le_total e' e with less | more
  · rw [scaled full less same]
  · rw [scaled full' more same.symm]

end Scriptc.Double
