import Scriptc.Proofs.Constant.Literal
import Scriptc.Proofs.Double.Exact

/-!
# Numbers as strings

A number is written as a decimal literal that denotes its shortest decimal, whichever layout is
taken.
-/

open Nat List

namespace Scriptc
namespace NumericText

variable {t digits : List Char} {weight : Int}

/-! ## What literals denote -/

def DenotesExponent (t : List Char) (e : Int) : Prop :=
  t = [] ∧ e = 0 ∨ ∃ mark ∈ ['e', 'E'], ∃ sign ∈ signs, ∃ digits,
    digits ≠ [] ∧ (∀ c ∈ digits, c.isDigit = true) ∧ t = mark :: (sign ++ digits) ∧
      e = if sign = ['-'] then -(Nat.ofDigitChars 10 digits 0 : Int) else
        Nat.ofDigitChars 10 digits 0

/-- A decimal literal with all its digits in a row and the weight of the last one. -/
def Spells (t digits : List Char) (weight : Int) : Prop :=
  ∃ whole fraction exponent e, (∀ c ∈ whole, c.isDigit = true) ∧
    (∀ c ∈ fraction, c.isDigit = true) ∧
    DenotesExponent exponent e ∧ digits = whole ++ fraction ∧ weight = e - fraction.length ∧
      (fraction = [] ∧ whole ≠ [] ∧ t = whole ++ exponent ∨
        (whole ≠ [] ∨ fraction ≠ []) ∧ t = whole ++ '.' :: (fraction ++ exponent))

/-- A decimal literal and the rational number that it denotes. -/
def Denotes (t : List Char) (q : ℚ) : Prop :=
  ∃ digits weight, Spells t digits weight ∧ q = Nat.ofDigitChars 10 digits 0 * 10 ^ weight

lemma decimalValue_eq (digits : List Char) : decimalValue digits = ofDigitChars 10 digits 0 := by
  simp only [decimalValue, ofDigitChars_eq_foldl, mul_comm]

lemma DenotesExponent.read {e : Int} (denotes : DenotesExponent t e) :
    IsExponent t ∧ exponentPart? t = some e := by
  rcases denotes with ⟨rfl, rfl⟩ | ⟨mark, marked, sign, mem, digits, some, all, rfl, rfl⟩
  · exact ⟨.inl rfl, rfl⟩
  · refine ⟨.inr ⟨mark, marked, sign, mem, digits, some, all, rfl⟩, ?_⟩
    rw [← decimalValue_eq]
    obtain rfl | rfl | rfl : sign = [] ∨ sign = ['+'] ∨ sign = ['-'] := by simpa [signs] using mem
    · obtain ⟨d, rest, rfl⟩ := exists_cons_of_ne_nil some
      have digit : d.isDigit = true := all d mem_cons_self
      have unsigned : d ≠ '-' ∧ d ≠ '+' := by constructor <;> rintro rfl <;> cases digit
      simp_all [exponentPart?]
    · simp_all [exponentPart?]
    · simp_all [exponentPart?]

lemma Spells.isDecimal (spells : Spells t digits weight) : IsDecimal t := by
  obtain ⟨whole, fraction, exponent, e, all, all', denotes, -, -, shape⟩ := spells
  exact ⟨whole, fraction, exponent, all, all', denotes.read.1, shape.imp_left And.right⟩

lemma Spells.read (spells : Spells t digits weight) :
    decimal? t = some (nearest (ofDigitChars 10 digits 0) weight) := by
  obtain ⟨whole, fraction, exponent, e, all, all', denotes, rfl, rfl, shape⟩ := spells
  obtain ⟨isExponent, read⟩ := denotes.read
  rcases shape with ⟨rfl, filled, rfl⟩ | ⟨filled, rfl⟩
  · rw [decimal?_whole all isExponent filled, read, decimalValue_eq]
    simp
  · rw [decimal?_pointed all all' isExponent filled, read, decimalValue_eq]
    rfl

lemma nearest_zeros (n : Nat) {count : Nat} (small : count ≤ 22) :
    nearest (n * 10 ^ count) 0 = nearest n count := by
  rcases Nat.eq_zero_or_pos n with rfl | positive
  · simp [nearest]
  · have digits : toDigits 10 (n * 10 ^ count) = toDigits 10 n ++ replicate count '0' := by
      clear small
      induction count with
      | zero => simp
      | succ count ih =>
        have last := @Nat.toDigits_append_toDigits 10 (n * 10 ^ count) 0 (by decide)
          (by positivity) (by decide)
        rw [pow_succ, ← mul_assoc, mul_comm, ← add_zero (10 * _), ← last, ih, toDigits_zero,
          append_assoc, replicate_succ']
    have top : (0 : Int) + (toDigits 10 (n * 10 ^ count)).length =
        count + (toDigits 10 n).length := by
      rw [digits, length_append, length_replicate]
      omega
    have nonzero : (n * 10 ^ count = 0) = (n = 0) := by simp
    simp only [nearest, top, nonzero]
    rw [if_pos le_rfl, if_pos (Int.natCast_nonneg count), Int.toNat_zero, Int.toNat_natCast,
      Double.ofScientific_zeros positive small]

end NumericText

namespace Decimal

open NumericText

/-! ## Layouts -/

/-- A literal of a decimal: all its digits, perhaps with zeros of the exponent after them. -/
def IsText (d : Decimal) (t : List Char) : Prop :=
  ∃ digits, ∃ count : Nat, count ≤ 22 ∧ Spells t digits (d.exponent - count) ∧
    Nat.ofDigitChars 10 digits 0 = d.digits * 10 ^ count ∧ (count = 0 ∨ d.exponent = count)

section

variable {d : Decimal} {t : List Char} (text : d.IsText t)
include text

lemma IsText.denotes : Denotes t (d.digits * 10 ^ d.exponent) := by
  obtain ⟨digits, count, -, spells, value, -⟩ := text
  refine ⟨digits, _, spells, ?_⟩
  rw [value, zpow_sub₀ (by norm_num), zpow_natCast]
  push_cast
  field_simp

lemma IsText.read : decimal? t = some (nearest d.digits d.exponent) := by
  obtain ⟨digits, count, small, spells, value, rfl | whole⟩ := text
  · simpa [value] using spells.read
  · rw [spells.read, value, whole, sub_self, nearest_zeros _ small]

lemma IsText.isDecimal : IsDecimal t := by
  obtain ⟨digits, count, -, spells, -⟩ := text
  exact spells.isDecimal

end

lemma isDigit_digitChars (d : Decimal) : ∀ c ∈ d.digitChars, c.isDigit = true := by
  intro c mem
  exact isDigit_of_mem_toDigits (by decide) (by decide) mem

lemma isDigit_zeros (count : Nat) : ∀ c ∈ zeros count, c.isDigit = true := by
  intro c mem
  rw [eq_of_mem_replicate mem]
  rfl

lemma ofDigitChars_digitChars (d : Decimal) : ofDigitChars 10 d.digitChars 0 = d.digits :=
  ofDigitChars_ten_toDigits

lemma positional_isText {d : Decimal} (short : d.point ≤ 21) :
    d.IsText d.positional ∧ 'e' ∉ d.positional := by
  have point : d.point = d.exponent + d.digitChars.length := rfl
  have length : 0 < d.digitChars.length := length_toDigits_pos
  have none : DenotesExponent [] 0 := .inl ⟨rfl, rfl⟩
  have unmarked {t : List Char} (digits : ∀ c ∈ t, c.isDigit = true) : 'e' ∉ t := fun mem => by
    cases digits 'e' mem
  have zeros' (count : Nat) := unmarked (isDigit_zeros count)
  have digits' := unmarked d.isDigit_digitChars
  rw [positional]
  split
  next small =>
    -- zeros before the digits
    refine ⟨⟨'0' :: (zeros (-d.point).toNat ++ d.digitChars), 0, by decide,
      ⟨['0'], _, [], 0, by simp,
      forall_mem_append.mpr ⟨isDigit_zeros _, d.isDigit_digitChars⟩, none, rfl, ?_,
        .inr ⟨.inl (by simp), ?_⟩⟩,
      ?_, .inl rfl⟩, by simp [zeros', digits']⟩
    · simp only [zeros, length_append, length_replicate]
      omega
    · simp
    · rw [ofDigitChars_cons, ofDigitChars_append, zeros]
      simpa using d.ofDigitChars_digitChars
  next large =>
    split
    next whole =>
      -- zeros after the digits
      refine ⟨⟨_, d.point.toNat - d.digitChars.length, by omega, ⟨_, [], [], 0,
        forall_mem_append.mpr ⟨d.isDigit_digitChars, isDigit_zeros _⟩, by simp, none,
        (append_nil _).symm, ?_, .inl ⟨rfl, ?_, (append_nil _).symm⟩⟩, ?_, .inr (by omega)⟩,
        by simp [zeros', digits']⟩
      · simp only [length_nil]
        omega
      · intro empty
        simp_all
      · rw [ofDigitChars_append, zeros, ofDigitChars_replicate_zero,
          ofDigitChars_digitChars, mul_comm]
    next mixed =>
      -- the point between the digits
      refine ⟨⟨d.digitChars, 0, by decide, ⟨d.digitChars.take d.point.toNat,
        d.digitChars.drop d.point.toNat, [], 0,
        fun c mem => d.isDigit_digitChars c (mem_of_mem_take mem),
        fun c mem => d.isDigit_digitChars c (mem_of_mem_drop mem), none,
        (take_append_drop ..).symm, ?_, .inr ⟨.inl ?_, by simp⟩⟩, ?_, .inl rfl⟩, ?_⟩
      · rw [length_drop]
        omega
      · rw [← length_pos_iff, length_take]
        omega
      · rw [ofDigitChars_digitChars, pow_zero, mul_one]
      · intro mem
        rcases mem_append.mp mem with first | last
        · exact digits' (mem_of_mem_take first)
        · exact digits' (mem_of_mem_drop (by simpa using last))

lemma scientific_isText (d : Decimal) {plus : List Char} (sign : plus = [] ∨ plus = ['+']) :
    d.IsText (d.scientific plus) ∧ 'e' ∈ d.scientific plus := by
  have point : d.point = d.exponent + d.digitChars.length := rfl
  have exponent :
      DenotesExponent ('e' :: (if d.point - 1 < 0 then '-' :: toDigits 10 (d.point - 1).natAbs
      else plus ++ toDigits 10 (d.point - 1).natAbs)) (d.point - 1) := by
    refine .inr ⟨'e', by simp, if d.point - 1 < 0 then ['-'] else plus, ?_,
      toDigits 10 (d.point - 1).natAbs,
      toDigits_ne_nil, fun c => isDigit_of_mem_toDigits (by decide) (by decide), ?_, ?_⟩
    · split <;> rcases sign with rfl | rfl <;> simp [signs]
    · split <;> rfl
    · rw [ofDigitChars_ten_toDigits]
      split
      · rw [if_pos rfl]
        omega
      · rw [if_neg (by rcases sign with rfl | rfl <;> decide)]
        omega
  refine ⟨⟨d.digitChars, 0, by decide, ?_, ?_, .inl rfl⟩, by simp [scientific]⟩
  · have digits := d.isDigit_digitChars
    have filled : d.digitChars ≠ [] := toDigits_ne_nil
    rw [scientific]
    generalize d.digitChars = chars at *
    rcases chars with _ | ⟨first, _ | ⟨second, rest⟩⟩
    · exact absurd rfl filled
    · refine ⟨[first], [], _, _, digits, by simp, exponent, rfl, ?_, .inl ⟨rfl, by simp, rfl⟩⟩
      simp at point ⊢
      omega
    · refine ⟨[first], second :: rest, _, _, ?_, ?_, exponent, rfl, ?_, .inr ⟨.inl (by simp), rfl⟩⟩
      · simp_all
      · simp_all
      · simp at point ⊢
        omega
  · rw [ofDigitChars_digitChars, pow_zero, mul_one]

end Decimal

namespace Double

open NumericText

def unsigned (x : Float) : Float :=
  if isNegative x then -x else x

lemma beq_zero {x : Float} : (x == 0.0) = true ↔ x.isFinite = true ∧ value x = 0 := by
  have zero : value 0.0 = 0 := value_eq_zero.mpr (.inl rfl)
  rw [beq_iff_value (by decide), zero]

lemma neg_one_mul_neg {x : Float} (finite : x.isFinite = true) (nonzero : value x ≠ 0) :
    -1.0 * -x = x := by
  obtain ⟨finite', negated⟩ := value_neg finite nonzero
  have product := (value_mul_unit finite' (by rwa [negated, neg_ne_zero]) .negative
    (y := -1.0) rfl).2
  rw [negated, factor, neg_mul_neg, mul_one, Double.mul_comm] at product
  exact (value_inj product).resolve_right (by rwa [product])

def scriptLayout (x : Float) : List Char :=
  let d := shortest x .upper
  if -6 < d.point ∧ d.point ≤ 21 then d.positional else d.scientific ['+']

lemma scriptText_finite {x : Float} (finite : x.isFinite = true) (nonzero : value x ≠ 0) :
    scriptText x = String.ofList ((if isNegative x then ['-'] else []) ++ scriptLayout x) := by
  have ordinary : x.isNaN = false ∧ x.isInf = false := by
    change x.toModel.unpack.isFinite = true at finite
    change x.toModel.unpack.isNaN = false ∧ x.toModel.unpack.isInf = false
    generalize x.toModel.unpack = u at *
    cases u with
    | zero | finite => exact ⟨rfl, rfl⟩
    | _ => cases finite
  have other : (x == 0.0) = false := by
    rw [← Bool.not_eq_true, beq_zero]
    exact fun zero => nonzero zero.2
  rw [scriptText, ordinary.1, other, ordinary.2, signed]
  cases isNegative x <;> rfl

lemma scriptLayout_isText (x : Float) : (shortest x .upper).IsText (scriptLayout x) ∧
    ('e' ∈ scriptLayout x ↔ 21 < (shortest x .upper).point ∨ (shortest x .upper).point ≤ -6) := by
  rw [scriptLayout]
  split
  next inside =>
    obtain ⟨text, unmarked⟩ := Decimal.positional_isText inside.2
    exact ⟨text, iff_of_false unmarked (by omega)⟩
  next outside =>
    obtain ⟨text, marked⟩ := (shortest x .upper).scientific_isText (.inr rfl)
    exact ⟨text, iff_of_true marked (by omega)⟩

end Double

namespace NumericText

open Double

lemma value?_unsigned {t : List Char} (unsigned : IsUnsigned t) : value? t = unsigned? t := by
  fun_cases value? t with
  | case1 => cases (unsigned?_isSome []).mpr unsigned
  | case2 rest | case3 rest => exact absurd unsigned (not_isUnsigned_sign (by simp [signs]) rest)
  | case4 mark rest radix marked => exact absurd unsigned (not_isUnsigned_mark marked rest)
  | _ => rfl

lemma toNumber_literal {t : List Char} (literal : IsLiteral t) :
    toNumber (String.ofList t) = (value? t).getD (0.0 / 0.0) := by
  have plain : ∀ c ∈ t, Text.isBlank c = false := by
    intro c mem
    simpa using (Bool.and_eq_true_iff.mp (literal.plain c mem)).2
  rw [toNumber, String.toList_ofList, Text.trimBlanks_eq plain]

lemma toNumber_finite {x : Float} (finite : x.isFinite = true) (nonzero : value x ≠ 0)
    (reads : decimal? ((shortest x .upper).scientific []) = some (unsigned x)) :
    toNumber (scriptText x) = x := by
  have text := (scriptLayout_isText x).1
  have unsigned : IsUnsigned (scriptLayout x) := .inr text.isDecimal
  have read : unsigned? (scriptLayout x) = some (Double.unsigned x) := by
    have finite : scriptLayout x ≠ "Infinity".toList := by
      intro same
      have none := text.read
      rw [same] at none
      cases none
    rw [unsigned?, if_neg finite, if_pos ((isDecimal_iff _).mpr text.isDecimal), text.read, ← reads]
    exact ((shortest x .upper).scientific_isText (.inl rfl)).1.read.symm
  have signed : (if isNegative x then ['-'] else []) ∈ signs := by
    cases isNegative x <;> simp [signs]
  rw [scriptText_finite finite nonzero, toNumber_literal
    (.inr (.inr ⟨_, signed, _, unsigned, rfl⟩))]
  rw [Double.unsigned] at read
  cases negative : isNegative x with
  | true =>
    rw [negative] at read
    change ((unsigned? (scriptLayout x)).map (-1.0 * ·)).getD _ = x
    rw [read]
    exact neg_one_mul_neg finite nonzero
  | false =>
    rw [negative] at read
    change (value? (scriptLayout x)).getD _ = x
    rw [value?_unsigned unsigned, read]
    rfl

/-- A number is written as a literal of its shortest decimal, with an exponent only if that is large
or small. It reads back, if its shortest decimal does, unless it is not-a-number or the negative
zero. -/
theorem scriptText_reads (x : Float) :
    (x.isFinite = true → value x ≠ 0 → ∃ t,
      (scriptText x).toList = (if isNegative x then ['-'] else []) ++ t ∧
      Denotes t (Nat.ofDigitChars 10 (shortest x .upper).digitChars 0 *
        10 ^ ((shortest x .upper).point - (shortest x .upper).digitChars.length)) ∧
      ('e' ∈ t ↔ 21 < (shortest x .upper).point ∨ (shortest x .upper).point ≤ -6) ∧
      IsLiteral (scriptText x).toList) ∧
    (x.isNaN = false → x ≠ -0.0 →
      (x.isFinite = true → value x ≠ 0 →
        decimal? ((shortest x .upper).scientific []) = some (unsigned x)) →
      toNumber (scriptText x) = x) := by
  refine ⟨fun finite nonzero => ?_, fun number positive reads => ?_⟩
  · obtain ⟨text, marked⟩ := scriptLayout_isText x
    have exponent : (shortest x .upper).point - (shortest x .upper).digitChars.length =
        (shortest x .upper).exponent := add_sub_cancel_right ..
    have written := congrArg String.toList (scriptText_finite finite nonzero)
    rw [String.toList_ofList] at written
    refine ⟨scriptLayout x, written, ?_, marked, ?_⟩
    · rw [Decimal.ofDigitChars_digitChars, exponent]
      exact text.denotes
    · rw [written]
      refine .inr (.inr ⟨_, ?_, _, .inr text.isDecimal, rfl⟩)
      cases isNegative x <;> simp [signs]
  · have packed := pack_unpack x
    cases unpacked : x.toModel.unpack with
    | notANumber =>
      change x.toModel.unpack.isNaN = false at number
      rw [unpacked] at number
      cases number
    | infinity s =>
      rw [unpacked] at packed
      rw [← packed]
      cases s <;> decide +kernel
    | zero s =>
      rw [unpacked] at packed
      cases s with
      | negative => exact absurd packed.symm positive
      | positive =>
        rw [← packed]
        decide +kernel
    | finite s m e pos =>
      obtain ⟨canonical, small⟩ := canonical_of_unpack unpacked
      obtain ⟨finite, value⟩ := canonical.value_ofParts small s
      rw [unpacked] at packed
      rw [ofParts, packed] at finite value
      have nonzero : Double.value x ≠ 0 := by
        have power : (2 : ℚ) ^ e ≠ 0 := by positivity
        rw [value]
        cases s <;> simp [factor, pos.ne', power]
      exact toNumber_finite finite nonzero (reads finite nonzero)

theorem thousands_read : (∃ t, (scriptText (-1500.0)).toList = '-' :: t ∧ Denotes t 1500) ∧
    toNumber (scriptText (-1500.0)) = -1500.0 := by
  have value : value (-1500.0) = (-1500 : Int) := value_eq_int.mpr (by decide +kernel)
  have nonzero : Double.value (-1500.0) ≠ 0 := by
    rw [value]
    norm_num
  obtain ⟨written, read⟩ := scriptText_reads (-1500.0)
  refine ⟨?_, read (by decide +kernel) (by decide +kernel) fun _ _ => by decide +kernel⟩
  obtain ⟨t, text, denotes, -⟩ := written (by decide +kernel) nonzero
  have digits : shortest (-1500.0) .upper = ⟨15, 2⟩ := by decide +kernel
  rw [digits] at denotes
  refine ⟨t, text, ?_⟩
  convert denotes using 1
  rw [Decimal.ofDigitChars_digitChars]
  norm_num [Decimal.point, Decimal.digitChars, Nat.toDigits]

end NumericText
end Scriptc
