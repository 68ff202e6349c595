import Scriptc.Proofs.Double.Value
import Scriptc.Proofs.Semantics.Runtime

/-!
# Strings that denote numbers

A string denotes a number exactly if it is a literal between blanks, which are white space and the
next-line control. Digits after the mark of a radix are rounded one by one, so the number need not
be the nearest.
-/

namespace Scriptc

open List Text Double

namespace NumericText

variable {whole t : List Char} {c mark : Char} {radix : Nat}

/-! ## Literals -/

def signs : List (List Char) := [[], ['+'], ['-']]

/-- The marks that follow a leading zero, and the radixes that they stand for. -/
def marks : List (Char × Nat) := [('x', 16), ('X', 16), ('o', 8), ('O', 8), ('b', 2), ('B', 2)]

def IsRadixLiteral (t : List Char) : Prop :=
  ∃ mark radix digits, (mark, radix) ∈ marks ∧ digits ≠ [] ∧
    (∀ c ∈ digits, ∃ d < radix, c = d.digitChar ∨ c = d.digitChar.toUpper) ∧ t =
      '0' :: mark :: digits

def IsExponent (t : List Char) : Prop := t = [] ∨ ∃ mark ∈ ['e', 'E'], ∃ sign ∈ signs, ∃ digits,
    digits ≠ [] ∧ (∀ c ∈ digits, c.isDigit = true) ∧ t = mark :: (sign ++ digits)

/-- Digits, or digits around a point of which there is at least one, with an exponent. -/
def IsDecimal (t : List Char) : Prop :=
  ∃ whole fraction exponent, (∀ c ∈ whole, c.isDigit = true) ∧ (∀ c ∈ fraction, c.isDigit = true) ∧
    IsExponent exponent ∧ (whole ≠ [] ∧ t = whole ++ exponent ∨
      (whole ≠ [] ∨ fraction ≠ []) ∧ t = whole ++ '.' :: (fraction ++ exponent))

def IsUnsigned (t : List Char) : Prop := t = "Infinity".toList ∨ IsDecimal t

/-- What a text without blanks around it must be to denote a number. -/
def IsLiteral (t : List Char) : Prop :=
  t = [] ∨ IsRadixLiteral t ∨ ∃ sign ∈ signs, ∃ body, IsUnsigned body ∧ t = sign ++ body

/-! ## Decimal literals -/

lemma span_digits {tail : List Char} (digits : ∀ c ∈ whole, c.isDigit = true)
    (stop : ∀ c ∈ tail.head?, c.isDigit = false) :
    (whole ++ tail).takeWhile Char.isDigit = whole ∧
      (whole ++ tail).dropWhile Char.isDigit = tail := by
  rw [takeWhile_append_of_pos digits, dropWhile_append_of_pos digits]
  cases tail with
  | nil => simp
  | cons c rest => simp [stop c rfl]

lemma IsExponent.isSome (exponent : IsExponent t) : (exponentPart? t).isSome = true := by
  rcases exponent with rfl | ⟨mark, marked, sign, mem, digits, some, all, rfl⟩
  · rfl
  · have named : mark = 'e' ∨ mark = 'E' := by simpa using marked
    have kept : ¬(digits.isEmpty = true ∨ ¬digits.all Char.isDigit = true) := by simp_all
    obtain rfl | rfl | rfl : sign = [] ∨ sign = ['+'] ∨ sign = ['-'] := by simpa [signs] using mem
    · obtain ⟨d, rest, rfl⟩ := exists_cons_of_ne_nil some
      have digit : d.isDigit = true := all d mem_cons_self
      have unsigned : d ≠ '-' ∧ d ≠ '+' := by constructor <;> rintro rfl <;> cases digit
      simp_all [exponentPart?]
    · simp_all [exponentPart?]
    · simp_all [exponentPart?]

lemma IsExponent.head (exponent : IsExponent t) : ∀ c ∈ t.head?, c.isDigit = false ∧ c ≠ '.' := by
  rcases exponent with rfl | ⟨mark, mem, sign, -, digits, -, -, rfl⟩
  · simp
  · intro c first
    cases first
    revert mem
    simp only [mem_cons, not_mem_nil, or_false]
    rintro (rfl | rfl) <;> decide

lemma decimal?_whole {exponent : List Char} (digits : ∀ c ∈ whole, c.isDigit = true)
    (isExponent : IsExponent exponent) (some : whole ≠ []) :
    decimal? (whole ++ exponent) = (exponentPart? exponent).map (nearest (decimalValue whole)) := by
  obtain ⟨first, rest⟩ := span_digits digits fun c mem => (isExponent.head c mem).1
  have bare : ∀ rest, exponent ≠ '.' :: rest := by
    rintro rest rfl
    exact (isExponent.head '.' rfl).2 rfl
  rw [decimal?, first, rest]
  simp_all

lemma decimal?_pointed {fraction exponent : List Char} (digits : ∀ c ∈ whole, c.isDigit = true)
    (digits' : ∀ c ∈ fraction, c.isDigit = true) (isExponent : IsExponent exponent)
    (some : whole ≠ [] ∨ fraction ≠ []) : decimal? (whole ++ '.' :: (fraction ++ exponent)) =
      (exponentPart? exponent).map fun e => nearest (decimalValue (whole ++ fraction))
        (e - fraction.length) := by
  have last := span_digits digits' fun c mem => (isExponent.head c mem).1
  obtain ⟨first, rest⟩ := @span_digits whole ('.' :: (fraction ++ exponent)) digits (by simp)
  rw [decimal?, first, rest]
  simp only [last.1, last.2]
  simp_all [or_iff_not_imp_left]

lemma IsDecimal.isSome (decimal : IsDecimal t) : (decimal? t).isSome = true := by
  obtain ⟨whole, fraction, exponent, digits, digits', isExponent, ⟨some, rfl⟩ | ⟨some, rfl⟩⟩ :=
    decimal
  · rw [decimal?_whole digits isExponent some, Option.isSome_map]
    exact isExponent.isSome
  · rw [decimal?_pointed digits digits' isExponent some, Option.isSome_map]
    exact isExponent.isSome

/-! ## The check of decimal literals -/

namespace Scan

/-- Digits that may have a point before, between or after them, with what a scan notes of them. -/
def Mantissa (point digit : Bool) (t : List Char) : Prop :=
  ∃ whole fraction : List Char, (∀ c ∈ whole ++ fraction, c.isDigit = true) ∧
    (digit = true ↔ whole ++ fraction ≠ []) ∧
      t = whole ++ if point then '.' :: fraction else fraction

/-- What a scan has seen: a mantissa, or one with the start of an exponent. A sign may follow only
if the mark of the exponent was the last character. -/
inductive Seen : Scan → List Char → Prop where
  | mantissa {point digit : Bool} {last : Char} {t : List Char}
      (mantissa : Mantissa point digit t) (other : last ∉ ['e', 'E']) :
      Seen ⟨digit, point, false, 0, last⟩ t
  | exponent {point : Bool} {last mark : Char} {t sign digits : List Char}
      (mantissa : Mantissa point true t) (marked : mark ∈ ['e', 'E']) (signed : sign ∈ signs)
      (all : ∀ c ∈ digits, c.isDigit = true) (fresh : last ∈ ['e', 'E'] → sign = [] ∧ digits = []) :
      Seen ⟨true, point, true, digits.length, last⟩ (t ++ mark :: (sign ++ digits))

variable {point digit : Bool} {last : Char}

lemma Mantissa.snoc (mantissa : Mantissa point digit t) (next : c.isDigit = true) :
    Mantissa point true (t ++ [c]) := by
  obtain ⟨whole, fraction, all, -, rfl⟩ := mantissa
  refine ⟨whole, fraction ++ [c], ?_, by simp, by cases point <;> simp⟩
  rw [← append_assoc, forall_mem_append]
  exact ⟨all, by simpa using next⟩

lemma Mantissa.pointed (mantissa : Mantissa false digit t) : Mantissa true digit (t ++ ['.']) := by
  obtain ⟨whole, fraction, all, some, rfl⟩ := mantissa
  exact ⟨whole ++ fraction, [], by simpa using all, by simpa using some, by simp⟩

lemma Mantissa.isDecimal (mantissa : Mantissa point true t) {exponent : List Char}
    (isExponent : IsExponent exponent) : IsDecimal (t ++ exponent) := by
  obtain ⟨whole, fraction, all, some, rfl⟩ := mantissa
  have some := some.mp rfl
  cases point with
  | false => exact ⟨whole ++ fraction, [], _, all, by simp, isExponent, .inl ⟨some, by simp⟩⟩
  | true =>
    obtain ⟨before, after⟩ := forall_mem_append.mp all
    refine ⟨whole, fraction, _, before, after, isExponent, .inr ⟨?_, by simp⟩⟩
    simpa [or_iff_not_imp_left] using some

lemma not_mark_of_isDigit (next : c.isDigit = true) : c ∉ ['e', 'E'] := by
  intro mark
  obtain rfl | rfl : c = 'e' ∨ c = 'E' := by simpa using mark
  all_goals cases next

/-- One step keeps what a scan says of the characters seen. -/
lemma Seen.step {s s' : Scan} (seen : Seen s t) (next : s.step c = some s') :
    Seen s' (t ++ [c]) := by
  unfold Scan.step at next
  cases seen with
  | @mantissa point digit last t mantissa other =>
    simp only [Bool.false_eq_true, if_false, Bool.not_false, and_true] at next
    split_ifs at next with isDigit isPoint isMark isSign
    all_goals cases next
    · exact .mantissa (mantissa.snoc isDigit) (not_mark_of_isDigit isDigit)
    · obtain ⟨rfl, first⟩ := isPoint
      obtain rfl : point = false := by simpa using first
      exact .mantissa mantissa.pointed (by decide)
    · obtain ⟨marked, rfl⟩ := isMark
      exact @exponent _ _ _ _ [] [] mantissa (by simpa using marked) (by simp [signs]) (by simp)
        fun _ => ⟨rfl, rfl⟩
    · exact absurd (by simpa using isSign.2) other
  | @exponent point last mark t sign digits mantissa marked signed all fresh =>
    simp only [if_true, Bool.not_true, Bool.false_eq_true, and_false, if_false] at next
    split_ifs at next with isDigit isSign
    all_goals cases next
    · have longer : ∀ d ∈ digits ++ [c], d.isDigit = true :=
        forall_mem_append.mpr ⟨all, by simpa using isDigit⟩
      have whole := @exponent _ c _ _ _ _ mantissa marked signed longer
        fun mark => absurd mark (not_mark_of_isDigit isDigit)
      simpa using whole
    · obtain ⟨rfl, rfl⟩ := fresh (by simpa using isSign.2)
      have signed : [c] ∈ signs := by simpa [signs] using isSign.1
      have whole := @exponent _ c _ _ _ _ mantissa marked signed all fun mark => by
        obtain ⟨rfl | rfl, -⟩ := isSign <;> simp at mark
      simpa using whole

lemma Seen.run {s : Scan} (run : t.foldlM Scan.step {} = some s) : Seen s t := by
  induction t using reverseRecOn generalizing s with
  | nil =>
    cases run
    exact .mantissa ⟨[], [], by simp, by simp, rfl⟩ (by decide)
  | append_singleton t c ih =>
    rw [foldlM_append] at run
    obtain ⟨before, first, later⟩ := Option.bind_eq_some_iff.mp run
    exact (ih first).step (by simpa using later)

lemma run_digits {digits : List Char} (all : ∀ c ∈ digits, c.isDigit = true) :
    ∃ last', digits.foldlM Scan.step ⟨digit, point, false, 0, last⟩ =
      some ⟨digit || !digits.isEmpty, point, false, 0, last'⟩ := by
  induction digits generalizing digit last with
  | nil => exact ⟨last, by simp⟩
  | cons c rest ih =>
    obtain ⟨first, later⟩ := forall_mem_cons.mp all
    obtain ⟨last', run⟩ := @ih true c later
    exact ⟨last', by simpa [Scan.step, first] using run⟩

lemma run_exponentDigits {digits : List Char} (all : ∀ c ∈ digits, c.isDigit = true) (count : Nat) :
    ∃ last', digits.foldlM Scan.step ⟨true, point, true, count, last⟩ =
      some ⟨true, point, true, count + digits.length, last'⟩ := by
  induction digits generalizing count last with
  | nil => exact ⟨last, rfl⟩
  | cons c rest ih =>
    obtain ⟨first, later⟩ := forall_mem_cons.mp all
    obtain ⟨last', run⟩ := @ih c later (count + 1)
    exact ⟨last', by simpa [Scan.step, first, Nat.add_right_comm, ← Nat.add_assoc] using run⟩

lemma accepts_exponent {exponent : List Char} (isExponent : IsExponent exponent) :
    (exponent.foldlM Scan.step ⟨true, point, false, 0, last⟩).any Scan.accepts = true := by
  rcases isExponent with rfl | ⟨mark, marked, sign, mem, digits, some, all, rfl⟩
  · rfl
  · obtain ⟨last', run⟩ := @run_exponentDigits point (sign.getLast?.getD mark) digits all 0
    have filled : digits.length ≠ 0 := by simpa using some
    obtain rfl | rfl : mark = 'e' ∨ mark = 'E' := by simpa using marked
    all_goals
      obtain rfl | rfl | rfl : sign = [] ∨ sign = ['+'] ∨ sign = ['-'] := by
        simpa [signs] using mem
    all_goals
      simp only [getLast?_nil, getLast?_singleton, Option.getD] at run
      simp [Scan.step, run, Scan.accepts, filled]

end Scan

/-- The check accepts exactly the decimal literals. -/
lemma isDecimal_iff (t : List Char) : isDecimal t = true ↔ IsDecimal t := by
  rw [isDecimal, Option.any_eq_true]
  constructor
  · rintro ⟨s, run, accepts⟩
    cases Scan.Seen.run run with
    | mantissa mantissa =>
      obtain rfl : _ = true := by simpa [Scan.accepts] using accepts
      simpa using mantissa.isDecimal (.inl rfl)
    | @exponent _ _ _ _ _ digits mantissa marked signed all =>
      have some : digits ≠ [] := by simpa [Scan.accepts] using accepts
      exact mantissa.isDecimal (.inr ⟨_, marked, _, signed, _, some, all, rfl⟩)
  · rw [← Option.any_eq_true]
    rintro ⟨whole, fraction, exponent, digits, digits', isExponent, ⟨some, rfl⟩ | ⟨some, rfl⟩⟩
    · obtain ⟨last, run⟩ := @Scan.run_digits false false ' ' whole digits
      have filled : whole.isEmpty = false := by simpa using some
      rw [foldlM_append, run, filled]
      exact Scan.accepts_exponent isExponent
    · obtain ⟨last, run⟩ := @Scan.run_digits false false ' ' whole digits
      obtain ⟨last', run'⟩ := @Scan.run_digits true (!whole.isEmpty) '.' fraction digits'
      have filled : (!whole.isEmpty || !fraction.isEmpty) = true := by simpa using some
      have step : Scan.step ⟨!whole.isEmpty, false, false, 0, last⟩ '.' =
        Option.some ⟨!whole.isEmpty, true, false, 0, '.'⟩ := rfl
      rw [foldlM_append, run, Bool.false_or, Option.bind_eq_bind, Option.bind_some, foldlM_cons,
        step, Option.bind_eq_bind, Option.bind_some, foldlM_append, run', filled]
      exact Scan.accepts_exponent isExponent

lemma unsigned?_isSome (t : List Char) : (unsigned? t).isSome = true ↔ IsUnsigned t := by
  rw [unsigned?, IsUnsigned]
  split
  next same => simp [same]
  next other =>
    rw [or_iff_right other, ← isDecimal_iff]
    split
    next accepted => simpa [accepted] using ((isDecimal_iff t).mp accepted).isSome
    next refused => simp [refused]

/-! ## Radix literals -/

lemma digitValue?_digitChar : ∀ d < 16,
    digitValue? d.digitChar = some d ∧ digitValue? d.digitChar.toUpper = some d := by
  decide

lemma digitChar_of_digitValue? {d : Nat} (digit : digitValue? c = some d) :
    d < 16 ∧ (c = d.digitChar ∨ c = d.digitChar.toUpper) := by
  have code : c = Char.ofNat c.toNat := c.ofNat_toNat.symm
  unfold digitValue? at digit
  split_ifs at digit with decimal lower upper
  all_goals cases digit
  · have low : 48 ≤ c.toNat := decimal.1
    have high : c.toNat ≤ 57 := decimal.2
    generalize c.toNat = n at *
    interval_cases n <;> subst code <;> decide
  · have low : 97 ≤ c.toNat := lower.1
    have high : c.toNat ≤ 102 := lower.2
    generalize c.toNat = n at *
    interval_cases n <;> subst code <;> decide
  · have low : 65 ≤ c.toNat := upper.1
    have high : c.toNat ≤ 70 := upper.2
    generalize c.toNat = n at *
    interval_cases n <;> subst code <;> decide

lemma digitIn?_isSome (small : radix ≤ 16) (c : Char) :
    (digitIn? radix c).isSome = true ↔ ∃ d < radix, c = d.digitChar ∨ c = d.digitChar.toUpper := by
  have value : (digitIn? radix c).isSome = true ↔ ∃ d < radix, digitValue? c = some d := by
    simp [digitIn?, Option.isSome_filter, Option.any_eq_true, and_comm]
  rw [value]
  refine exists_congr fun d => and_congr_right fun below => ⟨fun digit => ?_, ?_⟩
  · exact (digitChar_of_digitValue? digit).2
  · rintro (rfl | rfl)
    · exact (digitValue?_digitChar d (by omega)).1
    · exact (digitValue?_digitChar d (by omega)).2

lemma continueDigits_isSome (radix : Nat) (value : Float) (digits : List Char) :
    (continueDigits radix value digits).isSome = true ↔ ∀ c ∈ digits,
      (digitIn? radix c).isSome = true := by
  induction digits generalizing value with
  | nil => simp [continueDigits]
  | cons c rest ih =>
    rw [continueDigits]
    cases found : digitIn? radix c with
    | none => simp [found]
    | some d => simp [found, ih]

lemma radixOfMark?_eq_some : radixOfMark? mark = some radix ↔ (mark, radix) ∈ marks := by
  unfold radixOfMark?
  split <;> simp_all [marks, eq_comm]

lemma radixValue?_isSome (marked : radixOfMark? mark = some radix) (digits : List Char) :
    (radixValue? radix digits).isSome = true ↔ IsRadixLiteral ('0' :: mark :: digits) := by
  have small : radix ≤ 16 := by
    unfold radixOfMark? at marked
    split at marked <;> simp_all <;> omega
  have value : (radixValue? radix digits).isSome = true ↔
      digits ≠ [] ∧ ∀ c ∈ digits, (digitIn? radix c).isSome = true := by
    cases digits <;> simp [radixValue?, continueDigits_isSome]
  simp only [value, digitIn?_isSome small, IsRadixLiteral]
  constructor
  · rintro ⟨some, all⟩
    exact ⟨mark, radix, digits, radixOfMark?_eq_some.mp marked, some, all, rfl⟩
  · rintro ⟨_, _, _, mem, some, all, same⟩
    cases same
    cases marked.symm.trans (radixOfMark?_eq_some.mpr mem)
    exact ⟨some, all⟩

/-! ## All literals -/

lemma not_isUnsigned_sign {sign : Char} (mem : [sign] ∈ signs) (rest : List Char) :
    ¬IsUnsigned (sign :: rest) := by
  obtain rfl | rfl : sign = '+' ∨ sign = '-' := by simpa [signs] using mem
  all_goals simp [IsUnsigned, ← isDecimal_iff, isDecimal, Scan.step]

lemma not_isUnsigned_mark (marked : radixOfMark? mark = some radix) (rest : List Char) :
    ¬IsUnsigned ('0' :: mark :: rest) := by
  unfold radixOfMark? at marked
  split at marked
  all_goals simp_all [IsUnsigned, ← isDecimal_iff, isDecimal, Scan.step]

lemma isLiteral_signed {sign : Char} (mem : [sign] ∈ signs) (rest : List Char) :
    IsLiteral (sign :: rest) ↔ IsUnsigned rest := by
  constructor
  · rintro (empty | ⟨mark, radix, digits, -, -, -, same⟩ | ⟨sign', member', body, unsigned, same⟩)
    · cases empty
    · cases same
      simp [signs] at mem
    · obtain rfl | rfl | rfl : sign' = [] ∨ sign' = ['+'] ∨ sign' = ['-'] := by
        simpa [signs] using member'
      · cases same
        exact absurd unsigned (not_isUnsigned_sign mem rest)
      all_goals cases same; exact unsigned
  · exact fun unsigned => .inr (.inr ⟨_, mem, rest, unsigned, rfl⟩)

lemma isLiteral_unsigned (some : t ≠ []) (unsigned : ∀ sign rest, [sign] ∈ signs →
    t ≠ sign :: rest) : IsLiteral t ↔ IsRadixLiteral t ∨ IsUnsigned t := by
  rw [IsLiteral, or_iff_right some]
  refine or_congr_right ⟨?_, fun whole => ⟨[], by simp [signs], t, whole, rfl⟩⟩
  rintro ⟨sign, mem, body, whole, rfl⟩
  cases sign with
  | nil => exact whole
  | cons c rest =>
    obtain rfl : rest = [] := by simp_all [signs]
    exact absurd rfl (unsigned c body mem)

lemma value?_isSome (t : List Char) : (value? t).isSome = true ↔ IsLiteral t := by
  have unsigned_zero (tail : List Char) : ∀ sign rest, [sign] ∈ signs →
      '0' :: tail ≠ sign :: rest := by
    rintro _ _ mem ⟨⟩
    simp [signs] at mem
  fun_cases value? t with
  | case1 => simp [IsLiteral]
  | case2 rest => rw [isLiteral_signed (by simp [signs]), unsigned?_isSome]
  | case3 rest => rw [isLiteral_signed (by simp [signs]), Option.isSome_map, unsigned?_isSome]
  | case4 mark rest radix marked =>
    rw [isLiteral_unsigned (by simp) (unsigned_zero _), radixValue?_isSome marked,
      or_iff_left (not_isUnsigned_mark marked rest)]
  | case5 mark rest unmarked =>
    rw [isLiteral_unsigned (by simp) (unsigned_zero _), unsigned?_isSome, or_iff_right]
    rintro ⟨_, radix, _, mem, -, -, ⟨⟩⟩
    cases unmarked.symm.trans (radixOfMark?_eq_some.mpr mem)
  | case6 t filled plus minus marked =>
    rw [isLiteral_unsigned filled, unsigned?_isSome, or_iff_right]
    · rintro ⟨mark, radix, digits, -, -, -, same⟩
      exact marked _ _ same
    · intro sign rest mem same
      obtain rfl | rfl : sign = '+' ∨ sign = '-' := by simpa [signs] using mem
      · exact plus rest same
      · exact minus rest same

/-! ## Numbers -/

lemma isNaN_nearest (significand : Nat) (exponent : Int) :
    (nearest significand exponent).isNaN = false := by
  unfold nearest
  dsimp only
  split
  · decide
  · split
    · decide
    · split <;> exact isNaN_ofScientific ..

lemma isNaN_of_unsigned? {x : Float} (read : unsigned? t = some x) : x.isNaN = false := by
  revert read
  unfold unsigned?
  split
  · rintro ⟨⟩
    decide
  · split
    · fun_cases decimal? t with
      | case1 => nofun
      | case2 =>
        rintro read
        obtain ⟨exponent, -, rfl⟩ := Option.map_eq_some_iff.mp read
        exact isNaN_nearest ..
    · nofun

lemma isNaN_of_continueDigits (marked : radixOfMark? mark = some radix) {digits : List Char}
    {value x : Float} (number : value.isNaN = false)
    (read : continueDigits radix value digits = some x) : x.isNaN = false := by
  have regular : isRegular (Float.ofNat radix) = true ∧ radix ≤ 16 := by
    unfold radixOfMark? at marked
    split at marked <;> cases marked <;> decide +kernel
  have finite : ∀ d < 16, (Float.ofNat d).isFinite = true := by decide +kernel
  induction digits generalizing value with
  | nil =>
    cases read
    exact number
  | cons c rest ih =>
    rw [continueDigits] at read
    split at read
    next digit found =>
      have below : digit < radix := by simpa using (Option.filter_eq_some_iff.mp found).2
      exact ih (isNaN_add (isNaN_mul_div number regular.1).1 (finite digit (by omega))) read
    next => cases read

lemma isNaN_of_value? {x : Float} (read : value? t = some x) : x.isNaN = false := by
  revert read
  fun_cases value? t with
  | case1 =>
    rintro ⟨⟩
    decide
  | case2 rest => exact isNaN_of_unsigned?
  | case3 rest =>
    intro read
    obtain ⟨y, number, rfl⟩ := Option.map_eq_some_iff.mp read
    rw [Double.mul_comm]
    exact (isNaN_mul_div (isNaN_of_unsigned? number) (by decide +kernel)).1
  | case4 mark rest radix marked =>
    intro read
    rw [radixValue?] at read
    split at read
    · cases read
    · exact isNaN_of_continueDigits marked (by decide) read
  | case5 | case6 => exact isNaN_of_unsigned?

lemma isNaN_toNumber (s : String) :
    (toNumber s).isNaN = false ↔ IsLiteral (trimBlanks s.toList) := by
  rw [toNumber, ← value?_isSome]
  cases read : value? (trimBlanks s.toList) with
  | none => decide
  | some x => exact iff_of_true (isNaN_of_value? read) rfl

end NumericText

namespace Text

lemma trimBlanks_spec (chars : List Char) : ∃ before after,
    chars = before ++ (trimBlanks chars ++ after) ∧ (∀ c ∈ before, isBlank c = true) ∧
      (∀ c ∈ after, isBlank c = true) ∧ (∀ c ∈ (trimBlanks chars).head?, isBlank c = false) ∧
        ∀ c ∈ (trimBlanks chars).getLast?, isBlank c = false := by
  have blanks (t : List Char) : ∀ c ∈ t.takeWhile isBlank, isBlank c = true :=
    fun _ mem => mem_takeWhile_imp mem
  have stops (t : List Char) : ∀ c ∈ (t.dropWhile isBlank).head?, isBlank c = false := by
    intro c first
    have stop := head?_dropWhile_not isBlank t
    rwa [first] at stop
  have kept : chars.dropWhile isBlank =
      trimBlanks chars ++ ((chars.dropWhile isBlank).reverse.takeWhile isBlank).reverse := by
    rw [trimBlanks, ← reverse_append, takeWhile_append_dropWhile, reverse_reverse]
  refine ⟨_, _, (by rw [← kept, takeWhile_append_dropWhile] : chars = chars.takeWhile isBlank ++ _),
    blanks chars, ?_, fun c first => stops chars c ?_, fun c last => ?_⟩
  · intro c mem
    exact blanks _ c (mem_reverse.mp mem)
  · rw [kept, head?_append, first]
    rfl
  · rw [trimBlanks, getLast?_reverse] at last
    exact stops _ c last

lemma trimBlanks_cons (blank : isBlank c = true) (chars : List Char) :
    trimBlanks (c :: chars) = trimBlanks chars := by
  simp [trimBlanks, blank]

lemma trimBlanks_concat (blank : isBlank c = true) (chars : List Char) :
    trimBlanks (chars ++ [c]) = trimBlanks chars := by
  rw [trimBlanks, trimBlanks, dropWhile_append]
  split
  next none => simp [isEmpty_iff.mp none, blank]
  next => simp [blank]

lemma mem_trimBlanks (other : isBlank c = false) {chars : List Char} (mem : c ∈ chars) :
    c ∈ trimBlanks chars := by
  obtain ⟨before, after, whole, first, last, -⟩ := trimBlanks_spec chars
  rw [whole, mem_append, mem_append] at mem
  rcases mem with inside | inside | inside
  · simp [first c inside] at other
  · exact inside
  · simp [last c inside] at other

lemma trimBlanks_eq {chars : List Char} (plain : ∀ c ∈ chars, isBlank c = false) :
    trimBlanks chars = chars := by
  have kept {t : List Char} (inside : ∀ c ∈ t, c ∈ chars) : t.dropWhile isBlank = t := by
    cases t with
    | nil => rfl
    | cons c t => simp [plain c (inside c mem_cons_self)]
  rw [trimBlanks, kept fun _ => id, kept fun _ => mem_reverse.mp, reverse_reverse]

def isSpaceSeparator (c : Char) : Bool :=
  c.toNat ∈ [0x20, 0xA0, 0x1680, 0x202F, 0x205F, 0x3000] || (0x2000 ≤ c.toNat && c.toNat ≤ 0x200A)

def isScriptSpace (c : Char) : Bool :=
  c.toNat ∈ [0x9, 0xB, 0xC, 0x20, 0xA0, 0xFEFF, 0xA, 0xD, 0x2028, 0x2029] || isSpaceSeparator c

lemma isBlank_iff (c : Char) : isBlank c = true ↔ isScriptSpace c = true ∨ c.toNat = 0x85 := by
  unfold isBlank isScriptSpace isSpaceSeparator
  generalize c.toNat = n
  split <;> simp_all

end Text

namespace NumericText

/-- A string denotes a number exactly if it is a literal between blanks. The check of decimal
literals alone accepts exactly their grammar, so what reads their value meets no other text. -/
theorem toNumber_isNumber (s : String) : (∀ t, isDecimal t = true ↔ IsDecimal t) ∧
    ∃ before t after, s.toList = before ++ (t ++ after) ∧ (∀ c ∈ before, isBlank c = true) ∧
      (∀ c ∈ after, isBlank c = true) ∧ (∀ c ∈ t.head?, isBlank c = false) ∧
        (∀ c ∈ t.getLast?, isBlank c = false) ∧
          ((toNumber s).isNaN = false ↔ IsLiteral t) := by
  obtain ⟨before, after, whole, first, last, start, stop⟩ := trimBlanks_spec s.toList
  exact ⟨isDecimal_iff, before, _, after, whole, first, last, start, stop, isNaN_toNumber s⟩

def isPlain (c : Char) : Bool := c.toNat < 128 && !isBlank c

lemma IsLiteral.plain (literal : IsLiteral t) : ∀ c ∈ t, isPlain c = true := by
  have decimal {t : List Char} (digits : ∀ c ∈ t, c.isDigit = true) :
      ∀ c ∈ t, isPlain c = true := by
    intro c mem
    obtain ⟨low, high⟩ : 48 ≤ c.toNat ∧ c.toNat ≤ 57 := Char.isDigit_iff_toNat.mp (digits c mem)
    rw [isPlain, isBlank]
    generalize c.toNat = n at *
    interval_cases n <;> rfl
  have ofSign : ∀ t ∈ signs, ∀ c ∈ t, isPlain c = true := by simp [signs, isPlain, isBlank]
  have ofMark : ∀ m ∈ marks, isPlain m.1 = true ∧ m.2 ≤ 16 := by decide
  have ofDigit : ∀ d < 16, isPlain d.digitChar = true ∧ isPlain d.digitChar.toUpper =
    true := by decide
  have ofExponent {t : List Char} (exponent : IsExponent t) : ∀ c ∈ t, isPlain c = true := by
    rcases exponent with rfl | ⟨mark, marked, sign, mem, digits, -, all, rfl⟩
    · simp
    · have first := all_eq_true.mp (by decide : ['e', 'E'].all isPlain = true) mark marked
      have rest := forall_mem_append.mpr ⟨ofSign sign mem, decimal all⟩
      exact forall_mem_cons.mpr ⟨first, rest⟩
  rcases literal with rfl | ⟨mark, radix, digits, marked, -, all, rfl⟩ | ⟨sign, mem, body,
    unsigned, rfl⟩
  · simp
  · obtain ⟨first, small⟩ := ofMark _ marked
    have rest : ∀ c ∈ digits, isPlain c = true := by
      intro c mem
      obtain ⟨d, below, rfl | rfl⟩ := all c mem
      · exact (ofDigit d (by omega)).1
      · exact (ofDigit d (by omega)).2
    exact forall_mem_cons.mpr ⟨by decide, forall_mem_cons.mpr ⟨first, rest⟩⟩
  · refine forall_mem_append.mpr ⟨ofSign sign mem, ?_⟩
    rcases unsigned with rfl | ⟨whole, fraction, exponent, digits, digits', isExponent,
      ⟨-, rfl⟩ | ⟨-, rfl⟩⟩
    · exact all_eq_true.mp (by decide)
    · exact forall_mem_append.mpr ⟨decimal digits, ofExponent isExponent⟩
    · have tail := forall_mem_append.mpr ⟨decimal digits', ofExponent isExponent⟩
      exact forall_mem_append.mpr ⟨decimal digits, forall_mem_cons.mpr ⟨by decide, tail⟩⟩

/-- White space and the next-line control around a string do not change the number that it denotes,
and any other character that is in no literal, before or after it, makes it not a number. -/
theorem toNumber_trims (s : String) (c : Char) : (isScriptSpace c = true ∨ c.toNat = 0x85 →
      toNumber (String.singleton c ++ s) = toNumber s ∧ toNumber (s.push c) = toNumber s) ∧
    (isScriptSpace c = false ∧ c.toNat ≠ 0x85 → (∀ t, IsLiteral t → c ∉ t) →
      (toNumber (String.singleton c ++ s)).isNaN = true ∧ (toNumber (s.push c)).isNaN = true) := by
  have around : (String.singleton c ++ s).toList = c :: s.toList ∧ (s.push c).toList =
      s.toList ++ [c] := by
    simp
  refine ⟨fun blank => ?_, fun other never => ?_⟩
  · have blank := (isBlank_iff c).mpr blank
    rw [toNumber, toNumber, toNumber, around.1, around.2, trimBlanks_cons blank,
      trimBlanks_concat blank]
    exact ⟨rfl, rfl⟩
  · have other : isBlank c = false := by
      rw [← Bool.not_eq_true, isBlank_iff]
      simpa using other
    have outside {s : String} (member : c ∈ s.toList) : (toNumber s).isNaN = true := by
      rw [← Bool.not_eq_false, isNaN_toNumber]
      exact fun literal => never _ literal (mem_trimBlanks other member)
    exact ⟨outside (by simp [around.1]), outside (by simp [around.2])⟩

theorem toNumber_trims_five : toNumber " 5" = toNumber "5" ∧ (toNumber "5é").isNaN = true := by
  have foreign (t : List Char) (literal : IsLiteral t) : 'é' ∉ t :=
    fun member => absurd (literal.plain _ member) (by decide)
  exact ⟨((toNumber_trims "5" ' ').1 (by decide)).1,
    ((toNumber_trims "5" 'é').2 (by decide) foreign).2⟩

/-- The next-line control is skipped although it is neither white space nor in a literal. -/
theorem toNumber_nextLine : (toNumber "\u00855").isNaN = false ∧ isScriptSpace '\u0085' = false ∧
    ∀ t, IsLiteral t → '\u0085' ∉ t := by
  refine ⟨by decide +kernel, by decide, fun t literal member => ?_⟩
  exact absurd (literal.plain _ member) (by decide)

/-! ## Rounding -/

/-- Rounding after each digit gives another double than the nearest one. -/
theorem toNumber_rounds_twice :
    |value (Float.ofNat 0x200000000000011) - 0x200000000000011| <
      |value (toNumber "0x200000000000011") - 0x200000000000011| := by
  have nearest : value (Float.ofNat 0x200000000000011) = (2 ^ 57 + 32 : Int) :=
    value_eq_int.mpr (by decide +kernel)
  have read : value (toNumber "0x200000000000011") = (2 ^ 57 : Int) :=
    value_eq_int.mpr (by decide +kernel)
  rw [nearest, read]
  norm_num

end NumericText
end Scriptc
