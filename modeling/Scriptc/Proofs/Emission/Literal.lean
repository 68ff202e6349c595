import Mathlib.Data.List.Basic
import Scriptc.Emission.StringTable

/-!
# Reading string literals back

A reader of C replaces trigraphs, takes the escapes of each literal for bytes, and joins literals
that follow each other. What is written for a buffer of bytes reads as that buffer.
-/

namespace Scriptc

open List

namespace Literal

variable {text rest : List Char}

def trigraph? (c : Char) : Option Char :=
  ("=/'()!<>-".toList.zip "#\\^[]|\x7b\x7d~".toList).lookup c

def replaceTrigraphs : List Char → List Char
  | '?' :: '?' :: c :: rest =>
    match trigraph? c with
    | some meant => meant :: replaceTrigraphs rest
    | none => '?' :: replaceTrigraphs ('?' :: c :: rest)
  | c :: rest => c :: replaceTrigraphs rest
  | [] => []

def simpleEscape? (c : Char) : Option UInt8 :=
  ("'\"?\\abfnrtv".toList.zip [39, 34, 63, 92, 7, 8, 12, 10, 13, 9, 11]).lookup c

def isOctalDigit (c : Char) : Bool := '0'.toNat ≤ c.toNat && c.toNat ≤ '7'.toNat

def octalDigits (text : List Char) : List Char := (text.take 3).takeWhile isOctalDigit

def octalValue (digits : List Char) : Nat :=
  digits.foldl (fun value c => 8 * value + (c.toNat - '0'.toNat)) 0

def isPrintable (c : Char) : Bool := 0x20 ≤ c.toNat && c.toNat ≤ 0x7e

def readByte : List Char → Option (UInt8 × List Char)
  | '\\' :: rest =>
    match octalDigits rest, rest with
    | [], c :: rest => (simpleEscape? c).map (·, rest)
    | [], [] => none
    | digits, rest =>
      if octalValue digits < 256 then
        some (.ofNat (octalValue digits), rest.drop digits.length)
      else none
  | c :: rest => if c != '"' && isPrintable c then some (.ofNat c.toNat, rest) else none
  | [] => none

lemma readByte_shorter {byte : UInt8} (read : readByte text = some (byte, rest)) :
    rest.length < text.length := by
  unfold readByte at read
  split at read
  next after =>
    split at read
    next c later _ =>
      obtain ⟨_, _, same⟩ := Option.map_eq_some_iff.mp read
      cases same
      simp only [length_cons]
      omega
    next => cases read
    next =>
      split at read
      · cases read
        simp only [length_cons, length_drop]
        omega
      · cases read
  next =>
    split at read
    · cases read
      simp
    · cases read
  next => cases read

/-- Where a reader of literals is. -/
inductive Reading where
  | start
  | inside
  /-- Behind a literal, where another one may follow. -/
  | between
deriving DecidableEq

/-- Reads adjacent literals, of which there is at least one, as the bytes they stand for together,
with the text that follows them. -/
def readLiterals (at_ : Reading) (text : List Char) : Option (List UInt8 × List Char) :=
  match at_, text with
  | .inside, '"' :: rest => readLiterals .between rest
  | .inside, text =>
    match _found : readByte text with
    | some (byte, rest) => (readLiterals .inside rest).map fun (bytes, rest) =>
        (byte :: bytes, rest)
    | none => none
  | _, '"' :: rest => readLiterals .inside rest
  | at_, c :: rest =>
    if c.isWhitespace then readLiterals at_ rest
    else if at_ = .between then some ([], c :: rest)
    else none
  | at_, [] => if at_ = .between then some ([], []) else none
termination_by text.length
decreasing_by
  all_goals first
    | exact readByte_shorter _found
    | simp

lemma readLiterals_of_readByte {byte : UInt8} (read : readByte text = some (byte, rest)) :
    readLiterals .inside text =
      (readLiterals .inside rest).map fun (bytes, rest) => (byte :: bytes, rest) := by
  rw [readLiterals.eq_def]
  split
  next => simp [readByte] at read
  next =>
    split
    next found =>
      cases found.symm.trans read
      rfl
    next found => cases found.symm.trans read
  all_goals simp_all

/-! ## Bytes in a literal -/

/-- The spellings of a byte that read the same whatever follows them. -/
inductive Spells : UInt8 → List Char → Prop where
  | plain {c : Char} (printable : isPrintable c = true) (quote : c ≠ '"') (escape : c ≠ '\\')
    (question : c ≠ '?') : Spells (.ofNat c.toNat) [c]
  | simple {c : Char} {byte : UInt8} (meant : simpleEscape? c = some byte)
    (printable : isPrintable c = true) (digit : isOctalDigit c = false) : Spells byte ['\\', c]
  | octal {a b c : Char} (first : isOctalDigit a = true) (second : isOctalDigit b = true)
    (third : isOctalDigit c = true) (fits : octalValue [a, b, c] < 256) :
    Spells (.ofNat (octalValue [a, b, c])) ['\\', a, b, c]

lemma toNat_ofNat_small {n : Nat} (small : n < 256) : (Char.ofNat n).toNat = n := by
  have valid : n.isValidChar := .inl (by omega)
  rw [Char.ofNat, dif_pos valid]
  rfl

lemma octalEscape_spells (byte : UInt8) : Spells byte (octalEscape byte) := by
  have bound := byte.toNat_lt
  have digit (n : Nat) : (Char.ofNat (48 + n % 8)).toNat = 48 + n % 8 :=
    toNat_ofNat_small (by omega)
  have shown (n : Nat) : isOctalDigit (Char.ofNat (48 + n % 8)) = true := by
    simp [isOctalDigit, digit]
    omega
  have value : octalValue [Char.ofNat (48 + byte.toNat / 64 % 8),
      Char.ofNat (48 + byte.toNat / 8 % 8), Char.ofNat (48 + byte.toNat % 8)] = byte.toNat := by
    simp [octalValue, digit]
    omega
  have spelled := Spells.octal (shown _) (shown _) (shown _) (value ▸ bound)
  rwa [value, UInt8.ofNat_toNat] at spelled

lemma stringByte_spells (byte : UInt8) : Spells byte (stringByte byte) := by
  have value := toNat_ofNat_small byte.toNat_lt
  have same : UInt8.ofNat (Char.ofNat byte.toNat).toNat = byte := by rw [value, UInt8.ofNat_toNat]
  simp only [stringByte]
  split
  case h_7 escape quote _ _ _ question =>
    split
    next shown =>
      have printable : isPrintable (Char.ofNat byte.toNat) = true := by
        have low := UInt8.le_iff_toNat_le.mp shown.1
        have high := UInt8.le_iff_toNat_le.mp shown.2
        simp_all [isPrintable]
      have spelled := Spells.plain printable quote escape question
      rwa [same] at spelled
    next => exact octalEscape_spells byte
  all_goals
    next is =>
      rw [is] at same
      rw [← same]
      exact .simple (by decide) (by decide) (by decide)

namespace Spells

variable {byte : UInt8} {token : List Char}

lemma reads (spelled : Spells byte token) (rest : List Char) :
    readByte (token ++ rest) = some (byte, rest) := by
  cases spelled with
  | plain printable quote => simp [readByte, printable, quote]
  | simple meant _ digit => simp [readByte, octalDigits, digit, meant]
  | octal first second third fits => simp [readByte, octalDigits, first, second, third, fits]

lemma printable (spelled : Spells byte token) : ∀ c ∈ token, isPrintable c = true := by
  have digit {c : Char} (octal : isOctalDigit c = true) : isPrintable c = true := by
    simp [isOctalDigit, isPrintable] at octal ⊢
    omega
  have escape : isPrintable '\\' = true := by decide
  cases spelled with
  | plain printable => simpa using printable
  | simple _ printable => simp [escape, printable]
  | octal first second third => simp [escape, digit first, digit second, digit third]

lemma head_ne (spelled : Spells byte token) (rest : List Char) :
    (token ++ rest).head? ≠ some '?' := by
  cases spelled with
  | plain _ _ _ question => simpa using question
  | simple | octal => simp

end Spells

def hasBareQuote : List Char → Bool
  | '\\' :: _ :: rest => hasBareQuote rest
  | c :: rest => c == '"' || hasBareQuote rest
  | [] => false

def HasPair (text : List Char) : Prop := ['?', '?'] <:+: text

lemma hasPair_cons {c : Char} :
    HasPair (c :: rest) ↔ (c = '?' ∧ rest.head? = some '?') ∨ HasPair rest := by
  rw [HasPair, infix_cons_iff, cons_prefix_cons, @eq_comm _ '?' c, HasPair]
  cases rest with
  | nil => simp
  | cons d rest => simp [cons_prefix_cons, @eq_comm _ '?' d]

lemma stringBody_clean (bytes : List UInt8) :
    (∀ c ∈ stringBody bytes, isPrintable c = true) ∧ hasBareQuote (stringBody bytes) = false ∧
      ¬HasPair (stringBody bytes) := by
  induction bytes with
  | nil => simp [stringBody, hasBareQuote, HasPair]
  | cons byte bytes ih =>
    obtain ⟨printable, bare, pair⟩ := ih
    have spelled := stringByte_spells byte
    have head : (stringBody bytes).head? ≠ some '?' := by
      cases bytes with
      | nil => simp [stringBody]
      | cons byte bytes => exact (stringByte_spells byte).head_ne _
    have body : stringBody (byte :: bytes) = stringByte byte ++ stringBody bytes := rfl
    rw [body]
    refine ⟨fun c mem => ?_, ?_⟩
    · exact (mem_append.mp mem).elim (spelled.printable c) (printable c)
    · generalize stringByte byte = token at spelled
      have other {c : Char} (digit : isOctalDigit c = true) : c ≠ '?' ∧ c ≠ '"' ∧ c ≠ '\\' := by
        refine ⟨?_, ?_, ?_⟩ <;> rintro rfl <;> simp [isOctalDigit] at digit
      cases spelled with
      | plain _ quote escape question =>
        simp [hasBareQuote, hasPair_cons, quote, escape, question, bare, pair]
      | simple => simp [hasBareQuote, hasPair_cons, bare, pair, head]
      | octal first second third =>
        simp [hasBareQuote, hasPair_cons, bare, pair, other first, other second, other third]

lemma replaceTrigraphs_cons {c : Char} (apart : ¬(c = '?' ∧ rest.head? = some '?')) :
    replaceTrigraphs (c :: rest) = c :: replaceTrigraphs rest := by
  rw [replaceTrigraphs.eq_def]
  split
  next same =>
    cases same
    simp at apart
  next same => cases same; rfl
  next same => cases same

lemma replaceTrigraphs_append {c : Char} (clean : ¬HasPair text) (other : c ≠ '?') :
    replaceTrigraphs (text ++ c :: rest) = text ++ c :: replaceTrigraphs rest := by
  induction text with
  | nil => exact replaceTrigraphs_cons (by simp [other])
  | cons d text ih =>
    rw [hasPair_cons, not_or] at clean
    have apart : ¬(d = '?' ∧ (text ++ c :: rest).head? = some '?') := by
      cases text with
      | nil => simp [other]
      | cons => exact clean.1
    rw [cons_append, replaceTrigraphs_cons apart, ih clean.2, cons_append]

lemma readLiterals_body (bytes : List UInt8) (rest : List Char) :
    readLiterals .inside (stringBody bytes ++ '"' :: rest) =
      (readLiterals .between rest).map fun (later, rest) => (bytes ++ later, rest) := by
  induction bytes with
  | nil =>
    rw [show stringBody [] = [] from rfl, nil_append, readLiterals]
    simp
  | cons byte bytes ih =>
    have body : stringBody (byte :: bytes) = stringByte byte ++ stringBody bytes := rfl
    rw [body, append_assoc, readLiterals_of_readByte ((stringByte_spells byte).reads _), ih]
    simp [Function.comp_def]

end Literal

namespace StringTable

open Literal

def lineChars (bytes : List UInt8) : List Char :=
  '\n' :: ' ' :: ' ' :: '"' :: (stringBody bytes ++ ['"'])

lemma readLiterals_line {place : Reading} (outside : place ≠ .inside) (bytes : List UInt8)
    (rest : List Char) :
    readLiterals place (replaceTrigraphs (lineChars bytes ++ rest)) =
      (readLiterals .between (replaceTrigraphs rest)).map
        fun (later, rest) => (bytes ++ later, rest) := by
  have clean := (stringBody_clean bytes).2.2
  have replaced : replaceTrigraphs (lineChars bytes ++ rest) = '\n' :: ' ' :: ' ' :: '"' ::
        (stringBody bytes ++ '"' :: replaceTrigraphs rest) := by
    simp [lineChars, replaceTrigraphs_cons, replaceTrigraphs_append clean]
  have blank {c : Char} {text : List Char} (white : c.isWhitespace = true) (other : c ≠ '"') :
      readLiterals place (c :: text) = readLiterals place text := by
    rw [readLiterals.eq_def]
    cases place <;> simp_all
  rw [replaced, blank (by decide) (by decide), blank (by decide) (by decide),
    blank (by decide) (by decide), ← readLiterals_body, readLiterals.eq_def]
  cases place <;> simp_all

lemma readLiterals_lines (lines : List (List UInt8)) (rest : List Char) :
    readLiterals .between (replaceTrigraphs (lines.flatMap lineChars ++ ';' :: rest)) =
      some (lines.flatten, ';' :: replaceTrigraphs rest) := by
  induction lines with
  | nil =>
    rw [flatMap_nil, nil_append, replaceTrigraphs_cons (by simp), readLiterals.eq_def]
    simp
  | cons bytes lines ih =>
    rw [flatMap_cons, append_assoc, readLiterals_line (by simp), ih]
    simp

lemma flatten_chunks (count : Nat) (bytes : List UInt8) (enough : bytes.length ≤ count) :
    (chunks count bytes).flatten = bytes := by
  induction count generalizing bytes with
  | zero => simp_all [chunks]
  | succ count ih =>
    cases bytes with
    | nil => rfl
    | cons byte bytes =>
      have shorter : ((byte :: bytes).drop lineWidth).length ≤ count := by
        simp [lineWidth] at enough ⊢
        omega
      simp [chunks, ih _ shorter]

lemma bufferLines_eq (table : StringTable) :
    ∃ first later, table.bufferLines = first :: later ∧
      (first :: later).flatten = table.buffer := by
  rw [bufferLines]
  cases bytes : table.buffer with
  | nil => exact ⟨[], [], rfl, rfl⟩
  | cons byte rest => exact ⟨_, _, rfl, flatten_chunks _ (byte :: rest) (Nat.le_refl _)⟩

lemma intercalate_lines (first : List UInt8) (later : List (List UInt8)) :
    '\n' :: ['\n'].intercalate ((first :: later).map fun line =>
        ("  " ++ ofBytes line).toList) = (first :: later).flatMap lineChars := by
  induction later generalizing first with
  | nil => simp [intercalate, ofBytes, lineChars]
  | cons second later ih =>
    rw [flatMap_cons, ← ih second]
    simp [intercalate_cons_cons, ofBytes, lineChars]

/-- The array of string bytes is declared with room for the buffer and the zero after it, and the
literals it is set to read as the buffer. What stands between the quotes of any literal is printable
and without line ends, bare quotes or the start of a trigraph, and reads as its bytes. -/
theorem emit_reads_back (table : StringTable) :
    (∃ text rest, table.emit.toList = "static const char s_strbuf[".toList ++
        (toString (table.buffer.length + 1)).toList ++ "] =".toList ++ text ∧
      readLiterals .start (replaceTrigraphs text) = some (table.buffer, ';' :: rest)) ∧
    ∀ bytes : List UInt8, (∀ c ∈ stringBody bytes, isPrintable c = true ∧ c ≠ '\n') ∧
      hasBareQuote (stringBody bytes) = false ∧
      ¬HasPair (stringBody bytes) ∧
      readLiterals .start (replaceTrigraphs (ofBytes bytes).toList) = some (bytes, []) := by
  constructor
  · obtain ⟨first, later, lines, whole⟩ := table.bufferLines_eq
    have written : ∃ rest, table.emit.toList = "static const char s_strbuf[".toList ++
        (toString (table.buffer.length + 1)).toList ++ "] =".toList ++
          ((first :: later).flatMap lineChars ++ ';' :: rest) := by
      unfold emit
      rw [← intercalate_lines, lines]
      simp only [String.toList_append, String.toList_intercalate, append_assoc, map_map,
        Function.comp_def]
      exact ⟨_, rfl⟩
    obtain ⟨rest, written⟩ := written
    refine ⟨_, replaceTrigraphs rest, written, ?_⟩
    rw [flatMap_cons, append_assoc, readLiterals_line (by simp), readLiterals_lines, ← whole]
    rfl
  · intro bytes
    obtain ⟨printable, bare, pair⟩ := stringBody_clean bytes
    refine ⟨fun c member => ⟨printable c member, ?_⟩, bare, pair, ?_⟩
    · rintro rfl
      exact absurd (printable _ member) (by decide)
    · rw [ofBytes, String.toList_ofList, cons_append,
        replaceTrigraphs_cons (by simp), replaceTrigraphs_append pair (by decide),
        readLiterals.eq_def]
      simp only [readLiterals_body]
      simp [replaceTrigraphs, readLiterals]

end StringTable
end Scriptc
