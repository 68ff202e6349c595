import Scriptc.Lowering.Control
import Scriptc.Proofs.Double.Value
import Scriptc.Proofs.Semantics.Machine

/-!
# Jump tables

A switch becomes a jump table exactly if its value is not constant and its tests are different
numbers of 32 bits. The table goes where comparing with the tests one after the other would go.
-/

namespace Scriptc

open Double

variable {cases : List (CaseCode × Label)} {table : List (Int × Label)}

/-- Whether an expression is a number that a jump table holds under a key: a literal with the value
of the key, which has 32 bits, but not negative zero. -/
def Expr.IsKey (e : Expr) (key : Int) : Prop :=
  ∃ loc lit x, e = .literal loc lit ∧ lit.value = .number x ∧ x.isFinite = true ∧
    value x = key ∧ -2 ^ 31 ≤ key ∧ key < 2 ^ 31 ∧ (key = 0 → isNegative x = false)

/-- How a run time tells numbers: which values are strictly equal to a number, and which have the
key of an entry of a jump table. -/
structure Runtime.TellsNumbers {V : Type} (rt : Runtime V) (number? : V → Option Float) : Prop where
  strictEq : ∀ v x, rt.truthy (rt.binary .strictEq v (rt.ofConstant (.number x))) =
    (number? v).any (· == x)
  hasKey : ∀ v (key : Int), -2 ^ 31 ≤ key → key < 2 ^ 31 → (rt.hasKey v key = true ↔
    ∃ x, number? v = some x ∧ x.isFinite = true ∧ value x = key)

def Constant.number? : Constant → Option Float
  | .number x => some x
  | _ => none

lemma Runtime.constants_tellNumbers : Runtime.constants.TellsNumbers Constant.number? where
  strictEq v x := by cases v <;> rfl
  hasKey v key low high := by
    cases v with
    | number y =>
      have whole : Runtime.constants.hasKey (.number y) key = true ↔ value y = key := by
        rw [value_eq_int]
        simp [Runtime.constants]
      rw [whole]
      refine ⟨fun same => ⟨y, rfl, ?_, same⟩, ?_⟩
      · rw [isFinite_iff]
        intro field
        obtain ⟨-, rfl⟩ := value_eq_int.mp same
        have large : 2 ^ 31 < (magnitude y).floor := by
          have size : magnitude y = ⟨fractionField y + 2 ^ 52, 972⟩ := by
            simp [magnitude, field]
          rw [size, Double.Magnitude.floor, if_pos (by simp), Nat.shiftLeft_eq]
          have mantissa : 2 ^ 31 < fractionField y + 2 ^ 52 := by omega
          exact Nat.lt_of_lt_of_le mantissa (Nat.le_mul_of_pos_right _ (Nat.two_pow_pos _))
        have size : (truncate y).natAbs = (magnitude y).floor := by
          rw [truncate]
          split <;> simp
        omega
      · rintro ⟨x, found, -, same⟩
        cases found
        exact same
    | _ => simp [Runtime.constants, Constant.number?]

/-- Whether the test of a case is a number that a value is strictly equal to. -/
def CaseCode.takes {V : Type} (rt : Runtime V) (c : CaseCode) (v : V) : Bool :=
  match c.test.map Lowered.expr with
  | some (.literal _ { value := .number x, .. }) =>
    rt.truthy (rt.binary .strictEq v (rt.ofConstant (.number x)))
  | _ => false

namespace Lowering

/-- Whether a table has an entry for each test of some cases, in order, under its key. -/
def Tabulates (cases : List (CaseCode × Label)) (table : List (Int × Label)) : Prop :=
  List.Forall₂ (fun c entry => c.2 = entry.2 ∧ ∃ test, c.1.test = some test ∧
    test.expr.IsKey entry.1) (cases.filter (·.1.test.isSome)) table

/-- Whether a switch has a jump table: its value is not constant, and the tests of its cases are
numbers with different keys. -/
def HasTable (value : Operand) (cases : List (CaseCode × Label)) : Prop :=
  value.isConstant = false ∧ ∃ table, Tabulates cases table ∧ (table.map (·.1)).Nodup

lemma tableKey?_eq_some {e : Expr} {key : Int} : tableKey? e = some key ↔ e.IsKey key := by
  have zero (x : Float) (finite : x.isFinite = true) :
      (x == 0.0) = true ↔ value x = (0 : Int) := by
    have none : value 0.0 = (0 : Int) := value_eq_int.mpr (by decide +kernel)
    rw [beq_iff_value (by decide +kernel), none]
    exact and_iff_right finite
  unfold tableKey?
  split
  next loc x isRegex isBigint =>
    constructor
    · intro known
      split at known
      next ok =>
        obtain ⟨⟨finite, integral⟩, other⟩ : (x.isFinite = true ∧ isIntegral x = true) ∧
            ((x == 0.0) = true → isNegative x = false) := by
          simpa [← Bool.not_eq_true, or_iff_not_imp_left] using ok
        dsimp only at known
        split at known
        next range =>
          cases known
          have whole := value_eq_int.mpr ⟨integral, rfl⟩
          exact ⟨loc, _, x, rfl, rfl, finite, whole, range.1, range.2, fun none =>
            other ((zero x finite).mpr (by rw [whole, none]))⟩
        next => cases known
      next => cases known
    · rintro ⟨loc', lit, y, same, number, finite, whole, low, high, sign⟩
      obtain ⟨rfl, rfl⟩ := Expr.literal.inj same
      obtain rfl := LiteralValue.number.inj number
      obtain ⟨integral, rfl⟩ := value_eq_int.mp whole
      have ok : (x.isFinite && isIntegral x && !(x == 0.0 && isNegative x)) = true := by
        have pos : (x == 0.0) = true → isNegative x = false := fun none =>
          sign (by exact_mod_cast whole.symm.trans ((zero x finite).mp none))
        simpa [finite, integral, ← Bool.not_eq_true, or_iff_not_imp_left] using pos
      rw [if_pos ok]
      exact if_pos ⟨low, high⟩
  next other =>
    refine ⟨nofun, ?_⟩
    rintro ⟨loc, ⟨value, isRegex, isBigint⟩, x, rfl, number, -⟩
    exact absurd (by rw [show value = .number x from number]) (other loc x isRegex isBigint)

lemma jumpTable?_eq_some : jumpTable? cases = some table ↔ Tabulates cases table := by
  induction cases generalizing table with
  | nil => simp [jumpTable?, Tabulates, eq_comm]
  | cons c rest ih =>
    obtain ⟨⟨test, body⟩, label⟩ := c
    cases test with
    | none => simpa [jumpTable?, Tabulates] using ih
    | some test =>
      simp only [jumpTable?, Tabulates, Option.bind_eq_bind, Option.bind_eq_some_iff,
        Option.some.injEq, tableKey?_eq_some, ih, List.filter_cons, Option.isSome_some, if_true]
      constructor
      · rintro ⟨key, is_key, entries, rest, rfl⟩
        exact .cons ⟨rfl, test, rfl, is_key⟩ rest
      · rintro (_ | ⟨⟨same, test', found, is_key⟩, rest⟩)
        cases found
        exact ⟨_, is_key, _, rest, congrArg (· :: _) (Prod.ext rfl same)⟩

lemma usableTable?_eq_some {value : Operand} : usableTable? value cases = some table ↔
      value.isConstant = false ∧ Tabulates cases table ∧ (table.map (·.1)).Nodup := by
  unfold usableTable?
  cases value.isConstant <;>
    simp [Option.filter_eq_some_iff, jumpTable?_eq_some, distinctKeys]

section

variable {V : Type} {rt : Runtime V} {number? : V → Option Float}

lemma takes_eq_hasKey (tells : rt.TellsNumbers number?) {c : CaseCode} {test : Lowered} {key : Int}
    (tests : c.test = some test) (is_key : test.expr.IsKey key) (v : V) :
    c.takes rt v = rt.hasKey v key := by
  obtain ⟨loc, ⟨value, isRegex, isBigint⟩, x, literal, rfl, finite, whole, low, high, -⟩ := is_key
  have taken : c.takes rt v = (number? v).any (· == x) := by
    simp [CaseCode.takes, tests, literal, tells.strictEq]
  rw [taken, Bool.eq_iff_iff, tells.hasKey v key low high]
  cases number? v with
  | none => simp
  | some y => simp [beq_iff_value finite, whole]

lemma Tabulates.find (tells : rt.TellsNumbers number?) (tabulates : Tabulates cases table) (v : V) :
    (table.find? fun entry => rt.hasKey v entry.1).map (·.2) =
      (cases.find? fun c => c.1.takes rt v).map (·.2) := by
  induction cases generalizing table with
  | nil =>
    cases tabulates
    rfl
  | cons c rest ih =>
    cases tests : c.1.test with
    | none =>
      have untested : c.1.takes rt v = false := by simp [CaseCode.takes, tests]
      rw [List.find?_cons_of_neg (by simp [untested])]
      exact ih (by simpa [Tabulates, tests] using tabulates)
    | some test =>
      rw [Tabulates, List.filter_cons_of_pos (by simp [tests])] at tabulates
      obtain _ | ⟨⟨label, test', found, is_key⟩, later⟩ := tabulates
      have same := takes_eq_hasKey tells found is_key v
      simp only [List.find?_cons, ← same]
      cases c.1.takes rt v with
      | true => exact congrArg some label.symm
      | false => exact ih later

open Classical in
/-- A switch becomes a jump table exactly if it has one, and is lowered to comparisons otherwise.
The keys of the table are different numbers of 32 bits, the values of the tests, and the table goes
where comparing a value with the tests in order goes: to the first case with a test that is strictly
equal, or else to the default. -/
theorem switchCode_tables (tells : rt.TellsNumbers number?) (loc : Location)
    (discriminant : Lowered) {cases : List CaseCode} (nonempty : cases ≠ []) (names : List String) :
    ∃ table : List (CaseCode × Label) → List (Int × Label),
      (switchCode loc discriminant cases names = do
        let value ← pin (← discriminant.value)
        let exit ← newLabel
        let cases ← caseLabels cases
        let default := ((cases.find? (·.1.test.isNone)).map (·.2)).getD exit
        if HasTable value cases then inCode (Routine.setJump (.switch value (table cases) default))
        else
          testCases value cases
          goto default
        release value
        inTarget names exit none true (caseBodies cases)
        place exit) ∧
      ∀ value cases default, HasTable value cases →
        ((table cases).map (·.1)).Nodup ∧ Tabulates cases (table cases) ∧
          ∀ m : Memory V, m.leave rt (.switch value (table cases) default) =
            some ⟨.toward (((cases.find? fun c => c.1.takes rt (m.read rt value)).map (·.2)).getD
              default), m⟩ := by
  have known {value : Operand} {cases : List (CaseCode × Label)} (has : HasTable value cases) :
      usableTable? value cases = jumpTable? cases ∧ Tabulates cases ((jumpTable? cases).getD []) ∧
        (((jumpTable? cases).getD []).map (·.1)).Nodup := by
    obtain ⟨varies, table, tabulates, distinct⟩ := has
    rw [usableTable?_eq_some.mpr ⟨varies, tabulates, distinct⟩, jumpTable?_eq_some.mpr tabulates]
    exact ⟨rfl, tabulates, distinct⟩
  refine ⟨fun cases => (jumpTable? cases).getD [], ?_, fun value cases default has => ?_⟩
  · have some_case : ¬cases.isEmpty = true := by simpa using nonempty
    simp only [switchCode, if_neg some_case]
    refine bind_congr fun value => bind_congr fun value => bind_congr fun exit =>
      bind_congr fun cases => ?_
    by_cases has : HasTable value cases
    · obtain ⟨table, used⟩ : ∃ table, jumpTable? cases = some table :=
        has.2.imp fun _ found => jumpTable?_eq_some.mpr found.1
      simp only [if_pos has, (known has).1, used, Option.getD_some]
    · have none : usableTable? value cases = none := by
        refine Option.eq_none_iff_forall_ne_some.mpr fun table used => has ?_
        obtain ⟨varies, rest⟩ := usableTable?_eq_some.mp used
        exact ⟨varies, table, rest⟩
      simp only [if_neg has, none]
  · obtain ⟨-, tabulates, distinct⟩ := known has
    refine ⟨distinct, tabulates, fun m => ?_⟩
    rw [Memory.leave, tabulates.find tells]

end

def signedCases : List (CaseCode × Label) :=
  let test (x : Float) : Lowered :=
    { expr := .literal .nowhere { value := .number x, isRegex := false, isBigint := false }
      code := fun _ => pure (.constant (.number x)) }
  [(⟨test (-7.0), pure ()⟩, 1), (⟨none, pure ()⟩, 2), (⟨test 0.0, pure ()⟩, 3)]

/-- The tests have a table, which takes the number of the first test to its case. -/
theorem signedCases_tables : HasTable (.cell 1) signedCases ∧ ∃ table, Tabulates signedCases table ∧
    ∀ m : Memory Constant, m.cells 1 = .number (-7.0) →
      m.leave .constants (.switch (.cell 1) table 2) = some ⟨.toward 1, m⟩ := by
  have is_key {x : Float} {key : Int} (finite : x.isFinite = true)
      (whole : isIntegral x = true ∧ truncate x = key) (low : -2 ^ 31 ≤ key)
      (high : key < 2 ^ 31) (sign : key = 0 → isNegative x = false) :
      (Expr.literal .nowhere { value := .number x, isRegex := false, isBigint := false }).IsKey
        key :=
    ⟨_, _, x, rfl, rfl, finite, value_eq_int.mpr whole, low, high, sign⟩
  have has : HasTable (.cell 1) signedCases := by
    refine ⟨rfl, [(-7, 1), (0, 3)], ?_, by decide⟩
    refine .cons ⟨rfl, _, rfl, is_key ?_ ?_ ?_ ?_ ?_⟩
      (.cons ⟨rfl, _, rfl, is_key ?_ ?_ ?_ ?_ ?_⟩ .nil) <;> decide +kernel
  obtain ⟨table, -, agrees⟩ := switchCode_tables Runtime.constants_tellNumbers .nowhere
    ⟨.receiver .nowhere, fun _ => pure .undefined⟩ (List.cons_ne_nil ⟨none, pure ()⟩ []) []
  obtain ⟨-, tabulates, goes⟩ := agrees (.cell 1) signedCases 2 has
  refine ⟨has, _, tabulates, fun m here => (goes m).trans ?_⟩
  have first : ((signedCases.find? fun c => c.1.takes .constants (.number (-7.0))).map (·.2)).getD
      2 = 1 := by
    decide +kernel
  rw [show m.read .constants (.cell 1) = .number (-7.0) from here, first]

end Lowering
end Scriptc
