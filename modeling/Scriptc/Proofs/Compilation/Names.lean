import Scriptc.Proofs.Compilation.Success

/-!
# Names of functions

The functions of a compiled program have different names, whatever the program calls them, and the
text of the unit names no other function. Each function but the top level is made into a closure at
one place, in the function around it.
-/

open List

namespace Scriptc

open Result (bind_eq_ok)

/-! ## Identifiers -/

namespace Literal

/-- The words that are no identifiers in C. -/
def keywords : List String :=
  ["auto", "break", "case", "char", "const", "continue", "default", "do", "double", "else", "enum",
    "extern", "float", "for", "goto", "if", "inline", "int", "long", "register",
      "restrict", "return",
    "short", "signed", "sizeof", "static", "struct", "switch", "typedef", "union",
      "unsigned", "void",
    "volatile", "while", "_Alignas", "_Alignof", "_Atomic", "_Bool", "_Complex", "_Generic",
    "_Imaginary", "_Noreturn", "_Static_assert", "_Thread_local"]

def isWordChar (c : Char) : Bool := c.isAlphanum || c == '_'

/-- Whether a text is an identifier in C. -/
def isIdentifier (s : String) : Bool :=
  s.toList.head?.any (!·.isDigit) && s.toList.all isWordChar && !keywords.contains s

lemma identifierPart_words (name : String) : ∀ c ∈ (identifierPart name).toList,
    isWordChar c = true := by
  intro c mem
  rw [identifierPart, String.toList_ofList] at mem
  obtain ⟨c0, -, rfl⟩ := mem_map.mp mem
  by_cases plain : c0.isAlphanum = true
  · simp [isWordChar, plain]
  · simp [isWordChar, plain]

end Literal

namespace Routine

variable (r : Routine)

/-- The name of a function has its number, and no digit follows it. -/
lemma functionName_toList : ∃ rest, r.functionName.toList =
    'f' :: 'n' :: (Nat.toDigits 10 r.id ++ rest) ∧
    (∀ c ∈ rest, Literal.isWordChar c = true) ∧ rest.head?.any Char.isDigit = false := by
  cases given : r.givenName? with
  | none => exact ⟨[], by simp [functionName, given], by simp, rfl⟩
  | some name =>
    refine ⟨'_' :: (Literal.identifierPart name).toList, by simp [functionName, given], ?_, by simp⟩
    exact forall_mem_cons.mpr ⟨by decide, Literal.identifierPart_words name⟩

lemma functionName_isIdentifier : Literal.isIdentifier r.functionName = true := by
  obtain ⟨rest, spelled, words, -⟩ := r.functionName_toList
  have digits : ∀ c ∈ Nat.toDigits 10 r.id, Literal.isWordChar c = true := fun c mem => by
    have digit := Nat.isDigit_of_mem_toDigits (by decide) (by decide) mem
    simp [Literal.isWordChar, Char.isAlphanum, digit]
  have other : ∀ word ∈ Literal.keywords, word.toList.take 2 ≠ ['f', 'n'] := by decide
  have free : r.functionName ∉ Literal.keywords := fun mem =>
    other _ mem (by rw [spelled]; rfl)
  have starts : r.functionName.toList.head?.any (!·.isDigit) = true := by
    rw [spelled]
    rfl
  have all : r.functionName.toList.all Literal.isWordChar = true := by
    rw [spelled, all_eq_true]
    simp only [forall_mem_cons, forall_mem_append]
    exact ⟨by decide, by decide, digits, words⟩
  rw [Literal.isIdentifier, starts, all]
  simpa using free

lemma id_eq_of_functionName {r r' : Routine} (same : r.functionName = r'.functionName) :
    r.id = r'.id := by
  obtain ⟨rest, spelled, -, ends⟩ := r.functionName_toList
  obtain ⟨rest', spelled', -, ends'⟩ := r'.functionName_toList
  have number (n : Nat) {rest : List Char} (ends : rest.head?.any Char.isDigit = false) :
      (Nat.toDigits 10 n ++ rest).takeWhile Char.isDigit = Nat.toDigits 10 n := by
    have after : rest.takeWhile Char.isDigit = [] := by
      cases rest with
      | nil => rfl
      | cons c _ => exact takeWhile_cons_of_neg (by simpa using ends)
    rw [takeWhile_append_of_pos fun c mem => Nat.isDigit_of_mem_toDigits (by decide)
      (by decide) mem, after, append_nil]
  have texts : Nat.toDigits 10 r.id ++ rest = Nat.toDigits 10 r'.id ++ rest' := by
    simpa [same, spelled'] using spelled.symm
  have digits := congrArg (takeWhile Char.isDigit) texts
  rw [number _ ends, number _ ends'] at digits
  rw [← @Nat.ofDigitChars_ten_toDigits r.id, digits, Nat.ofDigitChars_ten_toDigits]

end Routine

/-! ## The text of a unit -/

namespace CodeUnit

variable {u : CodeUnit} {options : UnitOptions}

lemma entryName_fresh : options.entryName ∉ u.functionNames := by
  intro mem
  obtain ⟨r, -, same⟩ := mem_map.mp mem
  obtain ⟨rest, spelled, -⟩ := r.functionName_toList
  rw [same, UnitOptions.entryName] at spelled
  split at spelled
  · cases spelled
  · cases (String.toList_append ..).symm.trans spelled

lemma functionNames_nodup
    (ids : ∀ (i : RoutineId) (r : Routine), u.routines[i]? = some r → r.id = i) :
    u.functionNames.Nodup := by
  refine pairwise_map.mpr (pairwise_iff_getElem.mpr fun i j inside inside' before same => ?_)
  have first := ids i _ (Array.getElem?_toList ▸ getElem?_eq_getElem inside)
  have second := ids j _ (Array.getElem?_toList ▸ getElem?_eq_getElem inside')
  exact Nat.ne_of_lt before (first.symm.trans ((Routine.id_eq_of_functionName same).trans second))

/-- Whether the text of a unit is closed over the names of functions: they are different
identifiers, and the entry point has another name. Each one is declared and then defined once, and a
closure is made, or a call goes, by these names only. Each function but the first is made into a
closure once, by the function around it. -/
structure Closed (u : CodeUnit) (options : UnitOptions) (text : String) : Prop where
  identifiers : ∀ name ∈ u.functionNames, Literal.isIdentifier name = true
  distinct : u.functionNames.Nodup
  entry : options.entryName ∉ u.functionNames
  written : u.Emits options text
  closures : ∀ id r, id ≠ 0 → u.routines[id]? = some r → u.created.count id = 1 ∧
    ∃ outer r', r.parent = some outer ∧ u.routines[outer]? = some r' ∧ id ∈ r'.created

lemma created_completed (u : CodeUnit) : u.completed.created = u.created := by
  have same (r : Routine) : (u.resolved r).created = r.created :=
    Routine.created_mapCallees _ _
  rw [completed, internConstants, created, foldl_withString_routines, finalized, Array.toList_map,
    flatMap_map, created]
  exact flatMap_congr fun r _ => same r

end CodeUnit

lemma Routine.has_of_created {r : Routine} {id : RoutineId} (mem : id ∈ r.created) :
    ∃ dest, r.Has (.closure dest id) := by
  obtain ⟨b, stands, inside⟩ := mem_flatMap.mp mem
  obtain ⟨i, here, creates⟩ := mem_filterMap.mp inside
  obtain ⟨k, found⟩ := getElem?_of_mem stands
  obtain ⟨j, place⟩ := getElem?_of_mem here
  cases i with
  | closure dest routine =>
    cases creates
    exact ⟨dest, k, j, b, by simpa using found, by simpa using place⟩
  | _ => cases creates

namespace Lowering

variable {s : Lowering}

lemma Coherent.parent_of_created (coherent : s.Coherent) {id : RoutineId}
    (mem : id ∈ s.unit.created) : ∃ outer r r', s.unit.routines[id]? = some r ∧
      r.parent = some outer ∧ s.unit.routines[outer]? = some r' ∧ id ∈ r'.created := by
  obtain ⟨r', stands, creates⟩ := mem_flatMap.mp mem
  obtain ⟨outer, found⟩ := getElem?_of_mem stands
  rw [Array.getElem?_toList] at found
  obtain ⟨dest, has⟩ := Routine.has_of_created creates
  obtain ⟨r, found', parent⟩ := ((coherent.fits outer r' found).instructions _ has).refers
  exact ⟨outer, r, r', found', parent, found, creates⟩

lemma lacks_of_lowered {p : Program} {name : String} {strict : Bool} {log : Log} {d : Declared}
    (declares : declare p name strict log = .ok d) (lowers : d.lower p = .ok s) :
    s.unit.Lacks [0] := by
  have whole := whole_of_lowered declares lowers
  obtain ⟨d', s', past, -, -, alike, top, bare⟩ := alike_of_lowered declares lowers
  have lacks : s.unit.Lacks [top] := bare ▸ alike.lacks
  obtain ⟨r, found⟩ := whole.top
  have mem : 0 ∈ [top] ++ s.unit.created := lacks.mem_iff.mpr (mem_range.mpr (lt_size found))
  rcases mem_cons.mp mem with rfl | created
  · exact lacks
  · obtain ⟨outer, r, -, found, parent, -⟩ := whole.parent_of_created created
    have before := whole.parents 0 r found
    rw [parent] at before
    exact absurd before (Nat.not_lt_zero _)

end Lowering

namespace Program

/-- The text of a compiled program is closed over the names of functions, whatever the names in the
program and the name of the module are. -/
theorem compile_closed {p : Program} {options : CompileOptions} {answers : Requests.Answers}
    {file : Nat} {compiled : Compiled}
    (succeeds : p.compile options answers file = .ok (.ok compiled)) :
    ∃ a u, p.analyze options answers file = .ok a ∧ a.unit = some u ∧
      u.emit options.unitOptions = .ok compiled.text ∧
        u.Closed options.unitOptions compiled.text := by
  obtain ⟨d, s, a, _, declares, lowers, analyzed, unit, written⟩ := lowered_of_compile succeeds
  have whole := Lowering.whole_of_lowered declares lowers
  have lacks := Lowering.lacks_of_lowered declares lowers
  refine ⟨a, _, analyzed, unit, written, ?_⟩
  exact {
    identifiers := fun name member => by
      obtain ⟨r, -, rfl⟩ := mem_map.mp member
      exact r.functionName_isIdentifier
    distinct := CodeUnit.functionNames_nodup fun i R found => by
      obtain ⟨r, source, rfl⟩ := CodeUnit.completed_eq_some.mp found
      exact whole.ids i r source
    entry := CodeUnit.entryName_fresh
    written := whole.emits written
    closures := fun id R later found => by
      obtain ⟨r, source, rfl⟩ := CodeUnit.completed_eq_some.mp found
      have once : s.unit.created.count id = 1 := by
        have all := lacks.count_eq id
        rwa [singleton_append, count_cons_of_ne later.symm,
          count_eq_one_of_mem nodup_range (mem_range.mpr (lt_size source))] at all
      have member : id ∈ s.unit.created := count_pos_iff.mp (once ▸ Nat.one_pos)
      obtain ⟨outer, _, r', same, parent, around, creates⟩ := whole.parent_of_created member
      cases source.symm.trans same
      refine ⟨s.unit.created_completed ▸ once, outer, _, parent,
        CodeUnit.completed_eq_some.mpr ⟨r', around, rfl⟩, ?_⟩
      rw [Routine.created_mapCallees]
      exact creates }

def stepModule : CompileOptions :=
  { CompileOptions.standard with moduleName := "step", emitMain := false }

theorem nestedCounter_closed :
    ∃ compiled a u, nestedCounter.compile stepModule ⟨.ofTable [], ""⟩ 0 = .ok (.ok compiled) ∧
      nestedCounter.analyze stepModule ⟨.ofTable [], ""⟩ 0 = .ok a ∧ a.unit = some u ∧
        u.Closed stepModule.unitOptions compiled.text := by
  obtain ⟨compiled, run⟩ := @Result.ok_of_succeeds _ _ _
    (nestedCounter.compile stepModule ⟨.ofTable [], ""⟩ 0) (by decide +kernel)
  obtain ⟨a, u, analyzed, unit, -, closed⟩ := compile_closed run
  exact ⟨compiled, a, u, run, analyzed, unit, closed⟩

end Program
end Scriptc
