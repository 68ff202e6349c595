import Mathlib.Data.List.Chain
import Mathlib.Data.List.Nodup
import Scriptc.Code.Template

/-!
# Reading templates and writing them

The parts of a template write it again, and parts without empty or adjacent texts are read again
from what they write. The counters say how often each binding stands in the parts. A template is
refused exactly at a percent sign that starts neither a percent sign nor a reference to a binding.
-/

open List

namespace Scriptc.SplicePart

def isText : SplicePart → Bool
  | text _ => true
  | binding _ => false

/-- Parts in the form that reading gives: no text is empty, and none follows another. -/
structure Normal (parts : List SplicePart) : Prop where
  full : ∀ s, text s ∈ parts → s ≠ ""
  apart : parts.IsChain fun a b => a.isText = true → b.isText = false

/-- What can be read: characters, doubled percent signs and references to bindings. -/
inductive Consumed (names : List String) : List Char → Prop where
  | nil : Consumed names []
  | plain {c : Char} {rest : List Char} (other : c ≠ '%') (after : Consumed names rest) :
      Consumed names (c :: rest)
  | percent {rest : List Char} (after : Consumed names rest) : Consumed names ('%' :: '%' :: rest)
  | reference {name rest : List Char} (closed : ']' ∉ name) (declared : String.ofList name ∈ names)
      (after : Consumed names rest) : Consumed names ('%' :: '[' :: (name ++ ']' :: rest))

/-- Why what follows a percent sign cannot be read. -/
inductive Refused (names : List String) : List Char → TemplateError → Prop where
  | stray {rest : List Char} (other : ∀ c ∈ rest.head?, c ≠ '%' ∧ c ≠ '[') :
      Refused names rest .strayPercent
  | unterminated {rest : List Char} (unclosed : ']' ∉ rest) :
      Refused names ('[' :: rest) .unterminated
  | undeclared {name rest : List Char} (closed : ']' ∉ name)
      (unknown : String.ofList name ∉ names) :
      Refused names ('[' :: (name ++ ']' :: rest)) (.undeclared (String.ofList name))

variable {names : List String} {uses : List Nat} {collected chars name rest : List Char}
  {parts : List SplicePart}

/-! ## Names and single steps -/

lemma readName_eq_some :
    readName chars = some (name, rest) ↔ chars = name ++ ']' :: rest ∧ ']' ∉ name := by
  induction chars generalizing name with
  | nil => simp [readName]
  | cons c tail ih =>
    by_cases last : c = ']'
    · subst last
      cases name <;> simp +contextual [readName, eq_comm]
    · rw [readName]
      · cases name with
        | nil => simp [last]
        | cons d name => simp [Option.map_eq_some_iff, ih]; grind
      · exact last

lemma readName_eq_none : readName chars = none ↔ ']' ∉ chars := by
  rw [Option.eq_none_iff_forall_ne_some]
  constructor
  · intro unread mem
    obtain ⟨name, rest, rfl, closed⟩ := eq_append_cons_of_mem mem
    exact unread _ (readName_eq_some.mpr ⟨rfl, closed⟩)
  · rintro unclosed ⟨name, rest⟩ read
    obtain ⟨rfl, -⟩ := readName_eq_some.mp read
    exact unclosed (by simp)

lemma read_plain {c : Char} (other : c ≠ '%') :
    read names uses collected (c :: rest) = read names uses (c :: collected) rest := by
  rw [read]
  · intro _ same; simp_all
  · intro _ same; simp_all
  · exact other

lemma read_reference (closed : ']' ∉ name) :
    read names uses collected ('%' :: '[' :: (name ++ ']' :: rest)) =
      (names.idxOf? (String.ofList name)).elim (.error (.undeclared (String.ofList name)))
        fun index => (read names (uses.modify index (· + 1)) [] rest).map
          (Prod.map (fun parts => flush collected (binding index :: parts)) id) := by
  have named : readName (name ++ ']' :: rest) = some (name, rest) :=
    readName_eq_some.mpr ⟨rfl, closed⟩
  rw [read]
  split
  next unread => rw [named] at unread; cases unread
  next found =>
    obtain ⟨rfl, rfl⟩ := Prod.mk.inj (Option.some.inj (named.symm.trans found))
    cases names.idxOf? (String.ofList name) with
    | none => rfl
    | some index =>
      dsimp only [Option.elim]
      cases read names (uses.modify index (· + 1)) [] rest <;> rfl

lemma read_refused {e : TemplateError} (refused : Refused names rest e) :
    read names uses collected ('%' :: rest) = .error e := by
  cases refused with
  | stray other =>
    rw [read]
    · rintro tail rfl; simp at other
    · rintro tail rfl; simp at other
  | unterminated unclosed =>
    rw [read]
    split
    next => rfl
    next found => rw [readName_eq_none.mpr unclosed] at found; cases found
  | undeclared closed unknown => 
    rw [read_reference closed, idxOf?_eq_none_iff.mpr unknown, Option.elim_none]

/-! ## All templates -/

lemma consumed_or_refused (names : List String) (chars : List Char) : Consumed names chars ∨
    ∃ before after e, chars = before ++ '%' :: after ∧ Consumed names before ∧
      Refused names after e := by
  match chars with
  | [] => exact .inl .nil
  | c :: rest =>
    by_cases percent : c = '%'
    · subst percent
      match rest with
      | [] => exact .inr ⟨[], _, _, rfl, .nil, .stray (by simp)⟩
      | d :: rest =>
        by_cases doubled : d = '%'
        · subst doubled
          refine (consumed_or_refused names rest).imp .percent ?_
          rintro ⟨before, after, e, rfl, consumed, refused⟩
          exact ⟨_, after, e, rfl, .percent consumed, refused⟩
        by_cases bracket : d = '['
        · subst bracket
          by_cases closed : ']' ∈ rest
          · obtain ⟨name, rest, rfl, first⟩ := eq_append_cons_of_mem closed
            by_cases declared : String.ofList name ∈ names
            · refine (consumed_or_refused names rest).imp (.reference first declared) ?_
              rintro ⟨before, after, e, rfl, consumed, refused⟩
              exact ⟨_, after, e, by simp, .reference first declared consumed, refused⟩
            · exact .inr ⟨[], _, _, rfl, .nil, .undeclared first declared⟩
          · exact .inr ⟨[], _, _, rfl, .nil, .unterminated closed⟩
        · exact .inr ⟨[], _, _, rfl, .nil, .stray (by simp [doubled, bracket])⟩
    · refine (consumed_or_refused names rest).imp (.plain percent) ?_
      rintro ⟨before, after, e, rfl, consumed, refused⟩
      exact ⟨_, after, e, rfl, .plain percent consumed, refused⟩
termination_by chars.length

lemma read_refused_after {before after : List Char} {e : TemplateError}
    (consumed : Consumed names before) (refused : Refused names after e) :
    read names uses collected (before ++ '%' :: after) = .error e := by
  induction consumed generalizing uses collected with
  | nil => exact read_refused refused
  | plain other _ ih => rw [cons_append, read_plain other, ih]
  | percent _ ih => rw [cons_append, cons_append, read, ih]
  | @reference name rest closed declared _ ih =>
    obtain ⟨index, found⟩ := Option.isSome_iff_exists.mp (isSome_idxOf?.mpr declared)
    rw [cons_append, cons_append, append_assoc, cons_append, read_reference closed, found,
      Option.elim_some, ih]
    rfl

/-- The counters after the references of some parts. -/
def tally (uses : List Nat) (parts : List SplicePart) : List Nat :=
  uses.mapIdx fun i n => n + parts.count (binding i)

lemma tally_of_count {parts' : List SplicePart}
    (same : ∀ i, parts'.count (binding i) = parts.count (binding i)) :
    tally uses parts' = tally uses parts := by
  simp only [tally, same]

lemma tally_flush (collected : List Char) : tally uses (flush collected parts) =
    tally uses parts := by
  refine tally_of_count fun i => ?_
  rw [flush]
  split
  · rfl
  · rw [count_cons_of_ne (by simp)]

lemma tally_nil : tally uses [] = uses :=
  ext_getElem? fun i => by simp [tally]

/-- Counting a reference first or last comes to the same. -/
lemma tally_modify (index : Nat) :
    tally (uses.modify index (· + 1)) parts = tally uses (binding index :: parts) := by
  refine ext_getElem? fun i => ?_
  by_cases here : index = i
  · subst here
    cases found : uses[index]? <;> simp [tally, found, Nat.add_right_comm, ← Nat.add_assoc]
  · simp [tally, here]

def escaped (chars : List Char) : List Char :=
  chars.flatMap fun c => if c = '%' then ['%', '%'] else [c]

lemma written_flush (collected : List Char) (parts : List SplicePart) :
    (flush collected parts).flatMap (written names) =
      escaped collected.reverse ++ parts.flatMap (written names) := by
  rw [flush]
  split
  next empty => simp [isEmpty_iff.mp empty, escaped]
  next => simp [written, escaped]

lemma Normal.flush (normal : Normal parts) (start : ∀ p ∈ parts.head?, p.isText = false)
    (collected : List Char) : Normal (flush collected parts) := by
  rw [SplicePart.flush]
  split
  · exact normal
  next some =>
    refine ⟨fun s mem => ?_, ?_⟩
    · rcases mem_cons.mp mem with same | later
      · obtain rfl := text.inj same
        intro empty
        have none := congrArg String.toList empty
        simp_all
      · exact normal.full s later
    · cases parts with
      | nil => exact .singleton _
      | cons p rest => exact .cons_cons (fun _ => start p rfl) normal.apart

lemma read_consumed (consumed : Consumed names chars) (collected : List Char) :
    ∃ parts, read names uses collected chars = .ok (parts, tally uses parts) ∧ Normal parts ∧
      (∀ i, binding i ∈ parts → i < names.length) ∧
        parts.flatMap (written names) = escaped collected.reverse ++ chars := by
  induction consumed generalizing uses collected with
  | nil =>
    refine ⟨flush collected [], by rw [read, tally_flush, tally_nil],
      .flush ⟨by simp, .nil⟩ (by simp) collected, ?_, written_flush collected []⟩
    intro i member
    rw [flush] at member
    split at member <;> simp at member
  | @plain c rest other _ ih =>
    obtain ⟨parts, read, normal, inside, same⟩ := ih (c :: collected)
    exact ⟨parts, (read_plain other).trans read, normal, inside, by simp [same, escaped, other]⟩
  | percent _ ih =>
    obtain ⟨parts, read, normal, inside, same⟩ := ih ('%' :: collected)
    exact ⟨parts, by rw [SplicePart.read, read], normal, inside, by simp [same, escaped]⟩
  | @reference name rest closed declared _ ih =>
    obtain ⟨index, found⟩ := Option.isSome_iff_exists.mp (isSome_idxOf?.mpr declared)
    obtain ⟨parts, read, normal, inside, same⟩ := @ih (uses.modify index (· + 1)) []
    obtain ⟨bound, named, -⟩ := idxOf?_eq_some_iff.mp found
    refine ⟨flush collected (binding index :: parts), ?_,
      .flush ?_ (by simp [isText]) collected, ?_, ?_⟩
    · rw [read_reference closed, found, Option.elim_some, read, tally_flush, ← tally_modify]
      rfl
    · refine ⟨by simpa using normal.full, ?_⟩
      cases parts with
      | nil => exact .singleton _
      | cons p rest => exact .cons_cons (by simp [isText]) normal.apart
    · intro i member
      rw [flush] at member
      have listed : i = index ∨ binding i ∈ parts := by split at member <;> simpa using member
      rcases listed with rfl | later
      · exact bound
      · exact inside i later
    · rw [written_flush, flatMap_cons, same]
      simp [written, bound, named, escaped]

/-! ## Parts that are written -/

lemma read_escaped (s chars : List Char) :
    read names uses collected (escaped s ++ chars) =
      read names uses (s.reverse ++ collected) chars := by
  induction s generalizing collected with
  | nil => rfl
  | cons c rest ih =>
    rw [reverse_cons, append_assoc, singleton_append, ← ih]
    by_cases percent : c = '%'
    · have same : escaped (c :: rest) = '%' :: '%' :: escaped rest := by simp [escaped, percent]
      rw [same, cons_append, cons_append, read, percent]
    · have same : escaped (c :: rest) = c :: escaped rest := by simp [escaped, percent]
      rw [same, cons_append, read_plain percent]

lemma read_binding {i : Nat} (bound : i < names.length) (distinct : names.Nodup)
    (plain : ∀ name ∈ names, ']' ∉ name.toList) :
    read names uses collected (written names (binding i) ++ chars) =
      (read names (uses.modify i (· + 1)) [] chars).map
        (Prod.map (fun parts => flush collected (binding i :: parts)) id) := by
  have found : names.idxOf? names[i] = some i := by
    refine idxOf?_eq_some_iff.mpr ⟨bound, rfl, fun j before same => ?_⟩
    exact absurd (distinct.getElem_inj_iff.mp same) (by omega)
  have step : read names uses collected ('%' :: '[' :: (names[i].toList ++ ']' :: chars)) = _ :=
    read_reference (plain names[i] (getElem_mem bound))
  rw [String.ofList_toList, found, Option.elim_some] at step
  simpa [written, bound] using step

lemma Normal.tail {p : SplicePart} (normal : Normal (p :: parts)) : Normal parts :=
  ⟨fun s mem => normal.full s (.tail _ mem), normal.apart.tail⟩

lemma read_written (normal : Normal parts) (inside : ∀ i, binding i ∈ parts → i < names.length)
    (distinct : names.Nodup) (plain : ∀ name ∈ names, ']' ∉ name.toList)
    (start : collected = [] ∨ ∀ p ∈ parts.head?, p.isText = false) :
    read names uses collected (parts.flatMap (written names)) =
      .ok (flush collected parts, tally uses parts) := by
  induction parts generalizing uses collected with
  | nil => rw [flatMap_nil, read, tally_nil]
  | cons p rest ih =>
    have later : ∀ i, binding i ∈ rest → i < names.length := fun i mem => inside i (.tail _ mem)
    rw [flatMap_cons]
    cases p with
    | binding i =>
      rw [read_binding (inside i mem_cons_self) distinct plain, ih normal.tail later (.inl rfl),
        tally_modify]
      rfl
    | text s =>
      obtain rfl : collected = [] := start.resolve_right fun other => by simp [isText] at other
      have next : ∀ p ∈ rest.head?, p.isText = false := fun p mem => by
        cases rest with
        | nil => cases mem
        | cons q rest => cases mem; exact normal.apart.rel rfl
      have some : s.toList ≠ [] := by simpa using normal.full s mem_cons_self
      have same : written names (text s) = escaped s.toList := rfl
      have counts : tally uses (text s :: rest) = tally uses rest :=
        tally_of_count fun i => count_cons_of_ne (by simp)
      rw [same, read_escaped, ih normal.tail later (.inr next), counts]
      simp [flush, some]

/-- The counters that start at zero, after the references of some parts. -/
lemma tally_zeros (count : Nat) (parts : List SplicePart) : tally (replicate count 0) parts =
    (range count).map fun i => (parts.filter (· = binding i)).length := by
  refine ext_getElem? fun i => ?_
  by_cases inside : i < count
  · simp [tally, inside, count_eq_length_filter]
    congr
  · simp [tally, inside]

lemma ofTemplate_eq_ok {t : String} (read : ofTemplate names t = .ok (parts, uses)) :
    Normal parts ∧ (∀ i, binding i ∈ parts → i < names.length) ∧
      uses = tally (replicate names.length 0) parts ∧
        parts.flatMap (written names) = t.toList := by
  rw [ofTemplate] at read
  rcases consumed_or_refused names t.toList with
    consumed | ⟨before, after, e, same, consumed, refused⟩
  · obtain ⟨parts', read', normal, inside, same⟩ := read_consumed consumed []
    obtain ⟨rfl, rfl⟩ := Prod.mk.inj (Except.ok.inj (read.symm.trans read'))
    exact ⟨normal, inside, rfl, same⟩
  · rw [same, read_refused_after consumed refused] at read
    cases read

/-- Reading templates and writing them are inverse. The parts of a template write it again, are in
normal form and refer to the bindings, and each counter says how many of the parts refer to its
binding. Parts in normal form are read again from what they write, if the bindings have different
names without a closing bracket. And a template is refused exactly if a percent sign in it, with all
before it read, starts nothing that can be read. -/
theorem template_inverse (names : List String) :
    (∀ t parts uses, ofTemplate names t = .ok (parts, uses) → template names parts = t ∧
      Normal parts ∧ (∀ i, binding i ∈ parts → i < names.length) ∧
        uses = (List.range names.length).map fun i => (parts.filter (· = binding i)).length) ∧
    (∀ parts, Normal parts → (∀ i, binding i ∈ parts → i < names.length) → names.Nodup →
      (∀ name ∈ names, ']' ∉ name.toList) →
        ∃ uses, ofTemplate names (template names parts) = .ok (parts, uses)) ∧
    ∀ t e, ofTemplate names t = .error e ↔ ∃ before after,
      t.toList = before ++ '%' :: after ∧ Consumed names before ∧ Refused names after e := by
  refine ⟨fun t parts uses read => ?_, fun parts normal inside distinct plain => ?_,
    fun t e => ⟨fun failed => ?_, ?_⟩⟩
  · obtain ⟨normal, inside, counted, same⟩ := ofTemplate_eq_ok read
    exact ⟨by rw [template, same, String.ofList_toList], normal, inside,
      counted.trans (tally_zeros _ parts)⟩
  · rw [ofTemplate, template, String.toList_ofList]
    exact ⟨_, read_written normal inside distinct plain (.inl rfl)⟩
  · rcases consumed_or_refused names t.toList with
      consumed | ⟨before, after, e', same, consumed, refused⟩
    · obtain ⟨parts, read, -⟩ := read_consumed consumed []
      cases failed.symm.trans read
    · rw [ofTemplate, same, read_refused_after consumed refused] at failed
      cases failed
      exact ⟨before, after, same, consumed, refused⟩
  · rintro ⟨before, after, same, consumed, refused⟩
    rw [ofTemplate, same, read_refused_after consumed refused]

/-- A template with a percent sign between two references. -/
theorem percentBetween_inverse :
    template ["to", "by"] [text "scale ", binding 1, text "% of ", binding 0] =
        "scale %[by]%% of %[to]" ∧
      ofTemplate ["to", "by"] "scale %[by]%% of %[to]" =
        .ok ([text "scale ", binding 1, text "% of ", binding 0], [1, 1]) ∧
      ofTemplate ["to", "by"] "%[by]%d" = .error .strayPercent := by
  obtain ⟨counts, reads, refuses⟩ := template_inverse ["to", "by"]
  obtain ⟨uses, read⟩ := reads [text "scale ", binding 1, text "% of ", binding 0]
    ⟨by simp, by simp [isText]⟩ (by simp) (by decide) (by decide)
  have counted : uses = [1, 1] := (counts _ _ _ read).2.2.2
  refine ⟨by decide, counted ▸ read,
    (refuses _ _).mpr ⟨['%', '[', 'b', 'y', ']'], ['d'], by decide, ?_, .stray (by simp)⟩⟩
  exact @Consumed.reference _ ['b', 'y'] [] (by decide) (by decide) .nil

end Scriptc.SplicePart
