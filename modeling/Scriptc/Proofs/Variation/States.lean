import Mathlib.Data.List.Forall2
import Scriptc.Lowering.Program
import Scriptc.Proofs.Code.Closures
import Scriptc.Proofs.Lowering.Steps
import Scriptc.Proofs.Variation.Syntax

/-!
# Lowerings that go alike

Two lowerings of varied trees make the same code. If the states before a step differ only in places,
in strictness and in what is reported about it, so do the states after it.
-/

namespace Scriptc

open Lowering CodeUnit

/-! ## Pairs of computations -/

section

variable {σ α β α' β' : Type} {escape : Prop} {ρ : σ → σ → Prop}

/-- Whether two computations go alike from related states: both give results and states that are
related in turn, or both stop with the same fault. With `escape`, nothing is asked where the first
one stops. -/
def Leads (escape : Prop) (ρ : σ → σ → Prop) (post : α → β → σ → σ → Prop)
    (first : EStateM Fault σ α) (second : EStateM Fault σ β) : Prop :=
  ∀ s s', ρ s s' →
    match first s with
    | .ok a t => ∃ b t', second s' = .ok b t' ∧ post a b t t'
    | .error fault _ => escape ∨ ∃ t', second s' = .error fault t'

/-- Whether two computations go alike and leave states related as before. -/
def Twin (escape : Prop) (ρ : σ → σ → Prop) (related : α → β → Prop) (first : EStateM Fault σ α)
    (second : EStateM Fault σ β) : Prop :=
  Leads escape ρ (fun a b t t' => related a b ∧ ρ t t') first second

protected lemma Leads.bind {post : α → β → σ → σ → Prop} {post' : α' → β' → σ → σ → Prop}
    {first : EStateM Fault σ α} {second : EStateM Fault σ β} {next : α → EStateM Fault σ α'}
    {next' : β → EStateM Fault σ β'} (here : Leads escape ρ post first second)
    (rest : ∀ a b, Leads escape (post a b) post' (next a) (next' b)) :
    Leads escape ρ post' (first >>= next) (second >>= next') := by
  intro s s' alike
  have step := here s s' alike
  cases run : first s with
  | ok a t =>
    rw [run] at step
    obtain ⟨b, t', run', holds⟩ := step
    rw [Runs.bind_run run, Runs.bind_run run']
    exact rest a b t t' holds
  | error fault t =>
    rw [run] at step
    simp only [bind, EStateM.bind, run]
    exact step.imp_right fun ⟨t', run'⟩ => ⟨t', by simp [run']⟩

lemma Leads.weaken {post post' : α → β → σ → σ → Prop} {first : EStateM Fault σ α}
    {second : EStateM Fault σ β} (here : Leads escape ρ post first second)
    (implies : ∀ a b t t', post a b t t' → post' a b t t') : Leads escape ρ post' first second := by
  intro s s' alike
  have step := here s s' alike
  cases run : first s with
  | ok a t =>
    rw [run] at step
    obtain ⟨b, t', run', holds⟩ := step
    exact ⟨b, t', run', implies _ _ _ _ holds⟩
  | error fault t =>
    rw [run] at step
    exact step

lemma Leads.get_bind {post : α → β → σ → σ → Prop} {next : σ → EStateM Fault σ α}
    {next' : σ → EStateM Fault σ β} (rest : ∀ s s', ρ s s' →
      Leads escape (fun t t' => t = s ∧ t' = s') post (next s) (next' s')) :
    Leads escape ρ post (get >>= next) (get >>= next') :=
  fun s s' alike => rest s s' alike s s' ⟨rfl, rfl⟩

end

namespace Twin

variable {σ α β α' β' : Type} {escape : Prop} {ρ : σ → σ → Prop} {related : α → β → Prop}
  {related' : α' → β' → Prop} {first : EStateM Fault σ α} {second : EStateM Fault σ β}

protected lemma pure {a : α} {b : β} (same : related a b) :
    Twin escape ρ related (pure a) (pure b) :=
  fun _ s' alike => ⟨b, s', rfl, same, alike⟩

protected lemma throw (fault : Fault) : Twin escape ρ related (throw fault) (throw fault) :=
  fun _ s' _ => .inr ⟨s', rfl⟩

protected lemma bind {next : α → EStateM Fault σ α'} {next' : β → EStateM Fault σ β'}
    (here : Twin escape ρ related first second)
    (rest : ∀ a b, related a b → Twin escape ρ related' (next a) (next' b)) :
    Twin escape ρ related' (first >>= next) (second >>= next') :=
  Leads.bind here fun a b s s' both => rest a b both.1 s s' both.2

lemma get_bind {next : σ → EStateM Fault σ α} {next' : σ → EStateM Fault σ β}
    (rest : ∀ s s', ρ s s' → Twin escape ρ related (next s) (next' s')) :
    Twin escape ρ related (get >>= next) (get >>= next') :=
  fun s s' alike => rest s s' alike s s' alike

protected lemma modify {change change' : σ → σ} (keeps : ∀ s s', ρ s s' →
    ρ (change s) (change' s')) : Twin escape ρ Eq (modify change) (modify change') :=
  fun s s' alike => ⟨⟨⟩, change' s', rfl, rfl, keeps s s' alike⟩

protected lemma modifyGet {change : σ → α × σ} {change' : σ → β × σ}
    (keeps : ∀ s s', ρ s s' → related (change s).1 (change' s').1 ∧ ρ (change s).2 (change' s').2) :
    Twin escape ρ related (modifyGet change) (modifyGet change') :=
  fun s s' alike => ⟨_, _, rfl, keeps s s' alike⟩

protected lemma ite {p : Prop} [Decidable p] {other : EStateM Fault σ α}
    {other' : EStateM Fault σ β} (yes : Twin escape ρ related first second)
    (no : Twin escape ρ related other other') :
    Twin escape ρ related (if p then first else other) (if p then second else other') := by
  split
  · exact yes
  · exact no

end Twin

/-! ## Routines and units -/

namespace Routine

variable {α β : Type}

def withStrict (r : Routine) (b : Bool) : Routine := { r with strict := b }

def Similar (r r' : Routine) : Prop := ∃ b, r' = r.withStrict b

/-- Routines that differ in strictness, with closures of these routines in their code. -/
def Creating (made : List RoutineId) (r r' : Routine) : Prop := r.Similar r' ∧ r.created.Perm made

/-- Whether an operation on a routine does not depend on its strictness, and what it adds to the
code has closures of these routines. -/
def Edit.Adds (added : List RoutineId) (edit : Edit α) : Prop :=
  ∀ made, Leads False (Creating made) (fun a b r r' => a = b ∧
    Creating (added ++ made) r r') edit edit

/-- Whether an operation on a routine does not depend on its strictness and adds no closures. -/
abbrev Edit.Plain (edit : Edit α) : Prop := edit.Adds []

namespace Edit.Adds

variable {added : List RoutineId}

protected lemma pure (a : α) : Edit.Plain (pure a) := fun _ => Twin.pure rfl

protected lemma throw (fault : Fault) : Edit.Adds added (throw fault : Edit α) :=
  fun _ _ r' _ => .inr ⟨r', rfl⟩

protected lemma ite {p : Prop} [Decidable p] {edit other : Edit α} (yes : edit.Adds added)
    (no : other.Adds added) : Edit.Adds added (if p then edit else other) := by
  split
  · exact yes
  · exact no

protected lemma bind {edit : Edit α} {next : α → Edit β} (here : edit.Plain)
    (rest : ∀ a, (next a).Adds added) : Edit.Adds added (edit >>= next) :=
  fun made => (here made).bind fun a _ r r' both => both.1 ▸ rest a made r r' both.2

lemma seq {edit : Edit α} {next : α → Edit β} (here : edit.Plain)
    (rest : ∀ {a}, (next a).Adds added) : Edit.Adds added (edit >>= next) :=
  .bind here fun _ => rest

lemma guard {p : Prop} [Decidable p] {fault : Fault} {next : PUnit → Edit α}
    (rest : (next ⟨⟩).Adds added) : Edit.Adds added (if p then throw fault >>= next else next ⟨⟩) :=
  .ite (.bind (.throw fault) fun _ => rest) rest

lemma look {next : Routine → Edit α} (same : ∀ r b, next (r.withStrict b) = next r)
    (rest : ∀ r, (next r).Adds added) : Edit.Adds added (get >>= next) := by
  rintro made r _ alike
  obtain ⟨b, rfl⟩ := alike.1
  rw [Runs.get_bind, Runs.get_bind, same r b]
  exact rest r made r _ alike

lemma change {f : Routine → Routine} (same : ∀ r b, f (r.withStrict b) = (f r).withStrict b)
    (keeps : ∀ r, (f r).created = r.created) : Edit.Plain (modify f) :=
  fun _ => Twin.modify fun r _ alike => by
    obtain ⟨⟨b, rfl⟩, made⟩ := alike
    exact ⟨⟨b, same r b⟩, keeps r ▸ made⟩

lemma takes {f : Routine → α × Routine}
    (same : ∀ r b, f (r.withStrict b) = ((f r).1, (f r).2.withStrict b))
    (keeps : ∀ r, (f r).2.created = r.created) : Edit.Plain (modifyGet f) :=
  fun _ => Twin.modifyGet fun r _ alike => by
    obtain ⟨⟨b, rfl⟩, made⟩ := alike
    rw [same r b]
    exact ⟨rfl, ⟨b, rfl⟩, keeps r ▸ made⟩

lemma ask {question : Routine → Except Fault α}
    (same : ∀ r b, question (r.withStrict b) = question r) : Edit.Plain (Routine.ask question) := by
  rintro made r _ alike
  obtain ⟨b, rfl⟩ := alike.1
  simp only [Routine.ask, same]
  cases question r with
  | ok a => exact ⟨a, _, rfl, rfl, alike⟩
  | error fault => exact .inr ⟨_, rfl⟩

end Edit.Adds

open Edit (Plain)

lemma newLabel_plain : Plain newLabel := .takes (fun _ _ => rfl) fun _ => rfl

lemma addParam_plain : Plain addParam := .takes (fun _ _ => rfl) fun _ => rfl

lemma newVariable_plain (name : String) (param : Option ParamId) :
    Plain (newVariable name param) := .takes (fun _ _ => rfl) fun _ => rfl

lemma newTryIndex_plain : Plain newTryIndex := .takes (fun _ _ => rfl) fun _ => rfl

lemma openBlock_plain : Plain openBlock := .change (fun _ _ => rfl) created_openBlock

lemma pushPrologue_plain {i : Instruction} (plain : i.created? = none) : Plain (pushPrologue i) :=
  .change (fun _ _ => rfl) fun r => r.created_modify _ fun b => by simp [Block.created, plain]

lemma pushTo_adds (block : BlockId) (i : Instruction) :
    (pushTo block i).Adds i.created?.toList := by
  refine fun made => .get_bind ?_
  rintro r _ ⟨⟨b, rfl⟩, tally⟩
  rw [show (r.withStrict b).blocks = r.blocks from rfl]
  cases found : r.blocks[block]? with
  | none => exact fun _ r' _ => .inr ⟨r', rfl⟩
  | some old =>
    dsimp only
    split
    · exact fun _ r' _ => .inr ⟨r', rfl⟩
    · rintro _ _ ⟨rfl, rfl⟩
      exact ⟨⟨⟩, _, rfl, rfl, ⟨b, rfl⟩, (created_push _ _ (lt_size found)).trans
        (tally.append_left _)⟩

lemma close_plain (block : BlockId) (jump : Jump) : Plain (close block jump) := by
  refine .look (fun _ _ => rfl) fun r => ?_
  cases r.blocks[block]? with
  | none => exact .throw _
  | some b => exact .guard (.change (fun _ _ => rfl) fun r => r.created_modify _ fun _ => rfl)

lemma ensureOpen_plain : Plain ensureOpen :=
  .look (fun _ _ => rfl) fun _ => .ite openBlock_plain (.pure _)

lemma push_adds (i : Instruction) : (push i).Adds i.created?.toList :=
  .look (fun _ _ => rfl) fun _ => .guard <| ensureOpen_plain.seq <|
    .look (fun _ _ => rfl) fun r => pushTo_adds r.current i

lemma push_plain {i : Instruction} (plain : i.created? = none) : Plain (push i) := by
  have adds := push_adds i
  rwa [plain] at adds

lemma setJump_plain (jump : Jump) : Plain (setJump jump) :=
  ensureOpen_plain.seq <| .look (fun _ _ => rfl) fun r => close_plain r.current jump

lemma goto_plain (label : Label) : Plain (goto label) := setJump_plain _

lemma place_plain (label : Label) : Plain (place label) := by
  refine .bind (.ask fun _ _ => rfl) fun block => ?_
  cases block with
  | some => exact .throw _
  | none =>
    have mark : Plain (do
        if !(← get).currentBlock.isEmpty then throw .labelInsideBlock
        modify fun r => { r with labels := r.labels.setIfInBounds label (some r.current) }) :=
      .look (fun _ _ => rfl) fun _ => .guard (.change (fun _ _ => rfl) fun _ => rfl)
    exact .look (fun _ _ => rfl) fun _ => .ite (openBlock_plain.seq <| mark)
      (.ite ((goto_plain _).seq <| openBlock_plain.seq <| mark) mark)

lemma allocTemp_plain : Plain allocTemp := by
  refine .look (fun _ _ => rfl) fun r => ?_
  cases r.freeTemps with
  | cons id rest => exact .bind (.change (fun _ _ => rfl) fun _ => rfl) fun _ => .pure _
  | nil => exact .bind (.takes (fun _ _ => rfl) fun _ => rfl) fun _ => .pure _

lemma holdsTemp_plain (a : Operand) : Plain (ask (·.holdsTemp a)) :=
  .ask fun _ _ => by cases a <;> rfl

lemma release_plain (a : Operand) : Plain (release a) := by
  refine .bind (holdsTemp_plain a) fun temp => .ite ?_ (.pure _)
  cases a with
  | cell id => exact .look (fun _ _ => rfl) fun _ => .guard (.change (fun _ _ => rfl) fun _ => rfl)
  | _ => exact .pure _

lemma allocSpecific_plain (a : Operand) : Plain (allocSpecific a) := by
  cases a with
  | cell id => exact .look (fun _ _ => rfl) fun _ => .guard (.change (fun _ _ => rfl) fun _ => rfl)
  | _ => exact .throw _

lemma assign_plain (dest source : Operand) : Plain (assign dest source) :=
  .ite (push_plain rfl) (.pure _)

lemma binary_plain (op : Opcode) (dest left right : Operand) :
    Plain (binary op dest left right) := by
  unfold binary
  refine .guard ?_
  refine .bind (.ask fun _ _ => rfl) fun folded => ?_
  cases folded with
  | some value => exact assign_plain _ _
  | none => exact .ite (push_plain rfl) (push_plain rfl)

lemma unary_plain (op : Opcode) (dest arg : Operand) : Plain (unary op dest arg) := by
  unfold unary
  refine .guard ?_
  refine .bind (.ask fun _ _ => rfl) fun folded => ?_
  cases folded with
  | some value => exact assign_plain _ _
  | none => exact push_plain rfl

lemma branchTaken_plain (taken : Bool) (onTrue onFalse : Label) :
    Plain (branchTaken taken onTrue onFalse) :=
  (goto_plain _).seq <| .pure _

lemma branchCompare_plain (op : Opcode) (left right : Operand) (onTrue onFalse : Label) :
    Plain (branchCompare op left right onTrue onFalse) := by
  refine .bind (.ask fun _ _ => rfl) fun folded => ?_
  split
  · exact branchTaken_plain _ _ _
  · exact .bind (.ask fun _ _ => rfl) fun _ =>
      .ite ((setJump_plain _).seq <| .pure _) ((setJump_plain _).seq <| .pure _)

lemma branchTrue_plain (value : Operand) (onTrue onFalse : Label) :
    Plain (branchTrue value onTrue onFalse) := by
  unfold branchTrue
  split
  · exact branchTaken_plain _ _ _
  · exact (setJump_plain _).seq <| .pure _

lemma stage_plain (slot : SlotId) (args : List Operand) : Plain (stage slot args) := by
  induction args generalizing slot with
  | nil => exact .pure _
  | cons a rest ih => exact (push_plain rfl).seq <| ih _

lemma call_plain (dest : Option Operand) (callee : Callee) (receiver : Operand)
    (args : List Operand) : Plain (call dest callee receiver args) :=
  .bind (.change (fun _ _ => rfl) fun _ => rfl) fun _ => (stage_plain _ _).seq <| push_plain rfl

lemma ret_plain (value : Operand) : Plain (ret value) := (assign_plain _ _).seq <| goto_plain _

lemma finish_plain : Plain finish :=
  (place_plain _).seq <| (setJump_plain _).seq <| .change (fun _ _ => rfl) fun _ => rfl

lemma layOut_plain : Plain (modify layOut) := .change (fun _ _ => rfl) created_layOut

lemma Similar.relaxed {r r' : Routine} (similar : r.Similar r') :
    r'.withStrict false = r.withStrict false := by
  obtain ⟨b, rfl⟩ := similar
  rfl

lemma similar_of_relaxed {r r' : Routine} (same : r'.withStrict false = r.withStrict false) :
    r.Similar r' :=
  ⟨r'.strict, (congrArg (·.withStrict r'.strict) same : _)⟩

end Routine

namespace CodeUnit

variable {α β : Type}

/-- A unit with the strictness of its routines forgotten. -/
def relaxed (u : CodeUnit) : CodeUnit := { u with routines := u.routines.map (·.withStrict false) }

/-- Units that differ in the strictness of their routines, and only if `lax` says so. -/
def Similar (lax : Bool) (u u' : CodeUnit) : Prop :=
  if lax then u'.relaxed = u.relaxed else u' = u

/-- Units that differ in the strictness of their routines at most, with these routines left without
a closure. -/
def Balanced (lax : Bool) (bare : List RoutineId) (u u' : CodeUnit) : Prop :=
  Similar lax u u' ∧ u.Lacks bare

/-- Whether an operation on a unit does not depend on the strictness of its routines, and creates
closures of these. -/
def Edit.Adds (added : List RoutineId) (edit : Edit α) : Prop := ∀ lax bare,
  Leads False (Balanced lax (added ++ bare)) (fun a b u u' => a = b ∧
    Balanced lax bare u u') edit edit

abbrev Edit.Plain (edit : Edit α) : Prop := edit.Adds []

variable {bare added : List RoutineId}

lemma similar_refl (lax : Bool) (u : CodeUnit) : Similar lax u u := by
  rw [Similar]
  split <;> rfl

lemma leads_of_relaxed {edit : Edit α} {left : α → List RoutineId}
    (leads : Leads False (Balanced true bare)
      (fun a b u u' => a = b ∧ Balanced true (left a) u u') edit edit) (lax : Bool) :
    Leads False (Balanced lax bare) (fun a b u u' => a = b ∧
      Balanced lax (left a) u u') edit edit := by
  cases lax with
  | true => exact leads
  | false =>
    rintro u u' ⟨same, lacks⟩
    obtain rfl : u' = u := by simpa [Similar] using same
    have step := leads u' u' ⟨similar_refl _ _, lacks⟩
    cases run : edit u' with
    | ok a t =>
      rw [run] at step
      obtain ⟨_, _, -, -, -, lacks'⟩ := step
      exact ⟨a, t, rfl, rfl, similar_refl _ _, lacks'⟩
    | error fault t => exact .inr ⟨t, rfl⟩

lemma similar_iff {u u' : CodeUnit} : Similar true u u' ↔
    u'.strings = u.strings ∧ u'.headers = u.headers ∧
      u'.routines.map (·.withStrict false) = u.routines.map (·.withStrict false) := by
  simp only [Similar, relaxed, if_true, mk.injEq]
  constructor
  · rintro ⟨routines, strings, headers⟩
    exact ⟨strings, headers, routines⟩
  · rintro ⟨strings, headers, routines⟩
    exact ⟨routines, strings, headers⟩

lemma Similar.routine {u u' : CodeUnit} (similar : Similar true u u') (id : RoutineId) :
    (u.routines[id]? = none ∧ u'.routines[id]? = none) ∨
      ∃ r r', u.routines[id]? = some r ∧ u'.routines[id]? = some r' ∧ r.Similar r' := by
  have same := congrArg (·[id]?) (similar_iff.mp similar).2.2
  simp only [Array.getElem?_map] at same
  cases found : u.routines[id]? with
  | none =>
    rw [found, Option.map_none, Option.map_eq_none_iff] at same
    exact .inl ⟨rfl, same⟩
  | some r =>
    rw [found] at same
    obtain ⟨r', found', equal⟩ := Option.map_eq_some_iff.mp same
    exact .inr ⟨r, r', rfl, found', Routine.similar_of_relaxed equal⟩

lemma Similar.set {u u' : CodeUnit} (similar : Similar true u u') {r r' : Routine}
    (same : r.Similar r') (id : RoutineId) :
    Similar true { u with routines := u.routines.setIfInBounds id r }
      { u' with routines := u'.routines.setIfInBounds id r' } := by
  obtain ⟨strings, headers, routines⟩ := similar_iff.mp similar
  refine similar_iff.mpr ⟨strings, headers, ?_⟩
  rw [Array.map_setIfInBounds, Array.map_setIfInBounds, routines, same.relaxed]

lemma inRoutine_adds (id : RoutineId) {edit : Routine.Edit α} (adds : edit.Adds added) :
    Edit.Adds added (inRoutine id edit) := by
  refine fun lax bare => leads_of_relaxed ?_ lax
  rintro u u' ⟨similar, lacks⟩
  rw [inRoutine, inRoutine]
  rcases similar.routine id with ⟨none, none'⟩ | ⟨r, r', found, found', same⟩
  · simp only [none, none']
    exact .inr ⟨u', rfl⟩
  · have step := adds _ r r' ⟨same, .refl _⟩
    simp only [found, found', EStateM.run]
    cases run : edit r with
    | ok a t =>
      rw [run] at step
      obtain ⟨_, t', run', rfl, same', made⟩ := step
      simp only [run']
      exact ⟨a, _, rfl, rfl, similar.set same' id, lacks.set found made⟩
    | error fault t =>
      rw [run] at step
      obtain ⟨t', run'⟩ := step.resolve_left not_false
      simp only [run']
      exact .inr ⟨_, rfl⟩

lemma Similar.size {u u' : CodeUnit} (similar : Similar true u u') :
    u'.routines.size = u.routines.size := by
  have same := congrArg Array.size (similar_iff.mp similar).2.2
  rwa [Array.size_map, Array.size_map] at same

lemma modifyVariable_plain (id : VariableId) (change : Variable → Variable) :
    Edit.Plain (modifyVariable id change) := by
  have vary : Edit.Plain (inRoutine id.routine <| modify fun r =>
      { r with vars := r.vars.modify id.index change }) :=
    inRoutine_adds _ (.change (fun _ _ => rfl) fun _ => rfl)
  refine fun lax bare => leads_of_relaxed (Twin.get_bind fun u u' balanced => ?_) lax
  have same : u'.getVariable id = u.getVariable id := by
    rcases balanced.1.routine id.routine with ⟨none, none'⟩ | ⟨r, r', found, found', b, rfl⟩
    · simp only [getVariable, routine, none, none']
    · simp only [getVariable, routine, found, found']
      rfl
  rw [same]
  cases u.getVariable id with
  | error fault => exact .throw fault
  | ok => exact vary true bare

lemma layOut_plain (id : RoutineId) : Edit.Plain (layOut id) :=
  inRoutine_adds id Routine.layOut_plain

lemma addHeader_plain (text : String) : Edit.Plain (modify (·.addHeader text)) := by
  refine fun lax bare => leads_of_relaxed (Twin.modify fun u u' balanced => ?_) lax
  obtain ⟨strings, headers, routines⟩ := similar_iff.mp balanced.1
  simp only [addHeader, headers]
  split
  · exact balanced
  · exact ⟨similar_iff.mpr ⟨strings, rfl, routines⟩, balanced.2⟩

lemma Similar.push {u u' : CodeUnit} (similar : Similar true u u') {r r' : Routine}
    (same : r.Similar r') : Similar true { u with routines := u.routines.push r }
      { u' with routines := u'.routines.push r' } := by
  obtain ⟨strings, headers, routines⟩ := similar_iff.mp similar
  refine similar_iff.mpr ⟨strings, headers, ?_⟩
  rw [Array.map_push, Array.map_push, routines, same.relaxed]

lemma newRoutine_leads {lax : Bool} (parent : Option RoutineId) (name : Option String)
    {strict strict' : Bool} (same : lax = false → strict' = strict) :
    Leads False (Balanced lax bare) (fun id id' u u' => id = id' ∧ Balanced lax (id :: bare) u u')
      (newRoutine parent name strict) (newRoutine parent name strict') := by
  have relaxed (strict strict' : Bool) : Leads False (Balanced true bare)
      (fun id id' u u' => id = id' ∧ Balanced true (id :: bare) u u')
      (newRoutine parent name strict) (newRoutine parent name strict') := by
    rintro u u' ⟨similar, lacks⟩
    cases parent with
    | some outer =>
      rcases similar.routine outer with ⟨none, none'⟩ | ⟨r, r', found, found', b, rfl⟩
      · rw [newRoutine, newRoutine, Runs.get_bind, Runs.get_bind]
        simp only [bind, EStateM.bind, inRoutine, none, none']
        exact .inr ⟨u', rfl⟩
      · rw [newRoutine_run found, newRoutine_run found', similar.size]
        exact ⟨_, _, rfl, rfl, (similar.set ⟨b, rfl⟩ outer).push ⟨strict', rfl⟩,
          lacks.nest found rfl rfl⟩
    | none =>
      rw [newRoutine, newRoutine, Runs.get_bind, Runs.get_bind, similar.size]
      by_cases more : u.routines.size ≠ 0
      · simp only [if_pos more]
        exact .inr ⟨u', rfl⟩
      · simp only [if_neg more]
        exact ⟨_, _, rfl, rfl, similar.push ⟨strict', rfl⟩, lacks.push rfl⟩
  cases lax with
  | false => exact same rfl ▸ leads_of_relaxed (relaxed strict strict) false
  | true => exact relaxed strict strict'

end CodeUnit

/-! ## States -/

namespace Variation

variable (c : Variation) {α β α' β' : Type}

def movedBinding (b : Binding) : Binding := { b with declaredAt := b.declaredAt.map c.range }

def movedScopes (t : ScopeTree) : ScopeTree := { t with bindings := t.bindings.map c.movedBinding }

def movedDiagnostic (d : Diagnostic) : Diagnostic := { d with
    span := { d.span with range := c.range d.span.range }
    pointers := d.pointers.map fun p =>
      { p with span := { p.span with range := c.range p.span.range } } }

/-- The reports of two lowerings: the same at varied places, but what is an error in strict code may
be something else in code that is less strict. -/
structure Reports (log log' : Log) : Prop where
  file : log'.file = log.file
  entries : List.Forall₂ (fun d d' => d' = c.movedDiagnostic d ∨ c.lax = true ∧ d.isError = true)
    log.entries.toList log'.entries.toList

/-- What was before in the first of two lowerings: the errors, and the routines without a
closure. -/
structure Past where
  errors : Nat
  bare : List RoutineId

def Past.with (past : Past) (id : RoutineId) : Past := { past with bare := id :: past.bare }

/-- The states of two lowerings that have gone alike. The first one has no fewer errors than before,
and closures of the same routines are left to create. -/
structure Alike (past : Past) (s s' : Lowering) : Prop where
  unit : CodeUnit.Similar c.lax s.unit s'.unit
  scopes : s'.scopes = c.movedScopes s.scopes
  log : c.Reports s.log s'.log
  frame : s'.frame = { s.frame with strict := s'.frame.strict }
  laxer : s'.frame.strict = true → s.frame.strict = true
  strict : c.lax = false → s'.frame.strict = s.frame.strict
  topScope : s'.topScope = s.topScope
  errors : past.errors ≤ s.log.errorCount
  lacks : s.unit.Lacks past.bare

/-- Whether the code of one lowering matches that of the other. No error is taken back, and every
new routine gets one closure. -/
def Sim (related : α → β → Prop) (code : Lower α) (code' : Lower β) : Prop :=
  ∀ past, Twin (c.fill = true) (c.Alike past) related code code'

def Same (code code' : Lower α) : Prop := c.Sim Eq code code'

abbrev Stable (code : Lower α) : Prop := c.Same code code

/-- Whether the code of one lowering matches that of the other and leaves a new routine without a
closure. -/
def Makes (code code' : Lower RoutineId) : Prop := ∀ past, Leads (c.fill = true) (c.Alike past)
  (fun id id' s s' => id = id' ∧ c.Alike (past.with id) s s') code code'

/-- Whether the code of one lowering matches that of the other and creates the closure of a routine
that has none. -/
def Closes (id : RoutineId) (code code' : Lower α) : Prop := ∀ past, Leads (c.fill = true)
  (c.Alike (past.with id)) (fun a b s s' => a = b ∧ c.Alike past s s') code code'

variable {c} {related : α → β → Prop} {related' : α' → β' → Prop} {code : Lower α} {code' : Lower β}

namespace Sim

protected lemma pure {a : α} {b : β} (same : related a b) : c.Sim related (pure a) (pure b) :=
  fun _ => .pure same

protected lemma throw (fault : Fault) : c.Sim related (throw fault) (throw fault) :=
  fun _ => .throw fault

lemma stops (fill : c.fill = true) (fault : Fault) : c.Sim related (throw fault) code' :=
  fun _ _ _ _ => .inl fill

protected lemma bind {next : α → Lower α'} {next' : β → Lower β'} (here : c.Sim related code code')
    (rest : ∀ a b, related a b → c.Sim related' (next a) (next' b)) :
    c.Sim related' (code >>= next) (code' >>= next') :=
  fun past => (here past).bind fun a b same => rest a b same past

lemma get_bind {next : Lowering → Lower α} {next' : Lowering → Lower β}
    (rest : ∀ n s s', c.Alike n s s' → c.Sim related (next s) (next' s')) :
    c.Sim related (get >>= next) (get >>= next') :=
  fun past => .get_bind fun s s' alike => rest past s s' alike past

protected lemma ite {p : Prop} [Decidable p] {other : Lower α} {other' : Lower β}
    (yes : c.Sim related code code') (no : c.Sim related other other') :
    c.Sim related (if p then code else other) (if p then code' else other') :=
  fun past => .ite (yes past) (no past)

end Sim

namespace Same

variable {code code' other other' : Lower α}

protected lemma pure (a : α) : c.Stable (pure a) := Sim.pure rfl

protected lemma throw (fault : Fault) : c.Same (throw fault : Lower α) (throw fault) :=
  Sim.throw fault

protected lemma bind {next next' : α → Lower β} (here : c.Same code code')
    (rest : ∀ a, c.Same (next a) (next' a)) : c.Same (code >>= next) (code' >>= next') :=
  Sim.bind here fun a _ same => same ▸ rest a

lemma seq {next next' : α → Lower β} (here : c.Same code code')
    (rest : ∀ {a}, c.Same (next a) (next' a)) : c.Same (code >>= next) (code' >>= next') :=
  .bind here fun _ => rest

lemma last {f : α → β} (here : c.Same code code') :
    c.Same (code >>= fun a => Pure.pure (f a)) (code' >>= fun a => Pure.pure (f a)) :=
  here.seq <| .pure _

lemma after {first : Lower α'} {second : Lower β'} {next : α' → Lower α} {next' : β' → Lower α}
    (here : c.Sim related' first second) (rest : ∀ a b, related' a b → c.Same (next a) (next' b)) :
    c.Same (first >>= next) (second >>= next') :=
  Sim.bind here rest

lemma sim {next next' : α → Lower β} {related : β → β → Prop} (here : c.Same code code')
    (rest : ∀ a, c.Sim related (next a) (next' a)) :
    c.Sim related (code >>= next) (code' >>= next') :=
  Sim.bind here fun a _ same => same ▸ rest a

lemma look {next next' : Lowering → Lower α}
    (rest : ∀ n s s', c.Alike n s s' → c.Same (next s) (next' s')) :
    c.Same (get >>= next) (get >>= next') :=
  Sim.get_bind rest

protected lemma ite {p : Prop} [Decidable p] (yes : c.Same code code') (no : c.Same other other') :
    c.Same (if p then code else other) (if p then code' else other') :=
  Sim.ite yes no

lemma when {p : Prop} [Decidable p] {first first' : Lower PUnit} {next next' : PUnit → Lower α}
    (here : c.Same first first') (rest : c.Same (next ⟨⟩) (next' ⟨⟩)) :
    c.Same (if p then first >>= next else next ⟨⟩) (if p then first' >>= next' else next' ⟨⟩) :=
  .ite (here.seq <| rest) rest

end Same

section

variable {id : RoutineId} {first first' : Lower RoutineId} {next next' : α → Lower β}

lemma Makes.bind {next next' : RoutineId → Lower RoutineId} (here : c.Makes first first')
    (rest : ∀ id, c.Sim (fun a b => a = id ∧ b = id) (next id) (next' id)) :
    c.Makes (first >>= next) (first' >>= next') := by
  refine fun past => (here past).bind ?_
  rintro id _ s s' ⟨rfl, alike⟩
  refine Leads.weaken (rest id _) ?_ s s' alike
  rintro a b t t' ⟨⟨rfl, rfl⟩, alike'⟩
  exact ⟨rfl, alike'⟩

lemma Makes.look {next next' : Lowering → Lower RoutineId}
    (rest : ∀ past s s', c.Alike past s s' → c.Makes (next s) (next' s')) :
    c.Makes (get >>= next) (get >>= next') :=
  fun past => .get_bind fun s s' alike => by
    rintro _ _ ⟨rfl, rfl⟩
    exact rest past _ _ alike past _ _ alike

lemma Makes.when {p : Prop} [Decidable p] {code code' : Lower PUnit}
    {next next' : PUnit → Lower RoutineId} (here : c.Same code code')
    (rest : c.Makes (next ⟨⟩) (next' ⟨⟩)) :
    c.Makes (if p then code >>= next else next ⟨⟩) (if p then code' >>= next' else next' ⟨⟩) := by
  split
  · exact fun past => .bind (here past) fun _ _ s s' both => rest past s s' both.2
  · exact rest

lemma Makes.closed {next next' : RoutineId → Lower β} (here : c.Makes first first')
    (rest : ∀ id, c.Closes id (next id) (next' id)) : c.Same (first >>= next) (first' >>= next') :=
  fun past => (here past).bind fun id _ s s' both => both.1 ▸ rest id past s s' both.2

lemma Same.closes {code code' : Lower α} (here : c.Same code code')
    (rest : ∀ a, c.Closes id (next a) (next' a)) : c.Closes id (code >>= next) (code' >>= next') :=
  fun past => .bind (here (past.with id)) fun a _ s s' both => both.1 ▸ rest a past s s' both.2

lemma Closes.seq {code code' : Lower α} (here : c.Closes id code code')
    (rest : ∀ {a}, c.Same (next a) (next' a)) : c.Closes id (code >>= next) (code' >>= next') :=
  fun past => (here past).bind fun _ _ s s' both => both.1 ▸ rest past s s' both.2

end

/-! ### The unit, the scopes and the log -/

lemma inUnit_leads {edit edit' : CodeUnit.Edit α} {past : Past} {left : α → List RoutineId}
    (leads : Leads False (CodeUnit.Balanced c.lax past.bare)
      (fun a b u u' => a = b ∧ CodeUnit.Balanced c.lax (left a) u u') edit edit') :
    Leads (c.fill = true) (c.Alike past)
      (fun a b s s' => a = b ∧ c.Alike { past with bare := left a } s s') (inUnit edit)
        (inUnit edit') := by
  intro s s' alike
  have step := leads s.unit s'.unit ⟨alike.unit, alike.lacks⟩
  simp only [inUnit, EStateM.run]
  cases run : edit s.unit with
  | ok a u =>
    rw [run] at step
    obtain ⟨_, u', run', rfl, same, lacks⟩ := step
    rw [run']
    exact ⟨a, _, rfl, rfl, { alike with unit := same, lacks := lacks }⟩
  | error fault u =>
    rw [run] at step
    obtain ⟨u', run'⟩ := step.resolve_left not_false
    rw [run']
    exact .inr ⟨_, rfl⟩

lemma inUnit_sim {edit : CodeUnit.Edit α} (plain : edit.Plain) : c.Stable (inUnit edit) :=
  fun past => inUnit_leads (plain c.lax past.bare)

lemma newRoutine_makes (parent : Option RoutineId) (name : Option String) {strict strict' : Bool}
    (same : c.lax = false → strict' = strict) :
    c.Makes (inUnit (newRoutine parent name strict))
      (inUnit (newRoutine parent name strict')) :=
  fun _ => inUnit_leads (newRoutine_leads parent name same)

lemma inCode_sim {edit : Routine.Edit α} (plain : edit.Plain) : c.Stable (inCode edit) :=
  .look fun _ s s' alike => by
    rw [alike.frame]
    exact inUnit_sim (inRoutine_adds _ plain)

lemma closure_closes {dest : Operand} {routine : RoutineId} :
    c.Closes routine (push (.closure dest routine)) (push (.closure dest routine)) := by
  intro past
  have adds (id : RoutineId) : Leads (c.fill = true) (c.Alike (past.with routine))
      (fun a b s s' => a = b ∧ c.Alike past s s')
      (inUnit (inRoutine id (Routine.push (.closure dest routine))))
      (inUnit (inRoutine id (Routine.push (.closure dest routine)))) :=
    inUnit_leads (inRoutine_adds id (Routine.push_adds (.closure dest routine)) c.lax
      past.bare)
  refine .get_bind fun s s' alike => ?_
  rw [alike.frame]
  rintro _ _ ⟨rfl, rfl⟩
  exact adds _ _ _ alike

lemma inScopes_sim {edit : ScopeTree.Edit α} {edit' : ScopeTree.Edit β}
    (twin : Twin False (fun t t' => t' = c.movedScopes t) related edit edit') :
    c.Sim related (inScopes edit) (inScopes edit') := by
  intro n s s' alike
  have step := twin s.scopes s'.scopes alike.scopes
  simp only [inScopes, EStateM.run]
  cases run : edit s.scopes with
  | ok a t =>
    rw [run] at step
    obtain ⟨b, t', run', same, moved⟩ := step
    rw [run']
    exact ⟨b, _, rfl, same, { alike with scopes := moved }⟩
  | error fault t =>
    rw [run] at step
    obtain ⟨t', run'⟩ := step.resolve_left not_false
    rw [run']
    exact .inr ⟨_, rfl⟩

lemma askScopes_sim {question : ScopeTree → Except Fault α} {question' : ScopeTree → Except Fault β}
    {change : α → β} (same : ∀ t, question' (c.movedScopes t) = change <$> question t) :
    c.Sim (fun a b => b = change a) (askScopes question) (askScopes question') := by
  refine inScopes_sim fun t t' moved => ?_
  subst moved
  simp only [ScopeTree.ask, same]
  cases question t with
  | ok a => exact ⟨change a, _, rfl, rfl, rfl⟩
  | error fault => exact .inr ⟨_, rfl⟩

section

variable {question : ScopeTree → Except Fault α}
  (same : ∀ t, question (c.movedScopes t) = question t)
include same

lemma ask_twin : Twin False (fun t t' => t' = c.movedScopes t) Eq (ScopeTree.ask question)
      (ScopeTree.ask question) := by
  rintro t _ rfl
  simp only [ScopeTree.ask, same]
  cases question t with
  | ok a => exact ⟨a, _, rfl, rfl, rfl⟩
  | error fault => exact .inr ⟨_, rfl⟩

lemma askScopes_same : c.Stable (askScopes question) := inScopes_sim (ask_twin same)

end

lemma modifyFrame_sim {change : Frame → Frame}
    (same : ∀ f b, change { f with strict := b } = { change f with strict := b })
    (keeps : ∀ f, (change f).strict = f.strict) : c.Stable (modifyFrame change) :=
  fun _ => .modify fun s s' alike => { alike with
    frame := by
      rw [keeps, ← same]
      exact congrArg change alike.frame
    laxer := by
      rw [keeps, keeps]
      exact alike.laxer
    strict := fun exact => by
      rw [keeps, keeps]
      exact alike.strict exact }

lemma modifyLog_sim {change change' : Log → Log}
    (keeps : ∀ log log', c.Reports log log' → c.Reports (change log) (change' log'))
    (rises : ∀ log, log.errorCount ≤ (change log).errorCount) :
    c.Same (modifyLog change) (modifyLog change') :=
  fun _ => .modify fun s _ alike => { alike with
    log := keeps _ _ alike.log
    errors := Nat.le_trans alike.errors (rises s.log) }

/-! ### Reports -/

lemma Reports.push {log log' : Log} (reports : c.Reports log log') {d d' : Diagnostic}
    (same : d' = c.movedDiagnostic d ∨ c.lax = true ∧ d.isError = true) :
    c.Reports { log with entries := log.entries.push d }
      { log' with entries := log'.entries.push d' } := by
  refine ⟨reports.file, ?_⟩
  rw [Array.toList_push, Array.toList_push]
  exact List.rel_append reports.entries (.cons same .nil)

lemma report_sim (severity : Severity) (loc : Location) (message : String) :
    c.Same (modifyLog (·.report severity loc.range message))
      (modifyLog (·.report severity (c.location loc).range message)) :=
  modifyLog_sim (fun log log' reports =>
    reports.push (.inl (by simp [movedDiagnostic, reports.file])))
    fun log => log.errorCount_report severity loc.range message

variable (loc : Location)

lemma error_sim (message : String) :
    c.Same (error loc message) (error (c.location loc) message) :=
  report_sim .error loc message

lemma warn_sim (message : String) :
    c.Same (warn loc message) (warn (c.location loc) message) :=
  report_sim .warning loc message

lemma notSupported_sim (what : String) :
    c.Same (notSupported loc what) (notSupported (c.location loc) what) :=
  error_sim loc _

lemma error_lax (lax : c.lax = true) (loc : Location) (message : String) {change' : Log → Log}
    {entry : Log → Diagnostic}
    (adds : ∀ log, change' log = { log with entries := log.entries.push (entry log) }) :
    c.Same (error loc message) (modifyLog change') :=
  modifyLog_sim (fun log log' reports => by
    rw [adds]
    exact reports.push (.inr ⟨lax, rfl⟩)) fun log => log.errorCount_report .error loc.range message

lemma strictly_sim {past : Past} {s s' : Lowering} (alike : c.Alike past s s') (loc : Location)
    (message : String) {other other' : Log → Log} {entry : Log → Diagnostic}
    (adds : ∀ log, other' log = { log with entries := log.entries.push (entry log) })
    (same : c.Same (modifyLog other) (modifyLog other')) :
    c.Same (if s.frame.strict then error loc message else modifyLog other)
      (if s'.frame.strict then error (c.location loc) message
        else modifyLog other') := by
  cases strict : s.frame.strict with
  | false =>
    have strict' : s'.frame.strict = false := by
      by_contra more
      simp [alike.laxer (by simpa using more)] at strict
    simpa [strict'] using same
  | true =>
    cases strict' : s'.frame.strict with
    | true => simpa using error_sim loc message
    | false =>
      have lax : c.lax = true := by
        by_contra exact
        simp [alike.strict (by simpa using exact), strict] at strict'
      simpa using error_lax lax loc message adds

def strictNote (log : Log) (range : TextRange) (message : String) : Diagnostic :=
  { severity := .warning, code := Severity.warning.code, message, pointers := []
    span := { file := log.file, range }, notes := ["this is an error in strict mode code"] }

lemma modify_push_last {α : Type} (xs : Array α) (a : α) (f : α → α) :
    (xs.push a).modify xs.size f = xs.push (f a) := by
  apply Array.ext_getElem?
  intro i
  rw [Array.getElem?_modify, Array.getElem?_push, Array.getElem?_push]
  split
  next last => simp [last]
  next other => simp [Ne.symm other]

lemma strictReport_false (log : Log) (range : TextRange) (message : String) :
    log.strictReport false range message =
      { log with entries := log.entries.push (strictNote log range message) } := by
  simp [Log.strictReport, Log.report, Log.amendLast, strictNote, modify_push_last]

lemma strictError_sim (message : String) :
    c.Same (strictError loc message) (strictError (c.location loc) message) := by
  have same : c.Same (modifyLog (·.strictReport false loc.range message))
      (modifyLog (·.strictReport false (c.location loc).range message)) :=
    modifyLog_sim (fun log log' reports => by
      rw [strictReport_false, strictReport_false]
      exact reports.push (.inl (by simp [movedDiagnostic, strictNote, reports.file])))
      fun log => log.errorCount_strictReport false loc.range message
  refine .look fun n s s' alike => ?_
  have step := strictly_sim alike loc message
    (fun log => strictReport_false log (c.location loc).range message) same
  convert step using 1
  · cases s.frame.strict <;> rfl
  · cases s'.frame.strict <;> rfl

lemma forall₂_modify {R : α → β → Prop} {xs : List α} {ys : List β} (all : List.Forall₂ R xs ys)
    {f : α → α} {g : β → β} (keeps : ∀ a b, R a b → R (f a) (g b)) (n : Nat) :
    List.Forall₂ R (xs.modify n f) (ys.modify n g) := by
  induction all generalizing n with
  | nil => cases n <;> exact .nil
  | cons first rest ih =>
    cases n with
    | zero => exact .cons (keeps _ _ first) rest
    | succ n => exact .cons first (ih n)

lemma pointLast_sim (range : TextRange) (message : String) :
    c.Same (modifyLog (·.pointLast range message))
      (modifyLog (·.pointLast (c.range range) message)) := by
  refine modifyLog_sim (fun log log' reports => ⟨reports.file, ?_⟩) fun log => ?_
  · have sizes : log'.entries.size = log.entries.size := by
      simpa using reports.entries.length_eq.symm
    simp only [Log.pointLast, Log.amendLast, Array.toList_modify, sizes]
    refine forall₂_modify reports.entries (fun d d' same => ?_) _
    refine same.imp (fun moved => ?_) id
    simp [moved, movedDiagnostic, reports.file]
  · exact Nat.le_of_eq (log.errorCount_pointLast range message).symm

end Variation
end Scriptc
