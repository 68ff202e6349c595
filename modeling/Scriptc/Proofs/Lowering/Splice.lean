import Scriptc.Proofs.Code.Template
import Scriptc.Proofs.Lowering.Calls

/-!
# Native code of lowered code

The results and scratch bindings of native code are new temporaries, and its inputs are evaluated
like arguments of a call. Its results are written to their places in order.
-/

open List

namespace Scriptc

open SpliceEntry

namespace SpliceEntry

def nameOf? (arity : Nat) (e : Expr) : Option String :=
  match e.elements? with
  | some elements =>
    if elements.length = arity then Lowering.elementName? (elements.head?.getD none) else none
  | none => none

def named? (e : SpliceEntry) : Option NamedEntry :=
  match nameOf? 2 e.entry, e.second with
  | some name, some place => some { name, loc := e.entry.loc, place }
  | _, _ => none

def lone? (e : SpliceEntry) : Option (String × Location) :=
  (nameOf? 1 e.entry).map fun name => (name, e.entry.loc)

end SpliceEntry

namespace Memory

variable {ids : List LocalId} {id : LocalId}

variable {V : Type} (rt : Runtime V)

lemma native_eq {results inputs scratch : List Operand}
    (reads : rt.readsInputs parts results.length inputs.length scratch.length = true)
      (m : Memory V) :
    m.nativeEvent rt (results ++ inputs ++ scratch) results.length parts =
        .native parts results.length (inputs.map (m.read rt)) ∧
      nativeDests rt (results ++ inputs ++ scratch) results.length parts = results ++ scratch := by
  simp only [Runtime.readsInputs, Bool.and_eq_true, all_eq_true, mem_range,
    Bool.not_eq_true'] at reads
  obtain ⟨read, unread⟩ := reads
  have split : (results ++ inputs ++ scratch).zipIdx = results.zipIdx ++
      (inputs.zipIdx results.length ++ scratch.zipIdx (results.length + inputs.length)) := by
    simp [zipIdx_append]
  have input (b : Operand × Nat) (mem : b ∈ inputs.zipIdx results.length) :
      results.length ≤ b.2 ∧ rt.reads parts b.2 = true := by
    have low := le_snd_of_mem_zipIdx mem
    have high := snd_lt_add_of_mem_zipIdx mem
    refine ⟨low, ?_⟩
    rw [← Nat.add_sub_cancel' low]
    exact read _ (by omega)
  have rest (b : Operand × Nat) (mem : b ∈ scratch.zipIdx (results.length + inputs.length)) :
      rt.reads parts b.2 = false := by
    have low := le_snd_of_mem_zipIdx mem
    have high := snd_lt_add_of_mem_zipIdx mem
    rw [← Nat.add_sub_cancel' low]
    exact unread _ (by omega)
  have result (b : Operand × Nat) (mem : b ∈ results.zipIdx) : b.2 < results.length := by
    simpa using snd_lt_add_of_mem_zipIdx mem
  constructor
  · have dropped : (results ++ inputs ++ scratch).zipIdx.drop results.length =
        inputs.zipIdx results.length ++ scratch.zipIdx (results.length + inputs.length) := by
      rw [split, drop_left' length_zipIdx]
    rw [nativeEvent, dropped, filter_append, filter_eq_self.mpr fun b mem => (input b mem).2,
      filter_eq_nil_iff.mpr fun b mem => by simp [rest b mem], append_nil,
      ← Function.comp_def, ← map_map, zipIdx_map_fst]
  · have kept_inputs : (inputs.zipIdx results.length).filter (fun b =>
        decide (b.2 < results.length) || !rt.reads parts b.2) = [] := by
      refine filter_eq_nil_iff.mpr fun b mem => ?_
      simpa [(input b mem).2] using (input b mem).1
    rw [nativeDests, split, filter_append, filter_append, kept_inputs, nil_append,
      filter_eq_self.mpr fun b mem => by simp [result b mem],
      filter_eq_self.mpr fun b mem => by simp [rest b mem], map_append,
      zipIdx_map_fst, zipIdx_map_fst]

lemma writeAll_other (absent : id ∉ ids) (m : Memory V) (value : Nat → V) (index : Nat) :
    (m.writeAll value index (ids.map .cell)).cells id = m.cells id := by
  induction ids generalizing m index with
  | nil => rfl
  | cons other rest ih =>
    obtain ⟨ne, later⟩ := ne_and_not_mem_of_not_mem_cons absent
    exact (ih later _ _).trans (Function.update_of_ne ne _ _)

lemma cells_writeAll (ne : ids.Nodup) (m : Memory V) (value : Nat → V) (index : Nat) {k : Nat}
    (found : ids[k]? = some id) :
    (m.writeAll value index (ids.map .cell)).cells id = value (index + k) := by
  induction ids generalizing m index k with
  | nil => simp at found
  | cons first rest ih =>
    obtain ⟨new, later⟩ := nodup_cons.mp ne
    cases k with
    | zero =>
      cases found
      exact (writeAll_other new _ _ _).trans (Function.update_self _ _ _)
    | succ k =>
      have shifted := ih later (m.write (.cell first) (value index)) (index + 1)
        (by simpa using found)
      rwa [Nat.add_right_comm] at shifted

end Memory

namespace Lowering

variable {call : SpliceCall} {name : String}

variable {V : Type} {rt : Runtime V} {s s' s'' : Lowering}

/-! ## Binding lists -/

lemma entryName_reports (sound : s.Sound) (e : Expr) (arity : Nat) :
    Runs (entryName e arity) s fun name s' =>
      name = nameOf? arity e ∧ s.Reports s' := by
  have refused (message : String) : Runs (do error e.loc message; pure none) s
      fun (name : Option String) s' => name = none ∧ s.Reports s' :=
    (error_reports sound e.loc message).step fun _ _ ⟨reports, _⟩ => .pure ⟨rfl, reports⟩
  unfold entryName nameOf?
  cases e.elements? with
  | none => exact refused _
  | some es =>
    dsimp only
    split
    · cases elementName? (es.head?.getD none) with
      | some name => exact .pure ⟨rfl, .refl sound⟩
      | none => exact refused _
    · exact refused _

lemma listEntries_reports (sound : s.Sound) (whole : Expr) (list : SpliceList) :
    Runs (listEntries whole list) s fun entries s' => entries = list.getD [] ∧ s.Reports s' := by
  cases list with
  | some entries => exact .pure ⟨rfl, .refl sound⟩
  | none =>
    exact (error_reports sound whole.loc _).step fun _ _ ⟨reports, _⟩ => .pure ⟨rfl, reports⟩

lemma pairEntries_reports (entries : List SpliceEntry) {s : Lowering} (sound : s.Sound) :
    Runs (pairEntries entries) s fun named s' =>
      named = entries.filterMap named? ∧ s.Reports s' := by
  induction entries generalizing s with
  | nil => exact .pure ⟨rfl, .refl sound⟩
  | cons e rest ih =>
    refine (entryName_reports sound e.entry 2).step ?_
    rintro _ s1 ⟨rfl, first⟩
    have dropped {s2 : Lowering} (here : e.named? = none) (before : s.Reports s2) :
        Runs (pairEntries rest) s2 fun named s' =>
          named = (e :: rest).filterMap named? ∧ s.Reports s' :=
      (ih before.moves.sound).mono fun named s' ⟨same, after⟩ =>
        ⟨by rw [same, filterMap_cons_none here], before.trans after⟩
    split
    next name place named second =>
      have here : e.named? = some { name, loc := e.entry.loc, place } := by
        simp only [named?, named, second]
      refine (ih first.moves.sound).step fun others s2 ⟨same, after⟩ => ?_
      exact .pure ⟨by rw [same, filterMap_cons_some here], first.trans after⟩
    next name named second =>
      refine (error_reports first.moves.sound _ _).step fun _ s2 ⟨reports, _⟩ => ?_
      exact dropped (by simp only [named?, named, second]) (first.trans reports)
    next named => exact dropped (by simp only [named?, named]) first

lemma nameEntries_reports (entries : List SpliceEntry) {s : Lowering} (sound : s.Sound) :
    Runs (nameEntries entries) s fun names s' =>
      names = entries.filterMap lone? ∧ s.Reports s' := by
  induction entries generalizing s with
  | nil => exact .pure ⟨rfl, .refl sound⟩
  | cons e rest ih =>
    refine (entryName_reports sound e.entry 1).step ?_
    rintro _ s1 ⟨rfl, first⟩
    split
    next name named =>
      have here : e.lone? = some (name, e.entry.loc) := by
        simp only [lone?, named, Option.map_some]
      refine (ih first.moves.sound).step fun others s2 ⟨same, after⟩ => ?_
      exact .pure ⟨by rw [same, filterMap_cons_some here], first.trans after⟩
    next unnamed =>
      have here : e.lone? = none := by simp only [lone?, unnamed, Option.map_none]
      exact (ih first.moves.sound).mono fun names s' ⟨same, after⟩ =>
        ⟨by rw [same, filterMap_cons_none here], first.trans after⟩

lemma tempBindings_moves (names : List (String × Location)) {s : Lowering} (sound : s.Sound) :
    Runs (tempBindings names) s fun bindings s' =>
      bindings.map (·.name) = names.map (·.1) ∧
        (∃ ids : List LocalId, bindings.map (·.value) = ids.map .cell) ∧
          s.Moves s' { given := bindings.map (·.value) } ∧ s.Quiet s' := by
  induction names generalizing s with
  | nil => exact .pure ⟨rfl, ⟨[], rfl⟩, .refl sound, .refl s⟩
  | cons first rest ih =>
    refine (allocTemp_moves sound).step ?_
    rintro _ s1 ⟨⟨id, rfl⟩, fresh, quiet⟩
    refine (ih fresh.sound).step fun bindings s2 ⟨named, ⟨ids, values⟩, moves, after⟩ => ?_
    have both := fresh.andThen moves
    refine .pure ⟨?_, ⟨id :: ids, ?_⟩, ?_, quiet.trans after⟩
    · rw [map_cons, map_cons, named]
    · rw [map_cons, map_cons, values]
    · exact both.reorder (perm_append_singleton _ _)

lemma inputBindings_eq (entries : List NamedEntry) : inputBindings entries = (do
      let values ← evalArguments (entries.map fun e => .value e.place.whole)
      pure (entries.zipWith (fun e value => { name := e.name, loc := e.loc, value }) values)) := by
  induction entries with
  | nil => rfl
  | cons e rest ih =>
    have simple : (rest.map fun e => .value e.place.whole).all ArgumentCode.isSimple =
        rest.all (·.place.whole.isSimple) := by
      rw [all_map]
      rfl
    simp only [inputBindings, map_cons, evalArguments, ih, simple, bind_assoc, pure_bind,
      zipWith_cons_cons]

lemma length_of_evalArguments {args : List ArgumentCode} {operands : List Operand}
    (run : evalArguments args s = .ok operands s') : operands.length = args.length := by
  induction args generalizing operands s with
  | nil =>
    cases run
    rfl
  | cons arg rest ih =>
    cases arg with
    | value e =>
      obtain ⟨_, s1, -, run⟩ := Runs.bind_eq_ok.mp run
      obtain ⟨_, s2, -, run⟩ := Runs.bind_eq_ok.mp run
      obtain ⟨others, s3, rest_run, run⟩ := Runs.bind_eq_ok.mp run
      cases run
      rw [length_cons, length_cons, ih rest_run]
    | spread loc e =>
      obtain ⟨_, s1, -, run⟩ := Runs.bind_eq_ok.mp run
      obtain ⟨_, s2, -, run⟩ := Runs.bind_eq_ok.mp run
      obtain ⟨others, s3, rest_run, run⟩ := Runs.bind_eq_ok.mp run
      cases run
      rw [length_cons, length_cons, ih rest_run]

lemma inputBindings_spec {covered : Prop} {eval : Action V (List V)}
    (spec : ArgumentsSpec rt (entries.map fun e => .value e.place.whole) covered eval)
    (sound : s.Sound) : Runs (inputBindings entries) s fun bindings s' =>
      bindings.map (·.name) = entries.map (·.name) ∧
        s.Moves s' { given := bindings.map (·.value) } ∧
          (covered → s.Computes rt s' (fun ctx _ => eval ctx) fun values m =>
            (bindings.map (·.value)).map (m.read rt) = values) := by
  rw [inputBindings_eq]
  obtain ⟨operands, s1, run, moves, computes⟩ := spec.runs s sound
  have length : operands.length = entries.length := by simpa using length_of_evalArguments run
  refine .bind ⟨operands, s1, run, .pure ?_⟩
  have values : (entries.zipWith (fun e value => ({ name := e.name, loc := e.loc, value } :
      SpliceBinding)) operands).map (·.value) = operands :=
    ext_getElem (by simp [length]) (by simp)
  refine ⟨ext_getElem (by simp [length]) (by simp), ?_⟩
  rw [values]
  exact ⟨moves, computes⟩

/-! ## Results -/

def WritesResults (rt : Runtime V) (entries : List NamedEntry) (covered : Prop)
    (eval : (Nat → V) → Nat → Action V PUnit) : Prop :=
  ∀ (bindings : List SpliceBinding) (ids : List LocalId) (more : List Operand) (s : Lowering),
    s.Sound → bindings.map (·.value) = ids.map .cell ++ more → ids.length = entries.length →
      (∀ id ∈ ids, s.InUse id) →
        Runs (writeResults (entries.zip bindings)) s fun _ s' => s.Moves s' {} ∧ (covered →
          s.Follows s' ∧ ∀ (ctx : Context V) (m : Memory V), s'.Suits ctx m →
            ∀ (value : Nat → V) (index : Nat),
              (∀ k id, ids[k]? = some id → m.cells id = value (index + k)) →
                s'.Performs rt s.InUse ⟨s.point, m⟩ (eval value index ctx m.world)
                  (fun _ => s'.point) fun _ _ => True)

namespace WritesResults

variable {e : NamedEntry} {rest : List NamedEntry} {covered coversRest : Prop}
  {evalSite : Action V (Site V)}
  {evalRest : (Nat → V) → Nat → Action V PUnit}

lemma nil : WritesResults rt [] covered fun _ _ _ => pure () := by
  intro bindings ids more s sound _ _ _
  refine .pure ⟨.refl sound, fun _ => ⟨sound.follows, fun ctx m _ _ _ _ => ?_⟩⟩
  exact .stays sound trivial

lemma cons (spec : e.place.Evaluates rt covered evalSite)
    (writes : WritesResults rt rest coversRest evalRest) :
    WritesResults rt (e :: rest) (covered ∧ coversRest) (fun value index ctx => do
      Evaluation.write rt ctx (value index) (← evalSite ctx)
      evalRest value (index + 1) ctx) := by
  intro bindings ids more s sound values length used
  obtain ⟨id, ids, rfl⟩ := exists_cons_of_length_eq_add_one length
  obtain ⟨b, bindings, rfl⟩ : ∃ b bs, bindings = b :: bs := by
    cases bindings with
    | nil => simp at values
    | cons b bs => exact ⟨b, bs, rfl⟩
  simp only [map_cons, cons_append, cons.injEq] at values
  obtain ⟨here, values⟩ := values
  have used_here := used id (by simp)
  rw [zip_cons_cons, writeResults, here]
  refine (spec false s sound).step fun t s1 ⟨moves1, place, _, _, reaches⟩ => ?_
  have ready : ∀ a ∈ t.operands, s1.Ready a := fun a => moves1.ready
  have value_ready := moves1.sound.ready_inUse (moves1.still_inUse rfl used_here)
  refine writeOut_step rt moves1.sound ready moves1.apart place value_ready ?_
  intro s2 wrote follows performs
  have moves2 : s.Moves s2 {} := by
    simpa using (moves1.reorder (.of_eq (append_nil _).symm)).andThen wrote
  refine (writes bindings ids more s2 moves2.sound values (by simpa using length)
    fun other mem => moves2.still_inUse rfl (used other (by simp [mem]))).mono ?_
  rintro - s3 ⟨moves3, after⟩
  refine ⟨moves2.andThen moves3, fun ⟨known, known_rest⟩ => ?_⟩
  have reaches := reaches known
  obtain ⟨later, after⟩ := after known_rest
  refine ⟨reaches.follows.trans (follows.trans later), fun ctx m suits value index read => ?_⟩
  have first := (reaches.performs ctx m (suits.back (follows.trans later))).later
    (follows.trans later)
  refine first.bind fun site m1 _ same1 denotes => ?_
  have read1 (k : Nat) (other : LocalId) (found : (id :: ids)[k]? = some other) :
      m1.cells other = value (index + k) :=
    (same1.cells other (used other (mem_of_getElem? found))).trans (read k other found)
  have second := (performs m1).later later
  have written : m1.read rt (.cell id) = value index := read1 0 id rfl
  rw [written, ← denotes.write (value index)] at second
  refine (second.within fun _ _ => trivial).bind ?_
  rintro - m2 - same2 kept
  have last := after ctx m2 ((suits.same same1).same same2) value (index + 1) fun k
      other found => by
    have shifted := read1 (k + 1) other (by simpa using found)
    rw [Nat.add_comm k 1, ← Nat.add_assoc] at shifted
    exact (kept (.cell other) (by simp)).trans shifted
  exact last.within fun _ => moves2.still_inUse rfl

end WritesResults

/-! ## Native code -/

lemma reportDuplicates_reports (earlier : List String) (bindings : List SpliceBinding)
    {s : Lowering} (sound : s.Sound) :
    Runs (reportDuplicates earlier bindings) s fun _ s' => s.Reports s' := by
  induction bindings generalizing earlier s with
  | nil => exact .pure (.refl sound)
  | cons b rest ih =>
    have go {s1 : Lowering} (before : s.Reports s1) :
        Runs (reportDuplicates (b.name :: earlier) rest) s1 fun _ s' => s.Reports s' :=
      (ih _ before.moves.sound).mono fun _ _ after => before.trans after
    rw [reportDuplicates]
    split
    · exact (error_reports sound _ _).step fun _ _ ⟨reports, _⟩ => go reports
    · exact go (.refl sound)

lemma reportUses_reports (counted : List (SpliceBinding × Nat)) {s : Lowering} (sound : s.Sound) :
    Runs (reportUses counted) s fun _ s' => s.Reports s' := by
  induction counted generalizing s with
  | nil => exact .pure (.refl sound)
  | cons first rest ih =>
    obtain ⟨b, count⟩ := first
    have go {s1 : Lowering} (before : s.Reports s1) :
        Runs (reportUses rest) s1 fun _ s' => s.Reports s' :=
      (ih before.moves.sound).mono fun _ _ after => before.trans after
    cases count with
    | zero => exact (error_reports sound _ _).step fun _ _ ⟨reports, _⟩ => go reports
    | succ more =>
      cases more with
      | zero => exact go (.refl sound)
      | succ => exact (warn_reports sound _ _).step fun _ _ reports => go reports

lemma readOptions_property (isPure : Bool) (loc : Location) (key value : Expr)
    (kind : PropertyKind) (computed : Bool) (rest : List Member) :
    readOptions isPure (.property loc key value kind computed :: rest) =
      (match (Member.property loc key value kind computed).setsPure? with
      | some said => readOptions said rest
      | none => do
        error loc "invalid __asm__ option"
        readOptions isPure rest) := by
  unfold Member.setsPure?
  dsimp only
  split
  next said here =>
    split at here
    next named =>
      cases here
      rw [readOptions]
      exact named
    next => cases here
  next here =>
    split at here
    next => cases here
    next unset =>
      rw [readOptions]
      exact unset

lemma readOptions_reports (isPure : Bool) (ms : List Member) {s : Lowering} (sound : s.Sound) :
    Runs (readOptions isPure ms) s fun said s' =>
      said = ms.foldl (fun isPure m => m.setsPure?.getD isPure) isPure ∧ s.Reports s' := by
  induction ms generalizing isPure s with
  | nil => exact .pure ⟨rfl, .refl sound⟩
  | cons m rest ih =>
    have refused (loc : Location) (unset : m.setsPure? = none) :
        Runs (do error loc "invalid __asm__ option"; readOptions isPure rest) s fun said s' =>
          said = (m :: rest).foldl (fun isPure m => m.setsPure?.getD isPure) isPure ∧
            s.Reports s' :=
      (error_reports sound loc _).step fun _ _ ⟨reports, _⟩ =>
        (ih isPure reports.moves.sound).mono fun said s' ⟨same, after⟩ =>
          ⟨by rw [foldl_cons, unset]; exact same, reports.trans after⟩
    cases m with
    | spread loc e => exact refused loc rfl
    | property loc key value kind computed =>
      rw [readOptions_property]
      split
      next said set =>
        refine (ih said sound).mono fun said' s' ⟨same, after⟩ => ⟨?_, after⟩
        rw [same, foldl_cons, set]
        rfl
      next unset => exact refused loc unset

lemma splicePurity_reports (options : Expr) (sound : s.Sound) :
    Runs (splicePurity options) s fun said s' => said = options.saysPure ∧ s.Reports s' := by
  unfold splicePurity
  split
  next loc ms => exact readOptions_reports false ms sound
  next other =>
    refine (error_reports sound _ _).step fun _ _ ⟨reports, _⟩ => .pure ⟨?_, reports⟩
    rw [Expr.saysPure]
    exact other

lemma releaseBindings_eq (bindings : List SpliceBinding) :
    releaseBindings bindings = releaseAll (bindings.map (·.value)) := by
  induction bindings with
  | nil => rfl
  | cons b rest ih => rw [releaseBindings, ih, map_cons, releaseAll]

/-- Entries that are evaluated for native code: their results and scratch bindings are locals, and
their inputs have been evaluated. -/
structure SpliceReady (rt : Runtime V) (s s' : Lowering) (results : List LocalId)
    (inputs : List Operand) (scratch : List LocalId) (bindings : List SpliceBinding)
    (covered : Prop) (eval : Action V (List V)) : Prop where
  values : bindings.map (·.value) = results.map .cell ++ inputs ++ scratch.map .cell
  moves : s.Moves s' { given := bindings.map (·.value) }
  computes : covered → s.Computes rt s' (fun ctx _ => eval ctx) fun values m =>
    inputs.map (m.read rt) = values

def nativeEval (rt : Runtime V) (isPure : Bool) (parts : List SplicePart) (results scratch : Nat)
    (eval : Action V (List V))
    (evalResults : (Nat → V) → Nat → Action V PUnit) (ctx : Context V) :
    Evaluation V PUnit := do
  let values ← eval ctx
  if isPure && results == 0 then pure ()
  else if rt.readsInputs parts results values.length scratch then
    let value ← Evaluation.ask rt (.native parts results values)
    evalResults value 0 ctx
  else Evaluation.unspecified

namespace SpliceReady

variable {results scratch : List LocalId} {inputs : List Operand} {bindings : List SpliceBinding}
  {covered coversResults : Prop} {eval : Action V (List V)}
  {evalResults : (Nat → V) → Nat → Action V PUnit}

section

variable (ready : s.SpliceReady rt s' results inputs scratch bindings covered eval)
include ready

lemma reports (reports : s'.Reports s'') :
    s.SpliceReady rt s'' results inputs scratch bindings covered eval where
  values := ready.values
  moves := ready.moves.andThen reports.moves
  computes known := (ready.computes known).quiet reports.moves reports.quiet

lemma local_mem {id : LocalId} (mem : id ∈ results ++ scratch) :
    .cell id ∈ bindings.map (·.value) := by
  rw [ready.values]
  rcases mem_append.mp mem with here | here <;> simp [here]

lemma locals_nodup : (results ++ scratch).Nodup := by
  have apart := ready.moves.apart
  rw [ready.values] at apart
  have cells : ((results ++ scratch).map Operand.cell).Pairwise Operand.Apart := by
    rw [map_append]
    exact apart.sublist ((sublist_append_left _ _).append (.refl _))
  exact (pairwise_map.mp cells).imp fun {a b} ne same => ne a rfl (by rw [same])

lemma instructionFits (inside : ∀ index, .binding index ∈ parts → index < bindings.length) :
    s'.InstructionFits s'.frame.routine
      (.splice (bindings.map (·.value)) results.length parts) where
  operands _ member := ready.moves.fits member
  refers := by
    refine ⟨?_, by simpa using inside⟩
    rw [ready.values]
    simp only [length_append, List.length_map]
    omega
  places a member := by
    have written : a ∈ results.map .cell := by simpa [Instruction.dests, ready.values] using member
    obtain ⟨id, -, rfl⟩ := mem_map.mp written
    rfl

lemma spliced (inside : ∀ index, .binding index ∈ parts → index < bindings.length) :
    s.Moves (s'.withCode (s'.code.appended (.splice (bindings.map (·.value)) results.length parts)))
      { given := bindings.map (·.value) } := by
  refine ready.moves.appended (ready.instructionFits inside) (fun _ => rfl) (fun v written => ?_)
    fun id touched => touched
  simp [Instruction.dests, ready.values] at written

lemma asks (parts : List SplicePart) (m : Memory V) (values : List V)
    (read : inputs.map (m.read rt) = values)
    (reads : rt.readsInputs parts results.length values.length scratch.length = true) :
    (s'.withCode (s'.code.appended (.splice (bindings.map (·.value)) results.length
      parts))).Performs
      rt s.InUse ⟨s'.point, m⟩ (Evaluation.ask rt (.native parts results.length values) m.world)
      (fun _ => (s'.withCode (s'.code.appended
        (.splice (bindings.map (·.value)) results.length parts))).point)
      fun value m' => ∀ (k : Nat) (id : LocalId), results[k]? = some id →
        m'.cells id = value k := by
  have length : values.length = inputs.length := by rw [← read, List.length_map]
  rw [length] at reads
  have known : rt.readsInputs parts (results.map Operand.cell).length inputs.length
      (scratch.map Operand.cell).length = true := by simpa using reads
  obtain ⟨event, dests⟩ := Memory.native_eq rt known m
  have performs : m.perform rt (.splice (bindings.map (·.value)) results.length parts) =
      some (m.ask rt (.native parts results.length values) ((results ++ scratch).map .cell)) := by
    rw [Memory.perform, ready.values, map_append, ← dests, ← read]
    simpa using congrArg (fun event => some (m.ask rt event _)) event
  have asked := performs_asked rt ready.moves.sound (results ++ scratch) s.InUse performs
    fun id mem used => by simpa using ready.moves.fresh id (ready.local_mem mem) used
  refine asked.mono (fun _ used => used) fun value m' _ _ written k id found => ?_
  have place : (results ++ scratch)[k]? = some id := by
    rw [List.getElem?_append_left (List.getElem?_eq_some_iff.mp found).1, found]
  rw [written, Memory.cells_writeAll ready.locals_nodup _ value 0 place, Nat.zero_add]

lemma emit (length : results.length = entries.length)
    (writes : WritesResults rt entries coversResults evalResults)
    (inside : ∀ index, .binding index ∈ parts → index < bindings.length) (uses : List Nat)
    (loc : Location) (isPure : Bool) :
    Runs (emitSplice loc isPure entries bindings parts uses) s' fun _ s'' =>
      s.Moves s'' { given := bindings.map (·.value) } ∧ (covered ∧ coversResults →
        s.Computes rt s'' (fun ctx _ => nativeEval rt isPure parts results.length
          scratch.length eval evalResults ctx) fun _ _ => True) := by
  refine (reportUses_reports (bindings.zip uses) ready.moves.sound).step fun _ s1 reports => ?_
  have ready1 := ready.reports reports
  have empty : entries.isEmpty = (results.length == 0) := by
    cases entries <;> simp_all
  rw [empty]
  split
  next dropped =>
    refine .modify ?_
    have noted := reports_withLog ready1.moves.sound
      (Log.errorCount_report s1.log .note loc.range
        "pure native splice has no results and is dropped")
    have ready2 := ready1.reports noted
    refine ⟨ready2.moves, fun ⟨known, _⟩ => ?_⟩
    refine (ready2.computes known).andThen ready2.moves.sound.follows
      fun ctx m0 m values _ _ _ => ?_
    rw [if_pos dropped]
    exact .stays ready2.moves.sound trivial
  next kept =>
    rw [← length]
    refine push_step ready1.moves.sound ?_
    have spliced := ready1.spliced inside
    have asks := ready1.asks parts
    have extended := ready1.moves.sound.extends_withCode
      (Routine.edits_appended ready1.moves.sound.code_sound
        (.splice (bindings.map (·.value)) results.length parts)).grows
    have later : s1.Follows _ := ⟨ready1.moves.sound, extended, extended.steady rfl⟩
    generalize s1.withCode (s1.code.appended (.splice (bindings.map (·.value))
      results.length parts)) = s2 at spliced asks later ⊢
    have used (id : LocalId) (mem : id ∈ results) : s2.InUse id :=
      (spliced.ready (ready.local_mem (mem_append_left _ mem))).inUse id rfl
    refine (writes bindings results (inputs ++ scratch.map .cell) s2 spliced.sound
      (by rw [ready.values, append_assoc]) length used).mono ?_
    rintro - s3 ⟨wrote, performs⟩
    refine ⟨spliced.andThen wrote, fun ⟨known, known_results⟩ => ?_⟩
    obtain ⟨follows, performs⟩ := performs known_results
    refine (ready1.computes known).andThen (later.trans follows) fun ctx m0 m values
      suits _ read => ?_
    rw [if_neg kept]
    split
    next reads =>
      refine ((asks m values read reads).later follows).bind fun value m' _ same filled => ?_
      refine (performs ctx m' (suits.same same) value 0 fun k id found => ?_).mono
        (fun id used => spliced.still_inUse rfl used) fun _ _ _ _ _ => trivial
      rw [filled k id found, Nat.zero_add]
    next => trivial

end

end SpliceReady

def namedIn (list : SpliceList) : List NamedEntry := (list.getD []).filterMap named?

def loneIn (list : SpliceList) : List (String × Location) :=
  (list.getD []).filterMap lone?

lemma namedList_reports (sound : s.Sound) (whole : Expr) (list : SpliceList) :
    Runs (do pairEntries (← listEntries whole list)) s fun named s' =>
      named = namedIn list ∧ s.Reports s' := by
  refine (listEntries_reports sound whole list).step ?_
  rintro _ s1 ⟨rfl, first⟩
  exact (pairEntries_reports _ first.moves.sound).mono fun named s' ⟨same, second⟩ =>
    ⟨same, first.trans second⟩

lemma loneList_reports (sound : s.Sound) (whole : Expr) (list : SpliceList) :
    Runs (do nameEntries (← listEntries whole list)) s fun names s' =>
      names = loneIn list ∧ s.Reports s' := by
  refine (listEntries_reports sound whole list).step ?_
  rintro _ s1 ⟨rfl, first⟩
  exact (nameEntries_reports _ first.moves.sound).mono fun names s' ⟨same, second⟩ =>
    ⟨same, first.trans second⟩

namespace SpliceCall

def names (call : SpliceCall) : List String :=
  (namedIn call.results.2).map (·.name) ++ (namedIn call.inputs.2).map (·.name) ++
    (loneIn call.scratch.2).map (·.1)

def parts? (call : SpliceCall) : Option (List SplicePart) :=
  call.template.constantText?.bind fun template =>
    (SplicePart.ofTemplate call.names template).toOption.map (·.1)

end SpliceCall

lemma spliceReady_step {covered : Prop} {eval : Action V (List V)}
    (sound : s.Sound)
    (inputs : ArgumentsSpec rt ((namedIn call.inputs.2).map fun e =>
      .value e.place.whole) covered eval)
    {β : Type} {last : β → Lowering → Prop}
    (next : List NamedEntry → List SpliceBinding → Lower β)
    (rest : ∀ (results scratch : List LocalId) (operands : List Operand)
      (bindings : List SpliceBinding) (s' : Lowering),
      s.SpliceReady rt s' results operands scratch bindings covered eval →
        bindings.map (·.name) = call.names → results.length = (namedIn call.results.2).length →
          scratch.length = (loneIn call.scratch.2).length →
            Runs (next (namedIn call.results.2) bindings) s' last) : Runs (do
      let results ← pairEntries (← listEntries call.results.1 call.results.2)
      let resultBindings ← tempBindings (results.map fun e => (e.name, e.loc))
      let inputs ← pairEntries (← listEntries call.inputs.1 call.inputs.2)
      let inputs ← inputBindings inputs
      let scratch ← nameEntries (← listEntries call.scratch.1 call.scratch.2)
      let scratch ← tempBindings scratch
      next results (resultBindings ++ inputs ++ scratch)) s last := by
  rw [← bind_assoc]
  refine (namedList_reports sound call.results.1 call.results.2).step ?_
  rintro _ s1 ⟨rfl, reports1⟩
  refine (tempBindings_moves _ reports1.moves.sound).step ?_
  rintro resultBindings s2 ⟨names2, ⟨results, values2⟩, moves2, quiet2⟩
  rw [← bind_assoc]
  refine (namedList_reports moves2.sound call.inputs.1 call.inputs.2).step ?_
  rintro _ s3 ⟨rfl, reports3⟩
  refine (inputBindings_spec inputs reports3.moves.sound).step ?_
  rintro inputBindings s4 ⟨names4, moves4, computes⟩
  rw [← bind_assoc]
  refine (loneList_reports moves4.sound call.scratch.1 call.scratch.2).step ?_
  rintro _ s5 ⟨rfl, reports5⟩
  refine (tempBindings_moves _ reports5.moves.sound).step ?_
  rintro scratchBindings s6 ⟨names6, ⟨scratch, values6⟩, moves6, quiet6⟩
  have values : (resultBindings ++ inputBindings ++ scratchBindings).map (·.value) =
      results.map .cell ++ inputBindings.map (·.value) ++ scratch.map .cell := by
    rw [map_append, map_append, values2, values6]
  have moves3 : s.Moves s3 { given := resultBindings.map (·.value) } := by
    simpa using reports1.moves.andThen (moves2.andThen reports3.moves)
  have moves5 := moves3.andThen (moves4.andThen reports5.moves)
  have moves := moves5.andThenTo moves6 (by simp)
  have order : (scratchBindings.map (·.value) ++
      (inputBindings.map (·.value) ++ resultBindings.map (·.value))).Perm
        ((resultBindings ++ inputBindings ++ scratchBindings).map (·.value)) := by
    rw [map_append, map_append]
    exact perm_append_comm.trans (perm_append_comm.append_right _)
  refine rest results scratch (inputBindings.map (·.value)) _ s6
    ⟨values, moves.reorder order, fun known => ?_⟩ ?_ ?_ ?_
  · have before := reports1.quiet.trans (quiet2.trans reports3.quiet)
    exact ((((computes known).quiet reports5.moves reports5.quiet).quiet moves6 quiet6).after moves3
      rfl before)
  · simp [SpliceCall.names, names2, names4, names6]
  · have length := congrArg List.length values2
    have named := congrArg List.length names2
    simp only [List.length_map] at length named
    omega
  · have length := congrArg List.length values6
    have named := congrArg List.length names6
    simp only [List.length_map] at length named
    omega

def readySplice (loc : Location) (call : SpliceCall) (text : String) (results : List NamedEntry)
    (bindings : List SpliceBinding) : Lower PUnit := do
  reportDuplicates [] bindings
  match SplicePart.ofTemplate (bindings.map (·.name)) text with
  | .error e => error call.template.loc e.message
  | .ok (parts, uses) => emitSplice loc call.options.saysPure results bindings parts uses
  releaseBindings bindings

lemma spliceCode_spec {coversInputs coversResults : Prop}
    {evalInputs : Action V (List V)}
    {evalResults : (Nat → V) → Nat → Action V PUnit} (sound : s.Sound)
    (inputs : ArgumentsSpec rt ((namedIn call.inputs.2).map fun e => .value e.place.whole)
      coversInputs evalInputs)
    (writes : WritesResults rt (namedIn call.results.2) coversResults evalResults)
    (loc : Location) : Runs (spliceCode loc call) s fun _ s' => s.Moves s' {} ∧
      ∀ parts, call.parts? = some parts → coversInputs ∧ coversResults →
        s.Computes rt s' (fun ctx _ => nativeEval rt call.options.saysPure parts
          (namedIn call.results.2).length (loneIn call.scratch.2).length evalInputs evalResults ctx)
          fun _ _ => True := by
  refine (splicePurity_reports call.options sound).step ?_
  rintro _ s1 ⟨rfl, reports1⟩
  cases template : call.template.constantText? with
  | none =>
    refine (error_reports reports1.moves.sound _ _).mono fun _ s2 reports2 =>
      ⟨(reports1.trans reports2.1).moves, fun parts known => ?_⟩
    simp [SpliceCall.parts?, template] at known
  | some text =>
    refine spliceReady_step reports1.moves.sound inputs (readySplice loc call text)
      fun results scratch operands bindings s2 ready names resultCount scratchCount => ?_
    refine (reportDuplicates_reports [] bindings ready.moves.sound).step fun _ s3 reports3 => ?_
    have ready3 := ready.reports reports3
    rw [releaseBindings_eq]
    -- What is left is to release the bindings.
    have released {s4 : Lowering} (moves : s1.Moves s4 { given := bindings.map (·.value) }) :
        Runs (releaseAll (bindings.map (·.value))) s4 fun _ s' => s.Moves s' {} ∧
          s4.Moves s' { taken := bindings.map (·.value) } ∧ s4.Quiet s' := by
      refine (releaseAll_still moves.sound (fun a => moves.ready) moves.apart).mono ?_
      rintro _ s5 ⟨freed, still⟩
      have all : s1.Moves s5 {} := by
        simpa using (moves.reorder (.of_eq (append_nil _).symm)).andThen freed
      exact ⟨reports1.moves.andThen all, freed, still.quiet⟩
    cases known : SplicePart.ofTemplate (bindings.map (·.name)) text with
    | error e =>
      refine (error_reports ready3.moves.sound _ _).step ?_
      rintro _ s4 ⟨reports4, _⟩
      refine (released (ready3.reports reports4).moves).mono fun _ s5 freed =>
        ⟨freed.1, fun parts found => ?_⟩
      simp [SpliceCall.parts?, template, ← names, known, Except.toOption] at found
    | ok read =>
      obtain ⟨parts, uses⟩ := read
      have inside : ∀ index, .binding index ∈ parts → index < bindings.length := fun index mem => by
        simpa using (SplicePart.ofTemplate_eq_ok known).2.1 index mem
      refine (ready3.emit resultCount writes inside uses loc call.options.saysPure).step ?_
      rintro _ s4 ⟨moves4, computes⟩
      refine (released moves4).mono ?_
      rintro _ s5 ⟨moves, freed, quiet⟩
      refine ⟨moves, fun parts' found covered => ?_⟩
      obtain rfl : parts = parts' := by
        simpa [SpliceCall.parts?, template, ← names, known, Except.toOption] using found
      rw [← resultCount, ← scratchCount]
      exact ((computes covered).quiet freed quiet).after reports1.moves rfl reports1.quiet

/-! ## Calls of native code -/

lemma headerCode_moves (sound : s.Sound) (loc : Location) (args : List Expr) :
    Runs (headerCode loc args) s fun _ s' => s.Moves s' {} := by
  have refused (at_loc : Location) (message : String) :
      Runs (error at_loc message) s fun _ s' => s.Moves s' {} :=
    (error_reports sound at_loc message).mono fun _ _ ⟨reports, _⟩ => reports.moves
  unfold headerCode
  split
  next text =>
    cases text.constantText? with
    | none => exact refused _ _
    | some header =>
      refine ⟨⟨⟩, { s with unit := s.unit.addHeader header }, rfl, ?_⟩
      rw [CodeUnit.addHeader]
      split
      · exact .refl sound
      · exact (moves_withHeaders sound _ (Nat.le_refl _)).1
  next => exact refused _ _

lemma boundTo_native (sound : s.Sound) (other : name ≠ argumentsName) :
    s.scopes.lookup s.frame.scope name = .ok (s.boundTo name) := by
  obtain ⟨sc, found, -⟩ := sound.frame.scope
  rw [boundTo, if_neg fun here => other here.1, ScopeTree.lookup,
    lookupWithin_run sound name _ found]

lemma isNative_runs (sound : s.Sound) (callee : Expr) :
    Runs (isNative callee) s fun native s' => s' = s ∧ (native = true ↔
      ∃ name, callee.name? = some name ∧ (name = spliceName ∨ name = headerName) ∧
        s.boundTo name = none) := by
  unfold isNative
  cases named : callee.name? with
  | none => exact .pure ⟨rfl, by simp⟩
  | some name =>
    dsimp only
    split
    next special =>
      refine .get_step ?_
      have other : name ≠ argumentsName := by rcases special with rfl | rfl <;> decide
      refine askScopes_step (boundTo_native sound other) (.pure ⟨rfl, ?_⟩)
      simp [special]
    next ordinary => exact .pure ⟨rfl, by simp [ordinary]⟩

lemma nativeCode_runs (sound : s.Sound) {loc : Location} {args : List Expr}
    {lists : List SpliceList} {post : Lowering → Prop}
    (header : name = headerName → ∀ s', s.Moves s' {} → post s')
    (splice : name ≠ headerName → ∀ options results inputs scratch template l0 l1 l2 l3 l4,
      args = [options, results, inputs, scratch, template] → lists = [l0, l1, l2, l3, l4] →
        Runs (spliceCode loc { options, results := (results, l1), inputs := (inputs, l2),
                               scratch := (scratch, l3), template }) s fun _ => post)
    (wrong : name ≠ headerName → args.length ≠ 5 ∨ lists.length ≠ 5 →
      ∀ s', s.Moves s' {} → post s') : Runs (nativeCode loc name args lists) s fun _ => post := by
  unfold nativeCode
  split
  next same => exact (headerCode_moves sound loc args).mono fun _ s' moves => header same s' moves
  next other =>
    split
    next options results inputs scratch template l0 l1 l2 l3 l4 =>
      exact splice other options results inputs scratch template l0 l1 l2 l3 l4 rfl rfl
    next mismatch =>
      refine (error_reports sound _ _).mono fun _ s' ⟨reports, _⟩ => wrong other ?_ s' reports.moves
      by_contra both
      obtain ⟨five, five'⟩ := not_or.mp both
      rw [not_not] at five five'
      match args, five, lists, five' with
      | [_, _, _, _, _], _, [_, _, _, _, _], _ => exact mismatch _ _ _ _ _ _ _ _ _ _ rfl rfl

end Lowering

end Scriptc
