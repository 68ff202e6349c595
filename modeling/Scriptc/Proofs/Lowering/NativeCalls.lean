import Scriptc.Proofs.Lowering.Compiled

/-!
# Calls

What the code of a call does, from what the code of its parts does. A call of native code looks into
its arguments: options, lists of bindings and a template.
-/

namespace Scriptc.Lowering

open Scriptc.Expr

variable {V : Type} {rt : Runtime V} {s s' : Lowering} {fewer : Prop} {entries : List (Option Expr)}
  {eval : (Nat → V) → Nat → Action V PUnit}

/-! ## Binding lists -/

lemma ArgumentsSpec.uncovered {args : List ArgumentCode} {covered : Prop}
    {eval eval' : Action V (List V)} (spec : ArgumentsSpec rt args covered eval)
    (never : ¬fewer) : ArgumentsSpec rt args fewer eval' where
  runs s sound := (spec.runs s sound).mono fun _ _ ⟨moves, _⟩ =>
    ⟨moves, fun known => absurd known never⟩
  simple known := absurd known never

section

variable {entries : List NamedEntry} {covered : Prop}
  (writes : WritesResults rt entries covered eval)
include writes

lemma WritesResults.weaken (stronger : fewer → covered) : WritesResults rt entries fewer eval :=
  fun bindings ids more s sound values count used =>
    (writes bindings ids more s sound values count used).mono fun _ _ ⟨moves, performs⟩ =>
      ⟨moves, fun known => performs (stronger known)⟩

lemma WritesResults.uncovered {eval' : (Nat → V) → Nat → Action V PUnit}
    (never : ¬fewer) : WritesResults rt entries fewer eval' :=
  fun bindings ids more s sound values count used =>
    (writes bindings ids more s sound values count used).mono fun _ _ ⟨moves, _⟩ =>
      ⟨moves, fun known => absurd known never⟩

end

/-- An entry of a binding list, with the code of its second part. -/
abbrev entryOf (e : Expr) : SpliceEntry := { entry := e, second := entrySecond e }

variable (e : Expr)

lemma entrySecond_eq : entrySecond e = e.second?.map asPlace := by
  cases e with
  | array loc es =>
    rw [entrySecond, second?, elements?]
    rcases es with _ | ⟨_, _ | ⟨_ | x, _ | _⟩⟩ <;> simp [secondOf]
  | _ => simp [entrySecond, second?, elements?]

lemma array_of_second {e x : Expr} (second : e.second? = some x) :
    ∃ loc a, e = .array loc [a, some x] := by
  cases e with
  | array loc es =>
    match es with
    | [a, some y] =>
      obtain rfl : y = x := by simpa [second?, elements?] using second
      exact ⟨loc, a, rfl⟩
    | [] | [_] | [_, none] | _ :: _ :: _ :: _ => simp [second?, elements?] at second
  | _ => simp [second?, elements?] at second

lemma entryName?_eq :
    e.entryName? = elementName? ((e.elements?.getD []).head?.getD none) :=
  rfl

lemma entry_cases :
    (∃ loc a x name, e = .array loc [a, some x] ∧ elementName? a = some name ∧
      (entryOf e).named? = some { name, loc := e.loc, place := x.asPlace }) ∨
      (entryOf e).named? = none ∧ e.isPair = false := by
  cases second : e.second? with
  | none =>
    refine .inr ⟨?_, by simp [isPair, second]⟩
    simp [SpliceEntry.named?, entrySecond_eq, second]
  | some x =>
    obtain ⟨loc, a, rfl⟩ := array_of_second second
    cases named : elementName? a with
    | none =>
      refine .inr ⟨?_, ?_⟩
      · simp [SpliceEntry.named?, SpliceEntry.nameOf?, elements?, named]
      · simp [isPair, entryName?_eq, elements?, named]
    | some name =>
      refine .inl ⟨loc, a, x, name, rfl, named, ?_⟩
      simp [SpliceEntry.named?, entrySecond_eq, second, SpliceEntry.nameOf?, elements?, named]

def SecondsCompiled (rt : Runtime V) (entries : List (Option Expr)) : Prop :=
  ∀ e, some e ∈ entries → ∀ x, e.second? = some x → x.Compiled rt

lemma SecondsCompiled.rest {first : Option Expr} {rest : List (Option Expr)}
    (compiled : SecondsCompiled rt (first :: rest)) : SecondsCompiled rt rest :=
  fun e mem => compiled e (by simp [mem])

def pairsIn (entries : List (Option Expr)) : List NamedEntry :=
  (spliceEntries entries).filterMap SpliceEntry.named?

lemma pairsIn_nil : pairsIn [] = [] := by rw [pairsIn, spliceEntries, List.filterMap_nil]

lemma pairsIn_none (rest : List (Option Expr)) : pairsIn (none :: rest) = pairsIn rest := by
  rw [pairsIn, spliceEntries, pairsIn]

lemma pairsIn_some (rest : List (Option Expr)) :
    pairsIn (some e :: rest) = (entryOf e).named?.toList ++ pairsIn rest := by
  rw [pairsIn, spliceEntries, List.filterMap_cons]
  cases (entryOf e).named? <;> rfl

lemma inputs_spec (compiled : SecondsCompiled rt entries) :
    ArgumentsSpec rt ((pairsIn entries).map fun e => .value e.place.whole)
      (areEntriesCovered true false entries = true) fun ctx => evalInputList rt ctx entries := by
  induction entries with
  | nil => simpa only [pairsIn_nil, List.map_nil, evalInputList] using ArgumentsSpec.nil
  | cons first rest ih =>
    have others := ih compiled.rest
    cases first with
    | none => simpa only [pairsIn_none, areEntriesCovered, evalInputList] using others
    | some e =>
      rw [pairsIn_some]
      obtain ⟨loc, a, x, name, rfl, -, named⟩ | ⟨unnamed, other⟩ := entry_cases e
      · have x_compiled := compiled _ List.mem_cons_self x rfl
        have spec := ArgumentsSpec.cons x_compiled.spec others
        rw [named]
        refine spec.weaken fun known => ?_
        simp only [areEntriesCovered, isEntryCovered, isSecondCovered, Bool.and_eq_true] at known
        exact ⟨known.1.2.2, known.2⟩
      · rw [unnamed]
        exact others.uncovered (by simp [areEntriesCovered, other])

lemma results_spec (compiled : SecondsCompiled rt entries) :
    WritesResults rt (pairsIn entries) (areEntriesCovered true true entries = true)
      fun value index ctx => evalResultList rt ctx value index entries := by
  induction entries with
  | nil => simpa only [pairsIn_nil, evalResultList] using WritesResults.nil
  | cons first rest ih =>
    have others := ih compiled.rest
    cases first with
    | none => simpa only [pairsIn_none, areEntriesCovered, evalResultList] using others
    | some e =>
      rw [pairsIn_some]
      obtain ⟨loc, a, x, name, rfl, -, named⟩ | ⟨unnamed, other⟩ := entry_cases e
      · have x_compiled := compiled _ List.mem_cons_self x rfl
        have writes := WritesResults.cons (e := ⟨name, (array loc [a, some x]).loc, x.asPlace⟩)
          (place_evaluates x_compiled) others
        rw [named]
        refine writes.weaken fun known => ?_
        simp only [areEntriesCovered, isEntryCovered, isSecondCovered, Bool.and_eq_true] at known
        exact ⟨⟨known.1.2.2, by simpa using known.1.2.1⟩, known.2⟩
      · rw [unnamed]
        exact others.uncovered (by simp [areEntriesCovered, other])

lemma names_of_covered {places : Bool} (covered : areEntriesCovered true places entries = true) :
    (pairsIn entries).map (·.name) = (entries.filterMap id).map fun e => e.entryName?.getD "" := by
  induction entries with
  | nil => simp [pairsIn_nil]
  | cons first rest ih =>
    cases first with
    | none => simpa [pairsIn_none] using ih covered
    | some e =>
      simp only [areEntriesCovered, Bool.and_eq_true] at covered
      have same := ih covered.2
      rw [pairsIn_some]
      obtain ⟨loc, a, x, name, rfl, known, named⟩ | ⟨-, other⟩ := entry_cases e
      · simp [named, same, entryName?_eq, elements?, known]
      · simp [other] at covered

lemma lone_of_isLone {e : Expr} (lone : e.isLone = true) :
    (entryOf e).lone? = some (e.entryName?.getD "", e.loc) := by
  obtain ⟨named, single⟩ : e.entryName?.isSome = true ∧ (e.elements?.getD []).length = 1 := by
    simpa [isLone] using lone
  obtain ⟨name, known⟩ := Option.isSome_iff_exists.mp named
  cases es : e.elements? with
  | none => simp [es] at single
  | some elements' =>
    have single : elements'.length = 1 := by simpa [es] using single
    have known' : elementName? (elements'.head?.getD none) = some name := by
      simpa [entryName?_eq, es] using known
    simp [SpliceEntry.lone?, SpliceEntry.nameOf?, es, single, known', known]

lemma names_of_lone (lone : (entries.filterMap id).all isLone = true) :
    ((spliceEntries entries).filterMap SpliceEntry.lone?).map (·.1) =
      (entries.filterMap id).map fun e => e.entryName?.getD "" := by
  induction entries with
  | nil => simp [spliceEntries]
  | cons first rest ih =>
    cases first with
    | none => exact ih (by simpa using lone)
    | some e =>
      have lone : e.isLone = true ∧ (rest.filterMap id).all isLone = true := by
        simpa using lone
      have same := ih lone.2
      rw [spliceEntries, List.filterMap_cons, lone_of_isLone lone.1]
      simpa using same

/-! ## Native code -/

lemma entriesOf_spliceList :
    (spliceList e).getD [] = spliceEntries (e.elements?.getD []) := by
  cases e with
  | array loc es => simp [spliceList, elements?]
  | _ => simp [spliceList, elements?, spliceEntries]

lemma namedIn_spliceList : namedIn (spliceList e) = pairsIn (e.elements?.getD []) := by
  rw [namedIn, entriesOf_spliceList, pairsIn]

abbrev spliceOf (options results inputs scratch template : Expr) : SpliceCall :=
  { options, results := (results, spliceList results), inputs := (inputs, spliceList inputs),
    scratch := (scratch, spliceList scratch), template }

lemma isListCovered_eq {e : Expr} {places : Bool} (covered : e.isListCovered true places = true) :
    areEntriesCovered true places (e.elements?.getD []) = true := by
  cases e with
  | array loc es => simpa [isListCovered, elements?] using covered
  | _ => simp [isListCovered] at covered

/-- What the arguments of native code are, if they are covered. -/
structure SpliceCovered (results inputs scratch template : Expr) : Prop where
  known : (spliceParts results inputs scratch template).isSome = true
  lone : scratch.entries.all Expr.isLone = true
  written : areEntriesCovered true true (results.elements?.getD []) = true
  read : areEntriesCovered true false (inputs.elements?.getD []) = true
  lists : results.elements?.isSome = true ∧ inputs.elements?.isSome = true

lemma spliceCovered_of {options results inputs scratch template : Expr}
    (covered : isSpliceCovered true [options, results, inputs, scratch, template] = true) :
    SpliceCovered results inputs scratch template := by
  simp only [isSpliceCovered, Bool.and_eq_true] at covered
  obtain ⟨⟨⟨⟨known, -⟩, lone⟩, first⟩, second⟩ := covered
  have isList {e : Expr} {places : Bool} (covered : e.isListCovered true places = true) :
      e.elements?.isSome = true := by
    cases e <;> simp_all [isListCovered, elements?]
  exact ⟨known, lone, isListCovered_eq first, isListCovered_eq second, isList first, isList second⟩

namespace SpliceCovered

variable {options results inputs scratch template : Expr}
  (covered : SpliceCovered results inputs scratch template)
include covered

lemma names : (spliceOf options results inputs scratch template).names =
    (results.entries ++ inputs.entries ++ scratch.entries).map fun e => e.entryName?.getD "" := by
  have lone : (loneIn (spliceList scratch)).map (·.1) =
      scratch.entries.map fun e => e.entryName?.getD "" := by
    rw [loneIn, entriesOf_spliceList]
    exact names_of_lone covered.lone
  simp only [SpliceCall.names, namedIn_spliceList, names_of_covered covered.written,
    names_of_covered covered.read, lone, List.map_append, entries]

lemma parts : (spliceOf options results inputs scratch template).parts? =
    spliceParts results inputs scratch template := by
  rw [SpliceCall.parts?, covered.names]
  rfl

lemma resultCount : (namedIn (spliceList results)).length = results.entries.length := by
  have same := congrArg List.length (names_of_covered covered.written)
  rw [namedIn_spliceList]
  simpa [entries] using same

lemma scratchCount : (loneIn (spliceList scratch)).length = scratch.entries.length := by
  have same := congrArg List.length (names_of_lone covered.lone)
  rw [loneIn, entriesOf_spliceList]
  simpa [entries] using same

end SpliceCovered

lemma evalSplice_eq {options results inputs scratch template : Expr}
    (covered : SpliceCovered results inputs scratch template) {parts : List SplicePart}
    (same : spliceParts results inputs scratch template = some parts) (ctx : Context V) :
    evalSplice rt ctx [options, results, inputs, scratch, template] =
      (nativeEval rt options.saysPure parts results.entries.length scratch.entries.length
        (fun ctx => evalInputList rt ctx (inputs.elements?.getD []))
        (fun value index ctx => evalResultList rt ctx value index (results.elements?.getD []))
          ctx >>= fun _ => pure rt.undefined) := by
  have inputs_eq : inputs.evalInputs rt ctx = evalInputList rt ctx (inputs.elements?.getD []) := by
    have list := covered.lists.2
    cases inputs <;> simp_all [elements?, evalInputs]
  have results_eq (value : Nat → V) :
      results.evalResults rt ctx value = evalResultList rt ctx value 0
        (results.elements?.getD []) := by
    have list := covered.lists.1
    cases results <;> simp_all [elements?, evalResults]
  rw [evalSplice, same, inputs_eq, nativeEval, bind_assoc]
  refine congrArg _ (funext fun values => ?_)
  dsimp only
  split
  · rw [pure_bind]
  · split
    · simp only [results_eq, bind_assoc]
    · rfl

lemma spliceOf_computes {options results inputs scratch template : Expr}
    (results_compiled : SecondsCompiled rt (results.elements?.getD []))
    (inputs_compiled : SecondsCompiled rt (inputs.elements?.getD [])) (sound : s.Sound)
    (loc : Location) :
    Runs (spliceCode loc (spliceOf options results inputs scratch template)) s fun _ s' =>
      s.Moves s' {} ∧ (isSpliceCovered true [options, results, inputs, scratch, template] = true →
          s.Computes rt s' (fun ctx _ => evalSplice rt ctx
            [options, results, inputs, scratch, template]) fun v _ => v = rt.undefined) := by
  have inputs_spec := inputs_spec inputs_compiled
  have results_spec := results_spec results_compiled
  rw [← namedIn_spliceList] at inputs_spec results_spec
  refine (spliceCode_spec sound inputs_spec results_spec loc).mono fun _ s' ⟨moves, computes⟩ =>
    ⟨moves, fun known => ?_⟩
  have covered := spliceCovered_of known
  obtain ⟨parts, same⟩ := Option.isSome_iff_exists.mp covered.known
  have computes := computes parts (covered.parts.trans same) ⟨covered.read, covered.written⟩
  rw [covered.resultCount, covered.scratchCount] at computes
  simp only [evalSplice_eq covered same]
  exact computes.andThen moves.sound.follows fun ctx m0 m _ _ _ _ => .stays moves.sound rfl

/-! ## Calls -/

def calledValue (loc : Location) (callee : Expr) (args : List Expr) (needed : Bool) :
    Lower Operand := do
  if ← isNative callee then
    nativeCode loc (callee.name?.getD "") args (spliceLists args)
    pure .undefined
  else callValue callee.asPlace (argumentCodes args) needed

/-- Whether the arguments of a call are compiled, also those that are lists of bindings. -/
structure ArgumentsCompiled (rt : Runtime V) (args : List Expr) : Prop where
  values : ∀ e ∈ args, e.Compiled rt
  lists : ∀ e ∈ args, SecondsCompiled rt (e.elements?.getD [])

lemma nativeCode_computes {args : List Expr} (compiled : ArgumentsCompiled rt args)
    (loc : Location) (name : String) (sound : s.Sound) :
    Runs (nativeCode loc name args (spliceLists args)) s fun _ s' => s.Moves s' {} ∧
      (name ≠ headerName → isSpliceCovered true args = true →
        s.Computes rt s' (fun ctx _ => evalSplice rt ctx args) fun v _ => v = rt.undefined) := by
  refine nativeCode_runs sound (fun same s' moves => ⟨moves, fun other => absurd same other⟩) ?_ ?_
  · rintro - options results inputs scratch template l0 l1 l2 l3 l4 rfl lists
    obtain ⟨-, rfl, rfl, rfl, -⟩ := lists
    exact (spliceOf_computes (compiled.lists results (by simp)) (compiled.lists inputs (by simp))
      sound loc).mono fun _ s' ⟨moves, computes⟩ => ⟨moves, fun _ => computes⟩
  · intro _ mismatch s' moves
    refine ⟨moves, fun _ covered => ?_⟩
    match args, covered with
    | [_, _, _, _, _], _ => simp [spliceLists] at mismatch

lemma eval_call (ctx : Context V) (loc : Location) (callee : Expr) (args : List Expr)
    (opt : Bool) :
    (call loc callee args opt).eval rt ctx = (if callee.name? = some spliceName then
        if ctx.native then evalSplice rt ctx args else Evaluation.unspecified
      else do
        let x ← evalCalled rt callee ctx
        let operands ← evalAll rt ctx args
        Evaluation.request rt (.call false x.1 (x.2 :: operands))) := by
  rw [eval]
  split
  · rfl
  · simp only [evalCalled, bind_assoc]
    refine congrArg _ (funext fun site => ?_)
    cases site <;> simp only [bind_assoc, pure_bind]

lemma callCode_eq (loc : Location) (callee : Expr) (args : List Expr) (opt : Bool)
    (d : Demand) :
    callCode loc callee.asPlace args (argumentCodes args) (spliceLists args) opt d =
      (if opt then do
        notSupported loc "optional call"
        settle (some loc) (← calledValue loc callee args d.needsValue) d
      else do settle (some loc) (← calledValue loc callee args d.needsValue) d) := by
  have same : (do
      let native ← isNative callee
      if native then do
        nativeCode loc (callee.name?.getD "") args (spliceLists args)
        settle (some loc) .undefined d
      else do
        let value ← callValue callee.asPlace (argumentCodes args) d.needsValue
        settle (some loc) value d) =
      (do settle (some loc) (← calledValue loc callee args d.needsValue) d) := by
    simp only [calledValue, bind_assoc]
    refine congrArg _ (funext fun native => ?_)
    cases native <;> simp
  unfold callCode
  cases opt with
  | true => simpa using congrArg _ (funext fun _ => same)
  | false => simpa using same

lemma Meets.reported {code : ExprCode} {covered : Prop} {eval eval' : Action V V}
    (meets : Meets rt code covered eval) (loc : Location) (what : String) (never : ¬fewer) :
    Meets rt (fun d => do notSupported loc what; code d) fewer eval' := by
  intro d s sound labels
  refine (notSupported_reports sound loc what).step fun _ s1 ⟨reports, _⟩ => ?_
  refine (meets d s1 reports.moves.sound (reports.moves.knows labels)).mono
    fun a s2 ⟨moves, _⟩ => ⟨?_, fun known => absurd known never⟩
  have moved := reports.moves.andThenTo moves fun label mem => .inl (labels label mem)
  exact moved.balance (by simp) (by simp) (by simp) labels

section

variable {callee : Expr} (compiled : callee.Compiled rt) {args : List Expr}
  (args_compiled : ArgumentsCompiled rt args)
include compiled args_compiled

lemma calledValue_yields (loc : Location) : Yields rt (calledValue loc callee args)
      ((call loc callee args false).isCovered true = true) fun ctx =>
        (call loc callee args false).eval rt ctx := by
  intro needed s sound
  have parts (known : (call loc callee args false).isCovered true = true) :
      callee.name? ≠ some headerName ∧ callee.isCovered true = true ∧ areCovered true args = true ∧
        (callee.name? = some spliceName → isSpliceCovered true args = true) := by
    simp only [isCovered, Bool.and_eq_true, bne_iff_ne, Bool.or_eq_true] at known
    obtain ⟨⟨⟨⟨-, other⟩, first⟩, second⟩, native⟩ := known
    exact ⟨other, first, second, fun same => native.resolve_left fun other => other same⟩
  refine (isNative_runs sound callee).step ?_
  rintro native _ ⟨rfl, iff⟩
  cases native with
  | true =>
    obtain ⟨name, named, special, unbound⟩ := iff.mp rfl
    refine (nativeCode_computes args_compiled loc (callee.name?.getD "") sound).step ?_
    rintro _ s' ⟨moves, computes⟩
    refine .pure ⟨moves.give_constant .undefined, fun known => ?_⟩
    obtain ⟨other, -, -, splices⟩ := parts known
    obtain rfl := special.resolve_right fun same => other (same ▸ named)
    have computes := computes (by simp [named, spliceName, headerName]) (splices named)
    refine ⟨computes.follows, fun ctx m suits => ?_⟩
    rw [eval_call, if_pos named]
    by_cases native : ctx.native = true
    · rw [if_pos native]
      have performs := computes.performs ctx m suits
      cases needed with
      | true => exact performs.mono (fun _ used => used) fun v m' _ _ same => same.symm
      | false => exact performs.mono (fun _ used => used) fun v m' _ _ same => trivial
    · rw [if_neg native]
      trivial
  | false =>
    have yields := callValue_yields (fun argsSimple _ sound =>
      callee_ready compiled argsSimple sound)
      (argumentCodes_spec args_compiled.values) needed _ sound
    refine yields.mono ?_
    rintro a s' ⟨moves, executes⟩
    refine ⟨moves, fun known => ?_⟩
    obtain ⟨other, first, second, -⟩ := parts known
    have executes := executes ⟨first, second⟩
    refine ⟨executes.follows, fun ctx m suits => ?_⟩
    rw [eval_call]
    split
    next named =>
      -- The name is bound, so that the meaning of the call is not native.
      have bound : ctx.native = false := by
        rw [← Bool.not_eq_true]
        intro native
        have unbound := (suits.back executes.follows).native native
        exact Bool.false_ne_true (iff.mpr ⟨_, named, .inl rfl, unbound⟩)
      rw [bound]
      trivial
    next => exact executes.performs ctx m suits

lemma call_compiled (loc : Location) (opt : Bool) :
    (call loc callee args opt).Compiled rt := by
  have yields := calledValue_yields compiled args_compiled loc
  have copies : Copies (exprCode (.call loc callee args opt) .value) := by
    exact copies_callCode loc callee.asPlace args _ _ opt
  have meets := settleNeeded_meets yields (some loc)
  refine compiled_of_meets ?_ (fun _ => copies.heldBy _) rfl
  cases opt with
  | true =>
    refine (meets.reported loc "optional call" ?_).of_eq (fun d => ?_) fun _ => rfl
    · simp [isCovered]
    · simp only [exprCode, callCode_eq, ↓reduceIte]
  | false =>
    refine meets.of_eq (fun d => ?_) fun _ => rfl
    simp only [exprCode, callCode_eq, Bool.false_eq_true, ↓reduceIte]

end

end Scriptc.Lowering
