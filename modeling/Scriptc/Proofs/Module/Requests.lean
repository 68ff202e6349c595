import Scriptc.Compilation
import Scriptc.Proofs.Lowering.Tree
import Scriptc.Proofs.Variation.Syntax
import Scriptc.Syntax.Construct

/-!
# Calls that ask for modules

Every call of the name that asks for modules, with one argument, is a request, noted once, unless a
function around it or the program binds the name. Only the arguments of requests are changed, to
texts.
-/

namespace Scriptc

open Declaration

/-! ## Trees before and after requests are answered -/

namespace Node

def binds : Node → Bool
  | func f => f.binds Requests.requestName
  | expr (.arrow _ params b) => b.binds params Requests.requestName
  | _ => false

/-- Whether a node is a call of the name that asks for modules, with one argument. -/
def calls : Node → Bool
  | expr (.call _ callee args _) => callee.name? == some Requests.requestName && args.length == 1
  | _ => false

end Node

namespace Requests

/-- What is noted about a request. -/
inductive Note where
  | dependency (d : Dependency)
  | warning (range : TextRange) (message : String)

def Note.dependency? : Note → Option Dependency
  | dependency d => some d
  | warning .. => .none

def Note.warning? : Note → Option (TextRange × String)
  | dependency _ => .none
  | warning range message => some (range, message)

/-- What is noted about a request with an argument: the module, if the argument is a constant that
means one, otherwise a warning at the argument. -/
def Answers.note (answers : Answers) (argument : Expr) : Note :=
  match argument.constantText? with
  | .none => .warning argument.loc.range "require() argument is not a constant string"
  | some specifier =>
    let resolution := answers.resolver answers.fromDir specifier
    if resolution.found then .dependency { specifier, path := resolution.path }
    else .warning argument.loc.range ("cannot resolve module '" ++ specifier ++ "'")

def add (r : Requests) : Note → Requests
  | .dependency d => { r with dependencies := r.dependencies.push d }
  | .warning range message => { r with warnings := r.warnings.push (range, message) }

abbrev request (loc place : Location) (argument : Expr) (isOptional : Bool) : Node :=
  .expr (.call loc (.ident place requestName) [argument] isOptional)

mutual

/-- Whether a node becomes another one when its requests are answered, and what is noted then; the
first argument says whether the name that asks for modules is bound around the node. -/
inductive Handled (answers : Answers) : Bool → Node → Node → List Note → Prop where
  | other {bound : Bool} {n n' : Node} {notes : List Note} (plain : n.calls = true → bound = true)
      (same : n'.parts.1 = n.parts.1)
      (inside : HandledAll answers (n.binds || bound) n.parts.2 n'.parts.2 notes) :
      Handled answers bound n n' notes
  | answered {loc place : Location} {argument : Expr} {isOptional : Bool} {d : Dependency}
      (found : answers.note argument = .dependency d) :
      Handled answers false (request loc place argument isOptional) (request loc place
          (.literal argument.loc { value := .text d.path, isRegex := false, isBigint := false })
          isOptional)
        [.dependency d]
  /-- What is noted inside the argument comes before the warning about the call. -/
  | refused {loc place : Location} {argument argument' : Expr} {isOptional : Bool}
      {range : TextRange} {message : String} {notes : List Note}
      (failed : answers.note argument = .warning range message)
      (inside : Handled answers false (.expr argument) (.expr argument') notes) :
      Handled answers false (request loc place argument isOptional)
        (request loc place argument' isOptional) (notes ++ [.warning range message])

/-- The same for nodes that follow each other. -/
inductive HandledAll (answers : Answers) : Bool → List Node → List Node → List Note → Prop where
  | nil {bound : Bool} : HandledAll answers bound [] [] []
  | cons {bound : Bool} {n n' : Node} {rest rest' : List Node} {notes more : List Note}
      (first : Handled answers bound n n' notes) (others : HandledAll answers bound rest rest' more)
        :
      HandledAll answers bound (n :: rest) (n' :: rest') (notes ++ more)

end

variable {answers : Answers} {bound : Bool}

theorem Handled.only {e e' : Expr} {notes : List Note}
    (handled : Handled answers bound (.exprs [e]) (.exprs [e']) notes) :
    Handled answers bound (.expr e) (.expr e') notes := by
  obtain ⟨-, -, inside⟩ := handled
  obtain _ | ⟨first, inside⟩ := inside
  obtain _ | ⟨last, inside⟩ := inside
  cases inside
  obtain ⟨-, -, inside⟩ := last
  cases inside
  simp only [List.append_nil]
  exact first

/-- Answering a request adds the note about it, and gives the path of the module that it means. -/
theorem answer_run (answers : Answers) (arg : Expr) (r : Requests) :
    (answer answers arg).run r = (match answers.note arg with
        | .dependency d => .literal arg.loc
            { value := .text d.path, isRegex := false, isBigint := false }
        | .warning .. => arg, r.add (answers.note arg)) := by
  unfold answer Answers.note
  cases arg.constantText? with
  | none => rfl
  | some specifier =>
    dsimp only
    split <;> rfl

theorem Answers.text_of_note {arg : Expr} {d : Dependency}
    (found : answers.note arg = .dependency d) : ∃ s, arg.constantText? = some s := by
  cases known : arg.constantText? with
  | none => simp [note, known] at found
  | some s => exact ⟨s, rfl⟩

theorem foldl_add (notes : List Note) (r : Requests) : notes.foldl add r =
      { dependencies := r.dependencies ++ (notes.filterMap Note.dependency?).toArray
        warnings := r.warnings ++ (notes.filterMap Note.warning?).toArray } := by
  induction notes generalizing r with
  | nil => simp
  | cons note rest ih =>
    cases note <;> simp [ih, add, List.filterMap_cons, Note.dependency?, Note.warning?]

end Requests

variable {e callee : Expr} {bound : Bool} {args : List Expr}

/-! ## Bindings around a call -/

/-- What can bind a name for the code inside it. -/
inductive Binder where
  | program (body : List Stmt)
  | function (func : Func)
  | arrow (params : List Pattern) (body : ArrowBody)
  | handler (param : Option Pattern)

namespace Binder

/-- Whether a name is bound: a body binds what is declared ahead of its code, a function also its
parameters and its own name, and a handler its parameter. -/
def binds (name : String) : Binder → Bool
  | program body => (declarationsOf body).any (declares name)
  | function func => Ident.isNamed name func.name? || paramsBind name func.params ||
      (declarationsOf func.body).any (declares name)
  | arrow params (.block body) =>
    paramsBind name params || (declarationsOf body).any (declares name)
  | arrow params (.value _) => paramsBind name params
  | handler param => param.bind Pattern.name? == some name

def isHandler : Binder → Bool
  | handler _ => true
  | _ => false

end Binder

namespace Requests

/-- A call of the name that asks for modules, with all around it that may bind the name. -/
structure Site where
  around : List Binder
  argument : Expr

/-- Whether a function around the code or the program binds the name that asks for modules. -/
def hides (around : List Binder) : Bool := around.any fun b => !b.isHandler && b.binds requestName

def noted (answers : Answers) (r : Requests) (site : Site) : Requests :=
  if hides site.around then r else ((answer answers site.argument).run r).2

def notes (answers : Answers) (sites : List Site) : List Note :=
  (sites.filter fun site => !hides site.around).map fun site => answers.note site.argument

def callSites (around : List Binder) (callee : Expr) (args : List Expr) : List Site :=
  match callee.name?, args with
  | some name, [argument] => if name = requestName then [⟨around, argument⟩] else []
  | _, _ => []

end Requests

namespace Node

/-- What binds names for the parts of a node. -/
def binders : Node → List Binder
  | func f => [.function f]
  | expr (.arrow _ params b) => [.arrow params b]
  | handler (some (.mk param _)) => [.handler param]
  | _ => []

def ownSites (around : List Binder) : Node → List Requests.Site
  | expr (.call _ callee args _) => Requests.callSites around callee args
  | _ => []

/-- The sites in a node, in the order of their evaluation: those in its parts, then its own. -/
def sites (around : List Binder) (n : Node) : List Requests.Site :=
  (n.parts.2.attach.flatMap fun part => part.1.sites (n.binders ++ around)) ++ n.ownSites around
termination_by n
decreasing_by exact sizeOf_parts part.2

lemma sites_eq (around : List Binder) (n : Node) : n.sites around =
    n.parts.2.flatMap (·.sites (n.binders ++ around)) ++ n.ownSites around := by
  rw [sites, List.flatMap_subtype fun _ _ => rfl, List.unattach_attach]

lemma mem_sites_of_part {around : List Binder} {n part : Node} {site : Requests.Site}
    (mem : part ∈ n.parts.2) (inside : site ∈ part.sites (n.binders ++ around)) :
    site ∈ n.sites around := by
  rw [sites_eq]
  exact List.mem_append_left _ (List.mem_flatMap.mpr ⟨part, mem, inside⟩)

end Node

/-! ## Names that varied trees bind -/

def Variation.erasing : Variation := { erase := true, fill := false, lax := false }

lemma Variation.erasing_items (items : List Expr) : erasing.items items = items := by
  cases items <;> rfl

section

variable {c : Variation}

@[simp] lemma varyExprs_length (es : List Expr) : (varyExprs c es).length = es.length := by
  induction es with
  | nil => rfl
  | cons e rest ih => rw [varyExprs, List.length_cons, List.length_cons, ih]

@[simp] lemma declaratorsDeclare_vary (name : String) (ds : List Declarator) :
    declaratorsDeclare name (varyDeclarators c ds) = declaratorsDeclare name ds := by
  induction ds with
  | nil => rfl
  | cons d rest ih =>
    obtain ⟨loc, target, init⟩ := d
    simp only [declaratorsDeclare] at ih
    simp [declaratorsDeclare, varyDeclarators, ih]

@[simp] lemma statementsDeclare_vary (name : String) (body : List Stmt) :
    statementsDeclare name (varyStmts c body) = statementsDeclare name body := by
  have same : declares name ∘ vary c = declares name := by
    funext d
    cases d <;> simp [vary, declares]
  rw [statementsDeclare_eq, statementsDeclare_eq, varyStmts_declarations, List.any_map, same]

@[simp] lemma paramsBind_vary (name : String) (params : List Pattern) :
    paramsBind name (varyPatterns c params) = paramsBind name params := by
  induction params with
  | nil => rfl
  | cons p rest ih =>
    simp only [paramsBind] at ih
    simp [paramsBind, varyPatterns, ih]

@[simp] lemma Func.vary_binds (func : Func) (name : String) :
    (func.vary c).binds name = func.binds name := by
  simp [Func.binds]

@[simp] lemma ArrowBody.vary_binds (body : ArrowBody) (params : List Pattern) (name : String) :
    (body.vary c).binds (varyPatterns c params) name = body.binds params name := by
  cases body <;> simp [ArrowBody.binds, ArrowBody.vary]

end

/-- Expressions at one place, which are one name or text. -/
structure Expr.Alike (e e' : Expr) : Prop where
  name : e'.name? = e.name?
  text : e'.constantText? = e.constantText?
  loc : e'.loc = e.loc

lemma Expr.proper_of_text {s : String} (known : e.constantText? = some s) : e.isProper = true := by
  fun_induction Expr.constantText? e generalizing s with
  | case1 => rfl
  | case2 loc left right first second =>
    obtain ⟨a, left_known, rest⟩ := Option.bind_eq_some_iff.mp known
    obtain ⟨b, right_known, -⟩ := Option.bind_eq_some_iff.mp rest
    simp [Expr.isProper, first left_known, second right_known]
  | case3 => cases known

lemma Expr.eq_ident_of_name {name : String} (named : e.name? = some name) :
    ∃ loc, e = .ident loc name := by
  unfold Expr.name? at named
  split at named
  case h_1 loc _ => exact ⟨loc, by rw [Option.some.inj named]⟩
  case h_2 => cases named

lemma Expr.Alike.eq_ident {loc : Location} {name : String} (alike : (Expr.ident loc name).Alike e) :
    e = .ident loc name := by
  obtain ⟨loc', rfl⟩ := Expr.eq_ident_of_name alike.name
  have same : loc' = loc := alike.loc
  rw [same]

def Node.Alike : Node → Node → Prop
  | .expr e, .expr e' => e.Alike e'
  | .exprs es, .exprs es' => List.Forall₂ Expr.Alike es es'
  | _, _ => True

/-! ## Walks over a program -/

namespace Requests

open Variation

variable {α β α' β' : Type} {answers : Answers} {around : List Binder} {sites more : List Site}

lemma hides_function (func : Func) :
    (hides around || func.binds requestName) = hides (.function func :: around) := by
  simp [hides, Binder.isHandler, Binder.binds, Func.binds, statementsDeclare_eq, Bool.or_comm]

lemma hides_arrow (params : List Pattern) (body : ArrowBody) :
    (hides around || body.binds params requestName) = hides (.arrow params body :: around) := by
  cases body <;>
    simp [hides, Binder.isHandler, Binder.binds, ArrowBody.binds,
      statementsDeclare_eq, Bool.or_comm]

def erased (r : Requests) : Requests :=
  { r with warnings := r.warnings.map fun (range, message) => (erasing.range range, message) }

/-- Whether a walk over a piece of syntax collects what some sites add and gives what satisfies a
condition, and the walk over it with its places erased does the same at erased places. -/
def Collects (answers : Answers) (change : α → β) (code : Collect α) (code' : Collect β)
    (sites : List Site) (good : α → Prop) : Prop :=
  ∀ r, (code.run r).2 = sites.foldl (noted answers) r ∧ good (code.run r).1 ∧
    code'.run r.erased = (change (code.run r).1, (code.run r).2.erased)

namespace Collects

variable {change : α → β} {change' : α' → β'} {code : Collect α} {code' : Collect β}
  {good : α → Prop} {last : α' → Prop}

protected lemma pure {a : α} {b : β} (holds : good a) (same : b = change a := by rfl) :
    Collects answers change (pure a) (pure b) [] good :=
  fun _ => ⟨rfl, holds, by rw [same]; rfl⟩

protected lemma bind {next : α → Collect α'} {next' : β → Collect β'}
    (first : Collects answers change code code' sites good)
    (rest : ∀ a, good a → Collects answers change' (next a) (next' (change a)) more last) :
    Collects answers change' (code >>= next) (code' >>= next') (sites ++ more) last := by
  intro r
  obtain ⟨collected, holds, erased⟩ := first r
  obtain ⟨collected', holds', erased'⟩ := rest _ holds (code.run r).2
  refine ⟨?_, holds', ?_⟩
  · rw [List.foldl_append, ← collected]
    exact collected'
  · simp only [StateT.run, bind, StateT.bind] at erased erased' ⊢
    rw [erased]
    exact erased'

protected lemma map {f : α → α'} {f' : β → β'}
    (walks : Collects answers change code code' sites good) (holds : ∀ a, good a → last (f a))
    (same : ∀ a, f' (change a) = change' (f a) := by intro; rfl) :
    Collects answers change' (code >>= fun a => pure (f a)) (code' >>= fun b => pure (f' b)) sites
      last := by
  have whole : Collects answers change' (code >>= fun a => pure (f a))
      (code' >>= fun b => pure (f' b)) (sites ++ []) last :=
    walks.bind fun a given => .pure (holds a given) (same a)
  rwa [List.append_nil] at whole

end Collects

/-- Whether walks over a tree and over it with its places erased do so, and the tree that is given
is the one with its requests answered, of which as much is known about sequences. -/
abbrev Walks (answers : Answers) (around : List Binder) (sites : List Site)
    (change : Variation → α → α) (walk : Answers → Bool → α → Collect α) (node : α → Node)
    (proper : α → Bool) (x : α) : Prop :=
  Collects answers (change erasing) (walk answers (hides around) x)
    (walk answers (hides around) (change erasing x)) sites fun x' =>
      Handled answers (hides around) (node x) (node x') (notes answers sites) ∧
        proper x' = proper x ∧ (node x).Alike (node x')

abbrev Walked (answers : Answers) (around : List Binder) (sites : List Site) : Node → Prop
  | .expr e => Walks answers around sites Expr.vary inExpr .expr Expr.isProper e
  | .option e => Walks answers around sites varyOption inOption .option isOptionProper e
  | .exprs es => Walks answers around sites varyExprs inExprs .exprs areProper es
  | .elements es => Walks answers around sites varyElements inElements .elements
      areElementsProper es
  | .members ms => Walks answers around sites varyMembers inMembers .members areMembersProper ms
  | .pattern p => Walks answers around sites Pattern.vary inPattern .pattern (fun _ => true) p
  | .patternOption p =>
    Walks answers around sites varyPatternOption inPatternOption .patternOption (fun _ => true) p
  | .patterns ps => Walks answers around sites varyPatterns inPatterns .patterns (fun _ => true) ps
  | .patternElements es => Walks answers around sites varyPatternElements inPatternElements
      .patternElements (fun _ => true) es
  | .patternMembers ms =>
    Walks answers around sites varyPatternMembers inPatternMembers .patternMembers
      (fun _ => true) ms
  | .func f => Walks answers around sites Func.vary inFunc .func Func.isProper f
  | .arrowBody b => Walks answers around sites ArrowBody.vary inArrowBody .arrowBody
      (fun _ => true) b
  | .stmt s => Walks answers around sites Stmt.vary inStmt .stmt Stmt.isProper s
  | .branch s => Walks answers around sites varyStmtOption inStmtOption .branch isBranchProper s
  | .body b => Walks answers around sites varyStmts inStmts .body isBodyProper b
  | .finalizer b =>
    Walks answers around sites varyBodyOption inBodyOption .finalizer isFinalizerProper b
  | .cases cs => Walks answers around sites varyCases inCases .cases areCasesProper cs
  | .handler h => Walks answers around sites varyHandler inHandler .handler isHandlerProper h
  | .head h => Walks answers around sites ForHead.vary inHead .head ForHead.isProper h
  | .init h => Walks answers around sites varyHeadOption inHeadOption .init isInitProper h
  | .declarators ds =>
    Walks answers around sites varyDeclarators inDeclarators .declarators areDeclaratorsProper ds

lemma notes_append (answers : Answers) (first rest : List Site) :
    notes answers (first ++ rest) = notes answers first ++ notes answers rest := by
  simp [notes]

lemma foldl_noted (answers : Answers) (sites : List Site) (r : Requests) :
    sites.foldl (noted answers) r = (notes answers sites).foldl add r := by
  induction sites generalizing r with
  | nil => rfl
  | cons site rest ih =>
    rw [List.foldl_cons, ih, noted, answer_run]
    cases hidden : hides site.around <;> simp [notes, hidden]

lemma Handled.plain {n n' : Node} {notes : List Note} (plain : n.calls = false)
    (same : n'.parts.1 = n.parts.1)
    (inside : HandledAll answers (n.binds || bound) n.parts.2 n'.parts.2 notes) :
    Handled answers bound n n' notes :=
  .other (by simp [plain]) same inside

lemma HandledAll.last {n n' : Node} {notes : List Note} (only : Handled answers bound n n' notes) :
    HandledAll answers bound [n] [n'] notes := by
  simpa using HandledAll.cons only .nil

lemma HandledAll.join {n n' : Node} {others others' : List Node}
    (first : Handled answers bound n n' (notes answers sites))
    (rest : HandledAll answers bound others others' (notes answers more)) :
    HandledAll answers bound (n :: others) (n' :: others') (notes answers (sites ++ more)) := by
  rw [notes_append]
  exact .cons first rest

lemma sites_of_text {s : String} (known : e.constantText? = some s) :
    (Node.expr e).sites around = [] := by
  fun_induction Expr.constantText? e generalizing s with
  | case1 => simp [Node.sites_eq _ (.expr _), Node.parts, Node.ownSites]
  | case2 loc left right first second =>
    obtain ⟨a, left_known, rest⟩ := Option.bind_eq_some_iff.mp known
    obtain ⟨b, right_known, -⟩ := Option.bind_eq_some_iff.mp rest
    rw [Node.sites_eq]
    simp [Node.parts, Node.binders, Node.ownSites, first left_known, second right_known]
  | case3 => cases known

def Note.erased : Note → Note
  | dependency d => dependency d
  | warning range message => warning (erasing.range range) message

lemma Answers.note_erased (answers : Answers) (e : Expr) :
    answers.note (e.vary erasing) = (answers.note e).erased := by
  unfold note
  rw [Expr.vary_constantText?, Expr.vary_loc]
  cases e.constantText? with
  | none => rfl
  | some s =>
    dsimp only
    split <;> rfl

lemma erased_add (r : Requests) (note : Note) : r.erased.add note.erased = (r.add note).erased := by
  cases note <;> simp [add, erased, Note.erased]

lemma answer_walks (shown : hides around = false) (loc place : Location) {argument argument' : Expr}
    (isOptional : Bool) (alike : argument.Alike argument')
    (inside : Handled answers false (.expr argument) (.expr argument')
      (notes answers ((Node.expr argument).sites around)))
    (proper : argument'.isProper = argument.isProper) :
    Collects answers (Expr.vary erasing) (answer answers argument')
      (answer answers (argument'.vary erasing)) [⟨around, argument⟩] fun e =>
      Handled answers false (request loc place argument isOptional) (request loc place e isOptional)
          (notes answers ((Node.expr argument).sites around ++ [⟨around, argument⟩])) ∧
        e.isProper = argument.isProper := by
  have same : answers.note argument' = answers.note argument := by
    simp only [Answers.note, alike.text, alike.loc]
  have only : notes answers [⟨around, argument⟩] = [answers.note argument] := by simp [notes, shown]
  intro r
  simp only [List.foldl_cons, List.foldl_nil, noted, shown, answer_run, Answers.note_erased, same,
    erased_add, notes_append, only]
  cases note : answers.note argument with
  | dependency d =>
    obtain ⟨s, known⟩ := Answers.text_of_note note
    rw [sites_of_text known, Note.erased, Expr.vary_loc, alike.loc]
    exact ⟨rfl, ⟨.answered note, (Expr.proper_of_text known).symm⟩, rfl⟩
  | warning range message => exact ⟨rfl, ⟨.refused note inside, proper⟩, rfl⟩

/-- A call that is no request stays as it is. -/
lemma call_plain {loc : Location} {opt : Bool}
    (unasked : ¬ (callee.name? = some requestName ∧ args.length = 1 ∧ bound = false)) :
    call answers bound loc callee args opt = pure (.call loc callee args opt) := by
  unfold call
  split
  case h_1 name arg named =>
    rw [if_neg]
    rintro ⟨rfl, free⟩
    exact unasked ⟨named, rfl, by simpa using free⟩
  case h_2 => rfl

/-- A call that is no request adds no note. -/
lemma notes_callSites
    (unasked : ¬ (callee.name? = some requestName ∧ args.length = 1 ∧ hides around = false)) :
    notes answers (callSites around callee args) = [] := by
  unfold callSites
  split
  case h_1 name arg named =>
    split
    case isTrue asks =>
      subst asks
      have hidden : hides around = true := by simpa [named] using unasked
      simp [notes, hidden]
    case isFalse => rfl
  case h_2 => rfl

lemma call_walks (loc : Location) (opt : Bool)
    (first : Walked answers around ((Node.expr callee).sites around) (.expr callee))
    (second : Walked answers around ((Node.exprs args).sites around) (.exprs args)) :
    Walked answers around ((Node.expr callee).sites around ++ (Node.exprs args).sites around ++
      callSites around callee args) (.expr (.call loc callee args opt)) := by
  rw [List.append_assoc]
  refine .bind first ?_
  rintro callee' ⟨walked, proper, alike⟩
  refine .bind second ?_
  rintro args' ⟨arguments, propers, alikes⟩
  have same (es : List Expr) (known : areProper es = areProper args) :
      (Expr.call loc callee' es opt).isProper =
        (Expr.call loc callee args opt).isProper := by
    simp [Expr.isProper, proper, known]
  by_cases asks : callee.name? = some requestName ∧ args.length = 1 ∧ hides around = false
  · obtain ⟨named, single, shown⟩ := asks
    obtain ⟨arg, rfl⟩ := List.length_eq_one_iff.mp single
    obtain _ | ⟨only, rest⟩ := alikes
    cases rest
    obtain ⟨place, rfl⟩ := Expr.eq_ident_of_name named
    obtain rfl := alike.eq_ident
    rw [shown] at arguments ⊢
    simp only [call, callSites, Expr.vary, Expr.name?, varyExprs, true_and, if_true]
    have own : (Node.expr (.ident place requestName)).sites around = [] := by
      rw [Node.sites_eq]
      rfl
    have nil : (Node.exprs []).sites around = [] := by
      rw [Node.sites_eq]
      rfl
    have inside : (Node.exprs [arg]).sites around = (Node.expr arg).sites around := by
      rw [Node.sites_eq]
      simp [Node.parts, Node.binders, Node.ownSites, nil]
    refine (answer_walks shown loc place opt only (inside ▸ arguments.only)
      (by simpa [areProper] using propers)).map ?_
    rintro e ⟨handled, known⟩
    exact ⟨by simpa [own, inside] using handled, same [e] (by simp [areProper, known]),
      rfl, rfl, rfl⟩
  · have silent : notes answers (callSites around callee args) = [] := notes_callSites asks
    have length := alikes.length_eq
    rw [call_plain (by rwa [alike.name, ← length]),
      call_plain (by rwa [Expr.vary_name?, alike.name, varyExprs_length, ← length])]
    refine fun r => ⟨by rw [foldl_noted, silent]; rfl, ⟨?_, same args' propers, rfl, rfl, rfl⟩, rfl⟩
    rw [notes_append _ _ (_ ++ _), notes_append, silent, List.append_nil]
    exact .other (by simpa [Node.calls] using asks) rfl (.cons walked (.last arguments))

lemma sequence_erased (loc : Location) (items : List Expr) :
    Expr.vary erasing (.sequence loc items) =
      .sequence (erasing.location loc) (varyExprs erasing items) := by
  rw [Expr.vary, erasing_items]

lemma sequence_walks (loc : Location) {items : List Expr}
    (inside : Walked answers around sites (.exprs items)) :
    Walked answers around sites (.expr (.sequence loc items)) := by
  rw [Walked, Walks, sequence_erased]
  refine .map inside ?_ fun es => (sequence_erased loc es).symm
  rintro es ⟨handled, proper, alikes⟩
  refine ⟨.plain rfl rfl (.last handled), ?_, rfl, rfl, rfl⟩
  cases alikes with
  | nil => rfl
  | cons => simpa [Expr.isProper] using proper

lemma binary_walks (loc : Location) (op : BinaryOp) {left right : Expr}
    (first : Walked answers around sites (.expr left))
    (second : Walked answers around more (.expr right)) :
    Walked answers around (sites ++ more) (.expr (.binary loc op left right)) := by
  refine .bind first fun _ h => .map second fun _ h' =>
    ⟨.plain rfl rfl (.join h.1 (.last h'.1)), ?_, rfl, ?_, rfl⟩
  · simp [Expr.isProper, h.2.1, h'.2.1]
  · cases op <;> simp [Expr.constantText?, h.2.2.text, h'.2.2.text]

lemma arrow_walks (loc : Location) {params : List Pattern} {body : ArrowBody}
    (first : Walked answers (.arrow params body :: around) sites (.patterns params))
    (second : Walked answers (.arrow params body :: around) more (.arrowBody body)) :
    Walked answers around (sites ++ more) (.expr (.arrow loc params body)) := by
  simp only [Walked, Walks, Expr.vary, inExpr, ArrowBody.vary_binds, hides_arrow]
  refine .bind first fun _ h => .map second fun _ h' =>
    ⟨.plain rfl rfl ?_, rfl, rfl, rfl, rfl⟩
  rw [Node.binds, Bool.or_comm, hides_arrow]
  exact .join h.1 (.last h'.1)

lemma func_walks {func : Func}
    (first : Walked answers (.function func :: around) sites (.patterns func.params))
    (second : Walked answers (.function func :: around) more (.body func.body)) :
    Walked answers around (sites ++ more) (.func func) := by
  have binds := func.vary_binds (c := erasing) requestName
  obtain ⟨name, params, body, isGenerator, isAsync⟩ := func
  simp only [Func.vary] at binds
  simp only [Walked, Walks, Func.vary, inFunc, binds, hides_function]
  refine .bind first fun _ h => .map second fun _ h' =>
    ⟨.plain rfl rfl ?_, h'.2.1, trivial⟩
  rw [Node.binds, Bool.or_comm, hides_function]
  exact .join h.1 (.last h'.1)

/-- A handler is not looked at, so the name is bound inside as it is around. -/
lemma handler_walks {param : Option Pattern} {body : List Stmt}
    (first : Walked answers (.handler param :: around) sites (.patternOption param))
    (second : Walked answers (.handler param :: around) more (.body body)) :
    Walked answers around (sites ++ more) (.handler (some (.mk param body))) :=
  Collects.bind first fun _ h => .map second fun _ h' =>
    ⟨.plain rfl rfl (.join h.1 (.last h'.1)), h'.2.1, trivial⟩

attribute [local simp] Expr.isProper areProper areElementsProper areMembersProper Stmt.isProper
  isBodyProper areCasesProper areDeclaratorsProper

/-- The walk over a node collects its sites and answers the requests in it. -/
theorem walked (n : Node) : ∀ around, Walked answers around (n.sites around) n := by
  induction n using Node.induction with
  | step n ih =>
    intro around
    unfold Node.parts at ih
    split at ih <;> simp only [Node.All, and_true] at ih <;> rw [Node.sites_eq] <;>
      simp only [Node.parts, Node.binders, Node.ownSites, List.flatMap_cons, List.flatMap_nil,
        List.append_nil, List.nil_append, List.cons_append]
    -- In these the walk does more than its parts: it answers, joins or binds.
    case h_4 loc params body => exact arrow_walks loc (ih.1 _) (ih.2 _)
    case h_8 loc op left right => exact binary_walks loc op (ih.1 _) (ih.2 _)
    case h_12 loc callee arguments opt => exact call_walks loc opt (ih.1 _) (ih.2 _)
    case h_15 loc items => exact sequence_walks loc (ih _)
    case h_40 name params body isGenerator isAsync => exact func_walks (ih.1 _) (ih.2 _)
    case h_64 param body => exact handler_walks (ih.1 _) (ih.2 _)
    -- The others are made again of their parts, walked one after the other.
    all_goals first
      | obtain ⟨first, second, third, fourth⟩ := ih
        exact .bind (first _) fun _ h1 => .bind (second _) fun _ h2 =>
          Collects.bind (third _) fun _ h3 => .map (fourth _) fun _ h4 =>
            ⟨.plain rfl rfl (.join h1.1 (.join h2.1 (.join h3.1 (.last h4.1)))),
              by simp [h1.2.1, h2.2.1, h3.2.1, h4.2.1], trivial⟩
      | obtain ⟨first, second, third⟩ := ih
        exact .bind (first _) fun _ h1 => .bind (second _) fun _ h2 =>
          Collects.map (third _) fun _ h3 =>
            ⟨.plain rfl rfl (.join h1.1 (.join h2.1 (.last h3.1))),
              by first | rfl | (simp [h2.2.1, h3.2.1]; done) | simp [h1.2.1, h2.2.1, h3.2.1],
              by first | trivial | exact ⟨rfl, rfl, rfl⟩⟩
      | obtain ⟨first, second⟩ := ih
        exact .bind (first _) fun _ h1 => .map (second _) fun _ h2 =>
          ⟨.plain rfl rfl (.join h1.1 (.last h2.1)), by first | rfl | simp [h1.2.1, h2.2.1],
            by first | trivial | exact ⟨rfl, rfl, rfl⟩ | exact .cons h1.2.2 h2.2.2⟩
      | exact .map (ih _) fun _ h => ⟨.plain rfl rfl (.last h.1),
          by first | rfl | exact h.2.1, by first | trivial | exact ⟨rfl, rfl, rfl⟩⟩
      | exact .pure ⟨.plain rfl rfl .nil, rfl,
          by first | trivial | exact ⟨rfl, rfl, rfl⟩ | exact .nil⟩

lemma program_walks (answers : Answers) (p : Program) :
    let walk := inStmts answers (statementsDeclare requestName p.body)
    let sites := (Node.body p.body).sites [.program p.body]
    Collects answers (varyStmts erasing) (walk p.body) (walk (varyStmts erasing p.body)) sites
      fun body => Handled answers (statementsDeclare requestName p.body) (.body p.body) (.body body)
          (notes answers sites) ∧ isBodyProper body = isBodyProper p.body ∧
            (Node.body p.body).Alike (.body body) := by
  have bound : statementsDeclare requestName p.body = hides [.program p.body] := by
    simp [hides, Binder.isHandler, Binder.binds, statementsDeclare_eq]
  rw [bound]
  exact walked (.body p.body) _

lemma answerRequests_proper {p : Program} (proper : isBodyProper p.body = true)
    (answers : Answers) : isBodyProper (p.answerRequests answers).1.body = true :=
  (program_walks answers p .none).2.1.2.1.trans proper

end Requests

namespace Program

open Requests

/-- All calls of a program that ask for modules if nothing binds the name, in order. -/
def requestSites (p : Program) : List Requests.Site := (Node.body p.body).sites [.program p.body]

/-- The requests of a program are the calls of the name around which no function binds it, and which
the program does not bind either, in order. Handlers are not looked at. -/
theorem answerRequests_asks (p : Program) (answers : Answers) : (p.answerRequests answers).2 =
      (p.requestSites.filter fun site =>
          !site.around.any fun b => !b.isHandler && b.binds requestName).foldl
        (fun r site => ((answer answers site.argument).run r).2) .none := by
  have collected : (p.answerRequests answers).2 = p.requestSites.foldl (noted answers) .none :=
    (program_walks answers p .none).1
  rw [collected, List.foldl_filter]
  congr
  funext r site
  rw [noted, hides]
  cases site.around.any fun b => !b.isHandler && b.binds requestName <;> rfl

/-- Each request of a program is handled once and all else stays as it is: the program becomes the
one in which the requests are answered, and what is noted about them, in the order in which their
calls end, are the dependencies and the warnings. -/
theorem answerRequests_handles (p : Program) (answers : Answers) : ∃ notes : List Note,
      Handled answers (statementsDeclare requestName p.body) (.body p.body)
        (.body (p.answerRequests answers).1.body) notes ∧
      p.answerRequests answers = ({ p with body := (p.answerRequests answers).1.body },
          { dependencies := (notes.filterMap Note.dependency?).toArray
            warnings := (notes.filterMap Note.warning?).toArray }) := by
  obtain ⟨collected, ⟨handled, -⟩, -⟩ := program_walks answers p .none
  refine ⟨_, handled, Prod.ext rfl (collected.trans ?_)⟩
  rw [foldl_noted, foldl_add]
  simp [Requests.none]

def nestedRequest : Program where
  loc := .ofRange 0 20
  body :=
    let call (start stop : Nat) (argument : Expr) := Expr.call (.ofRange start stop)
      (.ident (.ofRange start (start + 7)) "require") [argument] false
    [.expression (.ofRange 0 20) (call 0 19 (call 8 18 (.ident (.ofRange 16 17) "x"))) none]
  sourceType := none

/-- The warning about the inner call comes first, although the outer one starts before it. -/
theorem nestedRequest_order :
    ¬ ((nestedRequest.answerRequests ⟨.ofTable [], ""⟩).2.warnings.toList.map
      (·.1.start)).Pairwise (· ≤ ·) := by
  decide +kernel

open Build in
/-- A handler whose parameter has the name that asks for modules, with a call of it. -/
def caughtName : Program :=
  program [tryCatch [throwValue (text "a")] "require"
    [expression (call (ident "require") [text "./a"])]]

/-- The call of what was caught is taken for a request. -/
theorem caughtName_asks :
    (caughtName.requestSites.any fun site => site.around.any (·.binds requestName)) = true ∧
      (caughtName.answerRequests ⟨.ofTable [("./a", "/lib/a.js")], ""⟩).2.dependencies =
        #[{ specifier := "./a", path := "/lib/a.js" }] := by
  -- The call stands in the body of the handler.
  have inside : ⟨[.handler (Build.pattern "require"), .program caughtName.body], Build.text "./a"⟩ ∈
      caughtName.requestSites := by
    refine Node.mem_sites_of_part (.head _) (Node.mem_sites_of_part (.tail _ (.head _)) ?_)
    refine Node.mem_sites_of_part (.tail _ (.head _)) (Node.mem_sites_of_part (.head _) ?_)
    refine Node.mem_sites_of_part (.head _) ?_
    rw [Node.sites_eq]
    exact List.mem_append_right _ (.head _)
  exact ⟨List.any_eq_true.mpr ⟨_, inside, by decide +kernel⟩, by decide +kernel⟩

end Program
end Scriptc
