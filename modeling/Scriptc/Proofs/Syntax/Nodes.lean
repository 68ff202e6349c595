import Scriptc.Syntax.Declarations
import Scriptc.Syntax.Names

/-!
# Nodes of syntax trees

All kinds of nodes as one type, with their parts. What holds of a node if it holds of its parts
holds of every node.
-/

namespace Scriptc

/-- A node of a syntax tree, or several that follow each other. -/
inductive Node where
  | expr (e : Expr)
  | option (e : Option Expr)
  | exprs (es : List Expr)
  | elements (es : List (Option Expr))
  | members (ms : List Member)
  | pattern (p : Pattern)
  | patternOption (p : Option Pattern)
  | patterns (ps : List Pattern)
  | patternElements (es : List (Option Pattern))
  | patternMembers (ms : List PatternMember)
  | func (f : Func)
  | arrowBody (body : ArrowBody)
  | stmt (s : Stmt)
  | branch (s : Option Stmt)
  | body (body : List Stmt)
  | finalizer (body : Option (List Stmt))
  | cases (cases : List SwitchCase)
  | handler (h : Option Handler)
  | head (head : ForHead)
  | init (head : Option ForHead)
  | declarators (ds : List Declarator)

namespace Node

/-- A node without its parts, which stand for nothing there, and the parts in the order of the
text. -/
def parts : Node → Node × List Node
  | expr (.array loc es) => (expr (.array loc []), [elements es])
  | expr (.object loc ms) => (expr (.object loc []), [members ms])
  | expr (.function loc f) => (expr (.function loc (.mk none [] [] false false)), [func f])
  | expr (.arrow loc ps b) => (expr (.arrow loc [] (.block [])), [patterns ps, arrowBody b])
  | expr (.classDef loc name e) => (expr (.classDef loc name none), [option e])
  | expr (.unary loc op e) => (expr (.unary loc op default), [expr e])
  | expr (.update loc op keepsOld e) => (expr (.update loc op keepsOld default), [expr e])
  | expr (.binary loc op l r) => (expr (.binary loc op default default), [expr l, expr r])
  | expr (.logical loc op l r) => (expr (.logical loc op default default), [expr l, expr r])
  | expr (.assign loc op l r) => (expr (.assign loc op default default), [expr l, expr r])
  | expr (.conditional loc test l r) =>
    (expr (.conditional loc default default default), [expr test, expr l, expr r])
  | expr (.call loc callee args o) => (expr (.call loc default [] o), [expr callee, exprs args])
  | expr (.construct loc callee args) =>
    (expr (.construct loc default []), [expr callee, exprs args])
  | expr (.member loc l r computed o) =>
    (expr (.member loc default default computed o), [expr l, expr r])
  | expr (.sequence loc es) => (expr (.sequence loc []), [exprs es])
  | expr (.template loc es) => (expr (.template loc []), [exprs es])
  | expr (.taggedTemplate loc e es) => (expr (.taggedTemplate loc default []), [expr e, exprs es])
  | expr (.spread loc e) => (expr (.spread loc default), [expr e])
  | expr (.yieldValue loc e) => (expr (.yieldValue loc none), [option e])
  | expr (.awaitValue loc e) => (expr (.awaitValue loc default), [expr e])
  | expr (.objectPattern loc ms) => (expr (.objectPattern loc []), [patternMembers ms])
  | expr (.arrayPattern loc es) => (expr (.arrayPattern loc []), [patternElements es])
  | option (some e) => (option (some default), [expr e])
  | exprs (e :: rest) => (exprs [default], [expr e, exprs rest])
  | elements (none :: rest) => (elements [none], [elements rest])
  | elements (some e :: rest) => (elements [some default], [expr e, elements rest])
  | members (.property loc key value kind computed :: rest) =>
    (members [.property loc default default kind computed], [expr key, expr value, members rest])
  | members (.spread loc e :: rest) => (members [.spread loc default], [expr e, members rest])
  | pattern (.object loc ms) => (pattern (.object loc []), [patternMembers ms])
  | pattern (.array loc es) => (pattern (.array loc []), [patternElements es])
  | pattern (.withDefault loc p e) =>
    (pattern (.withDefault loc default default), [pattern p, expr e])
  | pattern (.rest loc p) => (pattern (.rest loc default), [pattern p])
  | pattern (.member loc l r) => (pattern (.member loc default default), [expr l, expr r])
  | patternOption (some p) => (patternOption (some default), [pattern p])
  | patterns (p :: rest) => (patterns [default], [pattern p, patterns rest])
  | patternElements (none :: rest) => (patternElements [none], [patternElements rest])
  | patternElements (some p :: rest) =>
    (patternElements [some default], [pattern p, patternElements rest])
  | patternMembers (.property key p :: rest) =>
    (patternMembers [.property default default], [expr key, pattern p, patternMembers rest])
  | patternMembers (.rest p :: rest) =>
    (patternMembers [.rest default], [pattern p, patternMembers rest])
  | func (.mk name ps b isGenerator isAsync) =>
    (func (.mk name [] [] isGenerator isAsync), [patterns ps, body b])
  | arrowBody (.block b) => (arrowBody (.block []), [body b])
  | arrowBody (.value e) => (arrowBody (.value default), [expr e])
  | stmt (.block loc b) => (stmt (.block loc []), [body b])
  | stmt (.expression loc e directive) => (stmt (.expression loc default directive), [expr e])
  | stmt (.ifElse loc test s other) =>
    (stmt (.ifElse loc default default none), [expr test, stmt s, branch other])
  | stmt (.labeled loc label s) => (stmt (.labeled loc label default), [stmt s])
  | stmt (.withObject loc e s) => (stmt (.withObject loc default default), [expr e, stmt s])
  | stmt (.switch loc e cs) => (stmt (.switch loc default []), [expr e, cases cs])
  | stmt (.returnValue loc e) => (stmt (.returnValue loc none), [option e])
  | stmt (.throwValue loc e) => (stmt (.throwValue loc default), [expr e])
  | stmt (.tryCatch loc b h last) =>
    (stmt (.tryCatch loc [] none none), [body b, handler h, finalizer last])
  | stmt (.whileLoop loc e s) => (stmt (.whileLoop loc default default), [expr e, stmt s])
  | stmt (.doWhile loc s e) => (stmt (.doWhile loc default default), [stmt s, expr e])
  | stmt (.forLoop loc first test update s) =>
    (stmt (.forLoop loc none none none default), [init first, option test, option update, stmt s])
  | stmt (.forIn loc h e s) =>
    (stmt (.forIn loc (.target default) default default), [head h, expr e, stmt s])
  | stmt (.forOf loc h e s) =>
    (stmt (.forOf loc (.target default) default default), [head h, expr e, stmt s])
  | stmt (.function loc f) => (stmt (.function loc (.mk none [] [] false false)), [func f])
  | stmt (.varDecl loc kind ds) => (stmt (.varDecl loc kind []), [declarators ds])
  | stmt (.classDef loc name e) => (stmt (.classDef loc name none), [option e])
  | branch (some s) => (branch (some default), [stmt s])
  | body (s :: rest) => (body [default], [stmt s, body rest])
  | finalizer (some b) => (finalizer (some []), [body b])
  | cases (.mk test b :: rest) => (cases [.mk none []], [option test, body b, cases rest])
  | handler (some (.mk param b)) => (handler (some (.mk none [])), [patternOption param, body b])
  | head (.declaration loc kind ds) => (head (.declaration loc kind []), [declarators ds])
  | head (.target e) => (head (.target default), [expr e])
  | init (some h) => (init (some (.target default)), [head h])
  | declarators (.mk loc p e :: rest) =>
    (declarators [.mk loc default none], [pattern p, option e, declarators rest])
  | n@(expr (.ident ..)) | n@(expr (.literal ..)) | n@(expr (.receiver _))
  | n@(pattern (.ident ..)) | n@(stmt (.empty _)) | n@(stmt (.breakTo ..))
  | n@(stmt (.continueTo ..)) | n@(stmt (.debugger _)) | n@(option none) | n@(patternOption none)
  | n@(branch none) | n@(finalizer none) | n@(handler none) | n@(init none) | n@(exprs [])
  | n@(elements []) | n@(members []) | n@(patterns []) | n@(patternElements [])
  | n@(patternMembers []) | n@(body []) | n@(cases []) | n@(declarators []) =>
    (n, [])

theorem sizeOf_parts {n part : Node} (mem : part ∈ n.parts.2) : sizeOf part < sizeOf n := by
  unfold parts at mem
  split at mem <;>
    simp only [List.mem_cons, List.not_mem_nil, or_false] at mem <;>
    rcases mem with rfl | rfl | rfl | rfl <;> simp <;> omega

/-- Whether each node of a list satisfies a condition. -/
def All (motive : Node → Prop) : List Node → Prop
  | [] => True
  | n :: rest => motive n ∧ All motive rest

theorem all_iff {motive : Node → Prop} {ns : List Node} : All motive ns ↔ ∀ n ∈ ns, motive n := by
  induction ns with
  | nil => simp [All]
  | cons n rest ih => rw [All, ih, List.forall_mem_cons]

/-- What holds of a node if it holds of its parts holds of every node. -/
theorem induction {motive : Node → Prop} (step : ∀ n, All motive n.parts.2 → motive n) (n : Node) :
    motive n :=
  step n <| all_iff.mpr fun part mem =>
    have := sizeOf_parts mem
    induction step part
termination_by n

end Node

/-! ## Declared names -/

def Declaration.declares (name : String) : Declaration → Bool
  | .function _ func => Ident.isNamed name func.name?
  | .varDecl _ _ declarators => declaratorsDeclare name declarators

namespace Node

/-- The declarations of a node for the body that it stands in. -/
def declarations : Node → List Declaration
  | stmt s => s.declarations
  | branch s => optionalDeclarations s
  | body b => declarationsOf b
  | finalizer b => bodyDeclarations b
  | cases cs => caseDeclarations cs
  | handler h => handlerDeclarations h
  | head h => h.declarations
  | init h => h.toList.flatMap ForHead.declarations
  | _ => []

def declares (name : String) : Node → Bool
  | stmt s => s.declares name
  | branch s => optionalStatementDeclares name s
  | body b => statementsDeclare name b
  | finalizer b => optionalBodyDeclares name b
  | cases cs => casesDeclare name cs
  | handler h => handlerDeclares name h
  | head h => h.declares name
  | init h => h.any (·.declares name)
  | _ => false

/-- The name is declared exactly if one of the collected declarations declares it. -/
theorem declares_eq (name : String) (n : Node) :
    n.declares name = n.declarations.any (Declaration.declares name) := by
  induction n using Node.induction with
  | step n ih =>
    unfold parts at ih
    split at ih <;> simp only [All, and_true] at ih
    all_goals simp_all [declares, declarations, Stmt.declares, Stmt.declarations, ForHead.declares,
      ForHead.declarations, Declaration.declares, handlerDeclares, handlerDeclarations,
      casesDeclare, caseDeclarations, optionalStatementDeclares, optionalDeclarations,
      statementsDeclare, declarationsOf, optionalBodyDeclares, bodyDeclarations, Bool.or_assoc]

end Node

theorem statementsDeclare_eq (name : String) (b : List Stmt) :
    statementsDeclare name b = (declarationsOf b).any (Declaration.declares name) :=
  (Node.body b).declares_eq name

end Scriptc
