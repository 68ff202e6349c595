import Scriptc.Proofs.Syntax.Nodes

/-!
# Variations of syntax trees

Trees may differ in what their code does not depend on: the places of their nodes, and empty
sequences that no code is made of. A variation erases places or fills empty sequences, and what is
asked about a tree has the same answer for the varied one.
-/

namespace Scriptc

/-- How one of two lowerings differs from the other. -/
structure Variation where
  erase : Bool
  /-- Whether empty sequences of its tree are filled. -/
  fill : Bool
  lax : Bool

namespace Variation

variable (c : Variation)

def location (loc : Location) : Location :=
  if c.erase then .nowhere else loc

def range (r : TextRange) : TextRange :=
  if c.erase then Location.nowhere.range else r

@[simp] theorem location_range (loc : Location) : (c.location loc).range = c.range loc.range := by
  rw [location, range]
  split <;> rfl

def items : List Expr → List Expr
  | [] => if c.fill then [.receiver .nowhere] else []
  | items => items

end Variation

def Ident.vary (c : Variation) (ident : Ident) : Ident := { ident with loc := c.location ident.loc }

section

variable (c : Variation)

mutual

def Expr.vary : Expr → Expr
  | .ident loc name => .ident (c.location loc) name
  | .literal loc lit => .literal (c.location loc) lit
  | .receiver loc => .receiver (c.location loc)
  | .array loc elements => .array (c.location loc) (varyElements elements)
  | .object loc members => .object (c.location loc) (varyMembers members)
  | .function loc func => .function (c.location loc) func.vary
  | .arrow loc params body => .arrow (c.location loc) (varyPatterns params) body.vary
  | .classDef loc name superClass =>
    .classDef (c.location loc) (name.map (.vary c)) (varyOption superClass)
  | .unary loc op argument => .unary (c.location loc) op argument.vary
  | .update loc op keepsOld argument => .update (c.location loc) op keepsOld argument.vary
  | .binary loc op left right => .binary (c.location loc) op left.vary right.vary
  | .logical loc op left right => .logical (c.location loc) op left.vary right.vary
  | .assign loc op left right => .assign (c.location loc) op left.vary right.vary
  | .conditional loc test whenTrue whenFalse =>
    .conditional (c.location loc) test.vary whenTrue.vary whenFalse.vary
  | .call loc callee args isOptional =>
    .call (c.location loc) callee.vary (varyExprs args) isOptional
  | .construct loc callee args => .construct (c.location loc) callee.vary (varyExprs args)
  | .member loc object property computed isOptional =>
    .member (c.location loc) object.vary property.vary computed isOptional
  | .sequence loc items => .sequence (c.location loc) (c.items (varyExprs items))
  | .template loc values => .template (c.location loc) (varyExprs values)
  | .taggedTemplate loc tag values => .taggedTemplate (c.location loc) tag.vary
      (varyExprs values)
  | .spread loc argument => .spread (c.location loc) argument.vary
  | .yieldValue loc argument => .yieldValue (c.location loc) (varyOption argument)
  | .awaitValue loc argument => .awaitValue (c.location loc) argument.vary
  | .objectPattern loc members => .objectPattern (c.location loc) (varyPatternMembers members)
  | .arrayPattern loc elements => .arrayPattern (c.location loc) (varyPatternElements elements)

def varyOption : Option Expr → Option Expr
  | none => none
  | some e => some e.vary

def varyExprs : List Expr → List Expr
  | [] => []
  | e :: rest => e.vary :: varyExprs rest

def varyElements : List (Option Expr) → List (Option Expr)
  | [] => []
  | none :: rest => none :: varyElements rest
  | some e :: rest => some e.vary :: varyElements rest

def varyMembers : List Member → List Member
  | [] => []
  | .property loc key value kind computed :: rest =>
    .property (c.location loc) key.vary value.vary kind computed :: varyMembers rest
  | .spread loc argument :: rest => .spread (c.location loc) argument.vary :: varyMembers rest

def Pattern.vary : Pattern → Pattern
  | .ident loc name => .ident (c.location loc) name
  | .object loc members => .object (c.location loc) (varyPatternMembers members)
  | .array loc elements => .array (c.location loc) (varyPatternElements elements)
  | .withDefault loc target value => .withDefault (c.location loc) target.vary value.vary
  | .rest loc target => .rest (c.location loc) target.vary
  | .member loc object property => .member (c.location loc) object.vary property.vary

def varyPatternOption : Option Pattern → Option Pattern
  | none => none
  | some p => some p.vary

def varyPatterns : List Pattern → List Pattern
  | [] => []
  | p :: rest => p.vary :: varyPatterns rest

def varyPatternElements : List (Option Pattern) → List (Option Pattern)
  | [] => []
  | none :: rest => none :: varyPatternElements rest
  | some p :: rest => some p.vary :: varyPatternElements rest

def varyPatternMembers : List PatternMember → List PatternMember
  | [] => []
  | .property key target :: rest => .property key.vary target.vary ::
      varyPatternMembers rest
  | .rest target :: rest => .rest target.vary :: varyPatternMembers rest

def Func.vary : Func → Func
  | .mk name params body isGenerator isAsync =>
    .mk (name.map (.vary c)) (varyPatterns params) (varyStmts body) isGenerator isAsync

def ArrowBody.vary : ArrowBody → ArrowBody
  | .block body => .block (varyStmts body)
  | .value e => .value e.vary

def Stmt.vary : Stmt → Stmt
  | .block loc body => .block (c.location loc) (varyStmts body)
  | .empty loc => .empty (c.location loc)
  | .expression loc e directive => .expression (c.location loc) e.vary directive
  | .ifElse loc test whenTrue whenFalse =>
    .ifElse (c.location loc) test.vary whenTrue.vary (varyStmtOption whenFalse)
  | .labeled loc label body => .labeled (c.location loc) (label.vary c) body.vary
  | .breakTo loc label => .breakTo (c.location loc) (label.map (.vary c))
  | .continueTo loc label => .continueTo (c.location loc) (label.map (.vary c))
  | .withObject loc object body => .withObject (c.location loc) object.vary body.vary
  | .switch loc discriminant cases =>
    .switch (c.location loc) discriminant.vary (varyCases cases)
  | .returnValue loc argument => .returnValue (c.location loc) (varyOption argument)
  | .throwValue loc argument => .throwValue (c.location loc) argument.vary
  | .tryCatch loc block handler finalizer =>
    .tryCatch (c.location loc) (varyStmts block) (varyHandler handler)
      (varyBodyOption finalizer)
  | .whileLoop loc test body => .whileLoop (c.location loc) test.vary body.vary
  | .doWhile loc body test => .doWhile (c.location loc) body.vary test.vary
  | .forLoop loc init test update body =>
    .forLoop (c.location loc) (varyHeadOption init) (varyOption test) (varyOption update)
      body.vary
  | .forIn loc head object body =>
    .forIn (c.location loc) head.vary object.vary body.vary
  | .forOf loc head object body =>
    .forOf (c.location loc) head.vary object.vary body.vary
  | .debugger loc => .debugger (c.location loc)
  | .function loc func => .function (c.location loc) func.vary
  | .varDecl loc kind declarators => .varDecl (c.location loc) kind (varyDeclarators declarators)
  | .classDef loc name superClass =>
    .classDef (c.location loc) (name.map (.vary c)) (varyOption superClass)

def varyStmts : List Stmt → List Stmt
  | [] => []
  | s :: rest => s.vary :: varyStmts rest

def varyStmtOption : Option Stmt → Option Stmt
  | none => none
  | some s => some s.vary

def varyBodyOption : Option (List Stmt) → Option (List Stmt)
  | none => none
  | some body => some (varyStmts body)

def varyCases : List SwitchCase → List SwitchCase
  | [] => []
  | .mk test body :: rest => .mk (varyOption test) (varyStmts body) :: varyCases rest

def varyHandler : Option Handler → Option Handler
  | none => none
  | some (.mk param body) => some (.mk (varyPatternOption param) (varyStmts body))

def ForHead.vary : ForHead → ForHead
  | .declaration loc kind declarators =>
    .declaration (c.location loc) kind (varyDeclarators declarators)
  | .target e => .target e.vary

def varyHeadOption : Option ForHead → Option ForHead
  | none => none
  | some head => some head.vary

def varyDeclarators : List Declarator → List Declarator
  | [] => []
  | .mk loc target init :: rest =>
    .mk (c.location loc) target.vary (varyOption init) :: varyDeclarators rest

end

end

def Node.vary (c : Variation) : Node → Node
  | expr e => expr (e.vary c)
  | option e => option (varyOption c e)
  | exprs es => exprs (varyExprs c es)
  | elements es => elements (varyElements c es)
  | members ms => members (varyMembers c ms)
  | pattern p => pattern (p.vary c)
  | patternOption p => patternOption (varyPatternOption c p)
  | patterns ps => patterns (varyPatterns c ps)
  | patternElements es => patternElements (varyPatternElements c es)
  | patternMembers ms => patternMembers (varyPatternMembers c ms)
  | func f => func (f.vary c)
  | arrowBody b => arrowBody (b.vary c)
  | stmt s => stmt (s.vary c)
  | branch s => branch (varyStmtOption c s)
  | body b => body (varyStmts c b)
  | finalizer b => finalizer (varyBodyOption c b)
  | cases cs => cases (varyCases c cs)
  | handler h => handler (varyHandler c h)
  | head h => head (h.vary c)
  | init h => init (varyHeadOption c h)
  | declarators ds => declarators (varyDeclarators c ds)

def Declaration.vary (c : Variation) : Declaration → Declaration
  | .function loc func => .function (c.location loc) (func.vary c)
  | .varDecl loc kind declarators => .varDecl (c.location loc) kind (varyDeclarators c declarators)

def Program.vary (c : Variation) (p : Program) : Program :=
  { p with loc := c.location p.loc, body := varyStmts c p.body }

/-! ## Questions with one answer -/

section

variable {c : Variation}

namespace Expr

@[simp] theorem vary_loc (e : Expr) : (e.vary c).loc = c.location e.loc := by cases e <;> rfl

@[simp] theorem vary_name? (e : Expr) : (e.vary c).name? = e.name? := by cases e <;> rfl

@[simp] theorem vary_isSimple (e : Expr) : (e.vary c).isSimple = e.isSimple := by cases e <;> rfl

@[simp] theorem vary_constantText? : ∀ e : Expr, (e.vary c).constantText? = e.constantText?
  | .binary _ op left right => by
    cases op <;> simp [vary, constantText?, vary_constantText? left, vary_constantText? right]
  | .literal _ ⟨value, _, _⟩ => by cases value <;> rfl
  | .ident .. | .receiver .. | .array .. | .object .. | .function .. | .arrow ..
  | .classDef .. | .unary .. | .update .. | .logical .. | .assign .. | .conditional .. | .call ..
  | .construct .. | .member .. | .sequence .. | .template .. | .taggedTemplate .. | .spread ..
  | .yieldValue .. | .awaitValue .. | .objectPattern .. | .arrayPattern .. => rfl

mutual

@[simp] theorem vary_isPure : ∀ e : Expr, (e.vary c).isPure = e.isPure
  | .sequence _ [] => by
    simp only [vary, varyExprs, Variation.items, isPure]
    split <;> rfl
  | .sequence _ (e :: rest) => by
    simp [vary, varyExprs, Variation.items, isPure, areAllPure, vary_isPure e, vary_areAllPure rest]
  | .binary .. | .literal .. | .ident .. | .receiver .. | .array .. | .object .. | .function ..
  | .arrow .. | .classDef .. | .unary .. | .update .. | .logical .. | .assign .. | .conditional ..
  | .call .. | .construct .. | .member .. | .template .. | .taggedTemplate .. | .spread ..
  | .yieldValue .. | .awaitValue .. | .objectPattern .. | .arrayPattern .. => rfl

theorem vary_areAllPure : ∀ es : List Expr, areAllPure (varyExprs c es) = areAllPure es
  | [] => rfl
  | e :: rest => by simp [varyExprs, areAllPure, vary_isPure e, vary_areAllPure rest]

end

end Expr

@[simp] theorem Pattern.vary_loc (p : Pattern) : (p.vary c).loc = c.location p.loc := by
  cases p <;> rfl

@[simp] theorem Pattern.vary_name? (p : Pattern) : (p.vary c).name? = p.name? := by cases p <;> rfl

variable (f : Func)

@[simp] theorem Func.vary_name? : (f.vary c).name? = f.name?.map (.vary c) := by
  cases f; rfl

@[simp] theorem Func.vary_params : (f.vary c).params = varyPatterns c f.params := by
  cases f; rfl

@[simp] theorem Func.vary_body : (f.vary c).body = varyStmts c f.body := by cases f; rfl

@[simp] theorem Func.vary_isGenerator : (f.vary c).isGenerator = f.isGenerator := by
  cases f; rfl

@[simp] theorem Func.vary_isAsync : (f.vary c).isAsync = f.isAsync := by cases f; rfl

@[simp] theorem varyStmts_startStrict (body : List Stmt) :
    Stmt.startStrict (varyStmts c body) = Stmt.startStrict body := by
  induction body with
  | nil => rfl
  | cons s rest ih =>
    have same : (s.vary c).directive? = s.directive? := by cases s <;> rfl
    simp only [varyStmts, Stmt.startStrict, same, ih]

@[simp] theorem Ident.vary_isNamed (name : String) (ident : Option Ident) :
    Ident.isNamed name (ident.map (.vary c)) = Ident.isNamed name ident := by
  cases ident <;> rfl

theorem Variation.items_mention (name : String) (es : List Expr) :
    expressionsMention name (c.items es) = expressionsMention name es := by
  cases es with
  | nil =>
    simp only [items]
    split <;> rfl
  | cons => rfl

namespace Node

def mentions (name : String) : Node → Bool
  | expr e => e.mentions name
  | option e => optionMentions name e
  | exprs es => expressionsMention name es
  | elements es => elementsMention name es
  | members ms => membersMention name ms
  | pattern p => p.mentions name
  | patternOption p => optionalPatternMentions name p
  | patterns ps => patternsMention name ps
  | patternElements es => patternElementsMention name es
  | patternMembers ms => patternMembersMention name ms
  | func f => f.mentions name
  | arrowBody b => b.mentions name
  | stmt s => s.mentions name
  | branch s => optionalStatementMentions name s
  | body b => statementsMention name b
  | finalizer b => optionalBodyMentions name b
  | cases cs => casesMention name cs
  | handler h => handlerMentions name h
  | head h => h.mentions name
  | init h => optionalHeadMentions name h
  | declarators ds => declaratorsMention name ds

attribute [local simp] vary Expr.vary varyOption varyExprs varyElements varyMembers Pattern.vary
  varyPatternOption varyPatterns varyPatternElements varyPatternMembers Func.vary ArrowBody.vary
  Stmt.vary varyStmts varyStmtOption varyBodyOption varyCases varyHandler ForHead.vary
  varyHeadOption varyDeclarators

theorem vary_mentions (name : String) (n : Node) : (n.vary c).mentions name = n.mentions name := by
  induction n using Node.induction with
  | step n ih =>
    unfold parts at ih
    split at ih <;> simp only [All, and_true] at ih
    all_goals simp_all [mentions, Expr.mentions, Pattern.mentions, Stmt.mentions, Func.mentions,
      ArrowBody.mentions, ForHead.mentions, handlerMentions, optionMentions, expressionsMention,
      optionalPatternMentions, patternsMention, optionalStatementMentions, statementsMention,
      optionalBodyMentions, optionalHeadMentions, elementsMention, membersMention,
      patternElementsMention, patternMembersMention, casesMention, declaratorsMention,
      Variation.items_mention, Ident.vary]

/-- A variation that neither moves nor fills anything leaves every node as it is. -/
theorem vary_eq_self (places : ∀ loc, c.location loc = loc) (items : ∀ es, c.items es = es)
    (n : Node) : n.vary c = n := by
  have names (ident : Ident) : ident.vary c = ident := by rw [Ident.vary, places]
  have optional (ident : Option Ident) : ident.map (.vary c) = ident := by
    rw [funext names]
    exact Option.map_id'
  induction n using Node.induction with
  | step n ih =>
    unfold parts at ih
    split at ih <;> simp only [All, and_true] at ih
    all_goals simp_all

theorem vary_declarations (n : Node) :
    (n.vary c).declarations = n.declarations.map (Declaration.vary c) := by
  induction n using Node.induction with
  | step n ih =>
    unfold parts at ih
    split at ih <;> simp only [All, and_true] at ih
    all_goals simp_all [declarations, Stmt.declarations, Declaration.vary, ForHead.declarations,
      handlerDeclarations, caseDeclarations, optionalDeclarations, declarationsOf, bodyDeclarations]

end Node

@[simp] theorem Func.vary_mentionsInside (f : Func) (name : String) :
    (f.vary c).mentionsInside name = f.mentionsInside name := by
  have params := (Node.patterns f.params).vary_mentions (c := c) name
  have body := (Node.body f.body).vary_mentions (c := c) name
  simp only [Node.vary, Node.mentions] at params body
  simp [Func.mentionsInside, params, body]

theorem varyStmts_declarations (b : List Stmt) :
    declarationsOf (varyStmts c b) = (declarationsOf b).map (Declaration.vary c) :=
  (Node.body b).vary_declarations

end
end Scriptc
