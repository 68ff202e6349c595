import Scriptc.Json.Reader
import Scriptc.Syntax.Field
import Scriptc.Syntax.Tree

/-!
# Loading syntax trees

What a value is read as depends on where it stands, so each value is given all its readings at once,
from those of the values inside it.
-/

namespace Scriptc

/-- What a JSON value means in each place of a tree. -/
structure Readings where
  raw : Json
  items : List Readings
  fields : List (String × Readings)
  expr : Except LoadError Expr
  stmt : Except LoadError Stmt
  pattern : Except LoadError Pattern
  member : Except LoadError Member
  patternMember : Except LoadError PatternMember
  ident : Except LoadError Ident
  block : Except LoadError (List Stmt)
  switchCase : Except LoadError SwitchCase
  handler : Except LoadError Handler
  declarator : Except LoadError Declarator
  forHead : Except LoadError ForHead
  arrowBody : Except LoadError ArrowBody
  /-- A text between the values of a template; only its form is checked. -/
  templateText : Except LoadError Unit
  template : Except LoadError (List Expr)
  /-- The members of a class; only their form is checked. -/
  classBody : Except LoadError Unit

/-- The fields of a node of the tree. -/
abbrev NodeReader := FieldReader Readings

namespace Load

def list {α : Type} (load : Readings → Except LoadError α) (r : Readings) :
    Except LoadError (List α) :=
  match r.raw with
  | .array _ => r.items.mapM load
  | found => .error (.wrongType found "a sequence")

def orNull {α : Type} (load : Readings → Except LoadError α) (r : Readings) :
    Except LoadError (Option α) :=
  match r.raw with
  | .null => .ok none
  | _ => some <$> load r

def pair {α β : Type} (title first second : String) (loadFirst : Readings → Except LoadError α)
    (loadSecond : Readings → Except LoadError β) (default : Option β) (r : Readings) :
    Except LoadError (α × β) :=
  let tooShort (length : Nat) : LoadError :=
    .wrongLength length ("struct " ++ title ++ " with 2 elements")
  match r.raw with
  | .object _ =>
    let secondField :=
      match default with
      | some b => FieldReader.optional second b loadSecond
      | none => FieldReader.required second loadSecond
    (Prod.mk <$> FieldReader.required first loadFirst <*> secondField).run r.fields
  | .array _ =>
    match r.items with
    | [] => .error (tooShort 0)
    | [a] => do
      let a ← loadFirst a
      match default with
      | some b => .ok (a, b)
      | none => .error (tooShort 1)
    | a :: b :: rest => do
      let a ← loadFirst a
      let b ← loadSecond b
      if rest.isEmpty then .ok (a, b)
      else .error (.wrongLength (rest.length + 2) "2 elements in sequence")
  | found => .error (.wrongType found ("struct " ++ title))

def position (r : Readings) : Except LoadError Position := do
  let (line, column) ← pair "Position" "line" "column" (word ·.raw) (word ·.raw) none r
  return { line, column }

def startPosition (r : Readings) : Except LoadError Position := do
  let (start, _) ← pair "SourceLocation" "start" "end" position position none r
  return start

def location : NodeReader Location :=
  let make (start stop : Nat) (givenStart : Option Position) : Location :=
    { range := { start, stop }, givenStart }
  make <$> .optional "start" 0 (word ·.raw) <*> .optional "end" 0 (word ·.raw) <*>
    .optional "loc" none (orNull startPosition)

def node {α : Type} (raw : Json) (fields : List (String × Readings))
    (load : Location → NodeReader α) : Except LoadError α :=
  match raw with
  | .object _ => do
    let loc ← location.run fields
    (load loc).run fields
  | found => .error (.wrongType found "struct Node")

def taggedNode {α : Type} (raw : Json) (fields : List (String × Readings))
    (forms : Location → List (String × NodeReader α)) : Except LoadError α :=
  match raw with
  | .object _ => do
    let loc ← location.run fields
    let form ← (FieldReader.required "type" (tagged (forms loc) ·.raw)).run fields
    form.run fields
  | found => .error (.wrongType found "struct Node")

def literalValue : Json → LiteralValue
  | .null => .null
  | .bool b => .boolean b
  | .number (.integer n) => .number (Float.ofInt n)
  | .number (.float x) => .number x
  | .string s => .text s
  | _ => .other

section Forms

variable (name : String)

def exprField : NodeReader Expr := .required name (·.expr)

def stmtField : NodeReader Stmt := .required name (·.stmt)

def exprField? : NodeReader (Option Expr) := .optional name none (orNull (·.expr))

def identField? : NodeReader (Option Ident) := .optional name none (orNull (·.ident))

def textField? : NodeReader (Option String) := .optional name none (nullable text ·.raw)

def flagField : NodeReader Bool := .optional name false (flag ·.raw)

def exprsField : NodeReader (List Expr) := .required name (list (·.expr))

def stmtsField : NodeReader (List Stmt) := .required name (list (·.stmt))

def func : NodeReader Func :=
  Func.mk <$> identField? "id" <*> .required "params" (list (·.pattern)) <*>
    .required "body" (·.block) <*> flagField "generator" <*> flagField "async"

def classParts : NodeReader (Option Ident × Option Expr) :=
  (fun name superClass _ => (name, superClass)) <$> identField? "id" <*> exprField? "superClass" <*>
    .required "body" (·.classBody)

def literal : NodeReader LiteralSyntax :=
  let regex (r : Readings) : Except LoadError (Option (String × String)) :=
    orNull (pair "RegexLit" "pattern" "flags" (text ·.raw) (text ·.raw) none) r
  (fun value regex bigint _ =>
      { value, isRegex := regex.isSome, isBigint := bigint.isSome : LiteralSyntax }) <$>
    .optional "value" .null (fun r => .ok (literalValue r.raw)) <*> .optional "regex" none regex <*>
    textField? "bigint" <*> textField? "raw"

def memberParts : NodeReader (Expr × Expr × Bool × Bool) :=
  (fun object property computed isOptional => (object, property, computed, isOptional)) <$>
    exprField "object" <*> exprField "property" <*> flagField "computed" <*> flagField "optional"

def variablesParts : NodeReader (VariableKind × List Declarator) :=
  Prod.mk <$> .required "kind" (keyword VariableKind.all VariableKind.spelling ·.raw) <*>
    .required "declarations" (list (·.declarator))

variable (loc : Location)

def exprForms : List (String × NodeReader Expr) := [
  ("Identifier", .ident loc <$> .required "name" (text ·.raw)),
  ("Literal", .literal loc <$> literal),
  ("ThisExpression", pure (.receiver loc)),
  ("ArrayExpression", .array loc <$> .required "elements" (list (orNull (·.expr)))),
  ("ObjectExpression", .object loc <$> .required "properties" (list (·.member))),
  ("FunctionExpression", .function loc <$> func),
  ("ArrowFunctionExpression", (fun params body _ => .arrow loc params body) <$>
    .required "params" (list (·.pattern)) <*> .required "body" (·.arrowBody) <*> flagField "async"),
  ("ClassExpression", (fun (name, superClass) => .classDef loc name superClass) <$> classParts),
  ("UnaryExpression", .unary loc <$>
    .required "operator" (keyword UnaryOp.all UnaryOp.spelling ·.raw) <*> exprField "argument"),
  ("UpdateExpression", (fun op first argument => .update loc op (!first) argument) <$>
    .required "operator" (keyword UpdateOp.all UpdateOp.spelling ·.raw) <*>
    .required "prefix" (flag ·.raw) <*> exprField "argument"),
  ("BinaryExpression", .binary loc <$>
    .required "operator" (keyword BinaryOp.all BinaryOp.spelling ·.raw) <*> exprField "left" <*>
    exprField "right"),
  ("LogicalExpression", .logical loc <$>
    .required "operator" (keyword LogicalOp.all LogicalOp.spelling ·.raw) <*> exprField "left" <*>
    exprField "right"),
  ("AssignmentExpression", .assign loc <$>
    .required "operator" (keyword AssignOp.all AssignOp.spelling ·.raw) <*> exprField "left" <*>
    exprField "right"),
  ("ConditionalExpression", .conditional loc <$> exprField "test" <*> exprField "consequent" <*>
    exprField "alternate"),
  ("CallExpression", .call loc <$> exprField "callee" <*> exprsField "arguments" <*>
    flagField "optional"),
  ("NewExpression", .construct loc <$> exprField "callee" <*>
    .optional "arguments" [] (list (·.expr))),
  ("MemberExpression", (fun (object, property, computed, isOptional) =>
    .member loc object property computed isOptional) <$> memberParts),
  ("SequenceExpression", .sequence loc <$> exprsField "expressions"),
  ("TemplateLiteral", (fun _ values => .template loc values) <$>
    .required "quasis" (list (·.templateText)) <*> exprsField "expressions"),
  ("TaggedTemplateExpression", .taggedTemplate loc <$> exprField "tag" <*>
    .required "quasi" (·.template)),
  ("SpreadElement", .spread loc <$> exprField "argument"),
  ("YieldExpression", (fun argument _ => .yieldValue loc argument) <$> exprField? "argument" <*>
    flagField "delegate"),
  ("AwaitExpression", .awaitValue loc <$> exprField "argument"),
  ("ObjectPattern", .objectPattern loc <$> .required "properties" (list (·.patternMember))),
  ("ArrayPattern", .arrayPattern loc <$> .required "elements" (list (orNull (·.pattern))))]

def patternForms : List (String × NodeReader Pattern) := [
  ("Identifier", .ident loc <$> .required "name" (text ·.raw)),
  ("ObjectPattern", .object loc <$> .required "properties" (list (·.patternMember))),
  ("ArrayPattern", .array loc <$> .required "elements" (list (orNull (·.pattern)))),
  ("AssignmentPattern", .withDefault loc <$> .required "left" (·.pattern) <*> exprField "right"),
  ("RestElement", .rest loc <$> .required "argument" (·.pattern)),
  ("MemberExpression", (fun (object, property, _, _) => .member loc object property) <$>
    memberParts)]

def memberForms : List (String × NodeReader Member) := [
  ("Property", (fun key value kind computed _ _ => .property loc key value kind computed) <$>
    exprField "key" <*> exprField "value" <*>
    .optional "kind" .init (keyword PropertyKind.all PropertyKind.spelling ·.raw) <*>
    flagField "computed" <*> flagField "method" <*> flagField "shorthand"),
  ("SpreadElement", .spread loc <$> exprField "argument")]

def patternMemberForms : List (String × NodeReader PatternMember) := [
  ("Property", (fun key target _ _ => .property key target) <$> exprField "key" <*>
    .required "value" (·.pattern) <*> flagField "computed" <*> flagField "shorthand"),
  ("RestElement", .rest <$> .required "argument" (·.pattern))]

def stmtForms : List (String × NodeReader Stmt) := [
  ("BlockStatement", .block loc <$> stmtsField "body"),
  ("EmptyStatement", pure (.empty loc)),
  ("ExpressionStatement", .expression loc <$> exprField "expression" <*> textField? "directive"),
  ("IfStatement", .ifElse loc <$> exprField "test" <*> stmtField "consequent" <*>
    .optional "alternate" none (orNull (·.stmt))),
  ("LabeledStatement", .labeled loc <$> .required "label" (·.ident) <*> stmtField "body"),
  ("BreakStatement", .breakTo loc <$> identField? "label"),
  ("ContinueStatement", .continueTo loc <$> identField? "label"),
  ("WithStatement", .withObject loc <$> exprField "object" <*> stmtField "body"),
  ("SwitchStatement", .switch loc <$> exprField "discriminant" <*>
    .required "cases" (list (·.switchCase))),
  ("ReturnStatement", .returnValue loc <$> exprField? "argument"),
  ("ThrowStatement", .throwValue loc <$> exprField "argument"),
  ("TryStatement", .tryCatch loc <$> .required "block" (·.block) <*>
    .optional "handler" none (orNull (·.handler)) <*>
    .optional "finalizer" none (orNull (·.block))),
  ("WhileStatement", .whileLoop loc <$> exprField "test" <*> stmtField "body"),
  ("DoWhileStatement", .doWhile loc <$> stmtField "body" <*> exprField "test"),
  ("ForStatement", .forLoop loc <$> .optional "init" none (orNull (·.forHead)) <*>
    exprField? "test" <*> exprField? "update" <*> stmtField "body"),
  ("ForInStatement", .forIn loc <$> .required "left" (·.forHead) <*> exprField "right" <*>
    stmtField "body"),
  ("ForOfStatement", .forOf loc <$> .required "left" (·.forHead) <*> exprField "right" <*>
    stmtField "body"),
  ("DebuggerStatement", pure (.debugger loc)),
  ("FunctionDeclaration", .function loc <$> func),
  ("VariableDeclaration", (fun (kind, declarators) => .varDecl loc kind declarators) <$>
    variablesParts),
  ("ClassDeclaration", (fun (name, superClass) => .classDef loc name superClass) <$> classParts)]

end Forms

def readingsOf (raw : Json) (items : List Readings) (fields : List (String × Readings)) :
    Readings :=
  let expr := taggedNode raw fields exprForms
  let block := node raw fields fun _ => stmtsField "body"
  let declaration := node raw fields fun loc =>
    (fun (kind, declarators) => ForHead.declaration loc kind declarators) <$> variablesParts
  let templateText (r : Readings) : Except LoadError (String × Option String) :=
    pair "TemplateValue" "raw" "cooked" (text ·.raw) (nullable text ·.raw) (some none) r
  { raw, items, fields, expr,
    stmt := taggedNode raw fields stmtForms
    pattern := taggedNode raw fields patternForms
    member := taggedNode raw fields memberForms
    patternMember := taggedNode raw fields fun _ => patternMemberForms
    ident := node raw fields fun loc => Ident.mk loc <$> .required "name" (text ·.raw)
    block
    switchCase := node raw fields fun _ =>
      SwitchCase.mk <$> exprField? "test" <*> stmtsField "consequent"
    handler := node raw fields fun _ =>
      Handler.mk <$> .optional "param" none (orNull (·.pattern)) <*> .required "body" (·.block)
    declarator := node raw fields fun loc =>
      Declarator.mk loc <$> .required "id" (·.pattern) <*> exprField? "init"
    forHead :=
      match declaration, expr with
      | .ok head, _ => .ok head
      | .error _, .ok e => .ok (.target e)
      | .error _, .error _ => .error (.noForm "ForInit")
    arrowBody :=
      match block, expr with
      | .ok body, _ => .ok (.block body)
      | .error _, .ok e => .ok (.value e)
      | .error _, .error _ => .error (.noForm "ArrowBody")
    templateText := node raw fields fun _ =>
      (fun _ _ => ()) <$> .required "value" templateText <*> flagField "tail"
    template := node raw fields fun _ =>
      (fun _ values => values) <$> .required "quasis" (list (·.templateText)) <*>
        exprsField "expressions"
    classBody := node raw fields fun _ =>
      (fun _ => ()) <$> .required "body" (list fun _ => .ok ()) }

mutual

def readings : Json → Readings
  | .array items => readingsOf (.array items) (readingsOfItems items) []
  | .object fields => readingsOf (.object fields) [] (readingsOfFields fields)
  | leaf => readingsOf leaf [] []

def readingsOfItems : List Json → List Readings
  | [] => []
  | item :: rest => readings item :: readingsOfItems rest

def readingsOfFields : List (String × Json) → List (String × Readings)
  | [] => []
  | (name, value) :: rest => (name, readings value) :: readingsOfFields rest

end

def program (value : Json) : Except LoadError Program :=
  let r := readings value
  node r.raw r.fields fun loc =>
    Program.mk loc <$> stmtsField "body" <*> textField? "sourceType"

end Load

/-- Why a text holds no program: it is not JSON, or its value is not a tree. -/
inductive ProgramFault where
  | notJson (stop : Json.Stop)
  /-- The value is not a tree; `rest` is the text after what was read. -/
  | notTree (error : LoadError) (rest : List Char)

namespace ProgramFault

def positioned (message : String) (position : Nat × Nat) : String :=
  message ++ " at line " ++ toString position.1 ++ " column " ++ toString position.2

def message (text : String) : ProgramFault → String
  | .notJson stop => positioned stop.fault.message (stop.position text.toList)
  | .notTree error rest => positioned error.message (Json.positionBefore text.toList rest)

end ProgramFault

namespace Program

/-- The program in a JSON text. A text that does not start with an object is refused as soon as
that is known; what follows a program is looked at last. -/
def ofText (text : String) : Except ProgramFault Program :=
  let notJson {α : Type} (result : Except Json.Stop α) : Except ProgramFault α :=
    result.mapError .notJson
  let notNode (found : Json) : LoadError := .wrongType found "struct Node"
  match Json.skipBlanks text.toList with
  | '\x7b' :: rest => do
    let (value, rest) ← notJson (Json.readStart Json.maxDepth ('\x7b' :: rest))
    let program ← (Load.program value).mapError fun error => .notTree error rest
    notJson (Json.expectEnd rest)
    return program
  | '[' :: rest => .error (.notTree (notNode (.array [])) ('[' :: rest))
  | chars => do
    let (value, rest) ← notJson (Json.readLeaf chars.length chars)
    .error (.notTree (notNode value) rest)

end Program
end Scriptc
