import Scriptc.Syntax.Tree

/-!
# Building syntax trees

Short ways to write trees that come from no source. Nodes stand nowhere until they are placed.
-/

namespace Scriptc

namespace Expr

def place (loc : Location) : Expr → Expr
  | ident _ name => ident loc name
  | literal _ lit => literal loc lit
  | receiver _ => receiver loc
  | array _ elements => array loc elements
  | object _ members => object loc members
  | function _ func => function loc func
  | arrow _ params body => arrow loc params body
  | classDef _ name superClass => classDef loc name superClass
  | unary _ op argument => unary loc op argument
  | update _ op keepsOld argument => update loc op keepsOld argument
  | binary _ op left right => binary loc op left right
  | logical _ op left right => logical loc op left right
  | assign _ op left right => assign loc op left right
  | conditional _ test whenTrue whenFalse => conditional loc test whenTrue whenFalse
  | call _ callee args isOptional => call loc callee args isOptional
  | construct _ callee args => construct loc callee args
  | member _ owner property computed isOptional => member loc owner property computed isOptional
  | sequence _ items => sequence loc items
  | template _ values => template loc values
  | taggedTemplate _ tag values => taggedTemplate loc tag values
  | spread _ argument => spread loc argument
  | yieldValue _ argument => yieldValue loc argument
  | awaitValue _ argument => awaitValue loc argument
  | objectPattern _ members => objectPattern loc members
  | arrayPattern _ elements => arrayPattern loc elements

end Expr

namespace Stmt

def place (loc : Location) : Stmt → Stmt
  | block _ body => block loc body
  | empty _ => empty loc
  | expression _ e directive => expression loc e directive
  | ifElse _ test whenTrue whenFalse => ifElse loc test whenTrue whenFalse
  | labeled _ label body => labeled loc label body
  | breakTo _ label => breakTo loc label
  | continueTo _ label => continueTo loc label
  | withObject _ owner body => withObject loc owner body
  | switch _ discriminant cases => switch loc discriminant cases
  | returnValue _ argument => returnValue loc argument
  | throwValue _ argument => throwValue loc argument
  | tryCatch _ body handler finalizer => tryCatch loc body handler finalizer
  | whileLoop _ test body => whileLoop loc test body
  | doWhile _ body test => doWhile loc body test
  | forLoop _ init test update body => forLoop loc init test update body
  | forIn _ head object body => forIn loc head object body
  | forOf _ head object body => forOf loc head object body
  | debugger _ => debugger loc
  | function _ func => function loc func
  | varDecl _ kind declarators => varDecl loc kind declarators
  | classDef _ name superClass => classDef loc name superClass

end Stmt

namespace Build

def name (s : String) : Ident :=
  { loc := .nowhere, name := s }

def ident (s : String) : Expr :=
  .ident .nowhere s

def pattern (s : String) : Pattern :=
  .ident .nowhere s

def literal (value : LiteralValue) : Expr :=
  .literal .nowhere { value, isRegex := false, isBigint := false }

def number (x : Float) : Expr :=
  literal (.number x)

def text (s : String) : Expr :=
  literal (.text s)

def boolean (b : Bool) : Expr :=
  literal (.boolean b)

def null : Expr :=
  literal .null

def receiver : Expr :=
  .receiver .nowhere

def array (elements : List Expr) : Expr :=
  .array .nowhere (elements.map some)

def object (members : List (String × Expr)) : Expr :=
  .object .nowhere (members.map fun (key, value) =>
    .property .nowhere (ident key) value .init false)

def unary (op : UnaryOp) (argument : Expr) : Expr :=
  .unary .nowhere op argument

def update (op : UpdateOp) (signFirst : Bool) (argument : Expr) : Expr :=
  .update .nowhere op (!signFirst) argument

def binary (op : BinaryOp) (left right : Expr) : Expr :=
  .binary .nowhere op left right

def logical (op : LogicalOp) (left right : Expr) : Expr :=
  .logical .nowhere op left right

def assignWith (op : AssignOp) (left right : Expr) : Expr :=
  .assign .nowhere op left right

def assign (left right : Expr) : Expr :=
  assignWith .assign left right

def conditional (test whenTrue whenFalse : Expr) : Expr :=
  .conditional .nowhere test whenTrue whenFalse

def call (callee : Expr) (args : List Expr) : Expr :=
  .call .nowhere callee args false

def construct (callee : Expr) (args : List Expr) : Expr :=
  .construct .nowhere callee args

def member (object : Expr) (key : String) : Expr :=
  .member .nowhere object (ident key) false false

def index (object key : Expr) : Expr :=
  .member .nowhere object key true false

def sequence (items : List Expr) : Expr :=
  .sequence .nowhere items

def func (title : Option String) (params : List String) (body : List Stmt) : Func :=
  .mk (title.map name) (params.map pattern) body false false

def funcExpr (title : Option String) (params : List String) (body : List Stmt) : Expr :=
  .function .nowhere (func title params body)

def funcDecl (title : String) (params : List String) (body : List Stmt) : Stmt :=
  .function .nowhere (func (some title) params body)

def expression (e : Expr) : Stmt :=
  .expression .nowhere e none

def directive (s : String) : Stmt :=
  .expression .nowhere (text s) (some s)

def declarators (list : List (String × Option Expr)) : List Declarator :=
  list.map fun (title, init) => .mk .nowhere (pattern title) init

def varDecl (list : List (String × Option Expr)) : Stmt :=
  .varDecl .nowhere .var (declarators list)

def block (body : List Stmt) : Stmt :=
  .block .nowhere body

def ifElse (test : Expr) (whenTrue : Stmt) (whenFalse : Option Stmt) : Stmt :=
  .ifElse .nowhere test whenTrue whenFalse

def returnValue (argument : Option Expr) : Stmt :=
  .returnValue .nowhere argument

def throwValue (argument : Expr) : Stmt :=
  .throwValue .nowhere argument

def whileLoop (test : Expr) (body : Stmt) : Stmt :=
  .whileLoop .nowhere test body

def doWhile (body : Stmt) (test : Expr) : Stmt :=
  .doWhile .nowhere body test

def forLoop (init : Option ForHead) (test update : Option Expr) (body : Stmt) : Stmt :=
  .forLoop .nowhere init test update body

def forIn (head : ForHead) (object : Expr) (body : Stmt) : Stmt :=
  .forIn .nowhere head object body

def headVariables (loc : Location) (kind : VariableKind) (list : List (String × Option Expr)) :
    ForHead :=
  .declaration loc kind (declarators list)

def breakTo (label : Option String) : Stmt :=
  .breakTo .nowhere (label.map name)

def continueTo (label : Option String) : Stmt :=
  .continueTo .nowhere (label.map name)

def labeled (label : String) (body : Stmt) : Stmt :=
  .labeled .nowhere (name label) body

def switch (discriminant : Expr) (cases : List (Option Expr × List Stmt)) : Stmt :=
  .switch .nowhere discriminant (cases.map fun (test, body) => .mk test body)

def tryCatch (body : List Stmt) (param : Option String) (handler : List Stmt) : Stmt :=
  .tryCatch .nowhere body (some (.mk (param.map pattern) handler)) none

def empty : Stmt :=
  .empty .nowhere

def program (body : List Stmt) : Program :=
  { loc := .nowhere, body, sourceType := none }

end Build
end Scriptc
