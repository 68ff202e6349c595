import Scriptc.Syntax.Location
import Scriptc.Syntax.Operator

/-!
# Syntax trees

The syntax tree of a script. Constructs that are not compiled are in the tree too, with the parts
that are looked at before they are refused.
-/

namespace Scriptc

structure Ident where
  loc : Location
  name : String
deriving DecidableEq, Repr, Inhabited

inductive LiteralValue where
  | null
  | boolean (b : Bool)
  | number (x : Float)
  | text (s : String)
  | other
deriving BEq, Repr, Inhabited

structure LiteralSyntax where
  value : LiteralValue
  isRegex : Bool
  isBigint : Bool
deriving BEq, Repr, Inhabited

mutual

inductive Expr where
  | ident (loc : Location) (name : String)
  | literal (loc : Location) (lit : LiteralSyntax)
  | receiver (loc : Location)
  | array (loc : Location) (elements : List (Option Expr))
  | object (loc : Location) (members : List Member)
  | function (loc : Location) (func : Func)
  | arrow (loc : Location) (params : List Pattern) (body : ArrowBody)
  | classDef (loc : Location) (name : Option Ident) (superClass : Option Expr)
  | unary (loc : Location) (op : UnaryOp) (argument : Expr)
  /-- An increment or decrement, whose value is the old one if the sign comes last. -/
  | update (loc : Location) (op : UpdateOp) (keepsOld : Bool) (argument : Expr)
  | binary (loc : Location) (op : BinaryOp) (left right : Expr)
  | logical (loc : Location) (op : LogicalOp) (left right : Expr)
  | assign (loc : Location) (op : AssignOp) (left right : Expr)
  | conditional (loc : Location) (test whenTrue whenFalse : Expr)
  | call (loc : Location) (callee : Expr) (args : List Expr) (isOptional : Bool)
  | construct (loc : Location) (callee : Expr) (args : List Expr)
  | member (loc : Location) (object property : Expr) (computed isOptional : Bool)
  | sequence (loc : Location) (items : List Expr)
  | template (loc : Location) (values : List Expr)
  | taggedTemplate (loc : Location) (tag : Expr) (values : List Expr)
  | spread (loc : Location) (argument : Expr)
  | yieldValue (loc : Location) (argument : Option Expr)
  | awaitValue (loc : Location) (argument : Expr)
  | objectPattern (loc : Location) (members : List PatternMember)
  | arrayPattern (loc : Location) (elements : List (Option Pattern))

inductive Member where
  | property (loc : Location) (key value : Expr) (kind : PropertyKind) (computed : Bool)
  | spread (loc : Location) (argument : Expr)

/-- The target of a declaration or of a destructuring. -/
inductive Pattern where
  | ident (loc : Location) (name : String)
  | object (loc : Location) (members : List PatternMember)
  | array (loc : Location) (elements : List (Option Pattern))
  | withDefault (loc : Location) (target : Pattern) (value : Expr)
  | rest (loc : Location) (target : Pattern)
  | member (loc : Location) (object property : Expr)

inductive PatternMember where
  | property (key : Expr) (target : Pattern)
  | rest (target : Pattern)

/-- A function declaration or expression. -/
inductive Func where
  | mk (name : Option Ident) (params : List Pattern) (body : List Stmt)
      (isGenerator isAsync : Bool)

inductive ArrowBody where
  | block (body : List Stmt)
  | value (e : Expr)

inductive Stmt where
  | block (loc : Location) (body : List Stmt)
  | empty (loc : Location)
  | expression (loc : Location) (e : Expr) (directive : Option String)
  | ifElse (loc : Location) (test : Expr) (whenTrue : Stmt) (whenFalse : Option Stmt)
  | labeled (loc : Location) (label : Ident) (body : Stmt)
  | breakTo (loc : Location) (label : Option Ident)
  | continueTo (loc : Location) (label : Option Ident)
  | withObject (loc : Location) (object : Expr) (body : Stmt)
  | switch (loc : Location) (discriminant : Expr) (cases : List SwitchCase)
  | returnValue (loc : Location) (argument : Option Expr)
  | throwValue (loc : Location) (argument : Expr)
  | tryCatch (loc : Location) (block : List Stmt) (handler : Option Handler)
      (finalizer : Option (List Stmt))
  | whileLoop (loc : Location) (test : Expr) (body : Stmt)
  | doWhile (loc : Location) (body : Stmt) (test : Expr)
  | forLoop (loc : Location) (init : Option ForHead) (test update : Option Expr) (body : Stmt)
  | forIn (loc : Location) (head : ForHead) (object : Expr) (body : Stmt)
  | forOf (loc : Location) (head : ForHead) (object : Expr) (body : Stmt)
  | debugger (loc : Location)
  | function (loc : Location) (func : Func)
  | varDecl (loc : Location) (kind : VariableKind) (declarators : List Declarator)
  | classDef (loc : Location) (name : Option Ident) (superClass : Option Expr)

/-- A case of a switch; the default one has no test. -/
inductive SwitchCase where
  | mk (test : Option Expr) (body : List Stmt)

/-- The part of a try statement that catches. -/
inductive Handler where
  | mk (param : Option Pattern) (body : List Stmt)

inductive ForHead where
  | declaration (loc : Location) (kind : VariableKind) (declarators : List Declarator)
  | target (e : Expr)

/-- A variable of a declaration, with its first value. -/
inductive Declarator where
  | mk (loc : Location) (target : Pattern) (init : Option Expr)

end

instance : Inhabited Expr := ⟨.receiver default⟩
instance : Inhabited Stmt := ⟨.empty default⟩
instance : Inhabited Pattern := ⟨.ident default ""⟩

structure Program where
  loc : Location
  body : List Stmt
  /-- What the producer of the tree took the source for. -/
  sourceType : Option String
deriving Inhabited

namespace Expr

def loc : Expr → Location
  | ident loc _ | literal loc _ | receiver loc | array loc _ | object loc _ | function loc _ => loc
  | arrow loc _ _ | classDef loc _ _ | unary loc _ _ | update loc _ _ _ | binary loc _ _ _ => loc
  | logical loc _ _ _ | assign loc _ _ _ | conditional loc _ _ _ | call loc _ _ _ => loc
  | construct loc _ _ | member loc _ _ _ _ | sequence loc _ | template loc _ => loc
  | taggedTemplate loc _ _ | spread loc _ | yieldValue loc _ | awaitValue loc _ => loc
  | objectPattern loc _ | arrayPattern loc _ => loc

def name? : Expr → Option String
  | ident _ name => some name
  | _ => none

def textLiteral? : Expr → Option String
  | literal _ { value := .text s, .. } => some s
  | _ => none

def constantText? : Expr → Option String
  | literal _ { value := .text s, .. } => some s
  | binary _ .add left right => do
    let first ← left.constantText?
    let second ← right.constantText?
    some (first ++ second)
  | _ => none

def isSimple : Expr → Bool
  | ident .. | literal .. | receiver .. | function .. => true
  | _ => false

mutual

def isPure : Expr → Bool
  | ident .. | literal .. | receiver .. | function .. => true
  | sequence _ items => areAllPure items
  | _ => false

def areAllPure : List Expr → Bool
  | [] => true
  | e :: rest => e.isPure && areAllPure rest

end

end Expr

namespace Pattern

def loc : Pattern → Location
  | ident loc _ | object loc _ | array loc _ | withDefault loc _ _ | rest loc _ => loc
  | member loc _ _ => loc

def name? : Pattern → Option String
  | ident _ name => some name
  | _ => none

end Pattern

namespace Stmt

def loc : Stmt → Location
  | block loc _ | empty loc | expression loc _ _ | ifElse loc _ _ _ | labeled loc _ _ => loc
  | breakTo loc _ | continueTo loc _ | withObject loc _ _ | switch loc _ _ => loc
  | returnValue loc _ | throwValue loc _ | tryCatch loc _ _ _ | whileLoop loc _ _ => loc
  | doWhile loc _ _ | forLoop loc _ _ _ _ | forIn loc _ _ _ | forOf loc _ _ _ => loc
  | debugger loc | function loc _ | varDecl loc _ _ | classDef loc _ _ => loc

def directive? : Stmt → Option String
  | expression _ _ directive => directive
  | _ => none

def startStrict : List Stmt → Bool
  | [] => false
  | s :: rest =>
    match s.directive? with
    | some text => text == "use strict" || startStrict rest
    | none => false

end Stmt

namespace Func

def name? : Func → Option Ident
  | mk name _ _ _ _ => name

def params : Func → List Pattern
  | mk _ params _ _ _ => params

def body : Func → List Stmt
  | mk _ _ body _ _ => body

def isGenerator : Func → Bool
  | mk _ _ _ isGenerator _ => isGenerator

def isAsync : Func → Bool
  | mk _ _ _ _ isAsync => isAsync

end Func

end Scriptc
