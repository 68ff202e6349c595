import Scriptc.Syntax.Tree

/-!
# Declarations of a body

The variable and function declarations of a body, wherever they stand outside nested functions, in
source order.
-/

namespace Scriptc

/-- A declaration of names for a whole body. -/
inductive Declaration where
  | function (loc : Location) (func : Func)
  | varDecl (loc : Location) (kind : VariableKind) (declarators : List Declarator)

namespace ForHead

def declarations : ForHead → List Declaration
  | declaration loc kind declarators => [.varDecl loc kind declarators]
  | target _ => []

end ForHead

mutual

def Stmt.declarations : Stmt → List Declaration
  | .function loc func => [.function loc func]
  | .varDecl loc kind declarators => [.varDecl loc kind declarators]
  | .block _ body => declarationsOf body
  | .ifElse _ _ whenTrue whenFalse => whenTrue.declarations ++ optionalDeclarations whenFalse
  | .labeled _ _ body | .withObject _ _ body | .whileLoop _ _ body | .doWhile _ body _ =>
    body.declarations
  | .switch _ _ cases => caseDeclarations cases
  | .tryCatch _ block handler finalizer =>
    declarationsOf block ++ handlerDeclarations handler ++ bodyDeclarations finalizer
  | .forLoop _ init _ _ body => init.toList.flatMap ForHead.declarations ++ body.declarations
  | .forIn _ head _ body | .forOf _ head _ body => head.declarations ++ body.declarations
  | .empty _ | .expression .. | .breakTo .. | .continueTo .. | .returnValue .. => []
  | .throwValue .. | .debugger _ | .classDef .. => []

def declarationsOf : List Stmt → List Declaration
  | [] => []
  | s :: rest => s.declarations ++ declarationsOf rest

def optionalDeclarations : Option Stmt → List Declaration
  | none => []
  | some s => s.declarations

def bodyDeclarations : Option (List Stmt) → List Declaration
  | none => []
  | some body => declarationsOf body

def caseDeclarations : List SwitchCase → List Declaration
  | [] => []
  | .mk _ body :: rest => declarationsOf body ++ caseDeclarations rest

def handlerDeclarations : Option Handler → List Declaration
  | none => []
  | some (.mk _ body) => declarationsOf body

end

end Scriptc
