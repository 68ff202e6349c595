import Scriptc.Syntax.Tree

/-!
# Names in syntax trees

Whether a name is spelled anywhere in a piece of syntax, and whether a body declares it.
-/

namespace Scriptc

def Ident.isNamed (name : String) (ident : Option Ident) : Bool :=
  ident.any (·.name == name)

variable (name : String)

mutual

/-- Whether some identifier in an expression spells a name. Property names and declarations count,
and so do the names of nested functions. -/
def Expr.mentions : Expr → Bool
  | .ident _ other => other == name
  | .literal .. | .receiver _ => false
  | .array _ elements => elementsMention elements
  | .object _ members => membersMention members
  | .function _ func => func.mentions
  | .arrow _ params body => patternsMention params || body.mentions
  | .classDef _ ident superClass => Ident.isNamed name ident || optionMentions superClass
  | .unary _ _ a | .update _ _ _ a | .spread _ a | .awaitValue _ a => a.mentions
  | .binary _ _ left right | .logical _ _ left right | .assign _ _ left right =>
    left.mentions || right.mentions
  | .conditional _ test whenTrue whenFalse =>
    test.mentions || whenTrue.mentions || whenFalse.mentions
  | .call _ callee args _ | .construct _ callee args =>
    callee.mentions || expressionsMention args
  | .member _ object property _ _ => object.mentions || property.mentions
  | .sequence _ items | .template _ items => expressionsMention items
  | .taggedTemplate _ tag values => tag.mentions || expressionsMention values
  | .yieldValue _ argument => optionMentions argument
  | .objectPattern _ members => patternMembersMention members
  | .arrayPattern _ elements => patternElementsMention elements

def optionMentions : Option Expr → Bool
  | none => false
  | some e => e.mentions

def expressionsMention : List Expr → Bool
  | [] => false
  | e :: rest => e.mentions || expressionsMention rest

def elementsMention : List (Option Expr) → Bool
  | [] => false
  | none :: rest => elementsMention rest
  | some e :: rest => e.mentions || elementsMention rest

def membersMention : List Member → Bool
  | [] => false
  | .property _ key value _ _ :: rest =>
    key.mentions || value.mentions || membersMention rest
  | .spread _ argument :: rest => argument.mentions || membersMention rest

def Pattern.mentions : Pattern → Bool
  | .ident _ other => other == name
  | .object _ members => patternMembersMention members
  | .array _ elements => patternElementsMention elements
  | .withDefault _ target value => target.mentions || value.mentions
  | .rest _ target => target.mentions
  | .member _ object property => object.mentions || property.mentions

def patternMembersMention : List PatternMember → Bool
  | [] => false
  | .property key target :: rest =>
    key.mentions || target.mentions || patternMembersMention rest
  | .rest target :: rest => target.mentions || patternMembersMention rest

def patternElementsMention : List (Option Pattern) → Bool
  | [] => false
  | none :: rest => patternElementsMention rest
  | some p :: rest => p.mentions || patternElementsMention rest

def patternsMention : List Pattern → Bool
  | [] => false
  | p :: rest => p.mentions || patternsMention rest

def optionalPatternMentions : Option Pattern → Bool
  | none => false
  | some p => p.mentions

def Func.mentions : Func → Bool
  | .mk ident params body _ _ =>
    Ident.isNamed name ident || patternsMention params || statementsMention body

def ArrowBody.mentions : ArrowBody → Bool
  | .block body => statementsMention body
  | .value e => e.mentions

def statementsMention : List Stmt → Bool
  | [] => false
  | s :: rest => s.mentions || statementsMention rest

def optionalStatementMentions : Option Stmt → Bool
  | none => false
  | some s => s.mentions

def optionalBodyMentions : Option (List Stmt) → Bool
  | none => false
  | some body => statementsMention body

def Stmt.mentions : Stmt → Bool
  | .block _ body => statementsMention body
  | .empty _ | .debugger _ => false
  | .expression _ e _ => e.mentions
  | .ifElse _ test whenTrue whenFalse =>
    test.mentions || whenTrue.mentions || optionalStatementMentions whenFalse
  | .labeled _ label body => label.name == name || body.mentions
  | .breakTo _ label | .continueTo _ label => Ident.isNamed name label
  | .withObject _ object body => object.mentions || body.mentions
  | .switch _ discriminant cases => discriminant.mentions || casesMention cases
  | .returnValue _ argument => optionMentions argument
  | .throwValue _ argument => argument.mentions
  | .tryCatch _ block handler finalizer =>
    statementsMention block || handlerMentions handler ||
      optionalBodyMentions finalizer
  | .whileLoop _ test body | .doWhile _ body test => test.mentions || body.mentions
  | .forLoop _ init test update body =>
    optionalHeadMentions init || optionMentions test || optionMentions update ||
      body.mentions
  | .forIn _ head object body | .forOf _ head object body =>
    head.mentions || object.mentions || body.mentions
  | .function _ func => func.mentions
  | .varDecl _ _ declarators => declaratorsMention declarators
  | .classDef _ ident superClass => Ident.isNamed name ident || optionMentions superClass

def casesMention : List SwitchCase → Bool
  | [] => false
  | .mk test body :: rest =>
    optionMentions test || statementsMention body || casesMention rest

def handlerMentions : Option Handler → Bool
  | none => false
  | some (.mk param body) => optionalPatternMentions param || statementsMention body

def ForHead.mentions : ForHead → Bool
  | .declaration _ _ declarators => declaratorsMention declarators
  | .target e => e.mentions

def optionalHeadMentions : Option ForHead → Bool
  | none => false
  | some head => head.mentions

def declaratorsMention : List Declarator → Bool
  | [] => false
  | .mk _ target init :: rest =>
    target.mentions || optionMentions init || declaratorsMention rest

end

def Func.mentionsInside (func : Func) (name : String) : Bool :=
  patternsMention name func.params || statementsMention name func.body

def declaratorsDeclare (name : String) (declarators : List Declarator) : Bool :=
  declarators.any fun
    | .mk _ target _ => target.name? == some name

def ForHead.declares (name : String) : ForHead → Bool
  | .declaration _ _ declarators => declaratorsDeclare name declarators
  | .target _ => false

mutual

/-- Whether a statement declares a name by a variable or function declaration, wherever it stands
outside nested functions. -/
def Stmt.declares : Stmt → Bool
  | .block _ body => statementsDeclare body
  | .empty _ | .debugger _ | .expression .. | .breakTo .. | .continueTo .. => false
  | .returnValue .. | .throwValue .. | .classDef .. => false
  | .ifElse _ _ whenTrue whenFalse =>
    whenTrue.declares || optionalStatementDeclares whenFalse
  | .labeled _ _ body | .withObject _ _ body | .whileLoop _ _ body | .doWhile _ body _ =>
    body.declares
  | .switch _ _ cases => casesDeclare cases
  | .tryCatch _ block handler finalizer =>
    statementsDeclare block || handlerDeclares handler ||
      optionalBodyDeclares finalizer
  | .forLoop _ init _ _ body => init.any (·.declares name) || body.declares
  | .forIn _ head _ body | .forOf _ head _ body => head.declares name || body.declares
  | .function _ func => Ident.isNamed name func.name?
  | .varDecl _ _ declarators => declaratorsDeclare name declarators

def statementsDeclare : List Stmt → Bool
  | [] => false
  | s :: rest => s.declares || statementsDeclare rest

def optionalStatementDeclares : Option Stmt → Bool
  | none => false
  | some s => s.declares

def optionalBodyDeclares : Option (List Stmt) → Bool
  | none => false
  | some body => statementsDeclare body

def casesDeclare : List SwitchCase → Bool
  | [] => false
  | .mk _ body :: rest => statementsDeclare body || casesDeclare rest

def handlerDeclares : Option Handler → Bool
  | none => false
  | some (.mk _ body) => statementsDeclare body

end

def paramsBind (name : String) (params : List Pattern) : Bool :=
  params.any fun p => p.name? == some name

def Func.binds (func : Func) (name : String) : Bool :=
  Ident.isNamed name func.name? || paramsBind name func.params || statementsDeclare name func.body

def ArrowBody.binds (body : ArrowBody) (params : List Pattern) (name : String) : Bool :=
  paramsBind name params ||
    match body with
    | .block statements => statementsDeclare name statements
    | .value _ => false

end Scriptc
