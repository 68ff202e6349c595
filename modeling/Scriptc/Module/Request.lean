import Scriptc.Diagnostic.Log
import Scriptc.Module.Resolver
import Scriptc.Syntax.Names

/-!
# Module requests

A call of `require` with one constant string asks for a module, unless the name is bound around the
call. The string is replaced by the path of the module. A request that cannot be answered is warned
about.
-/

namespace Scriptc

structure Dependency where
  specifier : String
  path : String
deriving DecidableEq, Repr

/-- What the requests of a program amount to, in source order. -/
structure Requests where
  dependencies : Array Dependency
  warnings : Array (TextRange × String)

namespace Requests

def none : Requests :=
  { dependencies := #[], warnings := #[] }

def requestName : String := "require"

/-- Answers requests: the directory that they come from, and the answers. -/
structure Answers where
  resolver : Resolver
  fromDir : String

abbrev Collect := StateM Requests

def warn (loc : Location) (message : String) : Collect PUnit :=
  modify fun r => { r with warnings := r.warnings.push (loc.range, message) }

variable (answers : Answers)

def answer (argument : Expr) : Collect Expr := do
  match argument.constantText? with
  | .none =>
    warn argument.loc "require() argument is not a constant string"
    pure argument
  | some specifier =>
    let resolution := answers.resolver answers.fromDir specifier
    if resolution.found then
      modify fun r =>
        { r with dependencies := r.dependencies.push { specifier, path := resolution.path } }
      pure (.literal argument.loc
        { value := .text resolution.path, isRegex := false, isBigint := false })
    else
      warn argument.loc ("cannot resolve module '" ++ specifier ++ "'")
      pure argument

/-- A call, with its argument replaced if it is a request; `bound` says whether the name of
requests is bound around it. -/
def call (bound : Bool) (loc : Location) (callee : Expr) (args : List Expr)
    (isOptional : Bool) : Collect Expr := do
  match callee.name?, args with
  | some name, [argument] =>
    if name = requestName ∧ ¬ bound then
      return .call loc callee [← answer answers argument] isOptional
    else return .call loc callee args isOptional
  | _, _ => return .call loc callee args isOptional

mutual

def inExpr (bound : Bool) : Expr → Collect Expr
  | .ident loc name => pure (.ident loc name)
  | .literal loc lit => pure (.literal loc lit)
  | .receiver loc => pure (.receiver loc)
  | .array loc elements => return .array loc (← inElements bound elements)
  | .object loc members => return .object loc (← inMembers bound members)
  | .function loc func => return .function loc (← inFunc bound func)
  | .arrow loc params body => do
    let bound := bound || body.binds params requestName
    let params ← inPatterns bound params
    return .arrow loc params (← inArrowBody bound body)
  | .classDef loc name superClass =>
    return .classDef loc name (← inOption bound superClass)
  | .unary loc op argument => return .unary loc op (← inExpr bound argument)
  | .update loc op keepsOld argument =>
    return .update loc op keepsOld (← inExpr bound argument)
  | .binary loc op left right => do
    let left ← inExpr bound left
    return .binary loc op left (← inExpr bound right)
  | .logical loc op left right => do
    let left ← inExpr bound left
    return .logical loc op left (← inExpr bound right)
  | .assign loc op left right => do
    let left ← inExpr bound left
    return .assign loc op left (← inExpr bound right)
  | .conditional loc test whenTrue whenFalse => do
    let test ← inExpr bound test
    let whenTrue ← inExpr bound whenTrue
    return .conditional loc test whenTrue (← inExpr bound whenFalse)
  | .call loc callee args isOptional => do
    let callee ← inExpr bound callee
    let args ← inExprs bound args
    call answers bound loc callee args isOptional
  | .construct loc callee args => do
    let callee ← inExpr bound callee
    return .construct loc callee (← inExprs bound args)
  | .member loc object property computed isOptional => do
    let object ← inExpr bound object
    return .member loc object (← inExpr bound property) computed isOptional
  | .sequence loc items => return .sequence loc (← inExprs bound items)
  | .template loc values => return .template loc (← inExprs bound values)
  | .taggedTemplate loc tag values => do
    let tag ← inExpr bound tag
    return .taggedTemplate loc tag (← inExprs bound values)
  | .spread loc argument => return .spread loc (← inExpr bound argument)
  | .yieldValue loc argument => return .yieldValue loc (← inOption bound argument)
  | .awaitValue loc argument => return .awaitValue loc (← inExpr bound argument)
  | .objectPattern loc members =>
    return .objectPattern loc (← inPatternMembers bound members)
  | .arrayPattern loc elements =>
    return .arrayPattern loc (← inPatternElements bound elements)

def inOption (bound : Bool) : Option Expr → Collect (Option Expr)
  | .none => pure .none
  | some e => return some (← inExpr bound e)

def inExprs (bound : Bool) : List Expr → Collect (List Expr)
  | [] => pure []
  | e :: rest => do
    let e ← inExpr bound e
    return e :: (← inExprs bound rest)

def inElements (bound : Bool) : List (Option Expr) →
    Collect (List (Option Expr))
  | [] => pure []
  | .none :: rest => return .none :: (← inElements bound rest)
  | some e :: rest => do
    let e ← inExpr bound e
    return some e :: (← inElements bound rest)

def inMembers (bound : Bool) : List Member → Collect (List Member)
  | [] => pure []
  | .property loc key value kind computed :: rest => do
    let key ← inExpr bound key
    let value ← inExpr bound value
    return .property loc key value kind computed :: (← inMembers bound rest)
  | .spread loc argument :: rest => do
    let argument ← inExpr bound argument
    return .spread loc argument :: (← inMembers bound rest)

def inPattern (bound : Bool) : Pattern → Collect Pattern
  | .ident loc name => pure (.ident loc name)
  | .object loc members => return .object loc (← inPatternMembers bound members)
  | .array loc elements => return .array loc (← inPatternElements bound elements)
  | .withDefault loc target value => do
    let target ← inPattern bound target
    return .withDefault loc target (← inExpr bound value)
  | .rest loc target => return .rest loc (← inPattern bound target)
  | .member loc object property => do
    let object ← inExpr bound object
    return .member loc object (← inExpr bound property)

def inPatternOption (bound : Bool) : Option Pattern →
    Collect (Option Pattern)
  | .none => pure .none
  | some p => return some (← inPattern bound p)

def inPatterns (bound : Bool) : List Pattern → Collect (List Pattern)
  | [] => pure []
  | p :: rest => do
    let p ← inPattern bound p
    return p :: (← inPatterns bound rest)

def inPatternElements (bound : Bool) : List (Option Pattern) →
    Collect (List (Option Pattern))
  | [] => pure []
  | .none :: rest => return .none :: (← inPatternElements bound rest)
  | some p :: rest => do
    let p ← inPattern bound p
    return some p :: (← inPatternElements bound rest)

def inPatternMembers (bound : Bool) : List PatternMember →
    Collect (List PatternMember)
  | [] => pure []
  | .property key target :: rest => do
    let key ← inExpr bound key
    let target ← inPattern bound target
    return .property key target :: (← inPatternMembers bound rest)
  | .rest target :: rest => do
    let target ← inPattern bound target
    return .rest target :: (← inPatternMembers bound rest)

def inFunc (bound : Bool) : Func → Collect Func
  | .mk name params body isGenerator isAsync => do
    let bound := bound || (Func.mk name params body isGenerator isAsync).binds requestName
    let params ← inPatterns bound params
    return .mk name params (← inStmts bound body) isGenerator isAsync

def inArrowBody (bound : Bool) : ArrowBody → Collect ArrowBody
  | .block body => return .block (← inStmts bound body)
  | .value e => return .value (← inExpr bound e)

def inStmt (bound : Bool) : Stmt → Collect Stmt
  | .block loc body => return .block loc (← inStmts bound body)
  | .empty loc => pure (.empty loc)
  | .expression loc e directive => return .expression loc (← inExpr bound e) directive
  | .ifElse loc test whenTrue whenFalse => do
    let test ← inExpr bound test
    let whenTrue ← inStmt bound whenTrue
    return .ifElse loc test whenTrue (← inStmtOption bound whenFalse)
  | .labeled loc label body => return .labeled loc label (← inStmt bound body)
  | .breakTo loc label => pure (.breakTo loc label)
  | .continueTo loc label => pure (.continueTo loc label)
  | .withObject loc object body => do
    let object ← inExpr bound object
    return .withObject loc object (← inStmt bound body)
  | .switch loc discriminant cases => do
    let discriminant ← inExpr bound discriminant
    return .switch loc discriminant (← inCases bound cases)
  | .returnValue loc argument => return .returnValue loc (← inOption bound argument)
  | .throwValue loc argument => return .throwValue loc (← inExpr bound argument)
  | .tryCatch loc block handler finalizer => do
    let block ← inStmts bound block
    let handler ← inHandler bound handler
    return .tryCatch loc block handler (← inBodyOption bound finalizer)
  | .whileLoop loc test body => do
    let test ← inExpr bound test
    return .whileLoop loc test (← inStmt bound body)
  | .doWhile loc body test => do
    let body ← inStmt bound body
    return .doWhile loc body (← inExpr bound test)
  | .forLoop loc init test update body => do
    let init ← inHeadOption bound init
    let test ← inOption bound test
    let update ← inOption bound update
    return .forLoop loc init test update (← inStmt bound body)
  | .forIn loc head object body => do
    let head ← inHead bound head
    let object ← inExpr bound object
    return .forIn loc head object (← inStmt bound body)
  | .forOf loc head object body => do
    let head ← inHead bound head
    let object ← inExpr bound object
    return .forOf loc head object (← inStmt bound body)
  | .debugger loc => pure (.debugger loc)
  | .function loc func => return .function loc (← inFunc bound func)
  | .varDecl loc kind declarators =>
    return .varDecl loc kind (← inDeclarators bound declarators)
  | .classDef loc name superClass =>
    return .classDef loc name (← inOption bound superClass)

def inStmts (bound : Bool) : List Stmt → Collect (List Stmt)
  | [] => pure []
  | s :: rest => do
    let s ← inStmt bound s
    return s :: (← inStmts bound rest)

def inStmtOption (bound : Bool) : Option Stmt → Collect (Option Stmt)
  | .none => pure .none
  | some s => return some (← inStmt bound s)

def inBodyOption (bound : Bool) : Option (List Stmt) →
    Collect (Option (List Stmt))
  | .none => pure .none
  | some body => return some (← inStmts bound body)

def inCases (bound : Bool) : List SwitchCase → Collect (List SwitchCase)
  | [] => pure []
  | .mk test body :: rest => do
    let test ← inOption bound test
    let body ← inStmts bound body
    return .mk test body :: (← inCases bound rest)

def inHandler (bound : Bool) : Option Handler → Collect (Option Handler)
  | .none => pure .none
  | some (.mk param body) => do
    let param ← inPatternOption bound param
    return some (.mk param (← inStmts bound body))

def inHead (bound : Bool) : ForHead → Collect ForHead
  | .declaration loc kind declarators =>
    return .declaration loc kind (← inDeclarators bound declarators)
  | .target e => return .target (← inExpr bound e)

def inHeadOption (bound : Bool) : Option ForHead → Collect (Option ForHead)
  | .none => pure .none
  | some head => return some (← inHead bound head)

def inDeclarators (bound : Bool) : List Declarator →
    Collect (List Declarator)
  | [] => pure []
  | .mk loc target init :: rest => do
    let target ← inPattern bound target
    let init ← inOption bound init
    return .mk loc target init :: (← inDeclarators bound rest)

end

def report (requests : Requests) (log : Log) : Log :=
  requests.warnings.foldl (fun log (range, message) => log.report .warning range message) log

end Requests

namespace Program

def answerRequests (p : Program) (answers : Requests.Answers) : Program × Requests :=
  let bound := statementsDeclare Requests.requestName p.body
  let (body, requests) := (Requests.inStmts answers bound p.body).run Requests.none
  ({ p with body }, requests)

end Program
end Scriptc
