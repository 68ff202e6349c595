import Scriptc.Lowering.Control
import Scriptc.Lowering.Functions
import Scriptc.Lowering.Splice

/-!
# Code of syntax trees

The code of every expression and statement, put together from the code of its parts.
-/

namespace Scriptc
namespace Lowering

def operatorCode (loc : Location) (op : UnaryOp) (argument : Lowered) (demand : Demand) :
    Lower Operand :=
  match op with
  | .negate => unaryCode loc .negate true argument demand
  | .bitNot => unaryCode loc .bitNot true argument demand
  | .typeOf => unaryCode loc .typeOf false argument demand
  | .plus => plusCode loc argument demand
  | .logicalNot => notCode loc argument demand
  | .void | .delete => voidCode loc argument demand

def callCode (loc : Location) (callee : Place) (args : List Expr) (values : List ArgumentCode)
    (lists : List SpliceList) (isOptional : Bool) (demand : Demand) : Lower Operand := do
  if isOptional then notSupported loc "optional call"
  let value ←
    if ← isNative callee.whole.expr then
      nativeCode loc (callee.whole.expr.name?.getD "") args lists
      pure .undefined
    else callValue callee values demand.needsValue
  settle (some loc) value demand

mutual

def exprCode : Expr → Demand → Lower Operand
  | .ident loc name, demand => do
    let value ← readBinding (← resolve name loc)
    settle (some loc) value demand
  | .literal loc lit, demand => do settle none (← literalValue loc lit) demand
  | .receiver loc, demand => settle (some loc) Routine.receiver demand
  | .array loc elements, demand => do
    settle (some loc) (← arrayValue (elementCodes elements)) demand
  | .object loc members, demand => do
    settle (some loc) (← objectValue (memberCodes members)) demand
  | .function loc func, demand => do
    settle (some loc) (← functionValue func loc (funcCode func)) demand
  | .arrow loc _ _, demand => do settle (some loc) (← refuse loc "arrow function") demand
  | .classDef loc _ superClass, demand => do
    discardOption (optionCode superClass)
    settle (some loc) (← refuse loc "class") demand
  | .unary loc op argument, demand =>
    match op with
    | .delete =>
      deleteCode loc
        { whole := ⟨argument, exprCode argument⟩, reference := referenceOf argument } demand
    | op => operatorCode loc op ⟨argument, exprCode argument⟩ demand
  | .update loc op keepsOld argument, demand =>
    updateCode loc op keepsOld
      { whole := ⟨argument, exprCode argument⟩, reference := referenceOf argument } demand
  | .binary loc op left right, demand =>
    binaryCode loc op ⟨left, exprCode left⟩ ⟨right, exprCode right⟩ demand
  | .logical loc op left right, demand =>
    logicalCode loc op ⟨left, exprCode left⟩ ⟨right, exprCode right⟩ demand
  | .assign loc op left right, demand =>
    assignCode loc op { whole := ⟨left, exprCode left⟩, reference := referenceOf left }
      ⟨right, exprCode right⟩ demand
  | .conditional _ test whenTrue whenFalse, demand =>
    conditionalCode ⟨test, exprCode test⟩ ⟨whenTrue, exprCode whenTrue⟩
      ⟨whenFalse, exprCode whenFalse⟩ demand
  | .call loc callee args isOptional, demand =>
    callCode loc { whole := ⟨callee, exprCode callee⟩, reference := referenceOf callee } args
      (argumentCodes args) (spliceLists args) isOptional demand
  | .construct loc callee args, demand => do
    let value ← constructValue ⟨callee, exprCode callee⟩ (argumentCodes args) demand.needsValue
    settle (some loc) value demand
  | .member loc object property computed isOptional, demand => do
    let m : MemberCode :=
      { object := ⟨object, exprCode object⟩, property := ⟨property, exprCode property⟩, computed,
        isOptional }
    settle (some loc) (← m.read loc) demand
  | .sequence _ items, demand => sequenceCode (listCodes items) demand
  | .template loc values, demand => do
    discardAll (listCodes values)
    settle (some loc) (← refuse loc "template literal") demand
  | .taggedTemplate loc tag values, demand => do
    discardAll (⟨tag, exprCode tag⟩ :: listCodes values)
    settle (some loc) (← refuse loc "tagged template") demand
  | .spread loc argument, demand => do
    discardAll [⟨argument, exprCode argument⟩]
    settle (some loc) (← refuse loc "spread element") demand
  | .yieldValue loc argument, demand => do
    discardOption (optionCode argument)
    settle (some loc) (← refuse loc "yield") demand
  | .awaitValue loc argument, demand => do
    discardAll [⟨argument, exprCode argument⟩]
    settle (some loc) (← refuse loc "await") demand
  | .objectPattern loc _, demand | .arrayPattern loc _, demand => do
    settle (some loc) (← refuse loc "destructuring pattern") demand

def referenceOf : Expr → Reference
  | .ident _ name => .name name
  | .member _ object property computed isOptional =>
    .member
      { object := ⟨object, exprCode object⟩, property := ⟨property, exprCode property⟩, computed,
        isOptional }
  | .objectPattern .. | .arrayPattern .. => .pattern
  | _ => .other

def optionCode : Option Expr → Option Lowered
  | none => none
  | some e => some ⟨e, exprCode e⟩

def listCodes : List Expr → List Lowered
  | [] => []
  | e :: rest => ⟨e, exprCode e⟩ :: listCodes rest

def elementCodes : List (Option Expr) → List (Option Lowered)
  | [] => []
  | none :: rest => none :: elementCodes rest
  | some e :: rest => some ⟨e, exprCode e⟩ :: elementCodes rest

def memberCodes : List Member → List LiteralMember
  | [] => []
  | .property loc key value kind computed :: rest =>
    .property loc ⟨key, exprCode key⟩ ⟨value, exprCode value⟩ kind computed :: memberCodes rest
  | .spread loc argument :: rest => .spread loc ⟨argument, exprCode argument⟩ :: memberCodes rest

def argumentCodes : List Expr → List ArgumentCode
  | [] => []
  | e :: rest => argumentCode e (exprCode e) :: argumentCodes rest

def argumentCode : Expr → ExprCode → ArgumentCode
  | .spread loc argument, _ => .spread loc ⟨argument, exprCode argument⟩
  | e, code => .value ⟨e, code⟩

def spliceLists : List Expr → List SpliceList
  | [] => []
  | e :: rest => spliceList e :: spliceLists rest

def spliceList : Expr → SpliceList
  | .array _ elements => some (spliceEntries elements)
  | _ => none

def spliceEntries : List (Option Expr) → List SpliceEntry
  | [] => []
  | none :: rest => spliceEntries rest
  | some e :: rest => { entry := e, second := entrySecond e } :: spliceEntries rest

def entrySecond : Expr → Option Place
  | .array _ elements => secondOf elements
  | _ => none

def secondOf : List (Option Expr) → Option Place
  | [_, some e] => some { whole := ⟨e, exprCode e⟩, reference := referenceOf e }
  | _ => none

def funcCode : Func → FunctionCode
  | .mk name params body isGenerator isAsync, title, loc, scope =>
    lowerFunction (.mk name params body isGenerator isAsync)
      { declarations := declarationsOf body, functions := functionCodes body,
        statements := stmtsCode body }
      title loc scope

def stmtCode : Stmt → List String → Lower PUnit
  | .block _ body, labels => labeledCode labels (stmtsCode body)
  | .empty _, labels => labeledCode labels (pure ())
  | .expression loc e directive, labels =>
    labeledCode labels (expressionCode loc ⟨e, exprCode e⟩ directive)
  | .ifElse _ test whenTrue whenFalse, labels =>
    labeledCode labels
      (ifCode ⟨test, exprCode test⟩ (stmtCode whenTrue) (stmtOption whenFalse))
  | .labeled _ label body, labels => labelCode label (stmtCode body) labels
  | .breakTo loc label, labels => labeledCode labels (jumpCode loc label false)
  | .continueTo loc label, labels => labeledCode labels (jumpCode loc label true)
  | .withObject loc object body, labels =>
    labeledCode labels do
      discardAll [⟨object, exprCode object⟩]
      stmtCode body []
      notSupported loc "with statement"
  | .switch loc discriminant cases, labels =>
    switchCode loc ⟨discriminant, exprCode discriminant⟩ (caseCodes cases) labels
  | .returnValue loc argument, labels => labeledCode labels (returnCode loc (optionCode argument))
  | .throwValue _ argument, labels =>
    labeledCode labels (throwCode ⟨argument, exprCode argument⟩)
  | .tryCatch loc block handler finalizer, labels =>
    labeledCode labels
      (tryCode loc (stmtsCode block) (handlerOption handler) (bodyOption finalizer))
  | .whileLoop _ test body, labels => whileCode ⟨test, exprCode test⟩ (stmtCode body) labels
  | .doWhile _ body test, labels => doWhileCode (stmtCode body) ⟨test, exprCode test⟩ labels
  | .forLoop _ init test update body, labels =>
    forCode (headOption init) (optionCode test) (optionCode update) (stmtCode body) labels
  | .forIn _ head object body, labels =>
    forInCode (headCode head) ⟨object, exprCode object⟩ (stmtCode body) labels
  | .forOf loc _ object body, labels =>
    forOfCode loc ⟨object, exprCode object⟩ (stmtCode body) labels
  | .debugger loc, labels => labeledCode labels (warn loc "debugger statement is ignored")
  | .function _ _, labels => labeledCode labels (pure ())
  | .varDecl _ _ declarators, labels =>
    labeledCode labels (declaratorsCode (declaratorCodes declarators))
  | .classDef loc _ superClass, labels =>
    labeledCode labels do
      discardOption (optionCode superClass)
      notSupported loc "class declaration"

def stmtsCode : List Stmt → Lower PUnit
  | [] => pure ()
  | s :: rest => do
    stmtCode s []
    stmtsCode rest

def stmtOption : Option Stmt → Option StmtCode
  | none => none
  | some s => some (stmtCode s)

def bodyOption : Option (List Stmt) → Option (Lower PUnit)
  | none => none
  | some body => some (stmtsCode body)

def caseCodes : List SwitchCase → List CaseCode
  | [] => []
  | .mk test body :: rest =>
    { test := optionCode test, body := stmtsCode body } :: caseCodes rest

def handlerOption : Option Handler → Option HandlerCode
  | none => none
  | some (.mk param body) => some { param, body := stmtsCode body }

def headCode : ForHead → HeadCode
  | .declaration loc _ declarators => .declaration loc (declaratorCodes declarators)
  | .target e => .target { whole := ⟨e, exprCode e⟩, reference := referenceOf e }

def headOption : Option ForHead → Option HeadCode
  | none => none
  | some head => some (headCode head)

def declaratorCodes : List Declarator → List DeclaratorCode
  | [] => []
  | .mk loc target init :: rest =>
    { loc, target, init := optionCode init } :: declaratorCodes rest

/-- The code of the functions that statements declare, in the order of their declarations. A
function without a name has none. -/
def functionCodes : List Stmt → List FunctionCode
  | [] => []
  | s :: rest => declaredFunctions s ++ functionCodes rest

def declaredFunctions : Stmt → List FunctionCode
  | .function _ func => if func.name?.isSome then [funcCode func] else []
  | .block _ body => functionCodes body
  | .ifElse _ _ whenTrue whenFalse => declaredFunctions whenTrue ++ functionsOption whenFalse
  | .labeled _ _ body => declaredFunctions body
  | .withObject _ _ body => declaredFunctions body
  | .whileLoop _ _ body => declaredFunctions body
  | .doWhile _ body _ => declaredFunctions body
  | .forLoop _ _ _ _ body => declaredFunctions body
  | .forIn _ _ _ body => declaredFunctions body
  | .forOf _ _ _ body => declaredFunctions body
  | .switch _ _ cases => caseFunctions cases
  | .tryCatch _ block handler finalizer =>
    functionCodes block ++ handlerFunctions handler ++ bodyFunctions finalizer
  | _ => []

def functionsOption : Option Stmt → List FunctionCode
  | none => []
  | some s => declaredFunctions s

def bodyFunctions : Option (List Stmt) → List FunctionCode
  | none => []
  | some body => functionCodes body

def caseFunctions : List SwitchCase → List FunctionCode
  | [] => []
  | .mk _ body :: rest => functionCodes body ++ caseFunctions rest

def handlerFunctions : Option Handler → List FunctionCode
  | none => []
  | some (.mk _ body) => functionCodes body

end

end Lowering
end Scriptc
