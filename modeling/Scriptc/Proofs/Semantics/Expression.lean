import Scriptc.Lowering.Calls
import Scriptc.Lowering.Splice
import Scriptc.Proofs.Semantics.Runtime

/-!
# The meaning of expressions

What an expression evaluates to, from left to right, with its effects on variables and the events it
causes. An assignment to a read-only variable has no effect. The object and the key of a member are
evaluated once.
-/

namespace Scriptc

/-- What a name means. -/
inductive Meaning where
  | constant (value : Constant)
  | stored (id : VariableId) (readOnly : Bool)

/-- What an expression can refer to without evaluating anything. -/
structure Context (V : Type) where
  names : String → Meaning
  /-- The receiver of the call that the code belongs to. -/
  receiver : V
  /-- Whether calls of native code mean that, because its name is not declared. -/
  native : Bool

/-- Why a computation gives no value. -/
inductive Stop (V : Type) where
  | thrown (v : V)
  | unspecified

/-- A computation that changes the world and gives a value or stops. -/
abbrev Evaluation (V α : Type) := EStateM (Stop V) (World V) α

/-- What is computed in a context. -/
abbrev Action (V α : Type) := Context V → Evaluation V α

/-- An evaluated place. -/
inductive Site (V : Type) where
  | name (name : String)
  | member (object key : V)
  | nowhere

namespace Runtime

variable {V : Type} (rt : Runtime V)

def decides (op : LogicalOp) (first : V) : Bool :=
  match op with
  | .and => !rt.truthy first
  | .or => rt.truthy first
  | .nullish => !rt.nullish first

def undefined : V := rt.ofConstant .undefined

def toNumber (x : V) : V := rt.unary .toNumber x

def applyUnary : UnaryOp → V → V
  | .negate, x => rt.unary .negate (rt.toNumber x)
  | .plus, x => rt.toNumber x
  | .logicalNot, x => rt.unary .logicalNot x
  | .bitNot, x => rt.unary .bitNot (rt.toNumber x)
  | .typeOf, x => rt.unary .typeOf x
  | .void, _ | .delete, _ => rt.undefined

/-- The value of a binary operator. Arithmetic converts its operands to numbers, except for
addition, which may join texts. -/
def applyBinary : BinaryOp → V → V → V
  | .looseEq, x, y => rt.binary .looseEq x y
  | .looseNe, x, y => rt.binary .looseNe x y
  | .strictEq, x, y => rt.binary .strictEq x y
  | .strictNe, x, y => rt.binary .strictNe x y
  | .lt, x, y => rt.binary .lt x y
  | .le, x, y => rt.binary .le x y
  | .gt, x, y => rt.binary .lt y x
  | .ge, x, y => rt.binary .le y x
  | .add, x, y => rt.binary .add x y
  | .isIn, x, y => rt.binary .isIn x y
  | .instanceOf, x, y => rt.binary .instanceOf x y
  | .subtract, x, y => rt.binary .subtract (rt.toNumber x) (rt.toNumber y)
  | .multiply, x, y => rt.binary .multiply (rt.toNumber x) (rt.toNumber y)
  | .divide, x, y => rt.binary .divide (rt.toNumber x) (rt.toNumber y)
  | .remainder, x, y => rt.binary .remainder (rt.toNumber x) (rt.toNumber y)
  | .bitOr, x, y => rt.binary .bitOr (rt.toNumber x) (rt.toNumber y)
  | .bitXor, x, y => rt.binary .bitXor (rt.toNumber x) (rt.toNumber y)
  | .bitAnd, x, y => rt.binary .bitAnd (rt.toNumber x) (rt.toNumber y)
  | .shiftLeft, x, y => rt.binary .shiftLeft (rt.toNumber x) (rt.toNumber y)
  | .shiftRightSigned, x, y => rt.binary .shiftRightSigned (rt.toNumber x) (rt.toNumber y)
  | .shiftRight, x, y => rt.binary .shiftRight (rt.toNumber x) (rt.toNumber y)
  | .power, _, _ => rt.undefined

def count : UpdateOp → V → V
  | .increment, x => rt.binary .addNumbers x (rt.ofConstant (.number 1.0))
  | .decrement, x => rt.binary .subtract x (rt.ofConstant (.number 1.0))

lemma count_eq (op : UpdateOp) :
    rt.count op = fun x => rt.binary op.opcode x (rt.ofConstant (.number 1.0)) := by
  cases op <;> rfl

def literal (lit : LiteralSyntax) : V :=
  match lit.value with
  | .null => rt.ofConstant .null
  | .boolean b => rt.ofConstant (.boolean b)
  | .number x => rt.ofConstant (.number x)
  | .text s => rt.ofConstant (.text s)
  | .other => rt.undefined

def readsInputs (parts : List SplicePart) (results inputs scratch : Nat) : Bool :=
  ((List.range inputs).all fun i => rt.reads parts (results + i)) &&
    (List.range scratch).all fun i => !rt.reads parts (results + inputs + i)

end Runtime

namespace LiteralSyntax

def isPlain (lit : LiteralSyntax) : Bool := !lit.isRegex && !lit.isBigint &&
    match lit.value with
    | .other => false
    | _ => true

end LiteralSyntax

namespace Evaluation

variable {V : Type} (rt : Runtime V) (ctx : Context V)

def unspecified {α : Type} : Evaluation V α := throw .unspecified

def ask (event : Event V) : Evaluation V (Nat → V) := fun w =>
  match rt.reply w.trace event with
  | .results value => .ok value (w.after event)
  | .thrown v => .error (.thrown v) (w.after event)

def request (event : Event V) : Evaluation V V := return (← ask rt event) 0

def read : Site V → Evaluation V V
  | .name name =>
    match ctx.names name with
    | .constant value => pure (rt.ofConstant value)
    | .stored id _ => return (← get).vars id
  | .member object key => request rt (.get object key)
  | .nowhere => unspecified

def write (v : V) : Site V → Evaluation V PUnit
  | .name name =>
    match ctx.names name with
    | .stored id false => modify (·.assign id v)
    | _ => pure ()
  | .member object key => do
    let _ ← ask rt (.put object key v)
  | .nowhere => unspecified

/-- A computation that is made only if a first value does not decide. -/
def unlessDecided (op : LogicalOp) (first : V) (rest : Evaluation V V) : Evaluation V V :=
  if rt.decides op first then pure first else rest

def assignTo (site : Site V) (right : Evaluation V V) : Evaluation V V := do
  let v ← right
  write rt ctx v site
  pure v

def combine (op : BinaryOp) (site : Site V) (right : Evaluation V V) : Evaluation V V := do
  let old ← read rt ctx site
  assignTo rt ctx site do
    let v ← right
    pure (rt.applyBinary op old v)

def assignUnless (op : LogicalOp) (site : Site V) (right : Evaluation V V) : Evaluation V V := do
  let old ← read rt ctx site
  unlessDecided rt op old (assignTo rt ctx site right)

def assign : AssignOp → Site V → Evaluation V V → Evaluation V V
  | .assign => assignTo rt ctx
  | .add => combine rt ctx .add
  | .subtract => combine rt ctx .subtract
  | .multiply => combine rt ctx .multiply
  | .divide => combine rt ctx .divide
  | .remainder => combine rt ctx .remainder
  | .power => combine rt ctx .power
  | .shiftLeft => combine rt ctx .shiftLeft
  | .shiftRightSigned => combine rt ctx .shiftRightSigned
  | .shiftRight => combine rt ctx .shiftRight
  | .bitOr => combine rt ctx .bitOr
  | .bitXor => combine rt ctx .bitXor
  | .bitAnd => combine rt ctx .bitAnd
  | .and => assignUnless rt ctx .and
  | .or => assignUnless rt ctx .or
  | .nullish => assignUnless rt ctx .nullish

/-- An assignment is planned as what it means. -/
lemma assign_eq (op : AssignOp) : assign rt ctx op = match op.plan with
    | .plain => assignTo rt ctx
    | .combined op => combine rt ctx op
    | .logical op => assignUnless rt ctx op := by
  cases op <;> rfl

def update (op : UpdateOp) (keepsOld : Bool) (site : Site V) : Evaluation V V := do
  let old := rt.toNumber (← read rt ctx site)
  write rt ctx (rt.count op old) site
  pure (if keepsOld then old else rt.count op old)

end Evaluation

/-! ## Native code -/

namespace Member

/-- The key of an option, as a name or as a text. -/
def keyText? : Expr → Bool → Option String
  | .ident _ name, false => some name
  | key, _ => key.textLiteral?

def setsPure? : Member → Option Bool
  | .property _ key value _ computed =>
    match keyText? key computed, value with
    | some "pure", .literal _ { value := .boolean b, .. } => some b
    | _, _ => none
  | .spread .. => none

end Member

namespace Expr

def saysPure : Expr → Bool
  | .object _ members => members.foldl (fun isPure m => m.setsPure?.getD isPure) false
  | _ => false

variable (e : Expr)

def entries : List Expr := (e.elements?.getD []).filterMap id

def entryName? : Option String :=
  ((e.elements?.getD []).head?.getD none).bind constantText?

def second? : Option Expr :=
  match e.elements? with
  | some [_, some e] => some e
  | _ => none

def isPair : Bool := e.entryName?.isSome && e.second?.isSome

def isLone : Bool := e.entryName?.isSome && (e.elements?.getD []).length == 1

end Expr

/-- The native code that the arguments of a splice stand for, from their binding lists and the
template. -/
def spliceParts (results inputs scratch template : Expr) : Option (List SplicePart) := do
  let template ← template.constantText?
  let entries := results.entries ++ inputs.entries ++ scratch.entries
  let read := SplicePart.ofTemplate (entries.map fun e => e.entryName?.getD "") template
  read.toOption.map (·.1)

section

variable {V : Type} (rt : Runtime V) (ctx : Context V)

mutual

def Expr.eval : Expr → Evaluation V V
  | .ident _ name => Evaluation.read rt ctx (.name name)
  | .literal _ lit => pure (rt.literal lit)
  | .receiver _ => pure ctx.receiver
  | .array _ elements => do
    let array ← Evaluation.request rt (.newArray elements.length)
    evalElements array 0 elements
    pure array
  | .object _ members => do
    let object ← Evaluation.request rt .newObject
    evalMembers object members
    pure object
  | .unary _ op argument =>
    match op with
    | .delete => do
      match ← argument.evalSite with
      | .member object key => Evaluation.request rt (.delete object key)
      | .name _ => pure (rt.ofConstant (.boolean false))
      | .nowhere =>
        let _ ← argument.eval
        pure (rt.ofConstant (.boolean true))
    | op => return rt.applyUnary op (← argument.eval)
  | .update _ op keepsOld argument => do
    Evaluation.update rt ctx op keepsOld (← argument.evalSite)
  | .binary _ op left right => do
    let x ← left.eval
    let y ← right.eval
    pure (rt.applyBinary op x y)
  | .logical _ op left right => do
    let x ← left.eval
    Evaluation.unlessDecided rt op x right.eval
  | .assign _ op left right => do
    Evaluation.assign rt ctx op (← left.evalSite) right.eval
  | .conditional _ test whenTrue whenFalse => do
    if rt.truthy (← test.eval) then whenTrue.eval else whenFalse.eval
  | .sequence _ items => evalSequence items
  | .member _ object property computed _ => do
    let x ← object.eval
    let key ←
      if computed then property.eval else pure (rt.ofConstant (.text (property.name?.getD "")))
    Evaluation.request rt (.get x key)
  | .call _ callee args _ =>
    if callee.name? = some Lowering.spliceName then
      if ctx.native then evalSplice args else Evaluation.unspecified
    else do
      let (function, receiver) ←
        match ← callee.evalSite with
        | .member object key => pure (← Evaluation.request rt (.get object key), object)
        | _ => pure (← callee.eval, rt.undefined)
      let operands ← evalAll args
      Evaluation.request rt (.call false function (receiver :: operands))
  | .construct _ callee args => do
    let function ← callee.eval
    let operands ← evalAll args
    Evaluation.request rt (.call true function (rt.undefined :: operands))
  | _ => Evaluation.unspecified

/-- The place that an expression names, with the parts of a member evaluated. -/
def Expr.evalSite : Expr → Evaluation V (Site V)
  | .ident _ name => pure (.name name)
  | .member _ object property computed _ => do
    let x ← object.eval
    let key ←
      if computed then property.eval else pure (rt.ofConstant (.text (property.name?.getD "")))
    pure (.member x key)
  | _ => pure .nowhere

def evalSequence : List Expr → Evaluation V V
  | [] => Evaluation.unspecified
  | [last] => last.eval
  | e :: rest => do
    let _ ← e.eval
    evalSequence rest

def evalAll : List Expr → Evaluation V (List V)
  | [] => pure []
  | e :: rest => do
    let v ← e.eval
    return v :: (← evalAll rest)

def evalElements (array : V) (index : Nat) : List (Option Expr) → Evaluation V PUnit
  | [] => pure ()
  | none :: rest => evalElements array (index + 1) rest
  | some e :: rest => do
    let v ← e.eval
    let _ ← Evaluation.ask rt (.put array (rt.ofConstant (.number (Float.ofNat index))) v)
    evalElements array (index + 1) rest

def evalMembers (object : V) : List Member → Evaluation V PUnit
  | [] => pure ()
  | .property _ key value _ computed :: rest => do
    let k ← if computed then key.eval else pure (rt.ofConstant (.text (key.plainKey?.getD "")))
    let v ← value.eval
    let _ ← Evaluation.ask rt (.put object k v)
    evalMembers object rest
  | .spread .. :: _ => Evaluation.unspecified

/-- Runs native code with its arguments: its inputs are evaluated, and its results are written.
Pure code without results is not run. -/
def evalSplice : List Expr → Evaluation V V
  | [options, results, inputs, scratch, template] => do
    let values ← inputs.evalInputs
    match spliceParts results inputs scratch template with
    | none => Evaluation.unspecified
    | some parts =>
      let count := results.entries.length
      if options.saysPure && count == 0 then pure rt.undefined
      else if rt.readsInputs parts count values.length scratch.entries.length then
        let value ← Evaluation.ask rt (.native parts count values)
        results.evalResults value
        pure rt.undefined
      else Evaluation.unspecified
  | _ => Evaluation.unspecified

def Expr.evalInputs : Expr → Evaluation V (List V)
  | .array _ elements => evalInputList elements
  | _ => Evaluation.unspecified

def evalInputList : List (Option Expr) → Evaluation V (List V)
  | [] => pure []
  | none :: rest => evalInputList rest
  | some e :: rest => do
    let v ← e.evalInput
    return v :: (← evalInputList rest)

def Expr.evalInput : Expr → Evaluation V V
  | .array _ elements => evalSecond elements
  | _ => Evaluation.unspecified

def evalSecond : List (Option Expr) → Evaluation V V
  | [_, some e] => e.eval
  | _ => Evaluation.unspecified

def Expr.evalResults (value : Nat → V) : Expr → Evaluation V PUnit
  | .array _ elements => evalResultList value 0 elements
  | _ => Evaluation.unspecified

def evalResultList (value : Nat → V) (index : Nat) : List (Option Expr) → Evaluation V PUnit
  | [] => pure ()
  | none :: rest => evalResultList value index rest
  | some e :: rest => do
    Evaluation.write rt ctx (value index) (← e.evalResult)
    evalResultList value (index + 1) rest

def Expr.evalResult : Expr → Evaluation V (Site V)
  | .array _ elements => evalSecondSite elements
  | _ => Evaluation.unspecified

def evalSecondSite : List (Option Expr) → Evaluation V (Site V)
  | [_, some e] => e.evalSite
  | _ => Evaluation.unspecified

end

end

namespace Expr

variable {V : Type} {rt : Runtime V}

def evalProperty (rt : Runtime V) (property : Expr) (computed : Bool) (ctx : Context V) :
    Evaluation V V :=
  if computed then property.eval rt ctx
  else pure (rt.ofConstant (.text (property.name?.getD "")))

lemma evalSite_member (ctx : Context V) (loc : Location) (object property : Expr)
    (computed opt : Bool) :
    (Expr.member loc object property computed opt).evalSite rt ctx = (do
      let x ← object.eval rt ctx
      let k ← property.evalProperty rt computed ctx
      pure (.member x k)) := by
  cases computed <;> simp [Expr.evalSite, evalProperty]

lemma eval_member (ctx : Context V) (loc : Location) (object property : Expr)
    (computed opt : Bool) :
    (Expr.member loc object property computed opt).eval rt ctx = (do
      let x ← object.eval rt ctx
      let k ← property.evalProperty rt computed ctx
      Evaluation.request rt (.get x k)) := by
  cases computed <;> simp [Expr.eval, evalProperty]

end Expr

/-! ## Names that are assigned -/

namespace Expr

def resultNames (e : Expr) : List String :=
  e.entries.filterMap fun entry => entry.second?.bind Expr.name?

end Expr

section

variable (name : String)

mutual

def Expr.assigns : Expr → Bool
  | .array _ elements => elementsAssign elements
  | .object _ members => membersAssign members
  | .unary _ _ a => a.assigns
  | .update _ _ _ a => a.name? == some name || a.assigns
  | .binary _ _ left right | .logical _ _ left right => left.assigns || right.assigns
  | .assign _ _ left right => left.name? == some name || left.assigns || right.assigns
  | .conditional _ test whenTrue whenFalse =>
    test.assigns || whenTrue.assigns || whenFalse.assigns
  | .call _ callee args _ =>
    callee.assigns || expressionsAssign args ||
      (callee.name? == some Lowering.spliceName &&
        (args[1]?.any fun results => results.resultNames.contains name))
  | .construct _ callee args => callee.assigns || expressionsAssign args
  | .member _ object property _ _ => object.assigns || property.assigns
  | .sequence _ items => expressionsAssign items
  | _ => false

def expressionsAssign : List Expr → Bool
  | [] => false
  | e :: rest => e.assigns || expressionsAssign rest

def elementsAssign : List (Option Expr) → Bool
  | [] => false
  | none :: rest => elementsAssign rest
  | some e :: rest => e.assigns || elementsAssign rest

def membersAssign : List Member → Bool
  | [] => false
  | .property _ key value _ _ :: rest =>
    key.assigns || value.assigns || membersAssign rest
  | .spread _ e :: rest => e.assigns || membersAssign rest

end

end

mutual

def Expr.aliases : Expr → List String
  | .ident _ name => [name]
  | .assign _ op left right =>
    match op.plan with
    | .plain => left.name?.toList ++ right.aliases
    | .combined _ => left.name?.toList
    | .logical _ => []
  | .sequence _ items => lastAliases items
  | _ => []

/-- The names whose variables may hold the value of the last of several expressions. -/
def lastAliases : List Expr → List String
  | [] => []
  | [last] => last.aliases
  | _ :: rest => lastAliases rest

end

/-! ## Coverage -/

namespace Expr

def isMember : Expr → Bool
  | .member .. => true
  | _ => false

end Expr

section

variable (heap : Bool)

mutual

/-- Whether an expression consists of names, plain literals, the receiver, operators, choices and
assignments to names; and of members, literals of objects and arrays, calls and native code, if
the heap is allowed. A computed key may not be held in a variable that the value after it
assigns. -/
def Expr.isCovered : Expr → Bool
  | .ident .. | .receiver _ => true
  | .literal _ lit => lit.isPlain
  | .array _ elements => heap && areElementsCovered elements
  | .object _ members => heap && areMembersCovered members
  | .unary _ op argument => (op != .delete || heap) && argument.isCovered
  | .update _ _ _ argument => (argument.name?.isSome || argument.isMember) && argument.isCovered
  | .binary _ op left right => op != .power && left.isCovered && right.isCovered
  | .logical _ _ left right => left.isCovered && right.isCovered
  | .assign _ op left right =>
    op != .power && (left.name?.isSome || left.isMember) && left.isCovered && right.isCovered
  | .conditional _ test whenTrue whenFalse =>
    test.isCovered && whenTrue.isCovered && whenFalse.isCovered
  | .sequence _ items => !items.isEmpty && areCovered items
  | .member _ object property computed isOptional =>
    heap && !isOptional && object.isCovered &&
      (if computed then property.isCovered else property.name?.isSome)
  | .call _ callee args isOptional =>
    heap && !isOptional && callee.name? != some Lowering.headerName && callee.isCovered &&
      areCovered args && (callee.name? != some Lowering.spliceName || isSpliceCovered args)
  | .construct _ callee args => heap && callee.isCovered && areCovered args
  | _ => false

def areCovered : List Expr → Bool
  | [] => true
  | e :: rest => e.isCovered && areCovered rest

def areElementsCovered : List (Option Expr) → Bool
  | [] => true
  | none :: rest => areElementsCovered rest
  | some e :: rest => e.isCovered && areElementsCovered rest

def areMembersCovered : List Member → Bool
  | [] => true
  | .property _ key value kind computed :: rest =>
    kind == .init && value.isCovered && areMembersCovered rest &&
      (if computed then key.isCovered && key.aliases.all fun name => !value.assigns name
      else key.plainKey?.isSome)
  | .spread .. :: _ => false

/-- Whether the arguments of a splice are binding lists of that kind with a template. -/
def isSpliceCovered : List Expr → Bool
  | [_, results, inputs, scratch, template] =>
    (spliceParts results inputs scratch template).isSome && scratch.elements?.isSome &&
      scratch.entries.all Expr.isLone && results.isListCovered true &&
        inputs.isListCovered false
  | _ => false

def Expr.isListCovered (places : Bool) : Expr → Bool
  | .array _ elements => areEntriesCovered places elements
  | _ => false

def areEntriesCovered (places : Bool) : List (Option Expr) → Bool
  | [] => true
  | none :: rest => areEntriesCovered places rest
  | some e :: rest => e.isPair && e.isEntryCovered places && areEntriesCovered places rest

def Expr.isEntryCovered (places : Bool) : Expr → Bool
  | .array _ elements => isSecondCovered places elements
  | _ => false

def isSecondCovered (places : Bool) : List (Option Expr) → Bool
  | [_, some e] => (!places || e.name?.isSome || e.isMember) && e.isCovered
  | _ => false

end

end

end Scriptc
