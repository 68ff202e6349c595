import Scriptc.Lowering.Targets

/-!
# Calls and literals in lowering

The code of calls, of array and object literals, and of the lists they contain.
-/

namespace Scriptc

inductive ArgumentCode where
  | value (e : Lowered)
  | spread (loc : Location) (e : Lowered)

namespace ArgumentCode

def isSimple : ArgumentCode → Bool
  | value e => e.isSimple
  | spread .. => false

end ArgumentCode

inductive LiteralMember where
  | property (loc : Location) (key value : Lowered) (kind : PropertyKind) (computed : Bool)
  | spread (loc : Location) (e : Lowered)

namespace Expr

def plainKey? : Expr → Option String
  | ident _ name => some name
  | literal _ { value := .text s, .. } => some s
  | literal _ { value := .number x, .. } => some (Constant.number x).toText
  | _ => none

def isSpread : Expr → Bool
  | spread .. => true
  | _ => false

end Expr

namespace Lowering

def putElements (array : Operand) (index : Nat) : List (Option Lowered) → Lower PUnit
  | [] => pure ()
  | none :: rest => putElements array (index + 1) rest
  | some e :: rest => do
    if e.expr.isSpread then e.discard
    else
      let value ← e.value
      push (.put array (.ofNumber (Float.ofNat index)) value)
      release value
    putElements array (index + 1) rest

def arrayValue (elements : List (Option Lowered)) : Lower Operand := do
  let dest ← allocTemp
  push (.newArray dest elements.length)
  putElements dest 0 elements
  pure dest

def literalKey (key : Lowered) (computed : Bool) : Lower (Option Operand) := do
  if computed then return some (← key.value)
  else
    match key.expr.plainKey? with
    | some name => pure (some (.ofText name))
    | none =>
      error key.loc "invalid property key"
      pure none

def putMember (object : Operand) : LiteralMember → Lower PUnit
  | .spread loc e => do
    e.discard
    notSupported loc "object spread"
  | .property loc key value kind computed => do
    if kind ≠ .init then notSupported loc "accessor property"
    else if let some key ← literalKey key computed then
      let value ← value.value
      push (.put object key value)
      release key
      release value

def putMembers (object : Operand) : List LiteralMember → Lower PUnit
  | [] => pure ()
  | m :: rest => do
    putMember object m
    putMembers object rest

def objectValue (members : List LiteralMember) : Lower Operand := do
  let dest ← allocTemp
  push (.newObject dest)
  putMembers dest members
  pure dest

/-- Evaluates the arguments of a call from left to right. A variable is copied while an argument
after it could still change it. -/
def evalArguments : List ArgumentCode → Lower (List Operand)
  | [] => pure []
  | .spread loc e :: rest => do
    e.discard
    notSupported loc "spread argument"
    return .undefined :: (← evalArguments rest)
  | .value e :: rest => do
    let value ← pinIf (!rest.all ArgumentCode.isSimple) (← e.value)
    return value :: (← evalArguments rest)

def releaseAll : List Operand → Lower PUnit
  | [] => pure ()
  | a :: rest => do
    release a
    releaseAll rest

def emitCall (callee : Callee) (function receiver : Operand) (args : List Operand)
    (needed : Bool) : Lower Operand := do
  release function
  release receiver
  releaseAll args
  if needed then
    let dest ← allocTemp
    inCode (Routine.call (some dest) callee receiver args)
    pure dest
  else
    inCode (Routine.call none callee receiver args)
    pure .undefined

/-- An evaluated callee: how it is called, the operand that holds it, and the receiver. -/
structure CalleeValue where
  callee : Callee
  function : Operand
  receiver : Operand

/-- Evaluates a callee that is not a member. A variable that the arguments could change is copied,
but is remembered, so that the call can still become a direct one. -/
def plainCallee (callee : Place) (argsSimple : Bool) : Lower CalleeValue := do
  match ← callee.whole.value, argsSimple with
  | .var id, false =>
    let copy ← pin (.var id)
    pure { callee := .pinned id copy, function := copy, receiver := .undefined }
  | function, _ =>
    pure { callee := .indirect function, function, receiver := .undefined }

def evalCallee (callee : Place) (argsSimple : Bool) : Lower CalleeValue := do
  match callee.reference with
  | .member m =>
    let object ← m.evalObject (!argsSimple)
    let key ← m.evalKey
    let function ← allocTemp
    push (.get function object key)
    release key
    pure { callee := .indirect function, function, receiver := object }
  | _ => plainCallee callee argsSimple

def callValue (callee : Place) (args : List ArgumentCode) (needed : Bool) : Lower Operand := do
  let c ← evalCallee callee (args.all ArgumentCode.isSimple)
  let args ← evalArguments args
  emitCall c.callee c.function c.receiver args needed

def constructValue (callee : Lowered) (args : List ArgumentCode) (needed : Bool) :
    Lower Operand := do
  let function ← pinIf (!args.all ArgumentCode.isSimple) (← callee.value)
  let args ← evalArguments args
  emitCall (.construct function) function .undefined args needed

end Lowering
end Scriptc
