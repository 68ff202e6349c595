import Scriptc.Code.CodeUnit
import Scriptc.Json.Printer

/-!
# Block dumps

A unit as JSON, for people and tools that look at the blocks.
-/

namespace Scriptc

def Json.tagged (tag : String) (value : Json) : Json := .object [(tag, value)]

def Json.variant (tag : String) (fields : List (String × Json)) : Json :=
  .tagged tag (.object fields)

def Constant.dump : Constant → Json
  | .undefined => .string "Undefined"
  | .null => .string "Null"
  | .boolean b => .tagged "Bool" (.bool b)
  | .number x => .tagged "Num" (.number (.float x))
  | .text s => .tagged "Str" (.string s)

def VariableId.dump (id : VariableId) : Json :=
  .object [("func", .ofNat id.routine), ("index", .ofNat id.index)]

def Operand.dump : Operand → Json
  | .var id => .tagged "Var" id.dump
  | .cell id => .tagged "Local" (.ofNat id)
  | .param id => .tagged "Param" (.ofNat id)
  | .slot id => .tagged "ArgSlot" (.ofNat id)
  | .constant value => .tagged "Imm" value.dump

def Storage.dump : Storage → Json
  | .cell id => .tagged "Local" (.ofNat id)
  | .param id => .tagged "Param" (.ofNat id)
  | .environment index => .tagged "Env" (.ofNat index)

def SplicePart.dump : SplicePart → Json
  | .text s => .tagged "Text" (.string s)
  | .binding index => .tagged "Binding" (.ofNat index)

def Callee.dump : Callee → Json
  | .indirect value => .tagged "Ind" value.dump
  | .pinned id copy => .variant "Pinned" [("var", id.dump), ("copy", copy.dump)]
  | .direct routine closure =>
    .variant "Direct" [("func", .ofNat routine), ("closure", closure.dump)]
  | .construct value => .tagged "Cons" value.dump

def Opcode.dump (op : Opcode) : Json :=
  .string op.name

def Instruction.dump : Instruction → Json
  | .closure dest routine => .variant "Closure" [("dest", dest.dump), ("func", .ofNat routine)]
  | .newObject dest => .variant "Create" [("dest", dest.dump), ("kind", .string "Object")]
  | .newArray dest length =>
    let kind := Json.variant "Array" [("len", .ofNat length)]
    .variant "Create" [("dest", dest.dump), ("kind", kind)]
  | .newArguments dest => .variant "CreateArguments" [("dest", dest.dump)]
  | .loadThrown dest => .variant "LoadSc" [("dest", dest.dump), ("sc", .string "Thrown")]
  | .endTry index => .variant "EndTry" [("index", .ofNat index)]
  | .splice bindings resultCount parts =>
    .variant "Asm" [("bindings", .ofList Operand.dump bindings),
      ("result_count", .ofNat resultCount), ("parts", .ofList SplicePart.dump parts)]
  | .assign dest source => .variant "Assign" [("dest", dest.dump), ("src", source.dump)]
  | .binary op dest left right =>
    .variant "Binop" [("op", op.dump), ("dest", dest.dump), ("a", left.dump), ("b", right.dump)]
  | .unary op dest argument =>
    .variant "Unop" [("op", op.dump), ("dest", dest.dump), ("a", argument.dump)]
  | .get dest object key =>
    .variant "Get" [("dest", dest.dump), ("obj", object.dump), ("key", key.dump)]
  | .put object key value =>
    .variant "Put" [("obj", object.dump), ("key", key.dump), ("value", value.dump)]
  | .call dest callee argc =>
    .variant "Call" [("dest", .ofOption Operand.dump dest), ("callee", callee.dump),
      ("argc", .ofNat argc)]

def Jump.dump : Jump → Json
  | .ret value => .tagged "Ret" value.dump
  | .throw value => .tagged "Throw" value.dump
  | .goto label => .tagged "Goto" (.ofNat label)
  | .beginTry index onCatch onBody =>
    .variant "BeginTry" [("index", .ofNat index), ("on_catch", .ofNat onCatch),
      ("on_body", .ofNat onBody)]
  | .switch value cases default =>
    let rows := cases.map fun (key, label) => Json.array [.number (.integer key), .ofNat label]
    .variant "Switch" [("value", value.dump), ("cases", .array rows), ("default", .ofNat default)]
  | .ifTrue value onTrue onFalse =>
    .variant "IfTrue" [("value", value.dump), ("on_true", .ofNat onTrue),
      ("on_false", .ofNat onFalse)]
  | .ifCompare op left right onTrue onFalse =>
    .variant "If" [("op", op.dump), ("a", left.dump), ("b", right.dump), ("on_true", .ofNat onTrue),
      ("on_false", .ofNat onFalse)]

def Block.dump (id : BlockId) (b : Block) : Json :=
  .object [
    ("id", .ofNat id), ("body", .ofList Instruction.dump b.body.toList),
    ("jump", .ofOption Jump.dump b.jump), ("succ", .ofList .ofNat b.successors)]

def Variable.dump (v : Variable) : Json :=
  .object [
    ("name", .string v.name), ("level", .ofNat v.level), ("param", .ofOption .ofNat v.param),
    ("accessed", .bool v.accessed), ("escapes", .bool v.escapes),
    ("func_ref", .ofOption .ofNat v.routineRef), ("storage", .ofOption Storage.dump v.storage)]

def Layout.dump (layout : Layout) : Json :=
  .object [
    ("env_size", .ofNat layout.envSize), ("arg_slot_base", .ofNat layout.argSlotBase),
    ("local_count", .ofNat layout.localCount), ("env_chain", .ofList .ofNat layout.envChain)]

namespace Routine

def dump (r : Routine) : Json :=
  let blocks := r.blocks.toList.zipIdx.map fun (b, id) => b.dump id
  .object [
    ("id", .ofNat r.id), ("parent", .ofOption .ofNat r.parent),
    ("name", .ofOption .string r.name), ("level", .ofNat r.level), ("strict", .bool r.strict),
    ("param_count", .ofNat r.paramCount), ("vars", .ofList Variable.dump r.vars.toList),
    ("local_count", .ofNat r.localCount), ("is_temp", .ofList .bool r.isTemp.toList),
    ("temp_stack", .ofList .ofNat r.freeTemps.reverse),
    ("arg_slot_count", .ofNat r.argSlotCount), ("blocks", .array blocks),
    ("labels", .ofList (.ofOption .ofNat) r.labels.toList), ("cur", .ofNat r.current),
    ("entry", .ofNat entry), ("exit_label", .ofNat exitLabel), ("ret_value", result.dump),
    ("closures", .ofList .ofNat r.closures.toList), ("try_count", .ofNat r.tryCount),
    ("layout", .ofOption Layout.dump r.layout), ("closed", .bool r.closed)]

end Routine

namespace CodeUnit

def dump (u : CodeUnit) : Json :=
  .object [
    ("funcs", .ofList Routine.dump u.routines.toList),
    ("strings", .ofList .string u.strings.toList),
    ("headers", .ofList .string u.headers.toList)]

def dumpText (u : CodeUnit) : String :=
  u.dump.pretty

end CodeUnit
end Scriptc
