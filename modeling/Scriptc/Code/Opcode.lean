/-!
# Opcodes

The operators of instructions and branches. Each relational operator has a branch at a fixed
distance.
-/

namespace Scriptc

/-- An operator of an instruction or a branch. -/
inductive Opcode where
  | strictEq
  | strictNe
  | looseEq
  | looseNe
  | lt
  | le
  | shiftLeft
  | shiftRight
  | shiftRightSigned
  | add
  | addNumbers
  | subtract
  | multiply
  | divide
  | remainder
  | bitOr
  | bitXor
  | bitAnd
  | isIn
  | instanceOf
  | delete
  | negate
  | logicalNot
  | bitNot
  | typeOf
  | toNumber
  | toText
  | toObject
  | ifTrue
  | ifStrictEq
  | ifStrictNe
  | ifLooseEq
  | ifLooseNe
  | ifLt
  | ifLe
deriving DecidableEq, Repr, Inhabited

namespace Opcode

def all : List Opcode := [
  .strictEq, .strictNe, .looseEq, .looseNe, .lt, .le, .shiftLeft, .shiftRight, .shiftRightSigned,
  .add, .addNumbers, .subtract, .multiply, .divide, .remainder, .bitOr, .bitXor, .bitAnd, .isIn,
  .instanceOf, .delete, .negate, .logicalNot, .bitNot, .typeOf, .toNumber, .toText, .toObject,
  .ifTrue, .ifStrictEq, .ifStrictNe, .ifLooseEq, .ifLooseNe, .ifLt, .ifLe]

def code : Opcode → Nat
  | strictEq => 0
  | strictNe => 1
  | looseEq => 2
  | looseNe => 3
  | lt => 4
  | le => 5
  | shiftLeft => 6
  | shiftRight => 7
  | shiftRightSigned => 8
  | add => 9
  | addNumbers => 10
  | subtract => 11
  | multiply => 12
  | divide => 13
  | remainder => 14
  | bitOr => 15
  | bitXor => 16
  | bitAnd => 17
  | isIn => 18
  | instanceOf => 19
  | delete => 20
  | negate => 21
  | logicalNot => 22
  | bitNot => 23
  | typeOf => 24
  | toNumber => 25
  | toText => 26
  | toObject => 27
  | ifTrue => 31
  | ifStrictEq => 32
  | ifStrictNe => 33
  | ifLooseEq => 34
  | ifLooseNe => 35
  | ifLt => 36
  | ifLe => 37

def name : Opcode → String
  | strictEq => "StrictEq"
  | strictNe => "StrictNe"
  | looseEq => "LooseEq"
  | looseNe => "LooseNe"
  | lt => "Lt"
  | le => "Le"
  | shiftLeft => "ShlN"
  | shiftRight => "SrN"
  | shiftRightSigned => "AsrN"
  | add => "Add"
  | addNumbers => "AddN"
  | subtract => "SubN"
  | multiply => "MulN"
  | divide => "DivN"
  | remainder => "ModN"
  | bitOr => "OrN"
  | bitXor => "XorN"
  | bitAnd => "AndN"
  | isIn => "In"
  | instanceOf => "Instanceof"
  | delete => "Delete"
  | negate => "NegN"
  | logicalNot => "LogNot"
  | bitNot => "BinNotN"
  | typeOf => "Typeof"
  | toNumber => "ToNumber"
  | toText => "ToString"
  | toObject => "ToObject"
  | ifTrue => "IfTrue"
  | ifStrictEq => "IfStrictEq"
  | ifStrictNe => "IfStrictNe"
  | ifLooseEq => "IfLooseEq"
  | ifLooseNe => "IfLooseNe"
  | ifLt => "IfLt"
  | ifLe => "IfLe"

def mnemonic : Opcode → String
  | strictEq => "strict_eq"
  | strictNe => "strict_ne"
  | looseEq => "loose_eq"
  | looseNe => "loose_ne"
  | lt => "lt"
  | le => "le"
  | shiftLeft => "shl_n"
  | shiftRight => "sr_n"
  | shiftRightSigned => "asr_n"
  | add => "add"
  | addNumbers => "add_n"
  | subtract => "sub_n"
  | multiply => "mul_n"
  | divide => "div_n"
  | remainder => "mod_n"
  | bitOr => "or_n"
  | bitXor => "xor_n"
  | bitAnd => "and_n"
  | isIn => "in"
  | instanceOf => "instanceof"
  | delete => "delete"
  | negate => "neg_n"
  | logicalNot => "log_not"
  | bitNot => "bin_not_n"
  | typeOf => "typeof"
  | toNumber => "to_number"
  | toText => "to_string"
  | toObject => "to_object"
  | ifTrue => "if_true"
  | ifStrictEq => "if_strict_eq"
  | ifStrictNe => "if_strict_ne"
  | ifLooseEq => "if_loose_eq"
  | ifLooseNe => "if_loose_ne"
  | ifLt => "if_lt"
  | ifLe => "if_le"

def ofCode? (code : Nat) : Option Opcode :=
  all.find? fun op => op.code = code

def ofMnemonic? (mnemonic : String) : Option Opcode :=
  all.find? fun op => op.mnemonic = mnemonic

variable (op : Opcode)

def isBinary : Bool :=
  op.code ≤ delete.code

def isUnary : Bool :=
  negate.code ≤ op.code && op.code ≤ toObject.code

def isBranch : Bool :=
  ifTrue.code ≤ op.code && op.code ≤ ifLe.code

def isRelational : Bool :=
  op.code ≤ le.code

def isRelationalBranch : Bool :=
  op.isBranch && op != ifTrue

def isCommutative : Opcode → Bool
  | strictEq | strictNe | looseEq | looseNe => true
  | addNumbers | multiply | bitOr | bitXor | bitAnd => true
  | _ => false

def branch? : Opcode → Option Opcode
  | strictEq => some ifStrictEq
  | strictNe => some ifStrictNe
  | looseEq => some ifLooseEq
  | looseNe => some ifLooseNe
  | lt => some ifLt
  | le => some ifLe
  | _ => none

def comparison? : Opcode → Option Opcode
  | ifStrictEq => some strictEq
  | ifStrictNe => some strictNe
  | ifLooseEq => some looseEq
  | ifLooseNe => some looseNe
  | ifLt => some lt
  | ifLe => some le
  | _ => none

end Opcode
end Scriptc
