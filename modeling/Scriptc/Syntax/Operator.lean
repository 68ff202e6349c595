/-!
# Operators and kinds

The words and signs of syntax, each with its spelling.
-/

namespace Scriptc

inductive BinaryOp where
  | looseEq
  | looseNe
  | strictEq
  | strictNe
  | lt
  | le
  | gt
  | ge
  | shiftLeft
  | shiftRightSigned
  | shiftRight
  | add
  | subtract
  | multiply
  | divide
  | remainder
  | power
  | bitOr
  | bitXor
  | bitAnd
  | isIn
  | instanceOf
deriving DecidableEq, Repr, Inhabited

namespace BinaryOp

def all : List BinaryOp := [
  .looseEq, .looseNe, .strictEq, .strictNe, .lt, .le, .gt, .ge, .shiftLeft, .shiftRightSigned,
  .shiftRight, .add, .subtract, .multiply, .divide, .remainder, .power, .bitOr, .bitXor, .bitAnd,
  .isIn, .instanceOf]

def spelling : BinaryOp → String
  | looseEq => "=="
  | looseNe => "!="
  | strictEq => "==="
  | strictNe => "!=="
  | lt => "<"
  | le => "<="
  | gt => ">"
  | ge => ">="
  | shiftLeft => "<<"
  | shiftRightSigned => ">>"
  | shiftRight => ">>>"
  | add => "+"
  | subtract => "-"
  | multiply => "*"
  | divide => "/"
  | remainder => "%"
  | power => "**"
  | bitOr => "|"
  | bitXor => "^"
  | bitAnd => "&"
  | isIn => "in"
  | instanceOf => "instanceof"

def ofSpelling? (s : String) : Option BinaryOp :=
  all.find? fun op => op.spelling = s

end BinaryOp

/-- An operator that may skip its second operand. -/
inductive LogicalOp where
  | and
  | or
  | nullish
deriving DecidableEq, Repr, Inhabited

namespace LogicalOp

def all : List LogicalOp := [.and, .or, .nullish]

def spelling : LogicalOp → String
  | and => "&&"
  | or => "||"
  | nullish => "??"

def ofSpelling? (s : String) : Option LogicalOp :=
  all.find? fun op => op.spelling = s

end LogicalOp

inductive AssignOp where
  | assign
  | add
  | subtract
  | multiply
  | divide
  | remainder
  | power
  | shiftLeft
  | shiftRightSigned
  | shiftRight
  | bitOr
  | bitXor
  | bitAnd
  | and
  | or
  | nullish
deriving DecidableEq, Repr, Inhabited

namespace AssignOp

def all : List AssignOp := [
  .assign, .add, .subtract, .multiply, .divide, .remainder, .power, .shiftLeft,
  .shiftRightSigned, .shiftRight, .bitOr, .bitXor, .bitAnd, .and, .or, .nullish]

def spelling : AssignOp → String
  | assign => "="
  | add => "+="
  | subtract => "-="
  | multiply => "*="
  | divide => "/="
  | remainder => "%="
  | power => "**="
  | shiftLeft => "<<="
  | shiftRightSigned => ">>="
  | shiftRight => ">>>="
  | bitOr => "|="
  | bitXor => "^="
  | bitAnd => "&="
  | and => "&&="
  | or => "||="
  | nullish => "??="

def ofSpelling? (s : String) : Option AssignOp :=
  all.find? fun op => op.spelling = s

def binary? : AssignOp → Option BinaryOp
  | add => some .add
  | subtract => some .subtract
  | multiply => some .multiply
  | divide => some .divide
  | remainder => some .remainder
  | power => some .power
  | shiftLeft => some .shiftLeft
  | shiftRightSigned => some .shiftRightSigned
  | shiftRight => some .shiftRight
  | bitOr => some .bitOr
  | bitXor => some .bitXor
  | bitAnd => some .bitAnd
  | assign | and | or | nullish => none

end AssignOp

inductive UnaryOp where
  | negate
  | plus
  | logicalNot
  | bitNot
  | typeOf
  | void
  | delete
deriving DecidableEq, Repr, Inhabited

namespace UnaryOp

def all : List UnaryOp := [.negate, .plus, .logicalNot, .bitNot, .typeOf, .void, .delete]

def spelling : UnaryOp → String
  | negate => "-"
  | plus => "+"
  | logicalNot => "!"
  | bitNot => "~"
  | typeOf => "typeof"
  | void => "void"
  | delete => "delete"

def ofSpelling? (s : String) : Option UnaryOp :=
  all.find? fun op => op.spelling = s

end UnaryOp

/-- An operator that counts its operand up or down. -/
inductive UpdateOp where
  | increment
  | decrement
deriving DecidableEq, Repr, Inhabited

namespace UpdateOp

def all : List UpdateOp := [.increment, .decrement]

def spelling : UpdateOp → String
  | increment => "++"
  | decrement => "--"

def ofSpelling? (s : String) : Option UpdateOp :=
  all.find? fun op => op.spelling = s

end UpdateOp

/-- The word that starts a variable declaration. -/
inductive VariableKind where
  | var
  | letWord
  | const
deriving DecidableEq, Repr, Inhabited

namespace VariableKind

def all : List VariableKind := [.var, .letWord, .const]

def spelling : VariableKind → String
  | var => "var"
  | letWord => "let"
  | const => "const"

def ofSpelling? (s : String) : Option VariableKind :=
  all.find? fun op => op.spelling = s

end VariableKind

/-- Whether a property of an object literal has a value or an accessor. -/
inductive PropertyKind where
  | init
  | get
  | set
deriving DecidableEq, Repr, Inhabited

namespace PropertyKind

def all : List PropertyKind := [.init, .get, .set]

def spelling : PropertyKind → String
  | init => "init"
  | get => "get"
  | set => "set"

end PropertyKind

end Scriptc
