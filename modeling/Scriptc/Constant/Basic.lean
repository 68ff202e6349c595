import Scriptc.Double.Notation
import Scriptc.Text.Quoted

/-!
# Constants

The primitive values that are known when a program is compiled.
-/

namespace Scriptc

/-- A value known at compile time. Equality of numbers is the numeric one: zeros of both signs are
equal, and not-a-number differs from itself. -/
inductive Constant where
  | undefined
  | null
  | boolean (b : Bool)
  | number (x : Float)
  | text (s : String)
deriving BEq, Repr, Inhabited

namespace Constant

def display : Constant → String
  | undefined => "undefined"
  | null => "null"
  | boolean b => toString b
  | number x => Double.scriptText x
  | text s => Text.quoted s

def faultText : Constant → String
  | undefined => "Undefined"
  | null => "Null"
  | boolean b => "Bool(" ++ toString b ++ ")"
  | number x => "Num(" ++ Double.faultText x ++ ")"
  | text s => "Str(" ++ Text.quoted s ++ ")"

end Constant
end Scriptc
