import Scriptc.Double.Notation
import Scriptc.Json.Basic
import Scriptc.Text.Quoted

/-!
# Faults of serialized trees

Why a JSON value is not a syntax tree.
-/

namespace Scriptc

/-- Why a JSON value is not a syntax tree. -/
inductive LoadError where
  | missingField (name : String)
  | duplicateField (name : String)
  | unknownVariant (found : String) (known : List String)
  | wrongType (found : Json) (expected : String)
  | wrongValue (found : Json) (expected : String)
  | wrongLength (length : Nat) (expected : String)
  /-- A value that may have several forms has none of them. -/
  | noForm (category : String)

namespace Json

def describe : Json → String
  | null => "null"
  | bool b => "boolean `" ++ toString b ++ "`"
  | number (.integer n) => "integer `" ++ toString n ++ "`"
  | number (.float x) => "floating point `" ++ Double.dataText x ++ "`"
  | string s => "string " ++ Text.quoted s
  | array _ => "sequence"
  | object _ => "map"

end Json

namespace LoadError

def ticked (names : List String) : List String :=
  names.map fun name => "`" ++ name ++ "`"

def expectedVariants (known : List String) : String :=
  match ticked known with
  | [] => "there are no variants"
  | [only] => "expected " ++ only
  | [first, second] => "expected " ++ first ++ " or " ++ second
  | names => "expected one of " ++ String.intercalate ", " names

def message : LoadError → String
  | missingField name => "missing field `" ++ name ++ "`"
  | duplicateField name => "duplicate field `" ++ name ++ "`"
  | unknownVariant found known =>
    "unknown variant `" ++ found ++ "`, " ++ expectedVariants known
  | wrongType found expected => "invalid type: " ++ found.describe ++ ", expected " ++ expected
  | wrongValue found expected => "invalid value: " ++ found.describe ++ ", expected " ++ expected
  | wrongLength length expected =>
    "invalid length " ++ toString length ++ ", expected " ++ expected
  | noForm category => "data did not match any variant of untagged enum " ++ category

end LoadError
end Scriptc
