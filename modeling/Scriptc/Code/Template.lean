import Scriptc.Code.Instruction

/-!
# Templates of native code

A template is text in which `%[name]` refers to a binding and `%%` is a percent sign.
-/

namespace Scriptc

inductive TemplateError where
  /-- A percent sign is followed by neither a percent sign nor a bracket. -/
  | strayPercent
  | unterminated
  | undeclared (name : String)
deriving DecidableEq, Repr

namespace TemplateError

def message : TemplateError → String
  | strayPercent => "'%' must be followed by '%' or '['"
  | unterminated => "unterminated binding reference"
  | undeclared name => "undeclared binding '" ++ name ++ "'"

end TemplateError

namespace SplicePart

def flush (collected : List Char) (parts : List SplicePart) : List SplicePart :=
  if collected.isEmpty then parts else .text (String.ofList collected.reverse) :: parts

def readName : List Char → Option (List Char × List Char)
  | [] => none
  | ']' :: rest => some ([], rest)
  | c :: rest => (readName rest).map fun (name, rest) => (c :: name, rest)

/-- What follows a name is shorter than the text that starts with the name. -/
theorem length_of_readName {chars name rest : List Char}
    (named : readName chars = some (name, rest)) : rest.length < chars.length := by
  induction chars generalizing name with
  | nil => simp [readName] at named
  | cons c tail ih =>
    by_cases last : c = ']'
    · subst last
      simp [readName] at named
      simp [named.2]
    · simp only [readName] at named
      obtain ⟨⟨inner, after⟩, found, same⟩ := Option.map_eq_some_iff.1 named
      simp only [Prod.mk.injEq] at same
      have shorter := @ih inner (by rw [found, same.2])
      simp only [List.length_cons]
      omega

/-- The parts that `chars` stand for after the text `collected`, and the counters of references to
each binding, which were `uses` before. -/
def read (names : List String) (uses : List Nat) (collected : List Char) (chars : List Char) :
    Except TemplateError (List SplicePart × List Nat) :=
  match chars with
  | [] => .ok (flush collected [], uses)
  | '%' :: '%' :: rest => read names uses ('%' :: collected) rest
  | '%' :: '[' :: rest =>
    match _named : readName rest with
    | none => .error .unterminated
    | some (name, after) =>
      match names.idxOf? (String.ofList name) with
      | none => .error (.undeclared (String.ofList name))
      | some index => do
        let (parts, uses) ← read names (uses.modify index (· + 1)) [] after
        .ok (flush collected (.binding index :: parts), uses)
  | '%' :: _ => .error .strayPercent
  | c :: rest => read names uses (c :: collected) rest
termination_by chars.length
decreasing_by
  · simp only [List.length_cons]; omega
  · have := length_of_readName _named
    simp only [List.length_cons]; omega
  · simp only [List.length_cons]; omega

/-- The parts of a template, and how often each of the names is referred to. -/
def ofTemplate (names : List String) (template : String) :
    Except TemplateError (List SplicePart × List Nat) :=
  read names (List.replicate names.length 0) [] template.toList

def written (names : List String) : SplicePart → List Char
  | .text s => s.toList.flatMap fun c => if c = '%' then ['%', '%'] else [c]
  | .binding index => '%' :: '[' :: (names[index]?.getD "?").toList ++ [']']

def template (names : List String) (parts : List SplicePart) : String :=
  String.ofList (parts.flatMap (written names))

end SplicePart
end Scriptc
