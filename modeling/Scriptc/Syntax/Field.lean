import Scriptc.Syntax.LoadError

/-!
# Fields of serialized nodes

Of several faults in an object the first one in the written order of the fields is reported. Only
when all fields that are present have loaded, the first one that is missing is reported, in the
order in which the node declares them. Fields that the node does not declare are ignored.
-/

namespace Scriptc

/-- The fields of a node as it declares them, with what the values of fields hold in `β`. -/
structure FieldReader (β α : Type) where
  /-- The names of the fields, and what is wrong with a value. -/
  declared : List (String × (β → Option LoadError))
  /-- The loaded node, or the first fault in declaration order. -/
  value : List (String × β) → Except LoadError α

namespace FieldReader

variable {α β : Type}

instance : Applicative (FieldReader β) where
  pure a := { declared := [], value := fun _ => .ok a }
  seq f a :=
    let a := a ()
    { declared := f.declared ++ a.declared,
      value := fun fields => do
        let f ← f.value fields
        let a ← a.value fields
        pure (f a) }

/-- A field with what stands for it where it is missing. -/
def field (name : String) (missing : Except LoadError α) (load : β → Except LoadError α) :
    FieldReader β α :=
  let fault (content : β) : Option LoadError :=
    match load content with
    | .error fault => some fault
    | .ok _ => none
  { declared := [(name, fault)],
    value := fun fields => ((fields.lookup name).map load).getD missing }

def optional (name : String) (default : α) : (β → Except LoadError α) → FieldReader β α :=
  field name (.ok default)

def required (name : String) : (β → Except LoadError α) → FieldReader β α :=
  field name (.error (.missingField name))

def firstFault (declared : List (String × (β → Option LoadError))) (seen : List String) :
    List (String × β) → Option LoadError
  | [] => none
  | (name, content) :: rest =>
    match declared.lookup name with
    | none => firstFault declared seen rest
    | some fault =>
      if seen.contains name then some (.duplicateField name)
      else fault content <|> firstFault declared (name :: seen) rest

def run (reader : FieldReader β α) (fields : List (String × β)) : Except LoadError α :=
  match firstFault reader.declared [] fields with
  | some fault => .error fault
  | none => reader.value fields

end FieldReader

namespace Load

def text : Json → Except LoadError String
  | .string s => .ok s
  | found => .error (.wrongType found "a string")

def flag : Json → Except LoadError Bool
  | .bool b => .ok b
  | found => .error (.wrongType found "a boolean")

def word (found : Json) : Except LoadError Nat :=
  match found with
  | .number (.integer n) =>
    if 0 ≤ n ∧ n < 0x100000000 then .ok n.toNat else .error (.wrongValue found "u32")
  | _ => .error (.wrongType found "u32")

def nullable {α : Type} (load : Json → Except LoadError α) : Json → Except LoadError (Option α)
  | .null => .ok none
  | found => some <$> load found

def keyword {α : Type} (all : List α) (spelling : α → String) (found : Json) :
    Except LoadError α :=
  let find (name : String) : Except LoadError α :=
    match all.find? fun a => spelling a = name with
    | some a => .ok a
    | none => .error (.unknownVariant name (all.map spelling))
  match found with
  | .string name => find name
  | .object [(name, content)] => do
    let a ← find name
    match content with
    | .null => .ok a
    | .object [] => .ok a
    | _ => .error (.wrongType content "unit")
  | .object _ => .error (.wrongValue found "map with a single key")
  | _ => .error (.wrongType found "string or map")

def tagged {α : Type} (forms : List (String × α)) (found : Json) : Except LoadError α :=
  match found with
  | .string name =>
    match forms.lookup name with
    | some form => .ok form
    | none => .error (.unknownVariant name (forms.map (·.1)))
  | .number (.integer (.ofNat index)) =>
    match forms[index]? with
    | some (_, form) => .ok form
    | none => .error (.wrongValue found ("variant index 0 <= i < " ++ toString forms.length))
  | _ => .error (.wrongType found "variant identifier")

end Load
end Scriptc
