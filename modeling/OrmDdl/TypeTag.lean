import OrmDdl.Json.Print
import OrmDdl.Json.Record
/-!
# Type tags

The logical types that a field may be declared with, and the list of tags of one field.
-/

namespace OrmDdl

/-- A logical type of values. -/
inductive TypeTag where
  | boolean
  | integer
  | string
  | number
  | array
  | object
  | null
deriving DecidableEq

namespace TypeTag

def name : TypeTag → String
  | boolean => "boolean"
  | integer => "integer"
  | string => "string"
  | number => "number"
  | array => "array"
  | object => "object"
  | null => "null"

/-- Every tag, in the order in which messages list them. -/
def all : List TypeTag := [boolean, integer, string, number, array, object, null]

/-- The tag of this name. -/
def ofName? (name : String) : Option TypeTag := all.find? (·.name == name)

theorem mem_all (t : TypeTag) : t ∈ all := by cases t <;> decide

theorem ofName?_name (t : TypeTag) : ofName? t.name = some t := by cases t <;> decide

/-- The tag of a name that stands in a JSON text. -/
def decode (name : String) : Except Json.Cause TypeTag :=
  match ofName? name with
  | some t => .ok t
  | none => .error (.unknownVariant name (all.map TypeTag.name))

def read : Nat → Json.Reader TypeTag := Json.Reader.variant decode

def toJson (t : TypeTag) : Json := .string t.name

end TypeTag

/-- The tags of a field, in the order in which they are declared. -/
structure TypeSet where
  tags : List TypeTag
deriving DecidableEq

namespace TypeSet

def single (t : TypeTag) : TypeSet := ⟨[t]⟩

instance : Membership TypeTag TypeSet := ⟨fun s t => t ∈ s.tags⟩

instance (t : TypeTag) (s : TypeSet) : Decidable (t ∈ s) := inferInstanceAs (Decidable (t ∈ s.tags))

theorem mem_iff {t : TypeTag} {s : TypeSet} : t ∈ s ↔ t ∈ s.tags := Iff.rfl

def isEmpty (s : TypeSet) : Bool := s.tags.isEmpty

/-- Whether `null` is among the tags. -/
def IsNullable (s : TypeSet) : Prop := .null ∈ s

instance (s : TypeSet) : Decidable s.IsNullable := inferInstanceAs (Decidable (_ ∈ s))

/-- The tags with `null` among them, at the end if it was not. -/
def nullable (s : TypeSet) : TypeSet := if s.IsNullable then s else ⟨s.tags ++ [.null]⟩

theorem isNullable_nullable (s : TypeSet) : s.nullable.IsNullable := by
  unfold nullable
  split
  · assumption
  · simp [IsNullable, mem_iff]

theorem nullable_nullable (s : TypeSet) : s.nullable.nullable = s.nullable :=
  if_pos s.isNullable_nullable

/-- The tags in brackets, for messages. -/
def text (s : TypeSet) : String := "[" ++ ", ".intercalate (s.tags.map TypeTag.name) ++ "]"

/-- One tag stands as a string, any other number of tags as a list. -/
def toJson (s : TypeSet) : Json :=
  match s.tags with
  | [t] => t.toJson
  | tags => .array (tags.map TypeTag.toJson)

/-- Reads one tag or a list of tags. -/
def read (depth : Nat) : Json.Reader TypeSet := do
  let expected := "a type tag or a list of type tags"
  match ← Json.Reader.start with
  | '"' => return single (← Json.Reader.decoded TypeTag.decode)
  | '[' =>
    Json.Reader.deeper depth fun depth =>
      return ⟨← Json.Reader.inList (Json.Reader.elements (TypeTag.read depth))⟩
  | '\x7b' =>
    Json.Reader.deeper depth fun _ =>
      Json.Reader.inObject (Json.Reader.failOpen (.invalidType .map expected))
  | _ => Json.Reader.mismatch expected

end TypeSet

end OrmDdl
