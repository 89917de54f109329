import OrmDdl.NameMap
import OrmDdl.Model.FieldRule
import OrmDdl.Model.Relation
/-!
# Models

One entity type: its table, the name of its primary key, its fields and its relations.
-/

namespace OrmDdl

/-- An entity type. -/
structure Model where
  name : String
  table : String
  /-- The name of the primary key. -/
  idKey : String := "id"
  fields : NameMap FieldRule := ∅
  relations : NameMap Relation := ∅

namespace Model

def withField (m : Model) (name : String) (rule : FieldRule) : Model :=
  { m with fields := m.fields.insert name rule }

def withRelation (m : Model) (name : String) (relation : Relation) : Model :=
  { m with relations := m.relations.insert name relation }

/-- Whether the field is the primary key. -/
def isIdKey (m : Model) (field : String) : Bool := m.idKey == field

/-- The name of the first field without types. -/
def firstUntyped? (m : Model) : Option String :=
  (m.fields.entries.find? (·.2.types.isEmpty)).map Prod.fst

/-- A model needs a field, and every field a type. -/
def validate (m : Model) : Except SchemaError Unit :=
  if m.fields.isEmpty then .error (.emptyModel m.name)
  else match m.firstUntyped? with
    | some field => .error (.malformedField m.name field .noTypes)
    | none => .ok ()

/-- Equality of models, numbers compared as numbers. -/
def same (m n : Model) : Bool :=
  m.name == n.name && m.table == n.table && m.idKey == n.idKey
    && m.fields.sameBy FieldRule.same n.fields && m.relations.sameBy (· == ·) n.relations

def toJson (m : Model) : Json :=
  .object [("name", .string m.name), ("table", .string m.table), ("id_key", .string m.idKey),
    ("validation_rules", m.fields.toJson FieldRule.toJson),
    ("available_relations", m.relations.toJson Relation.toJson)]

/-- The fields of a model while it is read. -/
structure Draft where
  name : Option String := none
  table : Option String := none
  idKey : Option String := none
  fields : Option (NameMap FieldRule) := none
  relations : Option (NameMap Relation) := none

open Json Json.Reader in
/-- The form of a model. -/
def record : Record Draft Model where
  title := "ModelDescriptor"
  slots :=
    [.of "name" true (·.name) (fun d x => { d with name := some x }) (fun _ => text) [],
     .of "table" true (·.table) (fun d x => { d with table := some x }) (fun _ => text) [],
     .of "id_key" false (·.idKey) (fun d x => { d with idKey := some x }) (fun _ => text) [],
     .of "validation_rules" true (·.fields) (fun d x => { d with fields := some x })
      (NameMap.read FieldRule.read) [],
     .of "available_relations" false (·.relations) (fun d x => { d with relations := some x })
      (NameMap.read Relation.read) []]
  empty := {}
  finish d := return {
    name := ← required "name" d.name
    table := ← required "table" d.table
    idKey := d.idKey.getD "id"
    fields := ← required "validation_rules" d.fields
    relations := d.relations.getD ∅ }

def read : Nat → Json.Reader Model := record.read

end Model

end OrmDdl
