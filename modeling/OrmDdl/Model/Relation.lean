import OrmDdl.Json.Print
import OrmDdl.Json.Record
/-!
# Relations

How the keys of two models are linked.
-/

namespace OrmDdl

/-- A model by its name and table. -/
structure ModelRef where
  name : String
  table : String
deriving DecidableEq

/-- How the two sides of a relation are linked. -/
inductive RelationMode where
  /-- The key of the parent `b` is held by `a`. -/
  | parent
  /-- One `b` holds the key of `a`. -/
  | child
  /-- Many `b` hold the key of `a`. -/
  | children
  /-- A junction model links the two. -/
  | through
deriving DecidableEq

/-- A link between two models. -/
structure Relation where
  mode : RelationMode
  a : ModelRef
  b : ModelRef
  aKey : String
  bKey : String
  /-- The junction model. -/
  via : Option ModelRef := none
  /-- The key of `a` in the junction model. -/
  viaAKey : Option String := none
deriving DecidableEq

namespace RelationMode

def name : RelationMode → String
  | parent => "parent"
  | child => "child"
  | children => "children"
  | through => "through"

/-- The mode of a name; every name that is no other mode's means a junction. -/
def ofName (name : String) : RelationMode :=
  if name = "parent" then parent
  else if name = "child" then child
  else if name = "children" then children
  else through

theorem ofName_name (m : RelationMode) : ofName m.name = m := by cases m <;> decide

def read : Nat → Json.Reader RelationMode := Json.Reader.variant fun name => .ok (ofName name)

def toJson (m : RelationMode) : Json := .string m.name

end RelationMode

namespace ModelRef

def toJson (m : ModelRef) : Json := .object [("name", .string m.name), ("table", .string m.table)]

/-- The fields of a reference while it is read. -/
structure Draft where
  name : Option String := none
  table : Option String := none

open Json Json.Reader in
/-- The form of a reference. -/
def record : Record Draft ModelRef where
  title := "ModelRef"
  slots :=
    [.of "name" true (·.name) (fun d x => { d with name := some x }) (fun _ => text) [],
     .of "table" true (·.table) (fun d x => { d with table := some x }) (fun _ => text) []]
  empty := {}
  finish d := return { name := ← required "name" d.name, table := ← required "table" d.table }

def read : Nat → Json.Reader ModelRef := record.read

end ModelRef

namespace Relation

/-- The members of a relation; what belongs to a junction is left out if it is not given. -/
def toJson (r : Relation) : Json :=
  .object <|
    [("mode", r.mode.toJson), ("a", r.a.toJson), ("b", r.b.toJson), ("a_key", .string r.aKey),
      ("b_key", .string r.bKey)]
      ++ (r.via.map fun m => ("class_via", m.toJson)).toList
      ++ (r.viaAKey.map fun k => ("via_a_key", .string k)).toList

/-- The fields of a relation while it is read. -/
structure Draft where
  mode : Option RelationMode := none
  a : Option ModelRef := none
  b : Option ModelRef := none
  aKey : Option String := none
  bKey : Option String := none
  via : Option (Option ModelRef) := none
  viaAKey : Option (Option String) := none

open Json Json.Reader in
/-- The form of a relation. A key may also be given as one selected by the mode. -/
def record : Record Draft Relation where
  title := "RelationDescriptor"
  slots :=
    [.of "mode" true (·.mode) (fun d x => { d with mode := some x }) RelationMode.read [],
     .of "a" true (·.a) (fun d x => { d with a := some x }) ModelRef.read [],
     .of "b" true (·.b) (fun d x => { d with b := some x }) ModelRef.read [],
     .of "a_key" true (·.aKey) (fun d x => { d with aKey := some x }) (fun _ => text)
      ["_a_key_by_mode"],
     .of "b_key" true (·.bKey) (fun d x => { d with bKey := some x }) (fun _ => text)
      ["_b_key_by_mode"],
     .of "class_via" false (·.via) (fun d x => { d with via := some x })
      (fun depth => optional (ModelRef.read depth)) [],
     .of "via_a_key" false (·.viaAKey) (fun d x => { d with viaAKey := some x })
      (fun _ => optional text) []]
  empty := {}
  finish d := return {
    mode := ← required "mode" d.mode
    a := ← required "a" d.a
    b := ← required "b" d.b
    aKey := ← required "a_key" d.aKey
    bKey := ← required "b_key" d.bKey
    via := d.via.join
    viaAKey := d.viaAKey.join }

def read : Nat → Json.Reader Relation := record.read

end Relation

end OrmDdl
