import OrmDdl.Json.Print
import OrmDdl.Json.Record
/-!
# Switches of a translator

Three choices about the statements, fixed before translating.
-/

namespace OrmDdl

/-- How statements are written. -/
structure Switches where
  /-- A comment stands before every table. -/
  comments : Bool := false
  /-- Every table stands on one line. -/
  oneLine : Bool := false
  /-- Indexes follow from the relations. -/
  autoIndexes : Bool := false
deriving DecidableEq

namespace Switches

def toJson (s : Switches) : Json :=
  .object [("comments", .bool s.comments), ("one_line", .bool s.oneLine),
    ("auto_indexes", .bool s.autoIndexes)]

/-- The fields of switches while they are read. -/
structure Draft where
  comments : Option Bool := none
  oneLine : Option Bool := none
  autoIndexes : Option Bool := none

open Json Json.Reader in
/-- The form of switches; one that is not given is off. -/
def record : Record Draft Switches where
  title := "TranslatorConfig"
  slots :=
    [.of "comments" false (·.comments) (fun d x => { d with comments := some x })
      (fun _ => boolean) [],
     .of "one_line" false (·.oneLine) (fun d x => { d with oneLine := some x })
      (fun _ => boolean) [],
     .of "auto_indexes" false (·.autoIndexes) (fun d x => { d with autoIndexes := some x })
      (fun _ => boolean) []]
  empty := {}
  finish d := return {
    comments := d.comments.getD false
    oneLine := d.oneLine.getD false
    autoIndexes := d.autoIndexes.getD false }

def read : Nat → Json.Reader Switches := record.read

end Switches

end OrmDdl
