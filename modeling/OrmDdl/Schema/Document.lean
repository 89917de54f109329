import OrmDdl.Model.Basic
import OrmDdl.Text.Blank
/-!
# Schema documents

A list of models with the version of its form. A text holds either the object of version and
models or the bare list of models, which is of the version supported here.
-/

namespace OrmDdl

/-- Models in the order in which they are compiled. -/
structure SchemaDocument where
  version : Nat
  models : List Model

namespace SchemaDocument

/-- The version of the form that is written and read. -/
def supported : Nat := 1

def ofModels (models : List Model) : SchemaDocument := ⟨supported, models⟩

def toJson (d : SchemaDocument) : Json :=
  .object [("schema_version", .ofNat d.version), ("models", .array (d.models.map Model.toJson))]

/-- The text in which a document is kept. -/
def text (d : SchemaDocument) : String := d.toJson.spread

/-- The fields of a document while it is read. -/
structure Draft where
  version : Option Nat := none
  models : Option (List Model) := none

open Json Json.Reader in
/-- The form of a document. -/
def record : Record Draft SchemaDocument where
  title := "SchemaFile"
  slots :=
    [.of "schema_version" false (·.version) (fun d x => { d with version := some x })
      (fun _ => natural32) [],
     .of "models" true (·.models) (fun d x => { d with models := some x }) (list Model.read) []]
  empty := {}
  finish d := return {
    version := d.version.getD supported
    models := ← required "models" d.models }

def read : Nat → Json.Reader SchemaDocument := record.read

/-- Whether a text holds a bare list, by its first character that is not blank. -/
def isBareList (text : String) : Bool := (Text.trimStart text.toList).head? == some '['

/-- The document of a text, of whatever version. -/
def decode (text : String) : Except Json.Error SchemaDocument :=
  if isBareList text then ofModels <$> (Json.Reader.list Model.read Json.Reader.maxDepth).run text
  else (read Json.Reader.maxDepth).run text

/-- The document of a text. A version beyond the supported one is refused. -/
def parse (text : String) : Except SchemaError SchemaDocument :=
  match decode text with
  | .error e => .error (.json e)
  | .ok d =>
    if supported < d.version then .error (.invalidFormat (.newerVersion d.version supported))
    else .ok d

/-- Equality of lists of models, numbers compared as numbers. -/
def sameModels (l r : List Model) : Bool :=
  l.length == r.length && (l.zip r).all fun (m, n) => m.same n

end SchemaDocument

end OrmDdl
