import OrmDdl.TypeTag
/-!
# Errors of schemas

What is wrong with a schema, a driver or a file, as a cause, and the words for it.
-/

namespace OrmDdl

/-- What is wrong with the rule of a field. -/
inductive FieldDefect where
  | noTypes
  | noColumnType (types : TypeSet)
  | negativeKeyMinimum
  | nullDefault
  /-- A defect known by its description only. -/
  | described (message : String)
deriving DecidableEq

/-- What is wrong with a relation. -/
inductive RelationDefect where
  | noJunction
  | noJunctionKey
  | described (message : String)
deriving DecidableEq

/-- What is wrong with the form of a schema document. -/
inductive FormatDefect where
  | noTypes
  | newerVersion (version supported : Nat)
  | described (message : String)
deriving DecidableEq

/-- Why a schema is not compiled. -/
inductive SchemaError where
  | unknownDriver (driver : String)
  | malformedField (model field : String) (defect : FieldDefect)
  | malformedRelation (model relation : String) (defect : RelationDefect)
  | emptyModel (model : String)
  | io (message : String)
  | fileRead (path message : String)
  | json (error : Json.Error)
  | invalidFormat (defect : FormatDefect)
deriving DecidableEq

def FormatDefect.message : FormatDefect → String
  | noTypes => "field rule declares an empty type list"
  | newerVersion version supported =>
    "schema version " ++ toString version ++ " is newer than supported version "
      ++ toString supported
  | described message => message

/-- The text before the defect of a document's form. -/
def FormatDefect.heading : String := "Invalid schema file format: "

def FieldDefect.message : FieldDefect → String
  | noTypes => FormatDefect.heading ++ FormatDefect.noTypes.message
  | noColumnType types => "no column type for type list " ++ types.text
  | negativeKeyMinimum => "auto-increment primary key cannot declare a negative minimum"
  | nullDefault => "null default on a column that does not accept null"
  | described message => message

def RelationDefect.message : RelationDefect → String
  | noJunction => "junction model (class_via) is missing"
  | noJunctionKey => "junction key (via_a_key) is missing"
  | described message => message

namespace SchemaError

def message : SchemaError → String
  | unknownDriver driver => "Unknown driver: '" ++ driver ++ "'"
  | malformedField model field defect =>
    "Malformed field rule for '" ++ model ++ "." ++ field ++ "': " ++ defect.message
  | malformedRelation model relation defect =>
    "Malformed relation '" ++ relation ++ "' on model '" ++ model ++ "': " ++ defect.message
  | emptyModel model => "Model '" ++ model ++ "' declares no fields"
  | io message => "IO error: " ++ message
  | fileRead path message => "Failed to read file '" ++ path ++ "': " ++ message
  | json error => "JSON serialization error: " ++ error.message
  | invalidFormat defect => FormatDefect.heading ++ defect.message

/-- Whether the fault is in the models handed over. -/
def isInputError : SchemaError → Bool
  | malformedField .. | malformedRelation .. | emptyModel _ | invalidFormat _ => true
  | _ => false

/-- Whether the fault is in reading or writing files. -/
def isIo : SchemaError → Bool
  | io _ | fileRead .. => true
  | _ => false

end SchemaError

end OrmDdl
