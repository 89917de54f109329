import OrmDdl.Mysql.Translator
/-!
# Registry of drivers

Which dialect a driver name stands for. Names are kept in ascending order.
-/

namespace OrmDdl

/-- The dialects that statements can be written in. -/
inductive Dialect where
  | mysql
deriving DecidableEq

def Dialect.name : Dialect → String
  | mysql => "mysql"

/-- A dialect with its switches. -/
structure Translator where
  dialect : Dialect
  switches : Switches
deriving DecidableEq

namespace Translator

def convert (t : Translator) (models : List Model) : Except SchemaError (List String) :=
  match t.dialect with
  | .mysql => Mysql.convert t.switches models

def dropTables (t : Translator) (models : List Model) : List String :=
  match t.dialect with
  | .mysql => Mysql.dropTables models

end Translator

/-- Dialects by driver name, in ascending order of names. -/
structure Registry where
  entries : List (String × Dialect)
deriving DecidableEq

namespace Registry

instance : EmptyCollection Registry := ⟨⟨[]⟩⟩

def put (driver : String) (dialect : Dialect) : List (String × Dialect) → List (String × Dialect)
  | [] => [(driver, dialect)]
  | (k, d) :: r =>
    if driver < k then (driver, dialect) :: (k, d) :: r
    else if driver = k then (driver, dialect) :: r
    else (k, d) :: put driver dialect r

/-- The registry with a driver, over an earlier one of that name. -/
def register (r : Registry) (driver : String) (dialect : Dialect) : Registry :=
  ⟨put driver dialect r.entries⟩

/-- The drivers that come with the program: the name of the dialect and the class name that model
layers use for it. -/
def standard : Registry :=
  ((∅ : Registry).register "mysql" .mysql).register "MySQLDriver" .mysql

def drivers (r : Registry) : List String := r.entries.map Prod.fst

def contains (r : Registry) (driver : String) : Bool := (r.entries.lookup driver).isSome

/-- The dialect of a driver. -/
def get (r : Registry) (driver : String) : Except SchemaError Dialect :=
  match r.entries.lookup driver with
  | some dialect => .ok dialect
  | none => .error (.unknownDriver driver)

/-- The translator of a driver. -/
def translator (r : Registry) (driver : String) (switches : Switches) :
    Except SchemaError Translator := do
  return ⟨← r.get driver, switches⟩

end Registry

end OrmDdl
