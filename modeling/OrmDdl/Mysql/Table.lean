import OrmDdl.Mysql.Column
import OrmDdl.Switches
/-!
# Table statements

The statement that makes a table, in one of two layouts, and the one that removes it.
-/

namespace OrmDdl.Mysql

/-- A table by its parts. -/
structure Table where
  name : String
  /-- The name of the model that the table is for. -/
  model : String
  columns : List Column
  /-- The column that is the primary key. -/
  key : String
deriving DecidableEq

namespace Table

/-- The columns of fields in order, or the defect of the first that has one. -/
def columnsOf (model : Model) : List (String × FieldRule) → Except SchemaError (List Column)
  | [] => .ok []
  | (name, rule) :: r => do
    let column ← Column.ofField model name rule
    return column :: (← columnsOf model r)

/-- The table of a model. All rules are validated before any column is made. -/
def ofModel (model : Model) : Except SchemaError Table := do
  model.validate
  return {
    name := model.table
    model := model.name
    columns := ← columnsOf model model.fields.entries
    key := model.idKey }

/-- What stands between the parentheses. -/
def items (t : Table) : List String := t.columns.map Column.sql ++ ["PRIMARY KEY (" ++ t.key ++ ")"]

def comment (t : Table) : String :=
  "# Create table \"" ++ t.name ++ "\" for model \"" ++ t.model ++ "\"\n\n"

/-- The statement that makes the table. -/
def sql (switches : Switches) (t : Table) : String :=
  let head := (if switches.comments then t.comment else "") ++ "CREATE TABLE " ++ t.name
  if switches.oneLine then head ++ " (" ++ ", ".intercalate t.items ++ ");"
  else head ++ " (\n\t" ++ ",\n\t".intercalate t.items ++ "\n);"

end Table

/-- The statement that makes the table of a model. -/
def createTable (switches : Switches) (model : Model) : Except SchemaError String :=
  (Table.sql switches) <$> Table.ofModel model

/-- The statement that removes the table of a model if it is there. -/
def dropTable (model : Model) : String := "DROP TABLE IF EXISTS " ++ model.table ++ ";"

end OrmDdl.Mysql
