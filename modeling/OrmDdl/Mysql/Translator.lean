import OrmDdl.Mysql.Table
import OrmDdl.Mysql.Index
/-!
# Translating models

All statements of a batch of models: the tables in order, then the indexes of all of them. The
first malformed model ends the batch.
-/

namespace OrmDdl.Mysql

/-- The index targets found before, with those of a model if indexes are asked for. -/
def addIndexes (switches : Switches) (model : Model) (indexes : IndexSet) :
    Except SchemaError IndexSet :=
  if switches.autoIndexes then
    match collectIndexes model indexes with
    | (some e, _) => .error e
    | (none, indexes) => .ok indexes
  else .ok indexes

/-- The tables of models, and the index targets with those found before. -/
def convertFrom (switches : Switches) :
    List Model → IndexSet → Except SchemaError (List String × IndexSet)
  | [], indexes => .ok ([], indexes)
  | model :: r, indexes => do
    let table ← createTable switches model
    let indexes ← addIndexes switches model indexes
    let rest ← convertFrom switches r indexes
    return (table :: rest.1, rest.2)

/-- The statements that make the tables of models and their indexes. -/
def convert (switches : Switches) (models : List Model) : Except SchemaError (List String) := do
  let converted ← convertFrom switches models ∅
  return converted.1 ++ converted.2.sql

/-- The statements that remove the tables of models. -/
def dropTables (models : List Model) : List String := models.map dropTable

end OrmDdl.Mysql
