import OrmDdl.Mysql.ColumnType
/-!
# Column definitions

A column is its name, its type, and clauses that follow from the rule of its field and from
whether it is the primary key.
-/

namespace OrmDdl.Mysql

/-- The number of a literal in full. -/
def numberText : Json.Number → String
  | .natural n _ => toString n
  | .negative m _ => "-" ++ toString m
  | .double x => numberLayout.text x

mutual

/-- A value as plain text: the elements of a list are joined by commas, an object is its JSON. -/
def literalText : Json → String
  | .null => ""
  | .bool b => if b then "true" else "false"
  | .number n => numberText n
  | .string s => s
  | .array items => ",".intercalate (literalTexts items)
  | .object members => (Json.object members).compact

def literalTexts : List Json → List String
  | [] => []
  | j :: r => literalText j :: literalTexts r

end

/-- Whether a value counts as true. -/
def isTruthy : Json → Bool
  | .null => false
  | .bool b => b
  | .number n => !n.toDouble.same .zero && n.toDouble != .nan
  | .string s => s ≠ ""
  | .array _ | .object _ => true

/-- How one character stands between single quotes. -/
def quotedChar (c : Char) : List Char := if c = '\'' then ['\'', '\''] else [c]

/-- Text between single quotes, a single quote written twice. -/
def quoteLiteral (s : String) : String :=
  String.ofList ('\'' :: (s.toList.flatMap quotedChar ++ ['\'']))

/-- The default of a column. -/
inductive DefaultClause where
  | null
  | flag (on : Bool)
  | text (value : String)
deriving DecidableEq

def DefaultClause.sql : DefaultClause → String
  | null => "DEFAULT NULL"
  | flag on => "DEFAULT " ++ (if on then "1" else "0")
  | text value => "DEFAULT " ++ quoteLiteral value

/-- A column definition by its parts. -/
structure Column where
  name : String
  type : ColumnType
  notNull : Bool
  defaultClause : Option DefaultClause
  autoIncrement : Bool
deriving DecidableEq

namespace Column

/-- The default of a column of this type. A boolean column takes any value, by its truth. -/
def defaultOf (type : ColumnType) (rule : FieldRule) :
    Except FieldDefect (Option DefaultClause) :=
  match rule.defaultValue with
  | none => .ok (if rule.IsNullable then some .null else none)
  | some ⟨value, _⟩ =>
    if type = .boolean then .ok (some (.flag (isTruthy value)))
    else match value with
      | .null => if rule.IsNullable then .ok (some .null) else .error .nullDefault
      | value => .ok (some (.text (literalText value)))

/-- The column of a field, or the first of its defects: no type, then a negative minimum of a
primary key, then a default of `null` that the column does not accept. -/
def ofRule (isIdKey : Bool) (name : String) (rule : FieldRule) : Except FieldDefect Column :=
  match ColumnType.ofRule? rule with
  | none => .error (.noColumnType rule.types)
  | some type =>
    if isIdKey && rule.hasNegativeMin then .error .negativeKeyMinimum
    else match defaultOf type rule with
      | .error defect => .error defect
      | .ok defaultClause => .ok {
          name, type, defaultClause
          notNull := !decide rule.IsNullable
          autoIncrement := isIdKey }

/-- The column of a field of a model. -/
def ofField (model : Model) (name : String) (rule : FieldRule) : Except SchemaError Column :=
  (ofRule (model.isIdKey name) name rule).mapError (.malformedField model.name name ·)

/-- The clauses of a column in their order. -/
def clauses (c : Column) : List String :=
  [c.name, c.type.sql] ++ (if c.notNull then ["NOT NULL"] else [])
    ++ (c.defaultClause.map DefaultClause.sql).toList
    ++ (if c.autoIncrement then ["AUTO_INCREMENT"] else [])

def sql (c : Column) : String := " ".intercalate c.clauses

end Column

end OrmDdl.Mysql
