import OrmDdl.Model.Basic
/-!
# Column types

The column type of a field rule. Of several tags the first in a fixed order decides: boolean,
integer, string, number, then array or object. Bounds pick the size.
-/

namespace OrmDdl.Mysql

/-- The classes of integer columns, smallest first. -/
inductive IntegerWidth where
  | tiny
  | small
  | int
  | big
deriving DecidableEq

namespace IntegerWidth

/-- The greatest value of a class, with or without a sign. -/
def limit (w : IntegerWidth) (unsigned : Bool) : Nat :=
  match w, unsigned with
  | tiny, true => 255
  | tiny, false => 127
  | small, true => 65535
  | small, false => 32767
  | int, true => 4294967295
  | int, false => 2147483647
  | big, true => 18446744073709551615
  | big, false => 9223372036854775807

/-- The class for values up to a bound. Without a bound, and for a bound that is no number, it is
the class of plain integers. -/
def ofMax (max : Option Double) (unsigned : Bool) : IntegerWidth :=
  match max with
  | none => int
  | some max =>
    if max ≤ .ofNat (tiny.limit unsigned) then tiny
    else if max ≤ .ofNat (small.limit unsigned) then small
    else if Double.ofNat (int.limit unsigned) < max then big
    else int

/-- The type with the number of digits that its values need. -/
def sql (w : IntegerWidth) (unsigned : Bool) : String :=
  match w, unsigned with
  | tiny, true => "TINYINT(3)"
  | tiny, false => "TINYINT(4)"
  | small, true => "SMALLINT(5)"
  | small, false => "SMALLINT(6)"
  | int, true => "INT(10)"
  | int, false => "INT(11)"
  | big, _ => "BIGINT(20)"

end IntegerWidth

/-- The type of a column. -/
inductive ColumnType where
  | boolean
  | integer (width : IntegerWidth) (unsigned : Bool)
  /-- A string without an upper bound. -/
  | text
  /-- A string of fixed length. -/
  | char (length : Double)
  /-- A string up to a length. -/
  | varchar (length : Double)
  | float
  /-- Arrays and objects. -/
  | json
deriving DecidableEq

/-- Numbers in statements are written in full, without a point where they are whole. -/
def numberLayout : Double.Layout where
  tie := .up
  plain := none
  pointZero := false
  nan := "NaN"
  infinity := "inf"
  negativeInfinity := "-inf"

namespace ColumnType

/-- The type of a string column. -/
def ofString (rule : FieldRule) : ColumnType :=
  match rule.max with
  | none => text
  | some max => if rule.isFixedLength then char max else varchar max

/-- The column type of a rule, none if no tag but `null` is there. -/
def ofRule? (rule : FieldRule) : Option ColumnType :=
  if .boolean ∈ rule.types then some boolean
  else if .integer ∈ rule.types then
    some (integer (.ofMax rule.max rule.isUnsigned) rule.isUnsigned)
  else if .string ∈ rule.types then some (ofString rule)
  else if .number ∈ rule.types then some float
  else if .array ∈ rule.types ∨ .object ∈ rule.types then some json
  else none

def sql : ColumnType → String
  | boolean => "TINYINT(1) UNSIGNED"
  | integer width unsigned => width.sql unsigned ++ (if unsigned then " UNSIGNED" else "")
  | text => "TEXT"
  | char length => "CHAR(" ++ numberLayout.text length ++ ")"
  | varchar length => "VARCHAR(" ++ numberLayout.text length ++ ")"
  | float => "FLOAT"
  | json => "JSON"

end ColumnType

end OrmDdl.Mysql
