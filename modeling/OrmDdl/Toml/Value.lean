import OrmDdl.Toml.Scalar
import OrmDdl.Toml.Quoted
/-!
# Values

Reading a value of any kind. Arrays may spread over lines and end with a comma; a table between
braces stays on its line and does not.
-/

namespace OrmDdl.Toml.Reader

/-- The elements of an array up to its bracket. -/
def elements (value : Reader Item) : Reader (List Item) :=
  repeated (fun read => do
    gap
    if (← next?) = some ']' then
      exactly ']'
      return .inr read.reverse
    else
      let item ← value
      gap
      match ← any with
      | ',' => return .inl (item :: read)
      | ']' => return .inr (item :: read).reverse
      | _ => failure) []

/-- A key and its value. -/
def pair (value : Reader Item) : Reader (List String × String × Item) := do
  let (path, name) ← key
  exactly '='
  blanks
  return (path, name, ← value)

/-- The entries of a table up to its brace. -/
def inlineEntries (value : Reader Item) : Reader Table := do
  blanks
  if (← next?) = some '\x7d' then
    exactly '\x7d'
    return []
  else
    repeated (fun t => do
      let (path, name, item) ← pair value
      let t ← t.addDotted name item path
      blanks
      match ← any with
      | ',' => return .inl t
      | '\x7d' => return .inr t
      | _ => failure) []

/-- Reads a value in which so many brackets may be opened. -/
def value (depth : Nat) : Reader Item := do
  match ← next? with
  | none => failure
  | some c =>
    if c = '"' ∨ c = '\'' then return .string (← string c)
    else if c = '[' then
      match depth with
      | 0 => failure
      | depth + 1 =>
        exactly '['
        return .array (← elements (value depth))
    else if c = '\x7b' then
      match depth with
      | 0 => failure
      | depth + 1 =>
        exactly '\x7b'
        return .table .inline (← inlineEntries (value depth))
    else if c = 't' then word "true".toList; return .bool true
    else if c = 'f' then word "false".toList; return .bool false
    else numeric

end OrmDdl.Toml.Reader
