import OrmDdl.Toml.Value
/-!
# Documents

A document is a list of statements, one a line: a header opens a table, and a key gives a value in
the table opened last.
-/

namespace OrmDdl.Toml

/-- One statement of a document. The path leads from the root, or for a key from the open table. -/
inductive Statement where
  | pair (path : List String) (name : String) (item : Item)
  | table (path : List String) (name : String)
  | element (path : List String) (name : String)

namespace Reader

/-- A header, whose bracket comes next. -/
def header : Reader Statement := do
  exactly '['
  if (← next?) = some '[' then
    exactly '['
    let (path, name) ← key
    word [']', ']']
    return .element path name
  else
    let (path, name) ← key
    exactly ']'
    return .table path name

/-- All statements of a text. -/
def statements : Reader (List Statement) := do
  let _ ← optional (exactly '\ufeff')
  repeated (fun read => do
    blanks
    match ← next? with
    | none => return .inr read.reverse
    | some '#' | some '\n' | some '\r' => lineEnd; return .inl read
    | some '[' =>
      let statement ← header
      lineEnd
      return .inl (statement :: read)
    | some _ =>
      let (path, name, item) ← pair (value (limit - 1))
      lineEnd
      return .inl (.pair path name item :: read)) []

end Reader

/-- The tables so far, and the path of the one that is open. -/
structure Draft where
  root : Table := []
  openPath : List String := []

/-- The tables after one more statement. -/
def Draft.add (d : Draft) : Statement → Option Draft
  | .pair path name item => do
    return { d with root := ← d.root.within (·.addDotted name item path) d.openPath }
  | .table path name => do
    return ⟨← d.root.within (·.openTable name) path, path ++ [name]⟩
  | .element path name => do
    return ⟨← d.root.within (·.openElement name) path, path ++ [name]⟩

/-- The root table of a document, if its text is well formed. -/
def parse (text : String) : Option Table := do
  let (statements, _) ← Reader.statements text.toList
  let d ← statements.foldlM Draft.add {}
  return d.root

end OrmDdl.Toml
