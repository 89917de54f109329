import OrmDdl.Double.Basic
import OrmDdl.Named
/-!
# TOML values and tables

A document is a table of named values. How a table came to be says whether it may still grow: under
its own header, by a header or a dotted key that passes through it, or all at once inside braces.
-/

namespace OrmDdl.Toml

/-- How a table came to be. -/
inductive Origin where
  /-- By a header of its own. -/
  | header
  /-- On the way of a header to another table. -/
  | passed
  /-- On the way of a dotted key to its value. -/
  | dotted
  /-- Between braces. -/
  | inline
deriving DecidableEq

/-- A value in a document. -/
inductive Item where
  | string (s : String)
  | bool (b : Bool)
  | integer (n : Int)
  | double (x : Double)
  | dateTime (text : String)
  | array (items : List Item)
  | table (origin : Origin) (entries : List (String × Item))
  /-- Tables that share one header, of which every occurrence adds one. -/
  | tables (list : List (List (String × Item)))

/-- Named values. -/
abbrev Table := List (String × Item)

namespace Table

/-- The table with a new name. -/
def add (name : String) (item : Item) (t : Table) : Option Table :=
  if (t.lookup name).isSome then none else some (t ++ [(name, item)])

/-- Changes the last of some tables. -/
def changeLast (f : Table → Option Table) : List Table → Option (List Table)
  | [] => none
  | [t] => (f t).map ([·])
  | t :: r => (changeLast f r).map (t :: ·)

/-- Changes the table at the end of a header's path; tables on the way come to be. -/
def within (f : Table → Option Table) : List String → Table → Option Table
  | [], t => f t
  | name :: rest, t =>
    match t.lookup name with
    | none => do
      let inner ← within f rest []
      return t ++ [(name, .table .passed inner)]
    | some (.table origin inner) => do
      guard (origin ≠ .inline)
      return Named.put name (.table origin (← within f rest inner)) t
    | some (.tables list) => do
      return Named.put name (.tables (← changeLast (within f rest) list)) t
    | some _ => none

/-- The table with a value under a dotted key. The tables on its way are those of dotted keys; it
passes tables that headers have passed, but does not end in one. -/
def addDotted (name : String) (item : Item) : List String → Table → Option Table
  | [], t => t.add name item
  | step :: rest, t =>
    match t.lookup step with
    | none => do
      let inner ← addDotted name item rest []
      return t ++ [(step, .table .dotted inner)]
    | some (.table origin inner) => do
      guard (origin = .dotted ∨ origin = .passed ∧ rest ≠ [])
      return Named.put step (.table origin (← addDotted name item rest inner)) t
    | some (.tables list) => do
      guard (rest ≠ [])
      return Named.put step (.tables (← changeLast (addDotted name item rest) list)) t
    | some _ => none

/-- The table with an inner table under its own header. -/
def openTable (name : String) (t : Table) : Option Table :=
  match t.lookup name with
  | none => t.add name (.table .header [])
  | some (.table .passed inner) => some (Named.put name (.table .header inner) t)
  | some _ => none

/-- The table with one more inner table under a shared header. -/
def openElement (name : String) (t : Table) : Option Table :=
  match t.lookup name with
  | none => t.add name (.tables [[]])
  | some (.tables list) => some (Named.put name (.tables (list ++ [[]])) t)
  | some _ => none

end Table

end OrmDdl.Toml
