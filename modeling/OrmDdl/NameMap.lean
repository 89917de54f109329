import OrmDdl.Json.Print
import OrmDdl.Json.Record
import OrmDdl.Named
/-!
# Maps that keep the order of their names

A name has one value and keeps the place at which it first came; a later value replaces the
earlier one in place. Columns follow this order.
-/

namespace OrmDdl

/-- Values by name, in the order in which the names first came. -/
structure NameMap (α : Type) where
  entries : List (String × α)
  nodup : (entries.map Prod.fst).Nodup := by simp

namespace NameMap

variable {α β : Type}

instance : EmptyCollection (NameMap α) := ⟨{ entries := [] }⟩

def names (m : NameMap α) : List String := m.entries.map Prod.fst

def isEmpty (m : NameMap α) : Bool := m.entries.isEmpty

/-- The value of a name. -/
def get? (m : NameMap α) (name : String) : Option α := m.entries.lookup name

/-- The map with a value at a name. -/
def insert (m : NameMap α) (name : String) (value : α) : NameMap α :=
  ⟨Named.put name value m.entries, Named.nodup_map_fst_put name value m.nodup⟩

/-- The map with a value at a name, and the value that was there. -/
def replace (m : NameMap α) (name : String) (value : α) : Option α × NameMap α :=
  (m.get? name, m.insert name value)

/-- The map of a list of members; of several values of a name the last. -/
def ofList (l : List (String × α)) : NameMap α :=
  l.foldl (fun m p => m.insert p.1 p.2) ∅

/-- Equality of maps, with the equality of values given. -/
def sameBy (same : α → α → Bool) (m n : NameMap α) : Bool :=
  m.entries.length == n.entries.length &&
    (m.entries.zip n.entries).all fun (a, b) => a.1 == b.1 && same a.2 b.2

/-- The object with these members in order. -/
def toJson (f : α → Json) (m : NameMap α) : Json := .object (m.entries.map fun p => (p.1, f p.2))

/-- Reads an object of any names. -/
def read (value : Nat → Json.Reader α) (depth : Nat) : Json.Reader (NameMap α) :=
  ofList <$> Json.Reader.named value depth

@[simp] theorem names_empty : (∅ : NameMap α).names = [] := rfl

/-- Inserting keeps the order of the names and appends a new one. -/
theorem names_insert (m : NameMap α) (name : String) (value : α) :
    (m.insert name value).names = if name ∈ m.names then m.names else m.names ++ [name] :=
  Named.map_fst_put name value m.entries

end NameMap

end OrmDdl
