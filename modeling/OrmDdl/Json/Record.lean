import OrmDdl.Json.Value
/-!
# Reading values of a known form

Readers that expect text, a number, a list or a record, and name what they find instead. A record
is an object of named fields, or the list of its fields in their order.
-/

namespace OrmDdl.Json

def Number.found : Number → Found
  | natural n _ => .integer n
  | negative m _ => .integer (-m)
  | double x => .double x

namespace Reader

/-- What comes next. Scalars are read for it; a bracket is left in place. -/
def found : Reader Found := do
  match ← start with
  | 'n' => word "null"; return .null
  | 't' => word "true"; return .bool true
  | 'f' => word "false"; return .bool false
  | '"' => return .string (← string)
  | '[' => return .sequence
  | '\x7b' => return .map
  | c => if c = '-' ∨ c.isDigit then return (← number).found else failNext .expectedValue

/-- Refuses what comes next in favour of what was expected. -/
def mismatch {α : Type} (expected : String) : Reader α :=
  settled do failOpen (.invalidType (← found) expected)

def text : Reader String := do
  match ← start with
  | '"' => string
  | _ => mismatch "a string"

def boolean : Reader Bool := do
  match ← start with
  | 't' => word "true"; return true
  | 'f' => word "false"; return false
  | _ => mismatch "a boolean"

/-- Any number, as a double. -/
def double : Reader Double := do
  let c ← start
  if c = '-' ∨ c.isDigit then return (← number).toDouble else mismatch "f64"

/-- A natural number of 32 bits. -/
def natural32 : Reader Nat := do
  let c ← start
  if c = '-' ∨ c.isDigit then
    settled do
      match ← number with
      | .double x => failOpen (.invalidType (.double x) "u32")
      | .negative m h => failOpen (.invalidValue (Number.negative m h).found "u32")
      | .natural n _ =>
        if n < Nat.pow 2 32 then return n else failOpen (.invalidValue (.integer n) "u32")
  else mismatch "u32"

/-- A value, or `null` for nothing. -/
def optional {α : Type} (r : Reader α) : Reader (Option α) := do
  match ← start with
  | 'n' => word "null"; return none
  | _ => return some (← r)

def null : Reader Unit := do
  match ← start with
  | 'n' => word "null"
  | _ => mismatch "unit"

/-- A string that stands for a value, as `decode` says. -/
def decoded {α : Type} (decode : String → Except Cause α) : Reader α :=
  settled do
    match decode (← string) with
    | .ok a => return a
    | .error cause => failOpen cause

/-- One of several variants: its name, or an object that holds its name with `null`. -/
def variant {α : Type} (decode : String → Except Cause α) (depth : Nat) : Reader α := do
  match ← start with
  | '"' => decoded decode
  | '\x7b' =>
    deeper depth fun _ => do
      advance
      match ← next? with
      | some '"' =>
        let a ← decoded decode
        colon
        null
        match ← next? with
        | some '\x7d' => advance; return a
        | some _ => failHere .expectedValue
        | none => failHere .endInObject
      | some '\x7d' => failNext .expectedValue
      | some _ => failNext .keyNotString
      | none => failNext .endInObject
  | _ => failNext .expectedValue

/-- A list of values. -/
def list {α : Type} (element : Nat → Reader α) (depth : Nat) : Reader (List α) := do
  match ← start with
  | '[' => deeper depth fun depth => inList (elements (element depth))
  | _ => mismatch "a sequence"

/-- An object whose names are not fixed, as its members in order. -/
def named {α : Type} (value : Nat → Reader α) (depth : Nat) : Reader (List (String × α)) := do
  match ← start with
  | '\x7b' => deeper depth fun depth => inObject (members (value depth))
  | _ => mismatch "a map of names to values"

end Reader

/-! ### Records -/

/-- One field of a record. `δ` holds the fields read so far. -/
structure Slot (δ : Type) where
  name : String
  /-- Other names by which an object may give the field. -/
  others : List String
  required : Bool
  isRead : δ → Bool
  read : Nat → δ → Reader δ

/-- A field that is kept as an option until the record is complete. -/
def Slot.of {δ β : Type} (name : String) (required : Bool) (get : δ → Option β)
    (set : δ → β → δ) (read : Nat → Reader β) (others : List String) : Slot δ where
  name := name
  others := others
  required := required
  isRead d := (get d).isSome
  read depth d := return set d (← read depth)

/-- The form of a record: its fields in order, and what becomes of them. -/
structure Record (δ α : Type) where
  title : String
  slots : List (Slot δ)
  empty : δ
  /-- The record of the fields read, or the fault of one that is missing. -/
  finish : δ → Except Cause α

/-- The value of a field that must be there. -/
def required {β : Type} (name : String) : Option β → Except Cause β
  | some b => .ok b
  | none => .error (.missingField name)

namespace Record

variable {δ α : Type}

def slot? (r : Record δ α) (name : String) : Option (Slot δ) :=
  r.slots.find? fun slot => slot.name == name || slot.others.contains name

def complete (r : Record δ α) (d : δ) : Reader α :=
  match r.finish d with
  | .ok a => return a
  | .error cause => Reader.failOpen cause

/-- Takes the member of a name into the fields read so far. -/
def takeMember (r : Record δ α) (depth : Nat) (d : δ) (name : String) : Reader δ := do
  match r.slot? name with
  | some slot =>
    if slot.isRead d then Reader.failOpen (.duplicateField slot.name)
    else
      Reader.colon
      slot.read depth d
  | none =>
    Reader.colon
    Reader.passValue
    return d

/-- Takes one more member of an object, of which the first has no comma before it, or completes
the record. -/
def memberStep (r : Record δ α) (depth : Nat) (s : Bool × δ) :
    Reader (Reader.Step (Bool × δ) α) := do
  if ← Reader.nextMember s.1 then
    return .more (false, ← r.takeMember depth s.2 (← Reader.string))
  else return .done (← r.complete s.2)

/-- The fields as members of an object; members of other names are passed. -/
def ofMembers (r : Record δ α) (depth : Nat) : Reader α :=
  Reader.untilDone (r.memberStep depth) (true, r.empty)

/-- The fields from the `i`-th on as elements of a list, of which the last may be left out. -/
def ofElements (r : Record δ α) (depth : Nat) : List (Slot δ) → Nat → δ → Reader δ
  | [], _, d => return d
  | slot :: rest, i, d => do
    if ← Reader.nextElement (i == 0) then ofElements r depth rest (i + 1) (← slot.read depth d)
    else if slot.required then
      let elements := " with " ++ toString r.slots.length ++ " elements"
      Reader.failOpen (.invalidLength i ("struct " ++ r.title ++ elements))
    else ofElements r depth rest (i + 1) d

/-- Reads a record from an object or a list. -/
def read (r : Record δ α) (depth : Nat) : Reader α := do
  match ← Reader.start with
  | '\x7b' => Reader.deeper depth fun depth => Reader.inObject (r.ofMembers depth)
  | '[' =>
    Reader.deeper depth fun depth =>
      Reader.inList do r.complete (← r.ofElements depth r.slots 0 r.empty)
  | _ => Reader.mismatch ("struct " ++ r.title)

end Record

end OrmDdl.Json
