import OrmDdl.Json.Numeral
import OrmDdl.Json.Characters
/-!
# Values of any kind

Reading a value whatever it is, and passing one that nobody wants. The latter checks less: numbers
of any size, surrogates alone and any depth pass.
-/

namespace OrmDdl.Json

namespace Reader

/-- Takes one more member of an object, the last one first, or ends it. -/
def memberStep {α : Type} (value : Reader α) (read : List (String × α)) :
    Reader (Step (List (String × α)) (List (String × α))) := do
  if ← nextMember read.isEmpty then
    let name ← string
    colon
    return .more ((name, ← value) :: read)
  else return .done read.reverse

/-- The members of an object up to its brace, in the order of the text. -/
def members {α : Type} (value : Reader α) : Reader (List (String × α)) :=
  untilDone (memberStep value) []

/-- Reads a value in which so many brackets may be opened. -/
def value (depth : Nat) : Reader Json := do
  match ← start with
  | 'n' => word "null"; return .null
  | 't' => word "true"; return .bool true
  | 'f' => word "false"; return .bool false
  | '"' => return .string (← string)
  | '[' =>
    match depth with
    | 0 => failNext .tooDeep
    | depth + 1 => return .array (← inList (elements (value depth)))
  | '\x7b' =>
    match depth with
    | 0 => failNext .tooDeep
    | depth + 1 => return .object (← inObject (members (value depth)))
  | c => if c = '-' ∨ c.isDigit then return .number (← number) else failNext .expectedValue

/-- Whether a list that nobody wants goes on behind an element; passes the comma or the bracket. -/
def passSeparator (close : Char) (orEnd atEnd : Cause) : Reader Bool := do
  match ← next? with
  | some c =>
    if c = ',' then advance; return true
    else if c = close then advance; return false
    else failNext orEnd
  | none => failNext atEnd

/-- Passes the elements between two brackets; a comma promises another one. -/
def passElements (close : Char) (orEnd atEnd : Cause) (element : Reader Unit) : Reader Unit := do
  advance
  match ← next? with
  | some c =>
    if c = close then advance
    else
      untilDone (fun _ => do
        element
        if ← passSeparator close orEnd atEnd then return .more () else return .done ()) ()
  | none => failNext atEnd

/-- Passes a name and its colon. -/
def passName : Reader Unit := do
  match ← next? with
  | some '"' => passString; colon
  | some _ => failNext .keyNotString
  | none => failNext .endInObject

/-- Passes a value whose brackets are nested at most so deep. -/
def passNested : Nat → Reader Unit
  | 0 => failNext .tooDeep
  | depth + 1 => do
    match ← start with
    | 'n' => word "null"
    | 't' => word "true"
    | 'f' => word "false"
    | '"' => passString
    | '[' => passElements ']' .expectedListEnd .endInList (passNested depth)
    | '\x7b' =>
      passElements '\x7d' .expectedObjectEnd .endInObject (do passName; passNested depth)
    | c =>
      if c = '-' ∨ c.isDigit then
        let _ ← numeral .invalidNumber
        return
      else failNext .expectedValue

/-- Passes a value that nobody wants. No text is nested deeper than it is long. -/
def passValue : Reader Unit := fun s => passNested (s.length + 1) s

end Reader

/-- The value of a JSON text. -/
def parse (text : String) : Except Error Json := (Reader.value Reader.maxDepth).run text

end OrmDdl.Json
