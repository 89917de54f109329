import OrmDdl.Json.Fault
/-!
# Readers of JSON text

A reader takes a value from the front of a text and leaves the rest, or it meets a fault. This
module holds blanks, words and the frames of lists and objects; values are in the modules that
build on it.
-/

namespace OrmDdl.Json

/-- Takes a value from the front of a text. -/
abbrev Reader := StateT (List Char) (Except Fault)

namespace Reader

/-- A fault behind what has been read. -/
def failHere {α : Type} (cause : Cause) : Reader α := fun s => .error ⟨cause, .left (bytes s)⟩

/-- A fault at the next byte, which is counted as read if there is one. -/
def failNext {α : Type} (cause : Cause) : Reader α := fun s => .error ⟨cause, .left (bytes s - 1)⟩

/-- A fault of meaning, placed when the value around it is left. -/
def failOpen {α : Type} (cause : Cause) : Reader α := fun s => .error ⟨cause, .opened s⟩

/-- Gives open faults of a reader the place behind what it has read. -/
def settled {α : Type} (r : Reader α) : Reader α := fun s => (r s).mapError (·.settle id)

/-- JSON knows four blanks. -/
def isBlank (c : Char) : Bool := c = ' ' ∨ c = '\n' ∨ c = '\t' ∨ c = '\r'

def skipBlanks (s : List Char) : List Char := s.dropWhile isBlank

/-- The next character after blanks, left in place. -/
def next? : Reader (Option Char) := fun s => .ok ((skipBlanks s).head?, skipBlanks s)

/-- Passes the next character. -/
def advance : Reader Unit := fun s => .ok ((), s.tail)

/-- The first character of a value, left in place. -/
def start : Reader Char := do
  match ← next? with
  | some c => return c
  | none => failNext .endInValue

/-- What is left of a word whose first letter has been read. -/
def restOfWord : List Char → Reader Unit
  | [] => pure ()
  | c :: r => fun s =>
    match s with
    | [] => failHere .endInValue []
    | d :: t => if d = c then restOfWord r t else failNext .expectedIdent (d :: t)

/-- A word whose first letter comes next. -/
def word (w : String) : Reader Unit := do
  advance
  restOfWord w.toList.tail

/-- One round of a repetition: go on with a state, or end with a result. -/
inductive Step (σ α : Type) where
  | more (s : σ)
  | done (a : α)

/-- Repeats a step, at most once for every one of some characters. -/
def iterate {σ α : Type} (step : σ → Reader (Step σ α)) : List Char → σ → Reader α
  | [], _ => failHere .tooDeep
  | _ :: r, s => do
    match ← step s with
    | .more s => iterate step r s
    | .done a => return a

/-- Repeats a step until it is done. Every round but the last reads a character at least, so the
text itself counts the rounds. -/
def untilDone {σ α : Type} (step : σ → Reader (Step σ α)) (s : σ) : Reader α :=
  fun text => iterate step ('\x00' :: text) s text

/-! ### Lists -/

/-- Whether another element follows; passes the comma before it. -/
def nextElement (first : Bool) : Reader Bool := do
  match ← next? with
  | some ']' => return false
  | some ',' =>
    if first then return true
    advance
    match ← next? with
    | some ']' => failNext .trailingComma
    | some _ => return true
    | none => failNext .endInValue
  | some _ => if first then return true else failNext .expectedListEnd
  | none => failNext .endInList

/-- The end of a list. -/
def closeList : Reader Unit := do
  match ← next? with
  | some ']' => advance
  | some ',' =>
    advance
    match ← next? with
    | some ']' => failNext .trailingComma
    | _ => failNext .trailingCharacters
  | some _ => failNext .trailingCharacters
  | none => failNext .endInList

/-- What is left of a text when a list is given up. -/
def leaveList (s : List Char) : List Char :=
  match skipBlanks s with
  | ']' :: r => r
  | ',' :: r => skipBlanks r
  | r => r

/-! ### Objects -/

/-- Whether another member follows; stops at the quote of its name. -/
def nextMember (first : Bool) : Reader Bool := do
  match ← next? with
  | some '\x7d' => return false
  | some '"' => if first then return true else failNext .expectedObjectEnd
  | some ',' =>
    if first then failNext .keyNotString
    advance
    match ← next? with
    | some '"' => return true
    | some '\x7d' => failNext .trailingComma
    | some _ => failNext .keyNotString
    | none => failNext .endInValue
  | some _ => if first then failNext .keyNotString else failNext .expectedObjectEnd
  | none => failNext .endInObject

/-- The colon between a name and its value. -/
def colon : Reader Unit := do
  match ← next? with
  | some ':' => advance
  | some _ => failNext .expectedColon
  | none => failNext .endInObject

/-- The end of an object. -/
def closeObject : Reader Unit := do
  match ← next? with
  | some '\x7d' => advance
  | some ',' => failNext .trailingComma
  | some _ => failNext .trailingCharacters
  | none => failNext .endInObject

/-- What is left of a text when an object is given up. -/
def leaveObject (s : List Char) : List Char :=
  match skipBlanks s with
  | '\x7d' :: r => r
  | r => r

/-! ### Frames -/

/-- The number of lists and objects that may stand inside one another. -/
def maxDepth : Nat := 127

/-- Opens one of the brackets that may still be opened; what it holds may open one less. -/
def deeper {α : Type} (depth : Nat) (r : Nat → Reader α) : Reader α :=
  match depth with
  | 0 => failNext .tooDeep
  | depth + 1 => r depth

/-- What stands between two brackets. Open faults of the body lie behind the closing bracket. -/
def framed {α : Type} (close : Reader Unit) (leave : List Char → List Char) (body : Reader α) :
    Reader α := do
  advance
  let a ← fun s => (body s).mapError (·.settle leave)
  close
  return a

def inList {α : Type} : Reader α → Reader α := framed closeList leaveList

def inObject {α : Type} : Reader α → Reader α := framed closeObject leaveObject

/-- Takes one more element of a list, the last one first, or ends it. -/
def elementStep {α : Type} (element : Reader α) (read : List α) :
    Reader (Step (List α) (List α)) := do
  if ← nextElement read.isEmpty then return .more ((← element) :: read)
  else return .done read.reverse

/-- The elements of a list up to its bracket. -/
def elements {α : Type} (element : Reader α) : Reader (List α) :=
  untilDone (elementStep element) []

/-- The value of a whole text. -/
def run {α : Type} (r : Reader α) (text : String) : Except Error α :=
  let whole : Reader α := do
    let a ← r
    match ← next? with
    | none => return a
    | some _ => failNext .trailingCharacters
  match whole text.toList with
  | .ok (a, _) => .ok a
  | .error f => .error (Error.ofFault text.toList f)

end Reader

end OrmDdl.Json
