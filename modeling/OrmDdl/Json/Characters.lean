import OrmDdl.Json.Reader
import OrmDdl.Text.Hex
/-!
# Strings

The characters between two quotes, with their escapes. A character beyond 16 bits may be escaped
as a pair of surrogates; a surrogate alone stands for no character.
-/

namespace OrmDdl.Json

open Text (hexValue?)

def isLeading (unit : Nat) : Bool := 0xD800 ≤ unit && unit ≤ 0xDBFF
def isTrailing (unit : Nat) : Bool := 0xDC00 ≤ unit && unit ≤ 0xDFFF

/-- The character that a letter behind a backslash stands for. -/
def escaped? : Char → Option Char
  | '"' => some '"'
  | '\\' => some '\\'
  | '/' => some '/'
  | 'b' => some '\x08'
  | 'f' => some '\x0c'
  | 'n' => some '\n'
  | 'r' => some '\r'
  | 't' => some '\t'
  | _ => none

namespace Reader

/-- The 16-bit unit of four hexadecimal digits. Four bytes are taken, whatever they are. -/
def hexUnit : Reader Nat := fun s =>
  match s with
  | a :: b :: c :: d :: r =>
    match hexValue? a, hexValue? b, hexValue? c, hexValue? d with
    | some a, some b, some c, some d => .ok (((a * 16 + b) * 16 + c) * 16 + d, r)
    | _, _, _, _ => .error ⟨.invalidEscape, .left (bytes s - 4)⟩
  | s =>
    if bytes s < 4 then failHere .endInString []
    else .error ⟨.invalidEscape, .left (bytes s - 4)⟩

/-- A character that must come next inside an escaped pair. -/
def inPair (c : Char) : Reader Unit := fun s =>
  match s with
  | [] => failHere .endInString []
  | d :: r => if d = c then .ok ((), r) else failNext .endOfEscape s

/-- The character of a `\u` escape, whose four digits come next. -/
def unitEscape : Reader Char := do
  let unit ← hexUnit
  if isTrailing unit then failHere .loneSurrogate
  else if isLeading unit then
    inPair '\\'
    inPair 'u'
    let second ← hexUnit
    if isTrailing second then
      return Char.ofNat (0x10000 + (unit - 0xD800) * 0x400 + (second - 0xDC00))
    else failHere .loneSurrogate
  else return Char.ofNat unit

/-- The next character of a string, or none at its closing quote. -/
def stringChar : Reader (Option Char) := fun s =>
  match s with
  | [] => failHere .endInString []
  | '"' :: r => .ok (none, r)
  | ['\\'] => failHere .endInString []
  | '\\' :: 'u' :: r => (some <$> unitEscape) r
  | '\\' :: c :: r =>
    match escaped? c with
    | some d => .ok (some d, r)
    | none => failNext .invalidEscape (c :: r)
  | c :: r => if c.toNat < 0x20 then failNext .controlCharacter s else .ok (some c, r)

/-- Takes one more character of a string, the last one first, or ends it. -/
def stringStep (read : List Char) : Reader (Step (List Char) String) := do
  match ← stringChar with
  | some c => return .more (c :: read)
  | none => return .done (String.ofList read.reverse)

/-- Reads a string, which starts at its opening quote. -/
def string : Reader String := do
  advance
  untilDone stringStep []

/-- Passes one character of a string that nobody wants; says whether it was the closing quote. -/
def passChar : Reader Bool := fun s =>
  match s with
  | [] => failHere .endInString []
  | '"' :: r => .ok (true, r)
  | ['\\'] => failHere .endInString []
  | '\\' :: 'u' :: r => ((fun _ => false) <$> hexUnit) r
  | '\\' :: c :: r =>
    if (escaped? c).isSome then .ok (false, r) else failNext .invalidEscape (c :: r)
  | c :: r => if c.toNat < 0x20 then failHere .controlCharacter s else .ok (false, r)

/-- Passes a string that nobody wants. -/
def passString : Reader Unit := do
  advance
  untilDone (fun _ => do if ← passChar then return .done () else return .more ()) ()

end Reader

end OrmDdl.Json
