import OrmDdl.Double.Layout
import OrmDdl.Text.Quoted
/-!
# Faults of a JSON text

Why a text is refused, in the words of the message, and where. While reading, a place is counted
from the end of the text, in bytes still unread: that needs no account of what was read before.
-/

namespace OrmDdl.Json

/-- Doubles in JSON keep a point or an exponent; what JSON has no number for is `null`. -/
def doubleLayout : Double.Layout where
  tie := .even
  plain := some (-5, 15)
  pointZero := true
  nan := "null"
  infinity := "null"
  negativeInfinity := "null"

/-- The kind of value that stands where another was expected. -/
inductive Found where
  | null
  | bool (b : Bool)
  | integer (n : Int)
  | double (x : Double)
  | string (s : String)
  | sequence
  | map
deriving DecidableEq

def Found.message : Found → String
  | null => "null"
  | bool b => "boolean `" ++ (if b then "true" else "false") ++ "`"
  | integer n => "integer `" ++ toString n ++ "`"
  | double x => "floating point `" ++ doubleLayout.text x ++ "`"
  | string s => "string " ++ Text.quoted s
  | sequence => "sequence"
  | map => "map"

/-- Why a text is refused. -/
inductive Cause where
  | endInValue
  | endInString
  | endInList
  | endInObject
  | expectedValue
  | expectedIdent
  | expectedColon
  | expectedListEnd
  | expectedObjectEnd
  | keyNotString
  | trailingComma
  | trailingCharacters
  | invalidNumber
  | outOfRange
  | invalidEscape
  | controlCharacter
  | loneSurrogate
  | endOfEscape
  | tooDeep
  | invalidType (found : Found) (expected : String)
  | invalidValue (found : Found) (expected : String)
  | invalidLength (length : Nat) (expected : String)
  | missingField (name : String)
  | duplicateField (name : String)
  | unknownVariant (name : String) (known : List String)
deriving DecidableEq

def Cause.message : Cause → String
  | endInValue => "EOF while parsing a value"
  | endInString => "EOF while parsing a string"
  | endInList => "EOF while parsing a list"
  | endInObject => "EOF while parsing an object"
  | expectedValue => "expected value"
  | expectedIdent => "expected ident"
  | expectedColon => "expected `:`"
  | expectedListEnd => "expected `,` or `]`"
  | expectedObjectEnd => "expected `,` or `\x7d`"
  | keyNotString => "key must be a string"
  | trailingComma => "trailing comma"
  | trailingCharacters => "trailing characters"
  | invalidNumber => "invalid number"
  | outOfRange => "number out of range"
  | invalidEscape => "invalid escape"
  | controlCharacter => "control character (\\u0000-\\u001F) found while parsing a string"
  | loneSurrogate => "lone leading surrogate in hex escape"
  | endOfEscape => "unexpected end of hex escape"
  | tooDeep => "recursion limit exceeded"
  | invalidType found expected => "invalid type: " ++ found.message ++ ", expected " ++ expected
  | invalidValue found expected => "invalid value: " ++ found.message ++ ", expected " ++ expected
  | invalidLength length expected =>
    "invalid length " ++ toString length ++ ", expected " ++ expected
  | missingField name => "missing field `" ++ name ++ "`"
  | duplicateField name => "duplicate field `" ++ name ++ "`"
  | unknownVariant name known =>
    "unknown variant `" ++ name ++ "`, expected one of "
      ++ ", ".intercalate (known.map fun k => "`" ++ k ++ "`")

/-- Where a fault lies. A fault of meaning is open until the value around it has been left. -/
inductive Place where
  /-- So many bytes before the end of the text. -/
  | left (bytes : Nat)
  /-- Still to be settled, with this text unread. -/
  | opened (rest : List Char)
deriving DecidableEq

/-- A cause and the place where it was met. -/
structure Fault where
  cause : Cause
  place : Place
deriving DecidableEq

/-- The number of bytes of a text. -/
def bytes (s : List Char) : Nat := s.foldr (fun c n => c.utf8Size + n) 0

/-- Gives an open fault the place after `leave` has passed what closes the value around it. -/
def Fault.settle (leave : List Char → List Char) (f : Fault) : Fault :=
  match f.place with
  | .left _ => f
  | .opened rest => { f with place := .left (bytes (leave rest)) }

/-- The bytes unread at a fault. -/
def Fault.bytesLeft (f : Fault) : Nat :=
  match f.place with
  | .left n => n
  | .opened rest => bytes rest

/-- A fault of a whole text, by line and column. -/
structure Error where
  cause : Cause
  line : Nat
  column : Nat
deriving DecidableEq

def Error.message (e : Error) : String :=
  e.cause.message ++ " at line " ++ toString e.line ++ " column " ++ toString e.column

/-- The line of the byte offset `n`, from one, and the offset behind the last line break before it.
`pos` is the offset of the text at hand and `start` that of its line. -/
def lineStart (n : Nat) : List Char → (pos line start : Nat) → Nat × Nat
  | [], _, line, start => (line, start)
  | c :: r, pos, line, start =>
    let next := pos + c.utf8Size
    if n < next then (line, start)
    else if c = '\n' then lineStart n r next (line + 1) next
    else lineStart n r next line start

/-- The error of a text for a fault met while reading it. -/
def Error.ofFault (text : List Char) (f : Fault) : Error :=
  let n := bytes text - f.bytesLeft
  let (line, start) := lineStart n text 0 1 0
  ⟨f.cause, line, n - start⟩

end OrmDdl.Json
