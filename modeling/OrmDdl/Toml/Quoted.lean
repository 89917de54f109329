import OrmDdl.Text.Hex
import OrmDdl.Toml.Reader
/-!
# Strings and keys

Text in double quotes knows escapes, text in single quotes is literal. Three quotes hold text of
several lines; a line break right behind them does not belong to it, and every line break in it is
one line feed.
-/

namespace OrmDdl.Toml.Reader

open Text (hexValue?)

/-- The number of some hexadecimal digits. -/
def hexNumber : List Char → Nat → Option Nat
  | [], n => some n
  | c :: r, n => (hexValue? c).bind fun d => hexNumber r (16 * n + d)

/-- The character of so many hexadecimal digits that come next. -/
def codePoint (digits : Nat) : Reader Char := fun s => do
  guard (digits ≤ s.length)
  let n ← hexNumber (s.take digits) 0
  guard n.isValidChar
  return (Char.ofNat n, s.drop digits)

/-- The character of an escape, behind its backslash. -/
def escape : Reader Char := do
  match ← any with
  | 'b' => return '\x08'
  | 't' => return '\t'
  | 'n' => return '\n'
  | 'f' => return '\x0c'
  | 'r' => return '\r'
  | '"' => return '"'
  | '\\' => return '\\'
  | 'u' => codePoint 4
  | 'U' => codePoint 8
  | _ => failure

/-- What stands between two quotes on one line. The opening quote comes next. -/
def quotedLine (quote : Char) (escapes : Bool) : Reader String := do
  exactly quote
  repeated (fun read => do
    let c ← any
    if c = quote then return .inr (String.ofList read.reverse)
    else if c = '\\' ∧ escapes then return .inl ((← escape) :: read)
    else do
      guard (isPlain c)
      return .inl (c :: read)) []

/-- A line break behind a backslash, with all blanks and line breaks around it. -/
def joinedLines : Reader Unit := do
  blanks
  lineBreak
  repeated (fun () => do
    match ← next? with
    | some ' ' | some '\t' => blanks; return .inl ()
    | some '\n' | some '\r' => (do lineBreak; return .inl ()) <|> return .inr ()
    | _ => return .inr ()) ()

/-- What stands between threefold quotes. The opening quotes come next. Up to two quotes may stand
inside, also right before the closing ones. -/
def quotedLines (quote : Char) (escapes : Bool) : Reader String := do
  word [quote, quote, quote]
  let _ ← optional lineBreak
  repeated (fun read => do
    match ← next? with
    | none => failure
    | some c =>
      if c = quote then
        let run ← takeWhile (· = quote)
        guard (run.length < 6)
        if run.length < 3 then return .inl (run ++ read)
        else return .inr (String.ofList (run.drop 3 ++ read).reverse)
      else if c = '\\' ∧ escapes then
        exactly '\\'
        (do joinedLines; return .inl read) <|> (do return .inl ((← escape) :: read))
      else
        (do lineBreak; return .inl ('\n' :: read)) <|> (do return .inl ((← one isPlain) :: read)))
    []

/-- A string of any form; a quote comes next. -/
def string (quote : Char) : Reader String :=
  let escapes := quote = '"'
  fun s =>
    if [quote, quote, quote].isPrefixOf s then quotedLines quote escapes s
    else quotedLine quote escapes s

/-- Whether a character may stand in a key without quotes. -/
def isBareKey (c : Char) : Bool := c.isAlphanum || c = '-' || c = '_'

/-- One part of a key. -/
def simpleKey : Reader String := do
  match ← next? with
  | some '"' => quotedLine '"' true
  | some '\'' => quotedLine '\'' false
  | _ =>
    let cs ← takeWhile isBareKey
    guard (cs ≠ [])
    return String.ofList cs

/-- The parts of a key are fewer than this, and so are the brackets around a value. -/
def limit : Nat := 80

/-- The parts of a key, between dots; the last one stands apart. -/
def key : Reader (List String × String) := do
  let (before, name) ← repeated (fun before => do
    blanks
    let name ← simpleKey
    blanks
    if (← next?) = some '.' then
      exactly '.'
      return .inl (name :: before)
    else return .inr (before, name)) []
  guard (before.length + 1 < limit)
  return (before.reverse, name)

end OrmDdl.Toml.Reader
