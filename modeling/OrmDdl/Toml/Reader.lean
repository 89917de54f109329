/-!
# Readers of TOML text

A reader takes something from the front of a text, or fails. This module holds what stands between
values: blanks, comments and ends of lines.
-/

namespace OrmDdl.Toml

/-- Takes something from the front of a text. -/
abbrev Reader := StateT (List Char) Option

namespace Reader

/-- The next character, left in place. -/
def next? : Reader (Option Char) := fun s => some (s.head?, s)

/-- The next character. -/
def any : Reader Char
  | [] => none
  | c :: r => some (c, r)

/-- The characters that come next and are of a kind. -/
def takeWhile (p : Char → Bool) : Reader (List Char) := fun s => some (s.takeWhile p, s.dropWhile p)

/-- One character of a kind. -/
def one (p : Char → Bool) : Reader Char := do
  let c ← any
  guard (p c)
  return c

/-- This character. -/
def exactly (c : Char) : Reader Unit := do
  let _ ← one (· = c)

/-- These characters. -/
def word : List Char → Reader Unit
  | [] => pure ()
  | c :: r => do
    exactly c
    word r

/-- What a reader takes, or nothing if it fails. -/
def optional {α : Type} (r : Reader α) : Reader (Option α) := some <$> r <|> pure none

/-- Repeats a step as long as it goes on, at most once for every one of some characters. -/
def iterate {σ α : Type} (step : σ → Reader (σ ⊕ α)) : List Char → σ → Reader α
  | [], _ => failure
  | _ :: r, s => do
    match ← step s with
    | .inl s => iterate step r s
    | .inr a => return a

/-- Repeats a step as long as it goes on. Every round but the last takes a character at least, so
the text itself counts the rounds. -/
def repeated {σ α : Type} (step : σ → Reader (σ ⊕ α)) (s : σ) : Reader α :=
  fun text => iterate step ('\x00' :: text) s text

/-- The text that a reader takes. -/
def taken (r : Reader Unit) : Reader (List Char) := fun s => do
  let ((), rest) ← r s
  return (s.take (s.length - rest.length), rest)

/-- The blanks inside a line. -/
def isBlank (c : Char) : Bool := c = ' ' ∨ c = '\t'

def blanks : Reader Unit := do
  let _ ← takeWhile isBlank

/-- Whether a character may stand in a comment: no control character but the tab. -/
def isPlain (c : Char) : Bool := c = '\t' ∨ 0x20 ≤ c.toNat ∧ c ≠ '\x7f'

/-- The end of a line. -/
def lineBreak : Reader Unit
  | '\n' :: r | '\r' :: '\n' :: r => some ((), r)
  | _ => none

def comment : Reader Unit := do
  exactly '#'
  let _ ← takeWhile isPlain

/-- What may follow a statement on its line. -/
def lineEnd : Reader Unit := do
  blanks
  let _ ← optional comment
  if (← next?).isSome then lineBreak

/-- Passes blanks, comments and ends of lines between the elements of an array. -/
def gap : Reader Unit :=
  repeated (fun () => do
    match ← next? with
    | some ' ' | some '\t' => blanks; return .inl ()
    | some '\n' | some '\r' => lineBreak; return .inl ()
    | some '#' => comment; return .inl ()
    | _ => return .inr ()) ()

end Reader

end OrmDdl.Toml
