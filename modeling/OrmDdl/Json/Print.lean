import OrmDdl.Json.Basic
import OrmDdl.Json.Fault
/-!
# Printing JSON

The compact form has no blanks. The spread form puts every element and member on a line of its own,
two spaces deeper than the brackets around it.
-/

namespace OrmDdl.Json

/-- How one character stands inside a string. -/
def escapedChar (c : Char) : List Char :=
  if c = '"' then ['\\', '"']
  else if c = '\\' then ['\\', '\\']
  else if c = '\x08' then ['\\', 'b']
  else if c = '\x0c' then ['\\', 'f']
  else if c = '\n' then ['\\', 'n']
  else if c = '\r' then ['\\', 'r']
  else if c = '\t' then ['\\', 't']
  else if c.toNat < 0x20 then
    ['\\', 'u', '0', '0', Nat.digitChar (c.toNat / 16), Nat.digitChar (c.toNat % 16)]
  else [c]

def stringChars (s : String) : List Char := '"' :: (s.toList.flatMap escapedChar ++ ['"'])

def Number.chars : Number → List Char
  | natural n _ => Nat.toDigits 10 n
  | negative m _ => '-' :: Nat.toDigits 10 m
  | double x => doubleLayout.chars x

/-- A new line at this depth, or nothing in the compact form. -/
def lineBreak : Option Nat → List Char
  | none => []
  | some depth => '\n' :: List.replicate (2 * depth) ' '

/-- What stands between a name and its value. -/
def nameEnd : Option Nat → List Char
  | none => [':']
  | some _ => [':', ' ']

mutual

/-- The text of a value, spread from the given depth or compact. -/
def print (depth : Option Nat) : Json → List Char
  | null => ['n', 'u', 'l', 'l']
  | bool true => ['t', 'r', 'u', 'e']
  | bool false => ['f', 'a', 'l', 's', 'e']
  | number n => n.chars
  | string s => stringChars s
  | array [] => ['[', ']']
  | array (j :: r) =>
    let inner := depth.map (· + 1)
    '[' :: (lineBreak inner ++ print inner j ++ printItems depth r)
  | object [] => ['\x7b', '\x7d']
  | object ((k, j) :: r) =>
    let inner := depth.map (· + 1)
    '\x7b' :: (lineBreak inner ++ stringChars k ++ nameEnd inner ++ print inner j
      ++ printMembers depth r)

/-- The elements behind the first, and the bracket. -/
def printItems (depth : Option Nat) : List Json → List Char
  | [] => lineBreak depth ++ [']']
  | j :: r =>
    let inner := depth.map (· + 1)
    ',' :: (lineBreak inner ++ print inner j ++ printItems depth r)

/-- The members behind the first, and the brace. -/
def printMembers (depth : Option Nat) : List (String × Json) → List Char
  | [] => lineBreak depth ++ ['\x7d']
  | (k, j) :: r =>
    let inner := depth.map (· + 1)
    ',' :: (lineBreak inner ++ stringChars k ++ nameEnd inner ++ print inner j
      ++ printMembers depth r)

end

def compact (j : Json) : String := String.ofList (j.print none)

def spread (j : Json) : String := String.ofList (j.print (some 0))

/-- The value that stands for a double; one that is not finite has no number. -/
def ofDouble (x : Double) : Json := if x.isFinite then .number (.double x) else .null

end OrmDdl.Json
