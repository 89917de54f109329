import OrmDdl.Toml.Item
import OrmDdl.Toml.Reader
import OrmDdl.Text.Hex
/-!
# Numbers and times

Whole numbers of 64 bits in four bases, doubles, and dates and times of the calendar.
-/

namespace OrmDdl.Toml.Reader

open Text (hexValue?)

/-! ### Digits -/

/-- Whether a character is a digit in a base. -/
def isDigitIn (base : Nat) (c : Char) : Bool := (hexValue? c).any (· < base)

/-- Digits behind a digit; a single underscore may stand between two. -/
def moreDigits (base : Nat) : List Char → List Char × List Char
  | [] => ([], [])
  | c :: r =>
    if isDigitIn base c then
      let (digits, rest) := moreDigits base r
      (c :: digits, rest)
    else
      match c, r with
      | '_', d :: r' =>
        if isDigitIn base d then
          let (digits, rest) := moreDigits base r'
          (d :: digits, rest)
        else ([], c :: r)
      | _, _ => ([], c :: r)

/-- Digits of a base, of which there must be one. -/
def digits (base : Nat) : Reader (List Char) := do
  let c ← one (isDigitIn base)
  return c :: (← fun s => some (moreDigits base s))

/-- The number of digits in a base. -/
def numberOf (base : Nat) (digits : List Char) : Nat :=
  digits.foldl (fun n c => base * n + (hexValue? c).getD 0) 0

/-! ### Numbers -/

/-- Whether a minus stands first. -/
def sign : Reader Bool := do
  match ← next? with
  | some '+' => exactly '+'; return false
  | some '-' => exactly '-'; return true
  | _ => return false

/-- The digits of a whole number: a zero stands alone. -/
def wholeDigits : Reader (List Char) := do
  if (← next?) = some '0' then
    exactly '0'
    return ['0']
  else digits 10

/-- The power of ten of a double's text, if there is one. -/
def exponent : Reader (Option Int) := do
  match ← next? with
  | some 'e' | some 'E' =>
    let _ ← any
    let negative ← sign
    let n := numberOf 10 (← digits 10)
    return some (if negative then -n else n)
  | _ => return none

/-- Every double lies well between these powers of ten. -/
def exponentBound : Int := 400

/-- The double nearest to some digits times a power of ten. -/
def scaled (negative : Bool) (digits : List Char) (exponent : Int) : Double :=
  let n := numberOf 10 digits
  if n = 0 then .ofUnits negative 0
  else if exponentBound < exponent then .infinite negative
  else if digits.length + exponent < -exponentBound then .ofUnits negative 0
  else
    match exponent with
    | .ofNat e => .ofRatio negative (n * Nat.pow 10 e) 1
    | .negSucc e => .ofRatio negative n (Nat.pow 10 (e + 1))

/-- A double: digits with a point or an exponent. What exceeds all doubles is refused. -/
def double : Reader Item := do
  let negative ← sign
  let whole ← wholeDigits
  let hasPoint := (← next?) = some '.'
  let fraction ← if hasPoint then (do exactly '.'; digits 10) else pure []
  let e? ← exponent
  guard (hasPoint ∨ e?.isSome)
  let x := scaled negative (whole ++ fraction) (e?.getD 0 - fraction.length)
  guard (x ≠ .infinite false)
  return .double x

/-- The doubles that are no numbers of digits. -/
def special : Reader Item := do
  let negative ← sign
  (do word "inf".toList; return .double (.infinite negative)) <|>
    (do word "nan".toList; return .double .nan)

/-- A whole number of 64 bits. -/
def integer : Reader Item := do
  match ← optional (do exactly '0'; one fun c => c = 'x' ∨ c = 'o' ∨ c = 'b') with
  | some letter =>
    let base := if letter = 'x' then 16 else if letter = 'o' then 8 else 2
    let n := numberOf base (← digits base)
    guard (n < Nat.pow 2 63)
    return .integer n
  | none =>
    let negative ← sign
    let n := numberOf 10 (← wholeDigits)
    guard (n < Nat.pow 2 63 ∨ negative ∧ n = Nat.pow 2 63)
    return .integer (if negative then -n else n)

/-! ### Times -/

/-- A number of so many digits. -/
def fixedDigits : Nat → Nat → Reader Nat
  | 0, n => pure n
  | count + 1, n => do
    let c ← one Char.isDigit
    fixedDigits count (10 * n + (c.toNat - '0'.toNat))

/-- A number of two digits between two bounds. -/
def twoDigits (low high : Nat) : Reader Nat := do
  let n ← fixedDigits 2 0
  guard (low ≤ n ∧ n ≤ high)
  return n

def isLeapYear (year : Nat) : Bool := year % 4 = 0 ∧ (year % 100 ≠ 0 ∨ year % 400 = 0)

def daysInMonth (year month : Nat) : Nat :=
  if month = 2 then (if isLeapYear year then 29 else 28)
  else if month = 4 ∨ month = 6 ∨ month = 9 ∨ month = 11 then 30
  else 31

/-- A day of the calendar. -/
def date : Reader Unit := do
  let year ← fixedDigits 4 0
  exactly '-'
  let month ← twoDigits 1 12
  exactly '-'
  let _ ← twoDigits 1 (daysInMonth year month)

/-- A time of the day; a minute may have a leap second. -/
def time : Reader Unit := do
  let _ ← twoDigits 0 23
  exactly ':'
  let _ ← twoDigits 0 59
  exactly ':'
  let _ ← twoDigits 0 60
  if (← next?) = some '.' then
    exactly '.'
    let _ ← one Char.isDigit
    let _ ← takeWhile Char.isDigit

/-- How far a time is from universal time. -/
def offset : Reader Unit := do
  match ← any with
  | 'Z' | 'z' => return
  | '+' | '-' =>
    let _ ← twoDigits 0 23
    exactly ':'
    let _ ← twoDigits 0 59
  | _ => failure

/-- A date, a time or both. -/
def dateTime : Reader Item := do
  let text ← taken <|
    (do
      date
      let _ ← optional do
        let _ ← one fun c => c = 'T' ∨ c = 't' ∨ c = ' '
        time
        optional offset)
    <|> time
  return .dateTime (String.ofList text)

/-- A number or a time. -/
def numeric : Reader Item := dateTime <|> double <|> special <|> integer

end OrmDdl.Toml.Reader
