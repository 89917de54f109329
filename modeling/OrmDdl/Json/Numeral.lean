import OrmDdl.Json.Basic
import OrmDdl.Json.Reader
/-!
# Numerals

The text of a number, taken apart into its digits, and the number it stands for. Digits go into a
significand of 64 bits as long as there is room; digits beyond count as zeros. A numeral that is not
a whole number of 64 bits is that significand as a double, scaled once by a power of ten.
-/

namespace OrmDdl.Json

/-- The parts of a number's text. -/
structure Numeral where
  negative : Bool
  whole : List Char
  /-- The digits behind the point, none where there is no point. -/
  fraction : List Char
  exponentNegative : Bool
  /-- The digits of the exponent, none where there is none. -/
  exponent : List Char

def digitValue (c : Char) : Nat := c.toNat - '0'.toNat

namespace Reader

/-- The digits that come next. -/
def digits : Reader (List Char) := fun s => .ok (s.takeWhile Char.isDigit, s.dropWhile Char.isDigit)

/-- Digits of which there must be one; `atEnd` is the fault where the text ends instead. -/
def someDigits (atEnd : Cause) : Reader (List Char) := fun s =>
  match s with
  | [] => failHere atEnd []
  | c :: _ => if c.isDigit then digits s else failNext .invalidNumber s

/-- The digits before the point: a zero stands alone. -/
def wholeDigits (atEnd : Cause) : Reader (List Char) := fun s =>
  match s with
  | '0' :: d :: r =>
    if d.isDigit then failNext .invalidNumber (d :: r) else .ok (['0'], d :: r)
  | s => someDigits atEnd s

/-- The digits behind a point, if there is one. -/
def fractionDigits (atEnd : Cause) : Reader (List Char) := fun s =>
  match s with
  | '.' :: r => someDigits atEnd r
  | s => .ok ([], s)

/-- The sign and digits of an exponent, if there is one. -/
def exponentDigits (atEnd : Cause) : Reader (Bool × List Char) := fun s =>
  match s with
  | 'e' :: r | 'E' :: r =>
    match r with
    | '+' :: r => ((false, ·) <$> someDigits atEnd) r
    | '-' :: r => ((true, ·) <$> someDigits atEnd) r
    | r => ((false, ·) <$> someDigits atEnd) r
  | s => .ok ((false, []), s)

/-- Whether a minus sign comes next, which is passed. -/
def minus : Reader Bool := fun s =>
  match s with
  | '-' :: r => .ok (true, r)
  | s => .ok (false, s)

/-- Takes a number's text apart. -/
def numeral (atEnd : Cause) : Reader Numeral := do
  let negative ← minus
  let whole ← wholeDigits atEnd
  let fraction ← fractionDigits atEnd
  let (exponentNegative, exponent) ← exponentDigits atEnd
  return { negative, whole, fraction, exponentNegative, exponent }

end Reader

/-- Appends decimal digits to a number as long as it stays within a limit; also the digits left. -/
def accumulate (limit : Nat) : Nat → List Char → Nat × List Char
  | n, [] => (n, [])
  | n, c :: r =>
    if 10 * n + digitValue c ≤ limit then accumulate limit (10 * n + digitValue c) r
    else (n, c :: r)

/-- The double nearest to a power of ten. -/
def powerOfTen (n : Nat) : Double := .ofNat (Nat.pow 10 n)

/-- Divides by a power of ten, in steps of at most 308. -/
def scaleDown : Nat → Double → Nat → Double
  | 0, x, _ => x
  | fuel + 1, x, e =>
    if e ≤ 308 then x.div (powerOfTen e)
    else if x.same .zero then x
    else scaleDown fuel (x.div (powerOfTen 308)) (e - 308)

/-- The significand times a power of ten, or none if that is beyond the doubles. -/
def scaled? (significand : Nat) (exponent : Int) : Option Double :=
  let x := Double.ofNat significand
  match exponent with
  | .ofNat e =>
    if e ≤ 308 then
      let y := x.mul (powerOfTen e)
      if y.isFinite then some y else none
    else if significand = 0 then some x else none
  | .negSucc e => some (scaleDown (e + 1) x (e + 1))

/-- The number of a whole count of units, with its sign. -/
def Number.ofWhole (negative : Bool) (n : Nat) : Number :=
  if negative then
    if h : 0 < n ∧ n ≤ Nat.pow 2 63 then .negative n h else .double (Double.ofNat n).neg
  else if h : n < Nat.pow 2 64 then .natural n h
  else .double (.ofNat n)

namespace Numeral

/-- The greatest significand. -/
def maxSignificand : Nat := Nat.pow 2 64 - 1

/-- The greatest exponent. -/
def maxExponent : Nat := Nat.pow 2 31 - 1

/-- The double that a numeral stands for: its significand, scaled once. A number beyond the doubles
gives the count of exponent digits that need not be read to know it. -/
def toDouble (n : Numeral) : Except Nat Double :=
  let (whole, wholeLeft) := accumulate maxSignificand 0 n.whole
  let (significand, fractionLeft) := accumulate maxSignificand whole n.fraction
  let (exponent, exponentLeft) := accumulate maxExponent 0 n.exponent
  let signed (x : Double) : Double := if n.negative then x.neg else x
  if exponentLeft ≠ [] then
    if significand ≠ 0 ∧ ¬n.exponentNegative then .error (exponentLeft.length - 1)
    else .ok (signed .zero)
  else
    let places : Int := wholeLeft.length - (n.fraction.length - fractionLeft.length : Nat)
    let exponent := if n.exponentNegative then places - exponent else places + exponent
    match scaled? significand exponent with
    | some x => .ok (signed x)
    | none => .error 0

/-- The number that a numeral stands for. Without a point or an exponent it is whole as long as its
digits fit the significand. -/
def toNumber (n : Numeral) : Except Nat Number :=
  let whole := accumulate maxSignificand 0 n.whole
  if n.fraction = [] ∧ n.exponent = [] ∧ whole.2 = [] then .ok (.ofWhole n.negative whole.1)
  else n.toDouble.map .double

end Numeral

/-- Reads a number. -/
def Reader.number : Reader Number := do
  match (← Reader.numeral .endInValue).toNumber with
  | .ok n => return n
  | .error unread => fun s => .error ⟨.outOfRange, .left (bytes s + unread)⟩

end OrmDdl.Json
