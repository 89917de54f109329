import OrmDdl.Double.Decimal
/-!
# Layout of numbers in text

A layout says how the digits of a double are set: where plain notation ends, whether a whole
number keeps a point, and what stands for the values without digits.
-/

namespace OrmDdl

namespace Double

/-- The decisions of one output format. -/
structure Layout where
  /-- Which of two equally near decimals is written. -/
  tie : Decimal.Tie
  /-- The exponents of a leading digit that are written without exponent; `none` for all. -/
  plain : Option (Int × Int)
  /-- Whether a whole number in plain notation ends in `.0`. -/
  pointZero : Bool
  nan : String
  infinity : String
  negativeInfinity : String

namespace Layout

/-- Digits and exponent without an exponent mark. -/
def plainText (l : Layout) (digits : List Char) (exponent : Int) : List Char :=
  let zeros (n : Nat) : List Char := List.replicate n '0'
  match exponent with
  | .ofNat n => digits ++ zeros n ++ (if l.pointZero then ['.', '0'] else [])
  | .negSucc n =>
    let places := n + 1
    if places < digits.length then
      digits.take (digits.length - places) ++ '.' :: digits.drop (digits.length - places)
    else '0' :: '.' :: (zeros (places - digits.length) ++ digits)

/-- Digits with the exponent of the leading one behind `e`, the sign always written. -/
def markedText (digits : List Char) (lead : Int) : List Char :=
  let sign := if lead < 0 then '-' else '+'
  let tail := 'e' :: sign :: Nat.toDigits 10 lead.natAbs
  match digits with
  | d :: e :: r => d :: '.' :: (e :: r ++ tail)
  | _ => digits ++ tail

/-- The text of a decimal. -/
def decimalText (l : Layout) (d : Decimal) : List Char :=
  let digits := Nat.toDigits 10 d.digits
  let lead := d.exponent + (digits.length - 1 : Nat)
  match l.plain with
  | some (from', upTo) =>
    if d.digits = 0 ∨ (from' ≤ lead ∧ lead ≤ upTo) then l.plainText digits d.exponent
    else markedText digits lead
  | none => l.plainText digits d.exponent

/-- The text of a double. -/
def chars (l : Layout) : Double → List Char
  | .nan => l.nan.toList
  | .infinite negative => (if negative then l.negativeInfinity else l.infinity).toList
  | .finite negative units _ =>
    (if negative then ['-'] else []) ++ l.decimalText (Decimal.shortest l.tie units)

def text (l : Layout) (x : Double) : String := String.ofList (l.chars x)

end Layout

end Double

end OrmDdl
