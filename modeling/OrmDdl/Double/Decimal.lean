import OrmDdl.Double.Basic
/-!
# The fewest digits of a double

A double stands for an interval of reals, those that round to it. Its decimal is the point of that
interval with the fewest significant digits; of two such points the nearer one.
-/

namespace OrmDdl

/-- The number `digits * 10 ^ exponent`. -/
structure Decimal where
  digits : Nat
  exponent : Int
deriving DecidableEq, Repr

namespace Decimal

/-- Which of two equally near decimals stands for a double. -/
inductive Tie where
  | even
  | up

/-- Moves trailing zeros of the digits into the exponent. -/
def strip (digits : Nat) (exponent : Int) : Nat → Decimal
  | 0 => ⟨digits, exponent⟩
  | fuel + 1 =>
    if digits ≠ 0 ∧ digits % 10 = 0 then strip (digits / 10) (exponent + 1) fuel
    else ⟨digits, exponent⟩

/-- The number of decimal digits. -/
def width (n : Nat) : Nat := (Nat.toDigits 10 n).length

/-- The least `k` with `units / 2 ^ 1074 < 10 ^ k`, for `units` not zero. -/
def scale (units : Nat) : Int :=
  if Double.one ≤ units then width (units / Double.one)
  else 1 - width ((Double.one - 1) / units)

/-- The reals that round to a double, in quarters of its units, ends included or not. -/
structure Interval where
  low : Nat
  high : Nat
  closed : Bool

/-- The interval of the double of this many units. Below a power of two the spacing halves. -/
def interval (units : Nat) : Interval :=
  let spacing := Double.spacing units
  let narrow := 52 < units.log2 && units == Nat.pow 2 units.log2
  { low := 4 * units - (if narrow then spacing else 2 * spacing)
    high := 4 * units + 2 * spacing
    closed := units / spacing % 2 == 0 }

/-- Whether `num / den` quarter units lie in the interval. -/
def Interval.holds (i : Interval) (num den : Nat) : Bool :=
  if i.closed then i.low * den ≤ num && num ≤ i.high * den
  else i.low * den < num && num < i.high * den

/-- The digits on the grid `10 ^ exponent` that stand for the double, if the grid has such. -/
def onGrid? (tie : Tie) (units : Nat) (exponent : Int) : Option Nat :=
  let up := Nat.pow 10 exponent.toNat
  let down := Nat.pow 10 (-exponent).toNat
  -- the value is `num / den` steps of the grid
  let num := units * down
  let den := Double.one * up
  let low := num / den
  let holds (digits : Nat) := (interval units).holds (4 * digits * den) down
  match holds low, holds (low + 1) with
  | false, false => none
  | true, false => some low
  | false, true => some (low + 1)
  | true, true =>
    match compare (2 * num) ((2 * low + 1) * den) with
    | .lt => some low
    | .gt => some (low + 1)
    | .eq => match tie with
      | .up => some (low + 1)
      | .even => some (if low % 2 = 0 then low else low + 1)

/-- The shortest decimal of the double of this many units. -/
def shortest (tie : Tie) (units : Nat) : Decimal :=
  if units = 0 then ⟨0, 0⟩ else
  let scale := scale units
  let candidate (n : Nat) : Option Decimal :=
    (onGrid? tie units (scale - (n + 1 : Nat))).map fun d => strip d (scale - (n + 1 : Nat)) 20
  -- seventeen digits suffice; the exact value stands in should none be found
  ((List.range 17).findSome? candidate).getD ⟨units * Nat.pow 5 1074, -1074⟩

end Decimal

end OrmDdl
