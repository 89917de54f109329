/-!
# Double-precision numbers

A finite double is a sign and a whole number of units of `2 ^ -1074`, the least positive double.
Every operation is exact on those units and rounds once, to nearest with ties to even, so order
and equality are facts about integers.
-/

namespace OrmDdl

namespace Double

/-- The number of units in one: `2 ^ 1074`. -/
def one : Nat := Nat.pow 2 1074

/-- All doubles have fewer units than this: `2 ^ 1024` of ones. -/
def bound : Nat := Nat.pow 2 2098

/-- The distance of doubles from one another around this many units: 53 bits are significant. -/
def spacing (units : Nat) : Nat := Nat.pow 2 (units.log2 - 52)

/-- Doubles have at most 53 significant bits and stay below `2 ^ 1024`. -/
def Representable (units : Nat) : Prop :=
  units < bound ∧ spacing units ∣ units

instance : DecidablePred Representable := fun _ => inferInstanceAs (Decidable (_ ∧ _))

end Double

/-- A double-precision number. -/
inductive Double where
  | nan
  | infinite (negative : Bool)
  | finite (negative : Bool) (units : Nat) (representable : Double.Representable units)
deriving DecidableEq

namespace Double

/-- The double of this many units, or the infinity of this sign where none has that many. -/
def ofUnits (negative : Bool) (units : Nat) : Double :=
  if h : Representable units then .finite negative units h else .infinite negative

/-- The whole number nearest to `num / den`; a tie goes to the even one. -/
def roundQuotient (num den : Nat) : Nat :=
  let low := num / den
  match compare (2 * (num % den)) den with
  | .lt => low
  | .gt => low + 1
  | .eq => if low % 2 = 0 then low else low + 1

/-- The double nearest to `num / den`; a tie goes to the even significand. -/
def ofRatio (negative : Bool) (num den : Nat) : Double :=
  let scaled := num * one
  -- keep 53 significant bits of the quotient, fewer below the normal range
  let spacing := spacing (scaled / den)
  ofUnits negative (roundQuotient scaled (den * spacing) * spacing)

/-- The double nearest to a natural number. -/
def ofNat (n : Nat) : Double := ofRatio false n 1

/-- The double nearest to an integer. -/
def ofInt (n : Int) : Double := ofRatio (n < 0) n.natAbs 1

def zero : Double := ofNat 0

def neg : Double → Double
  | nan => nan
  | infinite s => infinite !s
  | finite s u h => finite (!s) u h

/-- The product, rounded once. -/
def mul : Double → Double → Double
  | finite s u _, finite t v _ => ofRatio (s != t) (u * v) (one * one)
  | infinite s, infinite t => infinite (s != t)
  | infinite s, finite t v _ | finite t v _, infinite s =>
    if v = 0 then nan else infinite (s != t)
  | nan, _ | _, nan => nan

/-- The quotient, rounded once. -/
def div : Double → Double → Double
  | finite s u _, finite t v _ =>
    if v = 0 then (if u = 0 then nan else infinite (s != t)) else ofRatio (s != t) u v
  | infinite s, finite t _ _ => infinite (s != t)
  | finite s _ _, infinite t => ofUnits (s != t) 0
  | infinite _, infinite _ => nan
  | nan, _ | _, nan => nan

/-- The place of a number in the order of doubles, counted in units; `nan` has none. -/
def rank? : Double → Option Int
  | nan => none
  | infinite s => some (if s then -bound else bound)
  | finite s u _ => some (if s then -u else u)

/-- Whether both numbers have a rank and the ranks are so related. -/
def related (r : Int → Int → Bool) (a b : Double) : Bool :=
  match a.rank?, b.rank? with
  | some x, some y => r x y
  | _, _ => false

/-- Equality of numbers: the two zeros are equal and `nan` equals nothing. -/
def same : Double → Double → Bool := related (· == ·)

instance : LE Double := ⟨fun a b => related (fun x y => decide (x ≤ y)) a b = true⟩
instance : LT Double := ⟨fun a b => related (fun x y => decide (x < y)) a b = true⟩
instance (a b : Double) : Decidable (a ≤ b) := inferInstanceAs (Decidable (_ = true))
instance (a b : Double) : Decidable (a < b) := inferInstanceAs (Decidable (_ = true))

def isFinite : Double → Bool
  | finite .. => true
  | _ => false

end Double

end OrmDdl
