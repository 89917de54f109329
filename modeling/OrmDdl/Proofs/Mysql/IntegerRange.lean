import OrmDdl.Proofs.Double.Exact
import OrmDdl.Proofs.Mysql.TableTokens
/-!
# Integers that fit a column

`ofRule?_integers`: the integer column of a rule with finite bounds reaches up to its maximum. It
need not reach down to a negative minimum, since the maximum alone picks the width; of the integers
between the bounds the column holds those that are not below its own least value.
-/

namespace OrmDdl.Mysql

/-! ## Ranges -/

/-- The integers from one to another. -/
structure IntegerRange where
  low : ℤ
  high : ℤ
deriving DecidableEq

namespace IntegerRange

instance : Membership ℤ IntegerRange := ⟨fun r n => r.low ≤ n ∧ n ≤ r.high⟩

instance (n : ℤ) (r : IntegerRange) : Decidable (n ∈ r) := inferInstanceAs (Decidable (_ ∧ _))

theorem mem_iff {n : ℤ} {r : IntegerRange} : n ∈ r ↔ r.low ≤ n ∧ n ≤ r.high := Iff.rfl

/-- The integers of this many bits. -/
def ofBits (bits : Nat) (unsigned : Bool) : IntegerRange :=
  if unsigned then ⟨0, 2 ^ bits - 1⟩ else ⟨-2 ^ (bits - 1), 2 ^ (bits - 1) - 1⟩

end IntegerRange

/-- The number of bits of an integer type of the server. -/
def integerBits : List (String × Nat) :=
  [("TINYINT", 8), ("SMALLINT", 16), ("MEDIUMINT", 24), ("INT", 32), ("BIGINT", 64)]

/-- The integers that a column of an integer type holds. The size in parentheses is for display. -/
def TypeText.range? : TypeText → Option IntegerRange
  | .word name => (integerBits.lookup name).map fun bits => .ofBits bits false
  | .sized name _ unsigned => (integerBits.lookup name).map fun bits => .ofBits bits unsigned

namespace IntegerWidth

/-- The range of a class of integer columns. -/
def range (w : IntegerWidth) (unsigned : Bool) : IntegerRange where
  low := if unsigned then 0 else -w.limit false - 1
  high := w.limit unsigned

theorem range?_parts (w : IntegerWidth) (unsigned : Bool) :
    (ColumnType.integer w unsigned).parts.range? = some (w.range unsigned) := by
  cases w <;> cases unsigned <;> rfl

theorem range_big (unsigned : Bool) : big.range unsigned = .ofBits 64 unsigned := by
  cases unsigned <;> rfl

/-- All limits but the greatest are doubles. -/
theorem value?_limit {w : IntegerWidth} (h : w ≠ big) (unsigned : Bool) :
    (Double.ofNat (w.limit unsigned)).value? = some (w.limit unsigned : ℚ) := by
  refine Double.value?_ofNat ?_
  cases w with
  | big => exact absurd rfl h
  | tiny | small | int => cases unsigned <;> decide

/-- The class for values up to a bound reaches up to it, if any class does. -/
theorem le_limit_ofMax {max : Double} {b : ℚ} {unsigned : Bool} (hmax : max.value? = some b)
    (hb : b ≤ big.limit unsigned) : b ≤ (ofMax (some max) unsigned).limit unsigned := by
  have hlimit : ∀ w : IntegerWidth, w ≠ big →
      (Double.ofNat (w.limit unsigned)).value? = some (w.limit unsigned : ℚ) :=
    fun w hw => value?_limit hw unsigned
  unfold ofMax
  dsimp only
  split_ifs with htiny hsmall hint
  · exact (Double.le_iff hmax (hlimit tiny nofun)).1 htiny
  · exact (Double.le_iff hmax (hlimit small nofun)).1 hsmall
  · exact hb
  · exact not_lt.1 (mt (Double.lt_iff (hlimit int nofun) hmax).2 hint)

end IntegerWidth

/-! ## Rules -/

theorem ofRule?_eq_integer {rule : FieldRule} (hinteger : .integer ∈ rule.types)
    (hboolean : .boolean ∉ rule.types) : ColumnType.ofRule? rule =
      some (.integer (.ofMax rule.max rule.isUnsigned) rule.isUnsigned) := by
  unfold ColumnType.ofRule?
  rw [if_neg hboolean, if_pos hinteger]

theorem isUnsigned_eq {rule : FieldRule} {min : Double} {a : ℚ} (hmin : rule.min = some min)
    (ha : min.value? = some a) : rule.isUnsigned = decide (0 ≤ a) := by
  unfold FieldRule.isUnsigned
  rw [hmin]
  exact decide_eq_decide.2 (Double.le_iff Double.value?_zero ha)

/-- An integer field with finite bounds, both among the integers of 64 bits with or without a sign as
the minimum asks for, has an integer column. Of the integers between the bounds none is above the
greatest of the column, and those that are not below the least are held. Without a sign, or with 64
bits, all are. -/
theorem ofRule?_integers {rule : FieldRule} {min max : Double} {a b : ℚ}
    (hinteger : .integer ∈ rule.types) (hboolean : .boolean ∉ rule.types)
    (hmin : rule.min = some min) (hmax : rule.max = some max)
    (ha : min.value? = some a) (hb : max.value? = some b)
    (hlow : (IntegerRange.ofBits 64 (decide (0 ≤ a))).low ≤ a)
    (hhigh : b ≤ (IntegerRange.ofBits 64 (decide (0 ≤ a))).high) :
    ∃ width type range, ColumnType.ofRule? rule = some type ∧
      type = .integer width (decide (0 ≤ a)) ∧
      type.parts.text = type.sql ∧ type.parts.range? = some range ∧
      (∀ n : ℤ, a ≤ n → n ≤ b → n ≤ range.high ∧ (n ∈ range ↔ range.low ≤ n)) ∧
      (range.low ≤ a ∨ 0 ≤ a ∨ width = .big → ∀ n : ℤ, a ≤ n → n ≤ b → n ∈ range) := by
  have hunsigned := isUnsigned_eq hmin ha
  have htype := ofRule?_eq_integer hinteger hboolean
  rw [hunsigned, hmax] at htype
  generalize hwidth : IntegerWidth.ofMax (some max) (decide (0 ≤ a)) = width at htype
  rw [← IntegerWidth.range_big] at hlow hhigh
  have hreach : b ≤ (width.range (decide (0 ≤ a))).high :=
    hwidth ▸ IntegerWidth.le_limit_ofMax hb hhigh
  have hbelow : ∀ n : ℤ, n ≤ b → n ≤ (width.range (decide (0 ≤ a))).high :=
    fun n hn => Int.cast_le.1 (hn.trans hreach)
  refine ⟨width, _, width.range _, htype, rfl, ColumnType.text_parts _, width.range?_parts _,
    ?_, ?_⟩
  · intro n _ hn
    rw [IntegerRange.mem_iff]
    exact ⟨hbelow n hn, and_iff_left (hbelow n hn)⟩
  · intro hcase n hn hn'
    refine ⟨?_, hbelow n hn'⟩
    have hleast : (width.range (decide (0 ≤ a))).low ≤ a := by
      obtain hreaches | hsign | rfl := hcase
      · exact hreaches
      · simp [IntegerWidth.range, hsign]
      · exact hlow
    exact Int.cast_le.1 (hleast.trans hn)

/-- A rule with a minimum that the column for its maximum holds. -/
def altitude : FieldRule where
  types := ⟨[.null, .string, .integer]⟩
  min := some (.ofInt (-500))
  max := some (.ofInt 9000)

theorem ofRule?_integers_altitude :
    ∃ type range, ColumnType.ofRule? altitude = some type ∧ type.sql = "SMALLINT(6)" ∧
      type.parts.range? = some range ∧
      ∀ n : ℤ, (-500 : ℤ) ≤ (n : ℚ) → (n : ℚ) ≤ (9000 : ℤ) → n ∈ range := by
  have hinteger : .integer ∈ altitude.types := by decide
  have hboolean : .boolean ∉ altitude.types := by decide
  have hmin : (Double.ofInt (-500)).value? = some ((-500 : ℤ) : ℚ) :=
    Double.value?_ofInt (by decide)
  have hmax : (Double.ofInt 9000).value? = some ((9000 : ℤ) : ℚ) := Double.value?_ofInt (by decide)
  have hsign : decide ((0 : ℚ) ≤ (-500 : ℤ)) = false := by decide
  have hlow : ((IntegerRange.ofBits 64 false).low : ℚ) ≤ (-500 : ℤ) := Int.cast_le.2 (by decide)
  have hhigh : ((9000 : ℤ) : ℚ) ≤ (IntegerRange.ofBits 64 false).high := Int.cast_le.2 (by decide)
  obtain ⟨_, type, range, htype, -, -, hrange, -, hheld⟩ :=
    ofRule?_integers hinteger hboolean rfl rfl hmin hmax (hsign.symm ▸ hlow) (hsign.symm ▸ hhigh)
  have hsmall : ColumnType.ofRule? altitude = some (.integer .small false) := by decide +kernel
  obtain rfl : .integer .small false = type := Option.some.inj (hsmall.symm.trans htype)
  obtain rfl : ⟨-32768, 32767⟩ = range := Option.some.inj hrange
  exact ⟨_, _, htype, rfl, hrange, hheld (.inl (Int.cast_le.2 (by decide)))⟩

/-- A rule with a minimum below the range that is picked for its maximum. -/
def balance : FieldRule where
  types := .single .integer
  min := some (.ofInt (-200))
  max := some (.ofInt 100)

/-- An integer between the bounds that its column does not hold. -/
theorem ofRule?_balance : .integer ∈ balance.types ∧ .boolean ∉ balance.types ∧
    ∃ min max type range, balance.min = some min ∧ balance.max = some max ∧
    min.value? = some ((-200 : ℤ) : ℚ) ∧ max.value? = some ((100 : ℤ) : ℚ) ∧
    ColumnType.ofRule? balance = some type ∧ type.sql = "TINYINT(4)" ∧
    type.parts.range? = some range ∧ range = ⟨-128, 127⟩ ∧ -150 ∉ range :=
  ⟨by decide, by decide, .ofInt (-200), .ofInt 100, .integer .tiny false, ⟨-128, 127⟩, rfl, rfl,
    Double.value?_ofInt (by decide), Double.value?_ofInt (by decide), by decide +kernel, rfl, rfl,
    rfl, by decide⟩

end OrmDdl.Mysql
