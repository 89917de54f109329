import OrmDdl.Proofs.Mysql.IntegerRange
/-!
# The narrowest class of integers

`IntegerWidth.ofMax_narrowest`: a bound gets the narrowest class of integer columns that reaches up
to it, and the widest if no other does. Which class that is depends on the classes that reach the
bound and on nothing else, so fewer of them never make the class narrower
(`IsNarrowest.bits_le`): a greater bound has fewer, and so has a sign.
-/

namespace OrmDdl.Mysql

namespace IntegerWidth

/-! ## Bits and limits -/

/-- The number of bits of the integers of a class. -/
def bits : IntegerWidth → Nat
  | tiny => 8
  | small => 16
  | int => 32
  | big => 64

/-- The greatest integer that the bits of a class hold. -/
def upper (w : IntegerWidth) (unsigned : Bool) : ℤ := (IntegerRange.ofBits w.bits unsigned).high

theorem limit_eq_upper (w : IntegerWidth) (unsigned : Bool) :
    (w.limit unsigned : ℤ) = w.upper unsigned := by
  cases w <;> cases unsigned <;> rfl

/-- Without a sign a class reaches further. -/
theorem upper_signed_le (w : IntegerWidth) : w.upper false ≤ w.upper true := by
  cases w <;> decide

theorem bits_le_big (w : IntegerWidth) : w.bits ≤ big.bits := by
  cases w <;> decide

theorem bits_injective {v w : IntegerWidth} (h : v.bits = w.bits) : v = w := by
  cases v <;> cases w <;> first | rfl | cases h

/-! ## The narrowest class -/

/-- The class reaches up to the number, if it is not the widest, and no other that does is
narrower. -/
structure IsNarrowest (w : IntegerWidth) (unsigned : Bool) (b : ℚ) : Prop where
  reaches : w ≠ big → b ≤ w.upper unsigned
  least : ∀ v, v ≠ big → b ≤ v.upper unsigned → w.bits ≤ v.bits

namespace IsNarrowest

variable {w w' : IntegerWidth} {unsigned unsigned' : Bool} {b b' : ℚ}

/-- Where fewer classes reach up to the number, the narrowest of them is no narrower. -/
theorem bits_le (h : w.IsNarrowest unsigned b) (h' : w'.IsNarrowest unsigned' b')
    (hreach : ∀ v : IntegerWidth, b' ≤ v.upper unsigned' → b ≤ v.upper unsigned) :
    w.bits ≤ w'.bits := by
  by_cases hbig : w' = big
  · rw [hbig]
    exact w.bits_le_big
  · exact h.least w' hbig (hreach w' (h'.reaches hbig))

theorem unique (h : w.IsNarrowest unsigned b) (h' : w'.IsNarrowest unsigned b) : w = w' :=
  bits_injective (le_antisymm (h.bits_le h' fun _ => id) (h'.bits_le h fun _ => id))

/-- The widest class is the narrowest for what no other class reaches. -/
theorem big_iff : big.IsNarrowest unsigned b ↔ ∀ w, w ≠ big → w.upper unsigned < b := by
  constructor
  · intro h w hw
    refine not_le.1 fun hb => hw (bits_injective ?_)
    exact le_antisymm w.bits_le_big (h.least w hw hb)
  · intro h
    exact ⟨fun hbig => absurd rfl hbig, fun v hv hb => absurd hb (not_le.2 (h v hv))⟩

end IsNarrowest

/-! ## The class of a bound -/

section

variable {max : Double} {b : ℚ} (hmax : max.value? = some b) (unsigned : Bool)

include hmax

theorem le_limit_iff {w : IntegerWidth} (hw : w ≠ big) :
    max ≤ .ofNat (w.limit unsigned) ↔ b ≤ w.upper unsigned := by
  rw [Double.le_iff hmax (value?_limit hw unsigned), ← limit_eq_upper, Int.cast_natCast]

theorem limit_lt_iff {w : IntegerWidth} (hw : w ≠ big) :
    .ofNat (w.limit unsigned) < max ↔ w.upper unsigned < b := by
  rw [Double.lt_iff (value?_limit hw unsigned) hmax, ← limit_eq_upper, Int.cast_natCast]

/-- The tests leave no gap: what is not above the last limit is at most that limit. -/
theorem isNarrowest_ofMax : (ofMax (some max) unsigned).IsNarrowest unsigned b := by
  have htiny := le_limit_iff hmax unsigned (w := tiny) (by decide)
  have hsmall := le_limit_iff hmax unsigned (w := small) (by decide)
  have hint := limit_lt_iff hmax unsigned (w := int) (by decide)
  unfold ofMax
  dsimp only
  split_ifs with h₁ h₂ h₃
  · exact ⟨fun _ => htiny.1 h₁, fun v _ _ => by cases v <;> decide⟩
  · refine ⟨fun _ => hsmall.1 h₂, fun v _ hv => ?_⟩
    cases v with
    | tiny => exact absurd (htiny.2 hv) h₁
    | small | int | big => decide
  · refine IsNarrowest.big_iff.2 fun v hv => ?_
    cases v with
    | tiny => exact not_le.1 (mt htiny.2 h₁)
    | small => exact not_le.1 (mt hsmall.2 h₂)
    | int => exact hint.1 h₃
    | big => exact absurd rfl hv
  · refine ⟨fun _ => not_lt.1 (mt hint.2 h₃), fun v _ hv => ?_⟩
    cases v with
    | tiny => exact absurd (htiny.2 hv) h₁
    | small => exact absurd (hsmall.2 hv) h₂
    | int | big => decide

/-- The class of a finite bound is the narrowest that reaches up to it, and the widest exactly if no
other does. It grows with the bound, and without a sign it is no wider. -/
theorem ofMax_narrowest :
    (∀ w, ofMax (some max) unsigned = w ↔ w.IsNarrowest unsigned b) ∧
      (ofMax (some max) unsigned = big ↔ ∀ w, w ≠ big → w.upper unsigned < b) ∧
      (∀ max' b', max'.value? = some b' → b ≤ b' →
        (ofMax (some max) unsigned).bits ≤ (ofMax (some max') unsigned).bits) ∧
      (ofMax (some max) true).bits ≤ (ofMax (some max) false).bits := by
  have hnarrowest := isNarrowest_ofMax hmax
  have hiff : ∀ w, ofMax (some max) unsigned = w ↔ w.IsNarrowest unsigned b := by
    refine fun w => ⟨?_, (hnarrowest unsigned).unique⟩
    rintro rfl
    exact hnarrowest unsigned
  refine ⟨hiff, (hiff big).trans IsNarrowest.big_iff, fun max' b' hmax' hb => ?_, ?_⟩
  · exact (hnarrowest unsigned).bits_le (isNarrowest_ofMax hmax' unsigned) fun _ => hb.trans
  · refine (hnarrowest true).bits_le (hnarrowest false) fun v hv => hv.trans ?_
    exact Int.cast_le.2 v.upper_signed_le

end

/-- A bound between two whole numbers, the lower of which is a limit. -/
theorem ofMax_narrowest_half : (Double.ofRatio false 255 2).value? = some (255 / 2) ∧
    ofMax (some (.ofRatio false 255 2)) true = tiny ∧
    ofMax (some (.ofRatio false 255 2)) false = small := by
  have hvalue : (Double.ofRatio false 255 2).value? = some (255 / 2) := by decide +kernel
  have hbyte : (255 / 2 : ℚ) ≤ tiny.upper true := by decide +kernel
  have hword : (255 / 2 : ℚ) ≤ small.upper false := by decide +kernel
  have hsign : ¬(255 / 2 : ℚ) ≤ tiny.upper false := by decide +kernel
  obtain ⟨hunsigned, -⟩ := ofMax_narrowest hvalue true
  obtain ⟨hsigned, -⟩ := ofMax_narrowest hvalue false
  refine ⟨hvalue, (hunsigned tiny).2 ⟨fun _ => hbyte, fun v _ _ => ?_⟩,
    (hsigned small).2 ⟨fun _ => hword, fun v _ hv => ?_⟩⟩
  · cases v <;> decide
  · cases v with
    | tiny => exact absurd hv hsign
    | small | int | big => decide

end IntegerWidth

end OrmDdl.Mysql
