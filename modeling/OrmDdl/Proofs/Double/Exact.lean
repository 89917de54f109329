import Mathlib.Algebra.Order.Field.Rat
import Mathlib.Algebra.Order.Field.Basic
import Mathlib.Data.Rat.Cast.Order
import OrmDdl.Double.Basic
/-!
# Exact values of doubles

A finite double is a rational number (`Double.value?`). The order of finite doubles is the order of
these numbers (`Double.le_iff`, `Double.lt_iff`), and a whole number of at most 53 bits is a double
without being rounded (`Double.value?_ofNat`, `Double.value?_ofInt`).
-/

namespace OrmDdl

namespace Double

/-! ## Values -/

theorem one_pos : 0 < one := by
  unfold one
  generalize 1074 = e
  exact Nat.two_pow_pos e

/-- The number that a finite double is. -/
def value? : Double → Option ℚ
  | finite negative units _ => some ((if negative then -units else units : ℤ) / one)
  | _ => none

theorem rank?_of_value? {x : Double} {a : ℚ} (h : x.value? = some a) :
    ∃ r : ℤ, x.rank? = some r ∧ a = r / one := by
  cases x with
  | nan | infinite => cases h
  | finite negative units hunits => exact ⟨_, rfl, (Option.some.inj h).symm⟩

section

variable {x y : Double} {a b : ℚ} (hx : x.value? = some a) (hy : y.value? = some b)

include hx hy

/-- Finite doubles are compared by their ranks, of which they are the same part. -/
theorem exists_related_eq : ∃ r s : ℤ, a = r / one ∧ b = s / one ∧ ∀ c, related c x y = c r s := by
  obtain ⟨r, hr, hra⟩ := rank?_of_value? hx
  obtain ⟨s, hs, hsb⟩ := rank?_of_value? hy
  refine ⟨r, s, hra, hsb, fun c => ?_⟩
  unfold related
  rw [hr, hs]

theorem le_iff : x ≤ y ↔ a ≤ b := by
  obtain ⟨r, s, rfl, rfl, hrelated⟩ := exists_related_eq hx hy
  have hone : (0 : ℚ) < one := Nat.cast_pos.2 one_pos
  show related _ x y = true ↔ _
  rw [hrelated, decide_eq_true_iff, div_le_div_iff_of_pos_right hone, Int.cast_le]

theorem lt_iff : x < y ↔ a < b := by
  obtain ⟨r, s, rfl, rfl, hrelated⟩ := exists_related_eq hx hy
  have hone : (0 : ℚ) < one := Nat.cast_pos.2 one_pos
  show related _ x y = true ↔ _
  rw [hrelated, decide_eq_true_iff, div_lt_div_iff_of_pos_right hone, Int.cast_lt]

end

/-! ## Whole numbers -/

/-- A quotient without a remainder is not rounded. -/
theorem roundQuotient_of_dvd {num den : Nat} (hden : 0 < den) (h : den ∣ num) :
    roundQuotient num den = num / den := by
  have hlt : compare (2 * (num % den)) den = .lt := by
    rw [Nat.mod_eq_zero_of_dvd h]
    exact compare_lt_iff_lt.2 hden
  unfold roundQuotient
  rw [hlt]

/-- With 53 significant bits, every unit of a whole number counts. -/
theorem spacing_dvd {n : Nat} (h : n < 2 ^ 53) (e : Nat) :
    spacing (n * Nat.pow 2 e) ∣ n * Nat.pow 2 e := by
  have hlog : (n * 2 ^ e).log2 - 52 ≤ e := by
    by_cases hn : n = 0
    · rw [hn, Nat.zero_mul, Nat.log2_zero]
      omega
    · have hlt : n * 2 ^ e < 2 ^ (53 + e) := by
        rw [Nat.pow_add]
        exact Nat.mul_lt_mul_of_pos_right h (Nat.two_pow_pos e)
      have := (Nat.log2_lt (Nat.mul_ne_zero hn (Nat.two_pow_pos e).ne')).2 hlt
      omega
  exact (Nat.pow_dvd_pow 2 hlog).trans (Nat.dvd_mul_left _ n)

/-- A natural number of at most 53 bits is a double. -/
theorem representable_mul_one {n : Nat} (h : n < 2 ^ 53) : Representable (n * one) := by
  have hexponents : 53 + 1074 ≤ 2098 := by decide
  unfold Representable one bound
  -- left as numerals, the exponents are evaluated in every unification
  generalize 1074 = e, 2098 = f at hexponents ⊢
  refine ⟨?_, spacing_dvd h e⟩
  calc n * 2 ^ e < 2 ^ 53 * 2 ^ e := Nat.mul_lt_mul_of_pos_right h (Nat.two_pow_pos e)
    _ = 2 ^ (53 + e) := (Nat.pow_add 2 53 e).symm
    _ ≤ 2 ^ f := Nat.pow_le_pow_right (by decide) hexponents

theorem ofRatio_one {n : Nat} (h : Representable (n * one)) (negative : Bool) :
    ofRatio negative n 1 = .finite negative (n * one) h := by
  have hpos : 0 < spacing (n * one) := Nat.pow_pos (by decide)
  unfold ofRatio ofUnits
  dsimp only
  rw [Nat.div_one, Nat.one_mul, roundQuotient_of_dvd hpos h.2, Nat.div_mul_cancel h.2, dif_pos h]

theorem value?_ofRatio_one {n : Nat} (h : n < 2 ^ 53) (negative : Bool) :
    (ofRatio negative n 1).value? = some ((if negative then -n else n : ℤ) : ℚ) := by
  have hone : (one : ℚ) ≠ 0 := Nat.cast_ne_zero.2 one_pos.ne'
  have hsigned : (if negative then -(n * one : Nat) else (n * one : Nat) : ℤ) =
      (if negative then -n else n : ℤ) * (one : Nat) := by
    cases negative
    · exact Nat.cast_mul n one
    · rw [if_pos rfl, if_pos rfl, Nat.cast_mul, neg_mul]
  rw [ofRatio_one (representable_mul_one h), value?, hsigned, Int.cast_mul, Int.cast_natCast,
    mul_div_cancel_right₀ _ hone]

theorem value?_ofNat {n : Nat} (h : n < 2 ^ 53) : (ofNat n).value? = some (n : ℚ) :=
  value?_ofRatio_one h false

theorem value?_ofInt {n : ℤ} (h : n.natAbs < 2 ^ 53) : (ofInt n).value? = some (n : ℚ) := by
  have hsigned : (if decide (n < 0) then -n.natAbs else n.natAbs : ℤ) = n := by
    simp only [decide_eq_true_eq]
    split <;> omega
  rw [ofInt, value?_ofRatio_one h, hsigned]

theorem value?_zero : zero.value? = some 0 := value?_ofNat (by decide)

end Double

end OrmDdl
