import Blockwise.Decimal
import Blockwise.Proofs.Double.Rounding

/-!
# Decimals and the doubles they are rounded to

A decimal is rounded to the magnitude that covers its value.  The two tests that keep its powers
of ten small never decide otherwise: the values that finite magnitudes cover lie well between
the two.
-/

namespace Blockwise
namespace Decimal

open Double (Covers)

variable {m n : Nat} {d : Decimal}

/-!
# Numbers and their digits

How many digits a number has says which powers of ten it lies between.
-/

theorem lt_pow_length (n : Nat) : (n : ℚ) < 10 ^ ((Nat.toDigits 10 n).length : Int) := by
  have hlt : n < 10 ^ (Nat.toDigits 10 n).length :=
    (Nat.length_toDigits_le_iff (by decide) Nat.length_toDigits_pos).mp (Nat.le_refl _)
  exact_mod_cast hlt

theorem pow_length_le (hn : 0 < n) : (10 : ℚ) ^ ((Nat.toDigits 10 n).length - 1 : Int) ≤ n := by
  have hlength : 0 < (Nat.toDigits 10 n).length := Nat.length_toDigits_pos
  have hle : 10 ^ ((Nat.toDigits 10 n).length - 1) ≤ n := by
    rcases Nat.eq_or_lt_of_le (Nat.succ_le_of_lt hlength) with hone | hmore
    · rw [← hone]
      exact hn
    · by_contra hlt
      have hshort : (Nat.toDigits 10 n).length ≤ (Nat.toDigits 10 n).length - 1 :=
        (Nat.length_toDigits_le_iff (by decide) (Nat.sub_pos_of_lt hmore)).mpr (Nat.not_le.mp hlt)
      exact absurd hshort (Nat.not_le.mpr (Nat.sub_lt hlength Nat.one_pos))
  have hcast : ((Nat.toDigits 10 n).length - 1 : Int) = ((Nat.toDigits 10 n).length - 1 : Nat) :=
    (Nat.cast_pred hlength).symm
  rw [hcast, zpow_natCast]
  exact_mod_cast hle

/-!
# Values

How many places a decimal has before its point gives the size of its value.
-/

def value (d : Decimal) : ℚ :=
  d.coefficient * 10 ^ d.exponent

theorem value_natural (n : Nat) : value ⟨n, 0⟩ = n := by
  rw [value, zpow_zero, mul_one]

theorem value_of_nonneg (h : 0 ≤ d.exponent) :
    d.value = (d.coefficient * Nat.pow 10 d.exponent.toNat : Nat) / (1 : Nat) := by
  rw [value, Nat.cast_mul, Nat.pow_eq, Nat.cast_pow, ← zpow_natCast, Int.toNat_of_nonneg h,
    Nat.cast_one, div_one]
  rfl

theorem value_of_neg (h : ¬0 ≤ d.exponent) :
    d.value = d.coefficient / (Nat.pow 10 (-d.exponent).toNat : Nat) := by
  rw [value, Nat.pow_eq, Nat.cast_pow, ← zpow_natCast, Int.toNat_of_nonneg (by omega), zpow_neg,
    div_inv_eq_mul]
  rfl

theorem value_lt (d : Decimal) :
    d.value < 10 ^ ((Nat.toDigits 10 d.coefficient).length + d.exponent) := by
  rw [zpow_add₀ (by norm_num : (10 : ℚ) ≠ 0)]
  exact mul_lt_mul_of_pos_right (lt_pow_length d.coefficient) (by positivity)

theorem le_value (h : 0 < d.coefficient) :
    10 ^ ((Nat.toDigits 10 d.coefficient).length + d.exponent - 1) ≤ d.value := by
  have hplaces : (Nat.toDigits 10 d.coefficient).length + d.exponent - 1 =
      ((Nat.toDigits 10 d.coefficient).length - 1 : Int) + d.exponent := by ring
  rw [hplaces, zpow_add₀ (by norm_num : (10 : ℚ) ≠ 0)]
  exact mul_le_mul_of_nonneg_right (pow_length_le h) (by positivity)

/-!
# Rounding

A decimal whose value is covered by a finite magnitude is not taken for infinite, and one whose
value is covered by a positive magnitude is not taken for zero.  So it is rounded to the magnitude.
-/

theorem magnitude_zero (e : Int) : magnitude ⟨0, e⟩ = 0 := by
  simp [magnitude]

theorem places_lt (hfinite : m < Double.infinity) (h : Covers m d.value)
    (hcoefficient : 0 < d.coefficient) :
    (Nat.toDigits 10 d.coefficient).length + d.exponent - 1 < 309 := by
  apply (zpow_lt_zpow_iff_right₀ (by norm_num : (1 : ℚ) < 10)).mp
  calc (10 : ℚ) ^ ((Nat.toDigits 10 d.coefficient).length + d.exponent - 1) ≤ d.value :=
        le_value hcoefficient
    _ < 2 ^ (1024 : Int) := h.lt_limit hfinite
    _ < 10 ^ (309 : Int) := by
        have hpowers : 2 ^ 1024 < 10 ^ 309 := by decide +kernel
        exact_mod_cast hpowers

theorem lt_places (hm : 0 < m) (h : Covers m d.value) :
    -324 < (Nat.toDigits 10 d.coefficient).length + d.exponent := by
  apply (zpow_lt_zpow_iff_right₀ (by norm_num : (1 : ℚ) < 10)).mp
  calc (10 : ℚ) ^ (-324 : Int) < 2 ^ (-1075 : Int) := by
        have hpowers : 2 ^ 1075 < 10 ^ 324 := by decide +kernel
        rw [zpow_neg, zpow_neg]
        apply inv_strictAnti₀ (by positivity)
        exact_mod_cast hpowers
    _ ≤ d.value := h.least_le hm
    _ < 10 ^ ((Nat.toDigits 10 d.coefficient).length + d.exponent) := value_lt d

/-- A decimal is rounded to the magnitude that covers its value. -/
theorem magnitude_of_covers (hm : 0 < m) (hfinite : m < Double.infinity)
    (h : Covers m d.value) : d.magnitude = m := by
  have hcoefficient : d.coefficient ≠ 0 := by
    intro hzero
    have hpos := h.pos hm
    rw [value, hzero, Nat.cast_zero, zero_mul] at hpos
    exact lt_irrefl 0 hpos
  have hupper := places_lt hfinite h (Nat.pos_of_ne_zero hcoefficient)
  have hlower := lt_places hm h
  unfold magnitude
  simp only [hcoefficient, if_false]
  rw [if_neg (by omega), if_neg (by omega)]
  split
  · next hnonneg =>
      rw [value_of_nonneg hnonneg] at h
      exact Double.nearest_of_covers hm hfinite Nat.one_pos h
  · next hneg =>
      rw [value_of_neg hneg] at h
      exact Double.nearest_of_covers hm hfinite (Nat.pow_pos (by decide)) h

theorem magnitude_natural (h : (Nat.toDigits 10 n).length ≤ 310) :
    magnitude ⟨n, 0⟩ = Double.nearest n 1 := by
  by_cases hn : n = 0
  · rw [hn, magnitude_zero, Double.nearest_zero]
  · unfold magnitude
    simp only [hn, if_false]
    rw [if_neg (by omega), if_neg (by omega)]
    simp

end Decimal
end Blockwise
