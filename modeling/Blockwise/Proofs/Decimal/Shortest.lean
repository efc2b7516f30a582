import Blockwise.Decimal.Shortest
import Blockwise.Proofs.Decimal

/-!
# The decimal of a double reads back

The interval around a magnitude holds the decimals whose values the magnitude covers.  A power of
ten that is no longer than a quarter of its unit has a multiple in the interval, and the search
comes to such a power before its steps run out, so that what it finds is rounded to the magnitude
again.
-/

namespace Blockwise
namespace Decimal

open Double (Covers mantissa reach mantissa_pos)

variable {m n k steps : Nat} {e : Int} {d : Decimal} {i : Interval}

theorem pow_toNat_div {b : ℚ} (hb : b ≠ 0) (e : Int) : b ^ e.toNat / b ^ (-e).toNat = b ^ e := by
  rw [← zpow_natCast, ← zpow_natCast, ← zpow_sub₀ hb, Int.toNat_sub_toNat_neg]

/-!
# Intervals

The whole numbers of an interval below its value are all those from one of them on, and the ones
above it are all those up to one of them.  So one of them is next to the value.
-/

namespace Interval

theorem inUnits_zero (i : Interval) : i.inUnits 0 = i := by
  simp [inUnits]

theorem has_below (hvalue : i.value < i.high) (h : i.has n = true) (hle : n ≤ k)
    (hbelow : k * i.denominator ≤ i.value) : i.has k = true := by
  have hpoints : n * i.denominator ≤ k * i.denominator := Nat.mul_le_mul_right _ hle
  cases hclosed : i.closed <;>
    simp only [has, hclosed, if_true, if_false, Bool.false_eq_true, Bool.and_eq_true,
      decide_eq_true_eq] at h ⊢ <;>
    omega

theorem has_above (hvalue : i.low ≤ i.value) (h : i.has n = true) (hle : k ≤ n)
    (habove : i.value < k * i.denominator) : i.has k = true := by
  have hpoints : k * i.denominator ≤ n * i.denominator := Nat.mul_le_mul_right _ hle
  cases hclosed : i.closed <;>
    simp only [has, hclosed, if_true, if_false, Bool.false_eq_true, Bool.and_eq_true,
      decide_eq_true_eq] at h ⊢ <;>
    omega

theorem has_of_whole? (h : i.whole? = some n) : i.has n = true := by
  simp only [whole?] at h
  split at h
  · next hdown hup =>
      cases h
      split
      · exact hup
      · exact hdown
  · next hdown _ =>
      cases h
      exact hdown
  · next _ hup =>
      cases h
      exact hup
  · cases h

theorem isSome_whole? (hlow : i.low ≤ i.value) (hhigh : i.value < i.high)
    (hpos : 0 < i.denominator) (h : i.has n = true) : i.whole?.isSome = true := by
  have hneighbour : i.has (i.value / i.denominator) = true ∨
      i.has (i.value / i.denominator + 1) = true := by
    rcases Nat.lt_or_ge (i.value / i.denominator) n with hmore | hless
    · refine Or.inr (has_above hlow h hmore ?_)
      rw [Nat.mul_comm]
      exact Nat.lt_mul_div_succ i.value hpos
    · exact Or.inl (has_below hhigh h hless (Nat.div_mul_le_self _ _))
  simp only [whole?]
  split
  · rfl
  · rfl
  · rfl
  · next hdown hup =>
      rw [hdown, hup] at hneighbour
      rcases hneighbour with hfalse | hfalse
      · cases hfalse
      · cases hfalse

/-!
# Around a magnitude

The interval around a magnitude is counted in units of a power of ten.  Its whole numbers are the
decimals whose values the magnitude covers.
-/

def grain (m : Nat) (e : Int) : ℚ :=
  ((around m).inUnits e).denominator / 10 ^ e

theorem denominator_pos (m : Nat) (e : Int) : 0 < ((around m).inUnits e).denominator := by
  simp only [inUnits, around, Nat.pow_eq]
  positivity

theorem grain_pos (m : Nat) (e : Int) : 0 < grain m e := by
  have hpos : (0 : ℚ) < ((around m).inUnits e).denominator := by
    exact_mod_cast denominator_pos m e
  unfold grain
  positivity

theorem grain_eq (m : Nat) (e : Int) :
    4 * 2 ^ (Double.exponent m).toNat * 10 ^ (-e).toNat = 2 ^ Double.exponent m * grain m e := by
  have htwo := pow_toNat_div (two_ne_zero : (2 : ℚ) ≠ 0) (Double.exponent m)
  have hten := pow_toNat_div (by norm_num : (10 : ℚ) ≠ 0) e
  rw [← htwo, grain, ← hten]
  simp only [inUnits, around, Nat.pow_eq]
  push_cast
  field_simp

theorem low_eq (hm : 0 < m) (e : Int) : (((around m).inUnits e).low : ℚ) =
    (mantissa m - reach m) * 2 ^ Double.exponent m * grain m e := by
  have hmantissa := mantissa_pos hm
  rw [mul_assoc, ← grain_eq]
  simp only [inUnits, around, reach, Nat.pow_eq]
  split
  all_goals
    rw [Nat.cast_mul, Nat.cast_mul, Nat.cast_sub (by omega)]
    push_cast
    ring

theorem value_eq (m : Nat) (e : Int) : (((around m).inUnits e).value : ℚ) =
    mantissa m * 2 ^ Double.exponent m * grain m e := by
  rw [mul_assoc, ← grain_eq]
  simp only [inUnits, around, Nat.pow_eq]
  push_cast
  ring

theorem high_eq (m : Nat) (e : Int) : (((around m).inUnits e).high : ℚ) =
    (mantissa m + 1 / 2) * 2 ^ Double.exponent m * grain m e := by
  rw [mul_assoc, ← grain_eq]
  simp only [inUnits, around, Nat.pow_eq]
  push_cast
  ring

theorem point_eq (m n : Nat) (e : Int) :
    ((n * ((around m).inUnits e).denominator : Nat) : ℚ) =
      Decimal.value ⟨n, e⟩ * grain m e := by
  rw [Nat.cast_mul, grain, Decimal.value]
  field_simp

theorem low_le_value (m : Nat) (e : Int) :
    ((around m).inUnits e).low ≤ ((around m).inUnits e).value := by
  simp only [inUnits, around]
  gcongr
  exact Nat.sub_le _ _

theorem value_lt_high (m : Nat) (e : Int) :
    ((around m).inUnits e).value < ((around m).inUnits e).high := by
  simp only [inUnits, around, Nat.pow_eq]
  gcongr
  omega

theorem compare_of_scaled {p q : Nat} {x y g : ℚ} (hg : 0 < g) (hp : (p : ℚ) = x * g)
    (hq : (q : ℚ) = y * g) : (p ≤ q ↔ x ≤ y) ∧ (p < q ↔ x < y) := by
  rw [← Nat.cast_le (α := ℚ), ← Nat.cast_lt (α := ℚ), hp, hq]
  exact ⟨mul_le_mul_iff_of_pos_right hg, mul_lt_mul_iff_of_pos_right hg⟩

theorem has_iff (hm : 0 < m) (n : Nat) (e : Int) :
    ((around m).inUnits e).has n = true ↔ Covers m (Decimal.value ⟨n, e⟩) := by
  have hpoint := point_eq m n e
  have hlow := compare_of_scaled (grain_pos m e) (low_eq hm e) hpoint
  have hhigh := compare_of_scaled (grain_pos m e) hpoint (high_eq m e)
  have hclosed : ((around m).inUnits e).closed = decide (mantissa m % 2 = 0) := rfl
  unfold has
  rw [hclosed]
  simp only [decide_eq_true_eq]
  split
  · next heven =>
      simp only [Bool.and_eq_true, decide_eq_true_eq, hlow.1, hhigh.1]
      exact ⟨fun h => ⟨h.1, h.2, Or.inl heven⟩, fun h => ⟨h.low, h.high⟩⟩
  · next hodd =>
      simp only [Bool.and_eq_true, decide_eq_true_eq, hlow.2, hhigh.2]
      exact ⟨fun h => ⟨h.1.le, h.2.le, Or.inr h⟩, fun h => h.tie.resolve_left hodd⟩

end Interval

/-!
# The search

A power of ten within a quarter of the unit has a multiple that the magnitude covers, and the search
starts less than seventeen powers of ten above it.
-/

open Decimal.Interval (around)

theorem has_of_search (h : search i e steps = some d) :
    (i.inUnits d.exponent).has d.coefficient = true := by
  induction steps generalizing e with
  | zero => cases h
  | succ steps ih =>
      unfold search at h
      split at h
      · next n hfound =>
          cases h
          exact Interval.has_of_whole? hfound
      · exact ih h

theorem isSome_search (hk : k < steps) (h : (i.inUnits (e - k)).whole?.isSome = true) :
    (search i e steps).isSome = true := by
  induction steps generalizing e k with
  | zero => cases hk
  | succ steps ih =>
      unfold search
      split
      · rfl
      · next hnone =>
          cases k with
          | zero =>
              rw [Nat.cast_zero, sub_zero, hnone] at h
              cases h
          | succ k =>
              apply ih (Nat.lt_of_succ_lt_succ hk)
              rwa [sub_sub, add_comm 1, ← Nat.cast_succ]

theorem covers_floor (hunit : (4 * 10 ^ e : ℚ) ≤ 2 ^ Double.exponent m)
    (hn : n = ⌊(mantissa m * 2 ^ Double.exponent m / 10 ^ e : ℚ)⌋₊) :
    Covers m (value ⟨n, e⟩) := by
  have hten : (0 : ℚ) < 10 ^ e := by positivity
  have htwo : (0 : ℚ) < 2 ^ Double.exponent m := by positivity
  have hfloor : (value ⟨n, e⟩ : ℚ) ≤ mantissa m * 2 ^ Double.exponent m := by
    rw [value, ← le_div_iff₀ hten, hn]
    exact Nat.floor_le (by positivity)
  have hnext : (mantissa m * 2 ^ Double.exponent m : ℚ) < value ⟨n, e⟩ + 10 ^ e := by
    rw [value, ← add_one_mul, ← div_lt_iff₀ hten, hn]
    exact Nat.lt_floor_add_one _
  have hreach : (1 / 4 : ℚ) * 2 ^ Double.exponent m ≤ reach m * 2 ^ Double.exponent m := by
    gcongr
    unfold reach
    split <;> norm_num
  have hlow : (mantissa m - reach m) * 2 ^ Double.exponent m < value ⟨n, e⟩ := by linarith
  have hhigh : value ⟨n, e⟩ < (mantissa m + 1 / 2) * 2 ^ Double.exponent m := by linarith
  exact ⟨hlow.le, hhigh.le, Or.inr ⟨hlow, hhigh⟩⟩

theorem pow_length_value_le (hm : 0 < m) :
    (10 : ℚ) ^ (((Nat.toDigits 10 (around m).value).length : Int) - 1) ≤
      2 ^ (53 : Int) * 2 ^ Double.exponent m *
        10 ^ ((Nat.toDigits 10 (around m).denominator).length : Int) := by
  have hvalue : ((around m).value : ℚ) =
      mantissa m * 2 ^ Double.exponent m * (around m).denominator := by
    have hunits := Interval.value_eq m 0
    rwa [Interval.grain, Interval.inUnits_zero, zpow_zero, div_one] at hunits
  have hpos : 0 < (around m).value := by
    have hmantissa := mantissa_pos hm
    simp only [around, Nat.pow_eq]
    positivity
  have hmantissa : (mantissa m : ℚ) ≤ 2 ^ (53 : Int) := by
    have hlong := (Double.magnitude_eq m).2.2.1
    exact_mod_cast hlong.le
  calc _ ≤ ((around m).value : ℚ) := pow_length_le hpos
    _ = mantissa m * 2 ^ Double.exponent m * (around m).denominator := hvalue
    _ ≤ _ := by
        gcongr
        exact (lt_pow_length _).le

theorem search_reaches_unit (hm : 0 < m) :
    (4 * 10 ^ (((Nat.toDigits 10 (around m).value).length : Int) -
      (Nat.toDigits 10 (around m).denominator).length + 1 - (19 : Nat)) : ℚ) ≤
        2 ^ Double.exponent m := by
  have hten : (10 : ℚ) ≠ 0 := by norm_num
  have hdigits := pow_length_value_le hm
  have hpowers : (4 * 2 ^ (53 : Int) : ℚ) ≤ 10 ^ (17 : Int) := by norm_num
  generalize ((Nat.toDigits 10 (around m).value).length : Int) = above at hdigits ⊢
  generalize ((Nat.toDigits 10 (around m).denominator).length : Int) = below at hdigits ⊢
  have hplaces : above - below + 1 - (19 : Nat) = above - 1 - below - 17 := by
    push_cast
    ring
  rw [hplaces, zpow_sub₀ hten _ 17, zpow_sub₀ hten _ below, ← mul_div_assoc, ← mul_div_assoc,
    div_le_iff₀ (by positivity), div_le_iff₀ (by positivity)]
  calc (4 * 10 ^ (above - 1) : ℚ) ≤ 4 * (2 ^ (53 : Int) * 2 ^ Double.exponent m * 10 ^ below) :=
        mul_le_mul_of_nonneg_left hdigits (by norm_num)
    _ = 4 * 2 ^ (53 : Int) * (2 ^ Double.exponent m * 10 ^ below) := by ring
    _ ≤ 10 ^ (17 : Int) * (2 ^ Double.exponent m * 10 ^ below) :=
        mul_le_mul_of_nonneg_right hpowers (by positivity)
    _ = 2 ^ Double.exponent m * 10 ^ (17 : Int) * 10 ^ below := by ring

theorem covers_shortest (hm : 0 < m) : Covers m (shortest m).value := by
  have hcovers := covers_floor (search_reaches_unit hm) rfl
  have hwhole := Interval.isSome_whole? (Interval.low_le_value m _) (Interval.value_lt_high m _)
    (Interval.denominator_pos m _) ((Interval.has_iff hm _ _).mpr hcovers)
  have hfound := isSome_search (by decide : 19 < 20) hwhole
  rcases Option.isSome_iff_exists.mp hfound with ⟨d, hd⟩
  have hshortest : shortest m = d := by
    simp only [shortest, hm.ne', if_false, hd, Option.getD_some]
  rw [hshortest]
  exact (Interval.has_iff hm d.coefficient d.exponent).mp (has_of_search hd)

/-- A decimal with the value of the shortest one of a finite magnitude reads back to it. -/
theorem magnitude_of_value_shortest (hfinite : m < Double.infinity)
    (h : d.value = (shortest m).value) : d.magnitude = m := by
  rcases Nat.eq_zero_or_pos m with rfl | hm
  · have hzero : d.value = 0 := by simpa [shortest, value] using h
    have hpower : (10 : ℚ) ^ d.exponent ≠ 0 := zpow_ne_zero _ (by norm_num)
    have hcoefficient : d.coefficient = 0 :=
      Nat.cast_eq_zero.mp ((mul_eq_zero.mp hzero).resolve_right hpower)
    simp [magnitude, hcoefficient]
  · have hcovers := covers_shortest hm
    rw [← h] at hcovers
    exact magnitude_of_covers hm hfinite hcovers

end Decimal
end Blockwise
