import Blockwise.Double
import Mathlib

/-!
# The nearest double

The fractions that are nearer to one double than to its neighbours make an interval around its
value, with the ends if the mantissa is even.  Every fraction in this interval is rounded to the
magnitude of the double, whatever its numerator and denominator are.
-/

namespace Blockwise
namespace Double

variable {num den n d k m : Nat} {e : Int}

/-!
# Rounding to a whole number

A number is near to a whole number that is at most a half away; a half goes to it only if it is
even.  It is rounded to the whole number that it is near to.
-/

theorem multiple_cases (k q d : Nat) :
    k * d + d ≤ q * d ∨ k = q ∨ k = q + 1 ∨ q * d + 2 * d ≤ k * d := by
  rcases Nat.lt_or_ge k q with hless | hmore
  · refine Or.inl ?_
    calc k * d + d = (k + 1) * d := (Nat.succ_mul k d).symm
      _ ≤ q * d := Nat.mul_le_mul_right d hless
  · rcases Nat.lt_or_ge (q + 1) k with hfar | hnear
    · refine Or.inr (Or.inr (Or.inr ?_))
      calc q * d + 2 * d = (q + 2) * d := (Nat.add_mul q 2 d).symm
        _ ≤ k * d := Nat.mul_le_mul_right d hfar
    · omega

structure Near (x : ℚ) (k : Nat) : Prop where
  low : (k - 1 / 2 : ℚ) ≤ x
  high : x ≤ k + 1 / 2
  tie : k % 2 = 0 ∨ (k - 1 / 2 : ℚ) < x ∧ x < k + 1 / 2

theorem roundHalfEven_of_near (hd : 0 < d) (h : Near ((n : ℚ) / d) k) : roundHalfEven n d = k := by
  have hd' : (0 : ℚ) < d := Nat.cast_pos.mpr hd
  have hlow : 2 * (k * d) ≤ 2 * n + d := by
    have hle := (le_div_iff₀ hd').mp h.low
    have hle' : (2 * (k * d) : ℚ) ≤ 2 * n + d := by linarith
    exact_mod_cast hle'
  have hhigh : 2 * n ≤ 2 * (k * d) + d := by
    have hle := (div_le_iff₀ hd').mp h.high
    have hle' : (2 * n : ℚ) ≤ 2 * (k * d) + d := by linarith
    exact_mod_cast hle'
  have htie : k % 2 = 0 ∨ 2 * (k * d) < 2 * n + d ∧ 2 * n < 2 * (k * d) + d := by
    refine h.tie.imp_right ?_
    intro hstrict
    have hless := (lt_div_iff₀ hd').mp hstrict.1
    have hmore := (div_lt_iff₀ hd').mp hstrict.2
    have hless' : (2 * (k * d) : ℚ) < 2 * n + d := by linarith
    have hmore' : (2 * n : ℚ) < 2 * (k * d) + d := by linarith
    exact ⟨by exact_mod_cast hless', by exact_mod_cast hmore'⟩
  have hparts : n / d * d + n % d = n := by
    rw [Nat.mul_comm]
    exact Nat.div_add_mod n d
  have hrest : n % d < d := Nat.mod_lt n hd
  simp only [roundHalfEven]
  rcases multiple_cases k (n / d) d with hbelow | hsame | hnext | habove
  · omega
  · -- the quotient itself: less than a half is left, or a half and the quotient is even
    rw [← hsame] at hparts ⊢
    split
    · rfl
    · split <;> omega
  · -- the number after the quotient: more than a half is left, or a half and the quotient is odd
    have hstep : k * d = n / d * d + d := by rw [hnext, Nat.succ_mul]
    split
    · omega
    · split <;> omega
  · omega

theorem roundHalfEven_le (h : n ≤ k * d) : roundHalfEven n d ≤ k := by
  rcases Nat.eq_zero_or_pos d with rfl | hd
  · rw [Nat.mul_zero, Nat.le_zero] at h
    subst h
    simp [roundHalfEven]
  · have hparts : n / d * d + n % d = n := by
      rw [Nat.mul_comm]
      exact Nat.div_add_mod n d
    have hquotient : n / d ≤ k := Nat.div_le_of_le_mul (by rwa [Nat.mul_comm])
    rcases Nat.eq_or_lt_of_le hquotient with hsame | hless
    · have hexact : n % d = 0 := by
        rw [hsame] at hparts
        omega
      simp [roundHalfEven, hexact, hd, hsame]
    · have hparity : n / d % 2 < 2 := Nat.mod_lt _ (by decide)
      simp only [roundHalfEven]
      split
      · omega
      · split <;> omega

/-!
# Fractions and powers of two

The logarithm of a fraction, guessed from the lengths of its parts, is right or one too high.  A
look at the fraction, scaled by that power of two, tells which.
-/

theorem scale_pos (hden : 0 < den) (num : Nat) (e : Int) : 0 < (scale num den e).2 := by
  unfold scale
  split
  · exact Nat.mul_pos hden (Nat.pow_pos (by decide))
  · exact hden

theorem scale_eq (num den : Nat) (e : Int) :
    ((scale num den e).1 : ℚ) / (scale num den e).2 = num / den / 2 ^ e := by
  unfold scale
  split
  · next hup =>
      have hpower : ((Nat.pow 2 e.toNat : Nat) : ℚ) = 2 ^ e := by
        rw [Nat.pow_eq, Nat.cast_pow, ← zpow_natCast, Int.toNat_of_nonneg hup]
        rfl
      rw [Nat.cast_mul, hpower, div_div]
  · next hdown =>
      have hpower : ((Nat.pow 2 (-e).toNat : Nat) : ℚ) = (2 ^ e)⁻¹ := by
        rw [Nat.pow_eq, Nat.cast_pow, ← zpow_natCast, Int.toNat_of_nonneg (by omega), zpow_neg]
        rfl
      rw [Nat.cast_mul, hpower]
      ring

theorem ratio_log2_bounds (hnum : 0 < num) (hden : 0 < den) :
    (2 : ℚ) ^ ((num.log2 : Int) - den.log2 - 1) ≤ num / den ∧
      (num / den : ℚ) < 2 ^ ((num.log2 : Int) - den.log2 + 1) := by
  have hden' : (0 : ℚ) < den := Nat.cast_pos.mpr hden
  have hnumLow : (2 : ℚ) ^ (num.log2 : Int) ≤ num := by
    exact_mod_cast Nat.log2_self_le hnum.ne'
  have hnumHigh : (num : ℚ) < 2 ^ ((num.log2 : Int) + 1) := by
    exact_mod_cast Nat.lt_log2_self (n := num)
  have hdenLow : (2 : ℚ) ^ (den.log2 : Int) ≤ den := by
    exact_mod_cast Nat.log2_self_le hden.ne'
  have hdenHigh : (den : ℚ) < 2 ^ ((den.log2 : Int) + 1) := by
    exact_mod_cast Nat.lt_log2_self (n := den)
  constructor
  · rw [le_div_iff₀ hden']
    calc (2 : ℚ) ^ ((num.log2 : Int) - den.log2 - 1) * den
        ≤ 2 ^ ((num.log2 : Int) - den.log2 - 1) * 2 ^ ((den.log2 : Int) + 1) := by gcongr
      _ = 2 ^ (num.log2 : Int) := by
          rw [← zpow_add₀ two_ne_zero]
          congr 1
          ring
      _ ≤ num := hnumLow
  · rw [div_lt_iff₀ hden']
    calc (num : ℚ) < 2 ^ ((num.log2 : Int) + 1) := hnumHigh
      _ = 2 ^ ((num.log2 : Int) - den.log2 + 1) * 2 ^ (den.log2 : Int) := by
          rw [← zpow_add₀ two_ne_zero]
          congr 1
          ring
      _ ≤ 2 ^ ((num.log2 : Int) - den.log2 + 1) * den := by gcongr

theorem log2Ratio_spec (hnum : 0 < num) (hden : 0 < den) :
    (2 : ℚ) ^ log2Ratio num den ≤ num / den ∧ (num / den : ℚ) < 2 ^ (log2Ratio num den + 1) := by
  have hguess := ratio_log2_bounds hnum hden
  have hscale := scale_eq num den ((num.log2 : Int) - den.log2)
  have hscalePos := scale_pos hden num ((num.log2 : Int) - den.log2)
  have htest : (scale num den ((num.log2 : Int) - den.log2)).2 ≤
        (scale num den ((num.log2 : Int) - den.log2)).1 ↔
      (2 : ℚ) ^ ((num.log2 : Int) - den.log2) ≤ num / den := by
    rw [← Nat.cast_le (α := ℚ), ← one_le_div₀ (Nat.cast_pos.mpr hscalePos), hscale,
      one_le_div₀ (by positivity)]
  unfold log2Ratio
  simp only
  split
  · next hfits => exact ⟨htest.mp hfits, hguess.2⟩
  · next hfails =>
      refine ⟨hguess.1, ?_⟩
      rw [sub_add_cancel]
      exact not_le.mp fun hle => hfails (htest.mpr hle)

theorem log2Ratio_lt (hnum : 0 < num) (hden : 0 < den) (h : (num / den : ℚ) < 2 ^ e) :
    log2Ratio num den < e :=
  (zpow_lt_zpow_iff_right₀ one_lt_two).mp ((log2Ratio_spec hnum hden).1.trans_lt h)

theorem le_log2Ratio (hnum : 0 < num) (hden : 0 < den) (h : (2 : ℚ) ^ e ≤ num / den) :
    e ≤ log2Ratio num den :=
  Int.lt_add_one_iff.mp
    ((zpow_lt_zpow_iff_right₀ one_lt_two).mp (h.trans_lt (log2Ratio_spec hnum hden).2))

/-!
# Rounding to a double

A fraction is counted in a unit that its logarithm says, and rounded to a whole number of these.
Just below a power of two the unit is half as large, so that a fraction that the power covers is
near to twice its mantissa.
-/

theorem nearest_of_near (hnum : 0 < num) (hden : 0 < den)
    (hunit : max (log2Ratio num den - 52) leastExponent = e)
    (hnear : Near (num / den / 2 ^ e) k) :
    nearest num den = min infinity ((e - leastExponent).toNat * binade + k) := by
  have hround : roundHalfEven (scale num den e).1 (scale num den e).2 = k := by
    apply roundHalfEven_of_near (scale_pos hden num e)
    rw [scale_eq]
    exact hnear
  unfold nearest
  rw [if_neg hnum.ne']
  simp only [hunit, hround]

theorem magnitude_eq (m : Nat) :
    (exponent m - leastExponent).toNat * binade + mantissa m = m ∧
      leastExponent ≤ exponent m ∧ mantissa m < 2 * binade ∧
        (exponent m = leastExponent ∨ binade ≤ mantissa m) := by
  have hparts : m / binade * binade + m % binade = m := by
    rw [Nat.mul_comm]
    exact Nat.div_add_mod m binade
  have hrest : m % binade < binade := Nat.mod_lt m (by decide)
  unfold exponent mantissa
  split
  · next hzero =>
      have hsmall : m < binade := (Nat.div_eq_zero_iff.mp hzero).resolve_left (by decide)
      rw [hzero]
      refine ⟨by simp, by simp, by omega, Or.inl (by simp)⟩
  · next hpos =>
      have hstep : (m / binade - 1) * binade + binade = m / binade * binade := by
        rw [← Nat.succ_mul, Nat.succ_eq_add_one, Nat.sub_add_cancel (Nat.pos_of_ne_zero hpos)]
      refine ⟨?_, Int.le_add_of_nonneg_right (Int.natCast_nonneg _), by omega,
        Or.inr (Nat.le_add_right _ _)⟩
      rw [add_sub_cancel_left, Int.toNat_natCast]
      omega

theorem mantissa_pos (hm : 0 < m) : 0 < mantissa m := by
  unfold mantissa
  split
  · exact hm
  · exact Nat.add_pos_left (by decide) _

def reach (m : Nat) : ℚ :=
  if mantissa m = binade ∧ leastExponent < exponent m then 1 / 4 else 1 / 2

/-- The number is nearer to the value of the magnitude than to that of any other one, or half way
between two and the mantissa is even. -/
structure Covers (m : Nat) (x : ℚ) : Prop where
  low : (mantissa m - reach m) * 2 ^ exponent m ≤ x
  high : x ≤ (mantissa m + 1 / 2) * 2 ^ exponent m
  tie : mantissa m % 2 = 0 ∨
    (mantissa m - reach m) * 2 ^ exponent m < x ∧ x < (mantissa m + 1 / 2) * 2 ^ exponent m

theorem reach_le (m : Nat) : reach m ≤ 1 / 2 := by
  unfold reach
  split <;> norm_num

theorem Covers.near {x : ℚ} (h : Covers m x) : Near (x / 2 ^ exponent m) (mantissa m) := by
  have hpower : (0 : ℚ) < 2 ^ exponent m := by positivity
  have hlow := (le_div_iff₀ hpower).mpr h.low
  have hhigh := (div_le_iff₀ hpower).mpr h.high
  have hreach := reach_le m
  refine ⟨by linarith, hhigh, h.tie.imp_right ?_⟩
  intro hstrict
  have hless := (lt_div_iff₀ hpower).mpr hstrict.1
  exact ⟨by linarith, (div_lt_iff₀ hpower).mpr hstrict.2⟩

theorem Covers.near_twice {x : ℚ} (h : Covers m x) (hleast : leastExponent < exponent m)
    (hmantissa : mantissa m = binade) (hbelow : x < binade * 2 ^ exponent m) :
    Near (x / 2 ^ (exponent m - 1)) (2 * binade : Nat) := by
  have hpower : (0 : ℚ) < 2 ^ (exponent m - 1) := by positivity
  have htwice : (2 : ℚ) ^ exponent m = 2 * 2 ^ (exponent m - 1) := by
    rw [mul_comm, ← zpow_add_one₀ two_ne_zero, sub_add_cancel]
  have hlow := h.low
  rw [reach, if_pos ⟨hmantissa, hleast⟩, hmantissa, htwice, ← mul_assoc,
    ← le_div_iff₀ hpower] at hlow
  rw [htwice, ← mul_assoc, ← div_lt_iff₀ hpower] at hbelow
  refine ⟨?_, ?_, Or.inl (by decide)⟩
  · push_cast
    linarith
  · push_cast
    linarith

theorem binade_eq : (binade : ℚ) = 2 ^ (52 : Int) := by
  norm_num [binade]

theorem log2Ratio_lt_of_below (hnum : 0 < num) (hden : 0 < den)
    (h : (num / den : ℚ) < binade * 2 ^ e) : log2Ratio num den < e + 52 := by
  apply log2Ratio_lt hnum hden
  calc (num / den : ℚ) < binade * 2 ^ e := h
    _ = 2 ^ (e + 52) := by rw [binade_eq, mul_comm, zpow_add₀ two_ne_zero]

theorem Covers.lt_two_pow {x : ℚ} (h : Covers m x) : x < 2 ^ (exponent m + 53) := by
  have hpower : (0 : ℚ) < 2 ^ exponent m := by positivity
  have hmantissa : (mantissa m : ℚ) + 1 ≤ 2 * binade := by
    exact_mod_cast (magnitude_eq m).2.2.1
  calc x ≤ (mantissa m + 1 / 2) * 2 ^ exponent m := h.high
    _ < 2 * binade * 2 ^ exponent m := by
        apply mul_lt_mul_of_pos_right _ hpower
        linarith
    _ = 2 ^ (exponent m + 53) := by
        rw [binade_eq, mul_comm, zpow_add₀ two_ne_zero]
        norm_num

theorem Covers.lt_limit {x : ℚ} (h : Covers m x) (hfinite : m < infinity) :
    x < 2 ^ (1024 : Int) := by
  have hexponent : exponent m ≤ 971 := by
    have hblock : m / binade < 0x7FF := Nat.div_lt_of_lt_mul (by rwa [Nat.mul_comm])
    simp only [exponent, leastExponent]
    omega
  exact h.lt_two_pow.trans_le (zpow_le_zpow_right₀ one_le_two (by omega))

theorem Covers.least_le {x : ℚ} (h : Covers m x) (hm : 0 < m) : 2 ^ (-1075 : Int) ≤ x := by
  have hmantissa : (1 : ℚ) ≤ mantissa m := by exact_mod_cast mantissa_pos hm
  have hhalf : (1 / 2 : ℚ) ≤ mantissa m - reach m := by linarith [reach_le m]
  have hexponent : leastExponent ≤ exponent m := (magnitude_eq m).2.1
  calc (2 : ℚ) ^ (-1075 : Int) = 1 / 2 * 2 ^ leastExponent := by
        rw [one_div, ← zpow_neg_one, ← zpow_add₀ two_ne_zero]
        rfl
    _ ≤ (mantissa m - reach m) * 2 ^ exponent m := by
        gcongr
        exact one_le_two
    _ ≤ x := h.low

theorem Covers.pos {x : ℚ} (h : Covers m x) (hm : 0 < m) : 0 < x :=
  (by positivity : (0 : ℚ) < 2 ^ (-1075 : Int)).trans_le (h.least_le hm)

theorem Covers.mantissa_eq {x : ℚ} (h : Covers m x) (hfull : binade ≤ mantissa m)
    (hbelow : x < binade * 2 ^ exponent m) : mantissa m = binade := by
  have hpower : (0 : ℚ) < 2 ^ exponent m := by positivity
  have hless : (mantissa m - reach m : ℚ) < binade :=
    (mul_lt_mul_iff_of_pos_right hpower).mp (h.low.trans_lt hbelow)
  have hnext : (mantissa m : ℚ) < binade + 1 := by linarith [reach_le m]
  have hnext' : mantissa m < binade + 1 := by exact_mod_cast hnext
  exact Nat.le_antisymm (Nat.lt_succ_iff.mp hnext') hfull

/-- A fraction just below a power of two is counted in a unit half as large as that of the
magnitude that covers it, and rounded up to this magnitude. -/
theorem nearest_of_covers_below (hnum : 0 < num) (hden : 0 < den) (hfinite : m < infinity)
    (h : Covers m ((num : ℚ) / den)) (hleast : leastExponent < exponent m)
    (hmantissa : mantissa m = binade) (hbelow : (num / den : ℚ) < binade * 2 ^ exponent m) :
    nearest num den = m := by
  have hpower : (0 : ℚ) < 2 ^ exponent m := by positivity
  have hnear := h.near_twice hleast hmantissa hbelow
  have hupper := log2Ratio_lt_of_below hnum hden hbelow
  have hlower : exponent m + 51 ≤ log2Ratio num den := by
    have hhalf : (2 : ℚ) ^ (51 : Int) + 1 / 2 ≤ 2 ^ (52 : Int) := by norm_num
    apply le_log2Ratio hnum hden
    calc (2 : ℚ) ^ (exponent m + 51) = 2 ^ (51 : Int) * 2 ^ exponent m := by
          rw [zpow_add₀ two_ne_zero, mul_comm]
      _ ≤ (mantissa m - reach m) * 2 ^ exponent m := by
          apply mul_le_mul_of_nonneg_right _ hpower.le
          rw [hmantissa, binade_eq]
          linarith [reach_le m]
      _ ≤ num / den := h.low
  have hcarry : (exponent m - 1 - leastExponent).toNat * binade + 2 * binade = m := by
    have hvalue := (magnitude_eq m).1
    have hone : (exponent m - leastExponent).toNat =
        (exponent m - 1 - leastExponent).toNat + 1 := by omega
    rw [hone, hmantissa, Nat.succ_mul] at hvalue
    omega
  rw [nearest_of_near hnum hden (e := exponent m - 1) (by omega) hnear, hcarry]
  exact min_eq_right hfinite.le

/-- A fraction is rounded to the magnitude that covers it. -/
theorem nearest_of_covers (hm : 0 < m) (hfinite : m < infinity) (hden : 0 < den)
    (h : Covers m ((num : ℚ) / den)) : nearest num den = m := by
  have hden' : (0 : ℚ) < den := Nat.cast_pos.mpr hden
  have hnum : 0 < num := by
    have hpos := h.pos hm
    rw [div_pos_iff_of_pos_right hden'] at hpos
    exact_mod_cast hpos
  rcases magnitude_eq m with ⟨hvalue, hleast, _, hshort⟩
  -- the fraction is below the next power of two, and so its unit is no larger
  have hupper : log2Ratio num den < exponent m + 53 := log2Ratio_lt hnum hden h.lt_two_pow
  -- its own unit is that of the magnitude, unless it lies below the magnitude's power of two
  have hsame (hunit : max (log2Ratio num den - 52) leastExponent = exponent m) :
      nearest num den = m := by
    rw [nearest_of_near hnum hden hunit h.near, hvalue]
    exact min_eq_right hfinite.le
  by_cases hbelow : (num / den : ℚ) < binade * 2 ^ exponent m
  · have hlower := log2Ratio_lt_of_below hnum hden hbelow
    rcases eq_or_lt_of_le hleast with hunit | hhigher
    · exact hsame (by omega)
    · have hfull : binade ≤ mantissa m := hshort.resolve_left hhigher.ne'
      exact nearest_of_covers_below hnum hden hfinite h hhigher (h.mantissa_eq hfull hbelow) hbelow
  · refine hsame ?_
    have hlower : exponent m + 52 ≤ log2Ratio num den := by
      apply le_log2Ratio hnum hden
      rw [zpow_add₀ two_ne_zero, mul_comm, ← binade_eq]
      exact not_lt.mp hbelow
    omega

theorem nearest_lt_infinity (hden : 0 < den) (h : (num / den : ℚ) < 2 ^ (1023 : Int)) :
    nearest num den < infinity := by
  rcases Nat.eq_zero_or_pos num with rfl | hnum
  · exact Nat.zero_lt_of_lt (by decide : 0 < infinity)
  · have hlog : log2Ratio num den < 1023 := log2Ratio_lt hnum hden h
    have hunit : log2Ratio num den - 52 ≤ max (log2Ratio num den - 52) leastExponent :=
      le_max_left _ _
    have hleast : max (log2Ratio num den - 52) leastExponent ≤ 970 := by
      simp only [leastExponent]
      omega
    generalize hexponent : max (log2Ratio num den - 52) leastExponent = e at hunit hleast
    have hpower : (0 : ℚ) < 2 ^ e := by positivity
    have hpos : (0 : ℚ) < (scale num den e).2 := Nat.cast_pos.mpr (scale_pos hden num e)
    have hsmall : (scale num den e).1 ≤ 2 * binade * (scale num den e).2 := by
      have hratio : ((scale num den e).1 : ℚ) / (scale num den e).2 ≤ (2 * binade : Nat) := by
        rw [scale_eq, div_le_iff₀ hpower]
        calc (num / den : ℚ) ≤ 2 ^ (log2Ratio num den + 1) := (log2Ratio_spec hnum hden).2.le
          _ ≤ 2 ^ (53 + e) := zpow_le_zpow_right₀ one_le_two (by omega)
          _ = (2 * binade : Nat) * 2 ^ e := by
              rw [zpow_add₀ two_ne_zero]
              norm_num [binade]
      have hle := (div_le_iff₀ hpos).mp hratio
      exact_mod_cast hle
    have hround := roundHalfEven_le hsmall
    have hcarry : (e - leastExponent).toNat * binade ≤ 2044 * binade :=
      Nat.mul_le_mul_right binade (by simp only [leastExponent]; omega)
    unfold nearest
    rw [if_neg hnum.ne']
    simp only [hexponent]
    refine (min_le_right _ _).trans_lt ?_
    simp only [infinity, binade] at *
    omega

end Double
end Blockwise
