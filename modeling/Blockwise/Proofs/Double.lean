import Blockwise.Double
import Mathlib

/-!
# Doubles and their magnitudes

A sign and a magnitude up to infinity make up one double, and every double that is a number comes
from one such pair.  Which doubles are finite, and which are numerically equal, can be read off
their signs and magnitudes: no two of them are equal but the two zeros.
-/

namespace Blockwise
namespace Double

open Float.Model (Format UnpackedFloat)
open Float.Model.UnpackedFloat (unpackExponent unpackMantissa)

/-!
# Bits

The exponent field is full from infinity on.  Bits that stand for a number come back from the double
that they make.
-/

theorem unpackExponent_eq_full_iff (b : BitVec 64) :
    @unpackExponent Format.binary64 b = -1#_ ↔ infinity ≤ b.toNat % signBit := by
  rw [Float.Model.UnpackedFloat.unpackExponent_def]
  simp only [← BitVec.toNat_inj, BitVec.extractLsb'_toNat]
  simp [infinity, signBit, binade]
  omega

theorem isNaNBits_iff (b : BitVec 64) :
    @Float.Model.UnpackedFloat.isNaNBits Format.binary64 b = true ↔
      infinity < b.toNat % signBit := by
  unfold Float.Model.UnpackedFloat.isNaNBits
  rw [decide_eq_true_iff, unpackExponent_eq_full_iff, Float.Model.UnpackedFloat.unpackMantissa_def]
  simp only [ne_eq, ← BitVec.toNat_inj, BitVec.extractLsb'_toNat]
  simp [infinity, signBit, binade]
  omega

theorem isFinite_unpack_iff (b : BitVec 64) :
    (UnpackedFloat.unpack Format.binary64 b).isFinite = true ↔ b.toNat % signBit < infinity := by
  rw [← Nat.not_le, ← unpackExponent_eq_full_iff]
  fun_cases UnpackedFloat.unpack Format.binary64 b with
  | case1 _ _ _ _ hfull => exact iff_of_false Bool.false_ne_true (not_not.mpr hfull)
  | case2 _ _ hfull => exact iff_of_false Bool.false_ne_true (not_not.mpr hfull)
  | case3 _ _ _ _ hnot => exact iff_of_true rfl hnot
  | case4 _ _ _ _ _ hnot => exact iff_of_true rfl hnot
  | case5 _ _ _ _ _ hnot => exact iff_of_true rfl hnot

theorem isFinite_iff (x : Float) : x.isFinite = true ↔ magnitude x < infinity :=
  isFinite_unpack_iff x.toBits.toBitVec

/-- Bits that stand for a number come back from the double that they make. -/
theorem toBits_ofBits {b : UInt64} (h : b.toNat % signBit ≤ infinity) :
    (Float.ofBits b).toBits = b := by
  apply UInt64.toBitVec_inj.mp
  have hpack := @Float.Model.UnpackedFloat.pack_unpack Format.binary64 b.toBitVec
  rw [if_neg] at hpack
  · exact hpack
  · rw [isNaNBits_iff]
    exact Nat.not_lt.mpr h

/-!
# Signs and magnitudes

A double is made up of its sign and its magnitude.
-/

variable {negative : Bool} {m : Nat}

theorem toBits_ofMagnitude (negative : Bool) (h : m ≤ infinity) :
    (ofMagnitude negative m).toBits.toNat = m + if negative then signBit else 0 := by
  have hword : (UInt64.ofNat (m + if negative then signBit else 0)).toNat =
      m + if negative then signBit else 0 := by
    rw [UInt64.toNat_ofNat']
    apply Nat.mod_eq_of_lt
    simp only [infinity, binade, signBit] at h ⊢
    split <;> omega
  unfold ofMagnitude
  rw [toBits_ofBits, hword]
  rw [hword]
  simp only [infinity, binade, signBit] at h ⊢
  split <;> omega

@[simp] theorem magnitude_ofMagnitude (negative : Bool) (h : m ≤ infinity) :
    magnitude (ofMagnitude negative m) = m := by
  unfold magnitude
  rw [toBits_ofMagnitude negative h]
  simp only [infinity, binade, signBit] at h ⊢
  split <;> omega

theorem isFinite_ofMagnitude (negative : Bool) (h : m ≤ infinity) :
    (ofMagnitude negative m).isFinite = true ↔ m < infinity := by
  rw [isFinite_iff, magnitude_ofMagnitude negative h]

theorem ofMagnitude_magnitude (x : Float) : ofMagnitude (isNegative x) (magnitude x) = x := by
  have hbits : x.toBits.toNat % signBit + (if isNegative x then signBit else 0) =
      x.toBits.toNat := by
    have hlt : x.toBits.toNat < 2 * signBit := x.toBits.toNat_lt
    by_cases hsign : signBit ≤ x.toBits.toNat
    · have hnegative : isNegative x = true := decide_eq_true hsign
      rw [hnegative, if_pos rfl]
      simp only [signBit] at hsign hlt ⊢
      omega
    · have hpositive : isNegative x = false := decide_eq_false hsign
      rw [hpositive, if_neg Bool.false_ne_true, Nat.add_zero]
      exact Nat.mod_eq_of_lt (Nat.not_le.mp hsign)
  rw [ofMagnitude, magnitude, hbits, UInt64.ofNat_toNat, Float.ofBits_toBits]

theorem ofMagnitude_zero (negative : Bool) :
    ofMagnitude negative 0 = if negative then -0 else 0 := by
  cases negative <;> decide

/-!
# Numerical equality

Finite doubles of one sign are equal if their magnitudes are, and a zero equals the other one.
-/

theorem beq_self_of_isFinite {x : Float} (h : x.isFinite = true) : (x == x) = true := by
  rw [Float.beq_self_iff]
  rintro rfl
  exact absurd h (by decide)

theorem beq_of_zero {x : Float} (h : x = -0) : ((0 : Float) == x) = true := by
  rw [h]
  decide

end Double
end Blockwise
