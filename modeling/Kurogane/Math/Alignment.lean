/-
# Alignment by masks

Powers of two are recognised, and addresses rounded up to them, by bit masks.
-/

import Mathlib.Data.Nat.Bitwise
import Mathlib.Data.Nat.Log

namespace Kurogane.Math

theorem exists_two_pow_of_and_sub_one {value : ℕ} (hne : value ≠ 0)
    (hand : value &&& (value - 1) = 0) : ∃ k, value = 2 ^ k := by
  refine ⟨value.log2, ?_⟩
  have hle : 2 ^ value.log2 ≤ value := Nat.log2_self_le hne
  have hlt : value < 2 ^ (value.log2 + 1) := Nat.lt_log2_self
  by_contra hother
  -- otherwise the leading bit is a bit of the predecessor as well
  have hbit : value.testBit value.log2 := Nat.testBit_of_two_pow_le_and_two_pow_add_one_gt hle hlt
  have hbit' : (value - 1).testBit value.log2 :=
    Nat.testBit_of_two_pow_le_and_two_pow_add_one_gt (by omega) (by omega)
  have hzero : (value &&& (value - 1)).testBit value.log2 = false := by
    rw [hand]
    exact Nat.zero_testBit _
  rw [Nat.testBit_and, hbit, hbit'] at hzero
  cases hzero

theorem and_complement_mask {width k value : ℕ} (hk : k ≤ width) (hvalue : value < 2 ^ width) :
    value &&& (2 ^ width - 1 - (2 ^ k - 1)) = value / 2 ^ k * 2 ^ k := by
  have hmask : 2 ^ k - 1 < 2 ^ width := by
    have hpow : 2 ^ k ≤ 2 ^ width := Nat.pow_le_pow_right (by decide) hk
    omega
  apply Nat.eq_of_testBit_eq
  intro i
  have hcomplement : 2 ^ width - 1 - (2 ^ k - 1) = 2 ^ width - (2 ^ k - 1 + 1) := by omega
  rw [Nat.testBit_and, hcomplement, Nat.testBit_two_pow_sub_succ hmask,
    Nat.testBit_two_pow_sub_one, Nat.testBit_mul_two_pow, Nat.testBit_div_two_pow]
  by_cases hki : k ≤ i
  · rw [Nat.sub_add_cancel hki]
    by_cases hi : i < width
    · simp [hi, hki, not_lt.mpr hki]
    have hhigh : value.testBit i = false :=
      Nat.testBit_lt_two_pow (hvalue.trans_le (Nat.pow_le_pow_right (by decide)
        (not_lt.mp hi)))
    simp [hhigh]
  · simp [hki, not_le.mp hki]

end Kurogane.Math
