/-
# Bit sets in byte buffers

A buffer read as a set of bit numbers, least significant bit of the first byte
first. Setting and clearing change the membership of one bit.
-/

import Kurogane.Storage.Bytes
import Mathlib.Data.Nat.Bitwise

namespace Kurogane.Storage.Buffer

open Function

section

variable (bytes : Buffer) (bit : ℕ)

def bitMask : UInt8 := 1 <<< UInt8.ofNat (bit % 8)

def hasBit : Bool := bytes (bit / 8) &&& bitMask bit != 0

def setBit : Buffer :=
  Function.update bytes (bit / 8) (bytes (bit / 8) ||| bitMask bit)

def clearBit : Buffer :=
  Function.update bytes (bit / 8) (bytes (bit / 8) &&& ~~~(bitMask bit))

end

variable (bytes : Buffer) (bit other : ℕ)

theorem bitMask_toNat : (bitMask bit).toNat = 2 ^ (bit % 8) := by
  have hbit : bit % 8 < 8 := Nat.mod_lt _ (by decide)
  have hpow : 2 ^ (bit % 8) < 2 ^ 8 := Nat.pow_lt_pow_right (by decide) hbit
  have hshift : (UInt8.ofNat (bit % 8)).toNat = bit % 8 := by
    rw [UInt8.toNat_ofNat']
    omega
  rw [bitMask, UInt8.toNat_shiftLeft, hshift, Nat.mod_eq_of_lt hbit, Nat.shiftLeft_eq,
    Nat.mod_eq_of_lt (by simpa using hpow)]
  simp

theorem and_bitMask_ne_zero (byte : UInt8) (bit : ℕ) :
    (byte &&& bitMask bit != 0) = byte.toNat.testBit (bit % 8) := by
  have hzero : (byte &&& bitMask bit = 0) ↔ byte.toNat.testBit (bit % 8) = false := by
    rw [← UInt8.toNat_inj, UInt8.toNat_and, bitMask_toNat, Nat.and_two_pow]
    cases byte.toNat.testBit (bit % 8) <;> simp
  rw [Bool.eq_iff_iff, bne_iff_ne, ne_eq, hzero]
  simp

theorem hasBit_setBit :
    (bytes.setBit bit).hasBit other = (bytes.hasBit other || decide (other = bit)) := by
  simp only [hasBit, setBit, and_bitMask_ne_zero]
  by_cases hbyte : other / 8 = bit / 8
  · have hsame : (bit % 8 = other % 8) ↔ other = bit := by omega
    rw [hbyte, update_self, UInt8.toNat_or, bitMask_toNat, Nat.testBit_or, Nat.testBit_two_pow]
    simp only [hsame]
  · have hne : other ≠ bit := by rintro rfl; exact hbyte rfl
    simp [update_of_ne hbyte, hne]

theorem hasBit_clearBit :
    (bytes.clearBit bit).hasBit other = (bytes.hasBit other && decide (other ≠ bit)) := by
  simp only [hasBit, clearBit, and_bitMask_ne_zero]
  by_cases hbyte : other / 8 = bit / 8
  · have hsame : (bit % 8 = other % 8) ↔ other = bit := by omega
    have hother : other % 8 < 8 := Nat.mod_lt _ (by decide)
    have hmask : (~~~(bitMask bit)).toNat.testBit (other % 8) = !decide (bit % 8 = other % 8) := by
      rw [UInt8.toNat_not, bitMask_toNat, show UInt8.size - 1 - 2 ^ (bit % 8) =
        2 ^ 8 - (2 ^ (bit % 8) + 1) from by rw [add_comm, ← Nat.sub_sub]; rfl,
        Nat.testBit_two_pow_sub_succ (Nat.pow_lt_pow_right (by decide)
          (Nat.mod_lt _ (by decide))), Nat.testBit_two_pow]
      simp [hother]
    rw [hbyte, update_self, UInt8.toNat_and, Nat.testBit_and, hmask]
    simp only [hsame, ne_eq, decide_not]
  · have hne : other ≠ bit := by rintro rfl; exact hbyte rfl
    simp [update_of_ne hbyte, hne]

end Kurogane.Storage.Buffer
