/-
# Handles of kernel objects

Channels, endpoints and shared-memory objects live in tables of fixed size. A handle
packs the slot of an object, its kind, the side of a channel and the generation of the
slot, which changes whenever the slot is used again.
-/

import Mathlib.Algebra.Group.Nat.Defs
import Mathlib.Data.List.FinRange

namespace Kurogane.Ipc

abbrev ProcessId := ℕ

abbrev Handle := ℕ

def invalidProcessId : ProcessId := 0

def invalidHandle : Handle := 0

def maximumGeneration : ℕ := 0x7FFFFFFF

def nextGeneration (generation : ℕ) : ℕ :=
  if generation = 0 ∨ generation ≥ maximumGeneration then 1 else generation + 1

/-! ## The fields of a handle -/

inductive Kind where
  | endpoint
  | channel
  | sharedMemory
  deriving DecidableEq

/-- The value of bits 16 to 23 for each kind. -/
def Kind.code : Kind → ℕ
  | .endpoint => 1
  | .channel => 2
  | .sharedMemory => 3

/-- The kind in bits 16 to 23. -/
def kindField (handle : ℕ) : ℕ := handle / 2 ^ 16 % 2 ^ 8

/-- The side of a channel in bit 24. -/
def sideField (handle : ℕ) : Bool := handle / 2 ^ 24 % 2 = 1

/-- The generation in the upper half of the word. -/
def generationField (handle : ℕ) : ℕ := handle / 2 ^ 32 % 2 ^ 32

/-- The fields do not overlap, so that their sum is their bitwise union. -/
def encode (kind : Kind) (side : Bool) (index generation : ℕ) : ℕ :=
  generation * 2 ^ 32 + (if side then 2 ^ 24 else 0) + kind.code * 2 ^ 16 + (index + 1)

/-- The slot in bits 0 to 7, which counts from 1. -/
def decodeIndex (handle : ℕ) (maximum : ℕ) : Option (Fin maximum) :=
  if h : handle % 2 ^ 8 = 0 ∨ handle % 2 ^ 8 > maximum then none
  else some ⟨handle % 2 ^ 8 - 1, by omega⟩

/-! ## Decoding what was encoded -/

variable {kind : Kind} {side : Bool} {index generation maximum : ℕ}

theorem Kind.code_lt (kind : Kind) : kind.code < 2 ^ 8 := by
  cases kind <;> decide

section

variable (hidx : index < 2 ^ 8 - 1)
include hidx

theorem kindField_encode : kindField (encode kind side index generation) = kind.code := by
  have hcode := kind.code_lt
  rw [kindField, encode]
  split <;> omega

theorem sideField_encode : sideField (encode kind side index generation) = side := by
  have hcode := kind.code_lt
  cases side with
  | false =>
    rw [sideField, encode, decide_eq_false_iff_not, if_neg Bool.false_ne_true]
    omega
  | true =>
    rw [sideField, encode, decide_eq_true_iff, if_pos rfl]
    omega

theorem generationField_encode (hgen : generation < 2 ^ 32) :
    generationField (encode kind side index generation) = generation := by
  have hcode := kind.code_lt
  rw [generationField, encode]
  split <;> omega

end

theorem decodeIndex_encode (hidx : index < maximum) (hmaximum : maximum < 2 ^ 8) :
    decodeIndex (encode kind side index generation) maximum = some ⟨index, hidx⟩ := by
  have hlow : encode kind side index generation % 2 ^ 8 = index + 1 := by
    rw [encode]
    split <;> omega
  rw [decodeIndex, dif_neg (by omega), Option.some.injEq, Fin.mk.injEq]
  omega

end Kurogane.Ipc
