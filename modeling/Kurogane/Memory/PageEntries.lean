/-
# Entries of page tables

An entry is an address together with flag bits outside the address mask. The
lemmas here read the parts back, and show that four indices identify a page.
-/

import Kurogane.Math.Alignment
import Kurogane.Memory.VirtualMemory

namespace Kurogane.Memory

open BitVec hiding and_assoc and_comm not_not or_assoc

variable {σ : Type} {mask value physical : Word} {flags : MapFlags}

/-! ## Masks -/

def Within (value mask : Word) : Prop := value &&& ~~~mask = 0#64

theorem Within.and_eq (h : Within value mask) : value &&& mask = value := by
  calc value &&& mask = (value &&& mask) ||| (value &&& ~~~mask) := by
        rw [h, or_zero]
    _ = value := by rw [← and_or_distrib_left, or_not_self, and_allOnes]

theorem within_and (value mask : Word) : Within (value &&& mask) mask := by
  have hzero : mask &&& ~~~mask = 0#64 := and_not_self mask
  rw [Within, BitVec.and_assoc, hzero, and_zero]

variable {space : AddressSpace σ} {mask' bits address : Word}

theorem Within.and_eq_zero (h : Within value mask) (hmask : mask &&& mask' = 0#64) :
    value &&& mask' = 0#64 := by
  rw [← h.and_eq, BitVec.and_assoc, hmask, and_zero]

theorem Within.trans (h : Within value mask) (hmask : Within mask mask') : Within value mask' := by
  rw [Within, ← h.and_eq, BitVec.and_assoc, hmask, and_zero]

/-- An address space as `initialize` leaves it. -/
structure AddressSpace.Valid (space : AddressSpace σ) : Prop where
  initialized : space.initialized = true
  mask : Within space.physicalAddressMask architecturalAddressMask
  root : Within space.rootTablePhysical space.physicalAddressMask

theorem within_physicalMask {bits : ℕ} (h : bits ≤ architecturalPhysicalAddressBits) :
    Within (physicalMask bits) architecturalAddressMask := by
  have hbits : ∀ bits ≤ architecturalPhysicalAddressBits,
      physicalMask bits &&& ~~~architecturalAddressMask = 0#64 := by decide
  exact hbits bits h

theorem AddressSpace.of_initialized {root : Word} {backend : Backend σ}
    {machine machine' : Machine σ}
    (h : initializeAddressSpace root backend machine = (.ok space, machine')) :
    space.Valid ∧ space.backend = backend := by
  rw [initializeAddressSpace] at h
  dsimp only at h
  generalize (if backend.physicalAddressBits = 0 then architecturalPhysicalAddressBits
    else backend.physicalAddressBits) = bits at h
  split at h
  · cases h
  split at h
  · cases h
  split at h
  · cases h
  next hroot =>
  split at h
  · cases h
    refine ⟨⟨rfl, within_physicalMask ?_, not_not.mp hroot⟩, rfl⟩
    omega
  · cases h

theorem validatePhysicalPage_eq_ok_iff (hspace : space.Valid) :
    validatePhysicalPage space physical = .ok ↔ Within physical space.physicalAddressMask := by
  constructor
  · intro h
    rw [validatePhysicalPage] at h
    split at h
    · cases h
    split at h
    · cases h
    split at h
    · cases h
    · next hin => exact not_not.mp hin
  · intro h
    have harch := h.trans hspace.mask
    have hoff : physical &&& pageOffsetMask = 0#64 := harch.and_eq_zero (by decide)
    have hle : physical.toNat ≤ architecturalAddressMask.toNat := by
      rw [← harch.and_eq, toNat_and]
      exact Nat.and_le_right
    have hbound : ¬ physical.toNat > 2 ^ 64 - 1 - pageOffsetMask.toNat := by
      have harchitecture : architecturalAddressMask.toNat = 0x000FFFFFFFFFF000 := rfl
      have hpage : pageOffsetMask.toNat = 0xFFF := rfl
      omega
    rw [validatePhysicalPage, if_neg (not_not.mpr hoff), if_neg hbound, if_neg fun hne => hne h]

/-! ## Children -/

def childOf (mask entry : Word) : Option Word :=
  if entry &&& entryPresent ≠ 0#64 ∧ entry &&& entryHugeOrPat = 0#64 ∧
      entry &&& (architecturalAddressMask &&& ~~~mask) = 0#64 then some (entry &&& mask)
  else none

@[simp]
theorem childOf_zero (mask : Word) : childOf mask 0#64 = none := by
  rw [childOf, if_neg]
  rintro ⟨h, -⟩
  exact h (zero_and)

theorem or_and_mask (hmask : Within mask architecturalAddressMask)
    (hphys : Within physical mask) (hbits : bits &&& architecturalAddressMask = 0#64) :
    (physical ||| bits) &&& mask = physical := by
  have hzero : bits &&& mask = 0#64 := by
    rw [BitVec.and_comm]
    exact hmask.and_eq_zero (by rw [BitVec.and_comm]; exact hbits)
  rw [and_or_distrib_right, hphys.and_eq, hzero, or_zero]

theorem or_and_flag (bits flag : Word) (hmask : Within mask architecturalAddressMask)
    (hphys : Within physical mask) (hflag : architecturalAddressMask &&& flag = 0#64) :
    (physical ||| bits) &&& flag = bits &&& flag := by
  have hzero : physical &&& flag = 0#64 := (hphys.trans hmask).and_eq_zero hflag
  rw [and_or_distrib_right, hzero, zero_or]

theorem or_and_excess (hphys : Within physical mask)
    (hbits : bits &&& architecturalAddressMask = 0#64) :
    (physical ||| bits) &&& (architecturalAddressMask &&& ~~~mask) = 0#64 := by
  have hfirst : physical &&& (architecturalAddressMask &&& ~~~mask) = 0#64 := by
    rw [BitVec.and_comm architecturalAddressMask, ← BitVec.and_assoc, hphys, zero_and]
  have hsnd : bits &&& (architecturalAddressMask &&& ~~~mask) = 0#64 := by
    rw [← BitVec.and_assoc, hbits, zero_and]
  rw [and_or_distrib_right, hfirst, hsnd, or_zero]

def createdFlags : Word := entryPresent ||| entryWritable ||| entryUser ||| entryModuleOwned

theorem createdEntry_eq (physical : Word) : createdEntry physical = physical ||| createdFlags := by
  simp only [createdEntry, createdFlags, BitVec.or_assoc]

section Created

variable (hmask : Within mask architecturalAddressMask) (hphys : Within physical mask)
include hmask hphys

theorem createdEntry_and_flag (flag : Word) (hflag : architecturalAddressMask &&& flag = 0#64) :
    createdEntry physical &&& flag = createdFlags &&& flag := by
  rw [createdEntry_eq, or_and_flag _ _ hmask hphys hflag]

theorem childOf_createdEntry : childOf mask (createdEntry physical) = some physical := by
  have hpres := createdEntry_and_flag hmask hphys entryPresent (by decide)
  have hhuge := createdEntry_and_flag hmask hphys entryHugeOrPat (by decide)
  rw [childOf, if_pos, createdEntry_eq, or_and_mask hmask hphys (by decide)]
  refine ⟨?_, ?_, ?_⟩
  · rw [hpres]
    decide
  · rw [hhuge]
    decide
  · rw [createdEntry_eq, or_and_excess hphys (by decide)]

theorem createdEntry_ne_zero : createdEntry physical ≠ 0#64 := by
  intro hzero
  have hchild := childOf_createdEntry hmask hphys
  rw [hzero, childOf_zero] at hchild
  cases hchild

end Created

/-! ## Leaves -/

/-- The six flags can be read back from a leaf. -/
theorem hardwareLeafFlags_and_flag (flags : MapFlags) :
    hardwareLeafFlags flags &&& entryPresent ≠ 0#64 ∧
    (hardwareLeafFlags flags &&& entryWritable != 0#64) = hasFlag flags .writable ∧
    (hardwareLeafFlags flags &&& entryUser != 0#64) = hasFlag flags .user ∧
    (hardwareLeafFlags flags &&& entryWriteThrough != 0#64) = hasFlag flags .writeThrough ∧
    (hardwareLeafFlags flags &&& entryCacheDisable != 0#64) = hasFlag flags .cacheDisable ∧
    (hardwareLeafFlags flags &&& entryGlobal != 0#64) = hasFlag flags .global ∧
    (hardwareLeafFlags flags &&& entryNoExecute != 0#64) = hasFlag flags .noExecute ∧
    hardwareLeafFlags flags &&& entryAccessed = 0#64 ∧
    hardwareLeafFlags flags &&& entryDirty = 0#64 ∧
      hardwareLeafFlags flags &&& architecturalAddressMask = 0#64 := by
  rw [hardwareLeafFlags]
  generalize hasFlag flags .writable = writable
  generalize hasFlag flags .user = user
  generalize hasFlag flags .writeThrough = writeThrough
  generalize hasFlag flags .cacheDisable = cacheDisable
  generalize hasFlag flags .global = isGlobal
  generalize hasFlag flags .noExecute = noExecute
  revert writable user writeThrough cacheDisable isGlobal noExecute
  decide

theorem hardwareLeafFlags_and_mask (flags : MapFlags) :
    hardwareLeafFlags flags &&& architecturalAddressMask = 0#64 := by
  obtain ⟨-, -, -, -, -, -, -, -, -, hmask⟩ := hardwareLeafFlags_and_flag flags
  exact hmask

abbrev flagUnion (flags : MapFlags) : MapFlags :=
  (if hasFlag flags .writable then MapFlags.writable else 0#64) |||
    (if hasFlag flags .user then MapFlags.user else 0#64) |||
    (if hasFlag flags .writeThrough then MapFlags.writeThrough else 0#64) |||
    (if hasFlag flags .cacheDisable then MapFlags.cacheDisable else 0#64) |||
    (if hasFlag flags .global then MapFlags.global else 0#64) |||
    (if hasFlag flags .noExecute then MapFlags.noExecute else 0#64)

theorem validFlags_eq (h : validMapFlags flags) : flagUnion flags = flags := by
  have hin : Within flags validMapFlagBits := by
    rw [validMapFlags] at h
    split at h
    · cases h
    · next hin => exact not_not.mp hin
  have hlt : flags.toNat < 64 := by
    have hle : (flags &&& validMapFlagBits).toNat ≤ validMapFlagBits.toNat := by
      exact Nat.and_le_right
    rw [hin.and_eq] at hle
    exact lt_of_le_of_lt hle (by decide)
  have hall : ∀ number : Fin 64, ∀ flags : MapFlags, flags = BitVec.ofNat 64 number.val →
      flagUnion flags = flags := by
    simp only [forall_eq]
    decide
  exact hall ⟨flags.toNat, hlt⟩ flags (by rw [ofNat_toNat, setWidth_eq])

/-! ## Pages -/

def indices (address : Word) : List (Fin 512) :=
  [tableIndex address 0, tableIndex address 1, tableIndex address 2, tableIndex address 3]

theorem canonicalAddress_iff : canonicalAddress address ↔
    address.toNat < 2 ^ 47 ∨ 2 ^ 64 - 2 ^ 47 ≤ address.toNat := by
  have hupper : (address >>> 48).toNat = address.toNat / 2 ^ 48 := by
    rw [toNat_ushiftRight, Nat.shiftRight_eq_div_pow]
  have hsign : ((address >>> 47) &&& 1#64).toNat = address.toNat / 2 ^ 47 % 2 := by
    rw [toNat_and, toNat_ushiftRight, Nat.shiftRight_eq_div_pow]
    exact Nat.and_one_is_mod _
  rw [canonicalAddress]
  split
  · next hnegative =>
    rw [bne_iff_ne, ne_eq, ← toNat_inj, hsign, toNat_zero] at hnegative
    rw [beq_iff_eq, ← toNat_inj, hupper, show (0xFFFF#64).toNat = 0xFFFF from rfl]
    omega
  next hpos =>
  rw [bne_iff_ne, ne_eq, not_not, ← toNat_inj, hsign, toNat_zero] at hpos
  rw [beq_iff_eq, ← toNat_inj, hupper, toNat_zero]
  omega

theorem validateVirtualPage_eq_ok {page : Word} (h : validateVirtualPage page = .ok) :
    canonicalAddress page ∧ page &&& pageOffsetMask = 0#64 := by
  rw [validateVirtualPage] at h
  split at h
  · cases h
  next hcanon =>
  split at h
  · cases h
  next halign => exact ⟨by simpa using hcanon, not_not.mp halign⟩

theorem toNat_and_not_pageOffsetMask (word : Word) :
    (word &&& ~~~pageOffsetMask).toNat = word.toNat / 2 ^ 12 * 2 ^ 12 := by
  exact @Math.and_complement_mask 64 12 word.toNat (by decide) word.isLt

theorem page_eq_of_indices {address' : Word} (h : canonicalAddress address)
    (h' : canonicalAddress address') (heq : indices address = indices address') :
    address &&& ~~~pageOffsetMask = address' &&& ~~~pageOffsetMask := by
  rw [canonicalAddress_iff] at h h'
  rw [← toNat_inj, toNat_and_not_pageOffsetMask, toNat_and_not_pageOffsetMask]
  simp only [indices, tableIndex, tableShift, List.cons.injEq, Nat.shiftRight_eq_div_pow,
    Fin.ext_iff, Fin.val_ofNat, and_true] at heq
  omega

end Kurogane.Memory
