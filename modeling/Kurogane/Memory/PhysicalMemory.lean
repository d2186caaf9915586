/-
# Physical frames

The frame allocator of `src/kernel/memory/physical_memory.cpp` for frames of one
page: a bitmap over a region, in which some frames are reserved for good. The
kernel's page tables take their pages from it, so it is a backend for them.
-/

import Kurogane.Memory.PageWalk

namespace Kurogane.Memory

open Function

/-! ## The allocator -/

/-- The managed region. The frame at address 0 is reserved, so that no allocation looks like
the null pointer. -/
structure Region where
  base : ℕ
  frameCount : ℕ
  reserved : ℕ → Bool
  aligned : pageSize ∣ base
  fits : base + frameCount * pageSize < 2 ^ 64
  zeroReserved : base = 0 → reserved 0 = true

/-- The bitmap of a region, in which reserved frames stay marked. -/
structure Frames (region : Region) where
  bitmap : ℕ → Bool
  usedFrames : ℕ
  reservedUsed : ∀ index, region.reserved index = true → bitmap index = true

variable {region : Region}

def Region.frameAddress (region : Region) (index : ℕ) : Word :=
  BitVec.ofNat 64 (region.base + index * pageSize)

def Region.frameIndexForAddress (region : Region) (address : Word) : Option ℕ :=
  if address.toNat < region.base ∨
      address.toNat ≥ region.base + region.frameCount * pageSize then none
  else if (address.toNat - region.base) % pageSize ≠ 0 then none
  else some ((address.toNat - region.base) / pageSize)

section

variable (frames : Frames region)

def Frames.mark (index : ℕ) : Frames region where
  bitmap := update frames.bitmap index true
  usedFrames := frames.usedFrames + 1
  reservedUsed := by
    intro other hreserved
    by_cases heq : other = index
    · rw [heq, update_self]
    · rw [update_of_ne heq]
      exact frames.reservedUsed other hreserved

def Frames.unmark (index : ℕ) (h : region.reserved index = false) :
    Frames region where
  bitmap := update frames.bitmap index false
  usedFrames := if frames.usedFrames > 0 then frames.usedFrames - 1 else frames.usedFrames
  reservedUsed := by
    intro other hreserved
    have hne : other ≠ index := by
      rintro rfl
      rw [h] at hreserved
      cases hreserved
    rw [update_of_ne hne]
    exact frames.reservedUsed other hreserved

theorem Frames.bitmap_mark (index : ℕ) :
    (frames.mark index).bitmap = update frames.bitmap index true := rfl

theorem Frames.bitmap_unmark (index : ℕ) (h : region.reserved index = false) :
    (frames.unmark index h).bitmap = update frames.bitmap index false := rfl

/-- The first frame that is not in use. -/
def allocFrame : Option Word × Frames region :=
  match (List.range region.frameCount).find? fun index => !frames.bitmap index with
  | some index => (some (region.frameAddress index), frames.mark index)
  | none => (none, frames)

def tryFreeFrame (address : Word) : Frames region :=
  match region.frameIndexForAddress address with
  | none => frames
  | some index =>
    if h : region.reserved index = true ∨ frames.bitmap index = false then frames
    else frames.unmark index (by simpa using fun hreserved => h (.inl hreserved))

end

/-! ## Frames in use -/

variable {index : ℕ}

theorem Region.toNat_frameAddress (h : index < region.frameCount) :
    (region.frameAddress index).toNat = region.base + index * pageSize := by
  have hfits := region.fits
  have hle : index * pageSize ≤ region.frameCount * pageSize := Nat.mul_le_mul_right _ h.le
  rw [Region.frameAddress, BitVec.toNat_ofNat, Nat.mod_eq_of_lt (by omega)]

theorem Region.frameIndexForAddress_frameAddress (h : index < region.frameCount) :
    region.frameIndexForAddress (region.frameAddress index) = some index := by
  have hlt : index * pageSize < region.frameCount * pageSize :=
    Nat.mul_lt_mul_of_pos_right h (by decide)
  rw [Region.frameIndexForAddress, Region.toNat_frameAddress h, if_neg (by omega),
    Nat.add_sub_cancel_left, if_neg (by rw [Nat.mul_mod_left]; simp),
    Nat.mul_div_cancel _ (by decide)]

theorem Region.frameAddress_of_index {address : Word}
    (h : region.frameIndexForAddress address = some index) :
    index < region.frameCount ∧ address = region.frameAddress index := by
  rw [Region.frameIndexForAddress] at h
  split at h
  · cases h
  split at h
  · cases h
  next halign =>
  cases h
  have hdvd := Nat.dvd_of_mod_eq_zero (not_not.mp halign)
  have hlt : (address.toNat - region.base) / pageSize < region.frameCount :=
    Nat.div_lt_of_lt_mul (by rw [mul_comm]; omega)
  refine ⟨hlt, BitVec.eq_of_toNat_eq ?_⟩
  rw [Region.toNat_frameAddress hlt, Nat.div_mul_cancel hdvd]
  omega

/-- All pages but the free frames. -/
def Frames.inUse (frames : Frames region) : Set Word :=
  {page | ∀ index, region.frameIndexForAddress page = some index → frames.bitmap index = true}

section

variable {frames : Frames region} (hfree : frames.bitmap index = false)
include hfree

theorem Frames.not_reserved_of_free : region.reserved index = false := by
  by_contra hresv
  rw [Bool.not_eq_false] at hresv
  rw [frames.reservedUsed index hresv] at hfree
  cases hfree

theorem Frames.not_mem_inUse_of_free (h : index < region.frameCount) :
    region.frameAddress index ∉ frames.inUse := by
  intro hmem
  rw [hmem index (Region.frameIndexForAddress_frameAddress h)] at hfree
  cases hfree

end

theorem Frames.mem_inUse_of_update {frames frames' : Frames region} {page : Word} {used : Bool}
    (h : index < region.frameCount) (hmap : frames'.bitmap = update frames.bitmap index used) :
    page ∈ frames'.inUse ↔
      if page = region.frameAddress index then used = true else page ∈ frames.inUse := by
  split
  · next heq =>
    subst heq
    simp [Frames.inUse, Region.frameIndexForAddress_frameAddress h, hmap]
  · next hne =>
    refine forall₂_congr fun other hother => ?_
    rw [hmap, update_of_ne]
    rintro rfl
    exact hne (Region.frameAddress_of_index hother).2

section

variable (frames : Frames region)
include frames

theorem Frames.inUse_mark (h : index < region.frameCount) :
    (frames.mark index).inUse = insert (region.frameAddress index) frames.inUse := by
  ext page
  rw [Frames.mem_inUse_of_update h rfl]
  split
  · next heq => exact iff_of_true rfl (.inl heq)
  · next hne => exact (or_iff_right hne).symm

theorem Frames.inUse_unmark (h : index < region.frameCount)
    (hresv : region.reserved index = false) :
    (frames.unmark index hresv).inUse = frames.inUse \ {region.frameAddress index} := by
  ext page
  rw [Frames.mem_inUse_of_update h rfl]
  split
  · next heq => simp [heq]
  · next hne => exact (and_iff_left hne).symm

/-- An allocation takes a free frame, if there is one. -/
theorem allocFrame_cases :
    allocFrame frames = (none, frames) ∨
      ∃ index < region.frameCount, frames.bitmap index = false ∧
        allocFrame frames = (some (region.frameAddress index), frames.mark index) := by
  rw [allocFrame]
  split
  · next index hfind =>
    have hmem := List.mem_of_find?_eq_some hfind
    have hfree := List.find?_some hfind
    exact .inr ⟨index, List.mem_range.mp hmem, by simpa using hfree, rfl⟩
  · exact .inl rfl

theorem inUse_tryFreeFrame (page : Word) :
    frames.inUse \ {page} ⊆ (tryFreeFrame frames page).inUse ∧
      (tryFreeFrame frames page).inUse ⊆ frames.inUse := by
  rw [tryFreeFrame]
  split
  · exact ⟨fun _ h => h.1, fun _ h => h⟩
  next index hidx =>
  obtain ⟨hlt, rfl⟩ := Region.frameAddress_of_index hidx
  split
  · exact ⟨fun _ h => h.1, fun _ h => h⟩
  · rw [Frames.inUse_unmark _ hlt]
    exact ⟨fun _ h => h, fun _ h => h.1⟩

end

/-! ## The backend of the kernel -/

/-- Page tables are frames; every page but the null page has a pointer. -/
def kernelBackend (region : Region) (physicalAddressBits : ℕ) : Backend (Frames region) where
  allocateTable := allocFrame
  freeTable := tryFreeFrame
  physicalToVirtual frames page := (page != 0#64, frames)
  invalidatePage frames _ := frames
  physicalAddressBits := physicalAddressBits

theorem kernelBackend_lawful (region : Region) (bits : ℕ) :
    (kernelBackend region bits).Lawful Frames.inUse where
  allocated := by
    intro frames table frames' heq
    rcases allocFrame_cases frames with hnone | ⟨index, hlt, hfree, hsome⟩
    · cases hnone.symm.trans heq
    cases hsome.symm.trans heq
    exact ⟨Frames.not_mem_inUse_of_free hfree hlt, Frames.inUse_mark frames hlt⟩
  refused := by
    intro frames frames' heq
    rcases allocFrame_cases frames with hnone | ⟨index, -, -, hsome⟩
    · cases hnone.symm.trans heq
      rfl
    · cases hsome.symm.trans heq
  freed := by
    rintro frames _ ⟨earlier, _, heq⟩
    rcases allocFrame_cases earlier with hnone | ⟨index, hlt, hfree, hsome⟩
    · cases hnone.symm.trans heq
    cases hsome.symm.trans heq
    have hresv := Frames.not_reserved_of_free hfree
    change (tryFreeFrame frames (region.frameAddress index)).inUse = _
    rw [tryFreeFrame, Region.frameIndexForAddress_frameAddress hlt]
    dsimp only
    split
    · next hskip =>
      have hunused : frames.bitmap index = false := by
        rcases hskip with hskip | hskip
        · rw [hresv] at hskip
          cases hskip
        · exact hskip
      exact (Set.sdiff_singleton_eq_self (Frames.not_mem_inUse_of_free hunused hlt)).symm
    · exact Frames.inUse_unmark frames hlt hresv
  accessed := fun _ _ => rfl
  invalidated := fun _ _ => rfl

end Kurogane.Memory
