/-
# First fit

`allocate_blocks` and `release_extent` against the bitmap as one row of bits, with the
bits behind the last block of the volume included.
-/

import Kurogane.KuroFS.FileAtomicity

namespace Kurogane.KuroFS

open Storage

variable {fs : FileSystem} {image image' : Image}

/-- The blocks of the extent are marked and zeroed, and no other bit or sector differs. -/
structure Taken (geometry : Geometry) (image image' : Image) (first count : ℕ) : Prop where
  bits : ∀ bit, bit / 4096 < geometry.allocationBitmapBlocks →
    (Marked geometry image' bit ↔ Marked geometry image bit ∨ bit ∈ extent first count)
  zero : ∀ block ∈ extent first count, image' block = Buffer.zero
  outside : ∀ block, block < geometry.allocationBitmapStart ∨ geometry.dataStart ≤ block →
    block ∉ extent first count → image' block = image block

def SameBitmap (geometry : Geometry) (image image' : Image) : Prop :=
  ∀ bit, bit / 4096 < geometry.allocationBitmapBlocks →
    (Marked geometry image' bit ↔ Marked geometry image bit)

/-- Allocation takes the first free run, and releasing it restores the bitmap; without a free
run nothing happens. A run whose size in bytes has more than 64 bits is never allocated. -/
theorem allocateBlocks_firstFit (ready : fs.Ready) (image : Image) (count : ℕ)
    (hcount : 0 < count) :
    if count * 512 < 2 ^ 64 then
      (∃ first image' image'', (allocateBlocks fs count).run image = (.ok first, image') ∧
        FreeRun fs.geometry image first count ∧
        (∀ other, FreeRun fs.geometry image other count → first ≤ other) ∧
        Taken fs.geometry image image' first count ∧
        (releaseExtent fs first count).run image' = (.ok (), image'') ∧
        SameBitmap fs.geometry image image'' ∧
        ∀ block, block < fs.geometry.allocationBitmapStart ∨ fs.geometry.dataStart ≤ block →
          image'' block = image' block) ∨
      (allocateBlocks fs count).run image = (.error .noSpace, image) ∧
        ∀ first, ¬ FreeRun fs.geometry image first count
    else ∀ first, ((allocateBlocks fs count).run image).1 ≠ .ok first := by
  have layout := ready.layout
  obtain ⟨hvalue, herror⟩ := (@allocateBlocks_wp fs image .reliable ready count).run
  split
  swap
  · next hlarge => exact fun first hok => hlarge (hvalue first hok).2.2.1.capacity_lt
  next hsize =>
  cases hres : ((allocateBlocks fs count).run image).1 with
  | ok first =>
    obtain ⟨hrun, hleast, halloc, _, hpub, hzeroed⟩ := hvalue first hres
    have htaken : Taken fs.geometry image ((allocateBlocks fs count).run image).2 first count := by
      rw [hzeroed]
      exact ⟨fun bit hbit => (marked_zeroed layout hrun.dataStart_le hbit).trans
          (hpub.marked bit hbit), fun block hblk => if_pos (mem_extent.mp hblk),
        fun block hblk hout => (if_neg (mem_extent.not.mp hout)).trans (hpub.outside block hblk)⟩
    obtain ⟨⟨⟩, hok, hrel⟩ := ((@releaseExtent_wp fs _ .reliable _ _ layout halloc).mono
      (fun _ _ h => h) (fun _ _ h => nomatch h.1) fun _ h => h).exists_value
    refine .inl ⟨first, _, _, Prod.ext hres rfl, hrun, hleast, htaken, Prod.ext hok rfl,
      fun bit hbit => ?_, hrel.outside⟩
    rw [hrel.marked bit hbit, markedWithout, htaken.bits bit hbit, mem_extent]
    have hfree := hrun.free bit
    tauto
  | error status =>
    rcases herror status hres with ⟨hsame, hzero | ⟨rfl, hnone⟩⟩ | ⟨hfault | hlarge, -⟩
    · exact absurd hzero hcount.ne'
    · exact .inr ⟨Prod.ext hres hsame, hnone⟩
    · cases hfault
    · exact absurd hsize hlarge.not_gt

theorem allocateBlocks_firstFit_small : smallFileSystem.Ready ∧
    (∃ first image', (allocateBlocks smallFileSystem 3).run smallImage = (.ok first, image') ∧
      Taken smallGeometry smallImage image' first 3) := by
  refine ⟨smallImage_mounted.toReady, ?_⟩
  rcases allocateBlocks_firstFit smallImage_mounted.toReady smallImage 3 (by decide)
    with ⟨first, image', -, hrun, -, -, htaken, -⟩ | ⟨-, hnone⟩
  · exact ⟨first, image', hrun, htaken⟩
  · obtain ⟨-, -, first, hrun⟩ := smallImage_allocatable
    exact absurd hrun (hnone first)

/-- A device of 2 ^ 56 sectors, formatted. -/
def hugeDevice : Device := ⟨512, 2 ^ 56, true, by decide⟩

def hugeGeometry : Geometry := { smallGeometry with
  totalBlocks := 2 ^ 56
  allocationBitmapBlocks := 2 ^ 44
  dataStart := 3 + 2 ^ 44 }

/-- Half of its blocks are not allocated although they are free, since their size in bytes
does not fit. -/
theorem allocateBlocks_overflows : ∃ image, Mounted ⟨hugeDevice, hugeGeometry, true⟩ image ∧
    FreeRun hugeGeometry image (3 + 2 ^ 44) (2 ^ 55) ∧ ∀ first,
      ((allocateBlocks ⟨hugeDevice, hugeGeometry, true⟩ (2 ^ 55)).run image).1 ≠ .ok first := by
  have hformatted : Formatted hugeDevice hugeGeometry _ :=
    @formatted_run hugeDevice hugeGeometry 4 (by decide) (by decide) fun _ => Buffer.zero
  have hmounted := hformatted.mounted (by decide) rfl
  refine ⟨_, hmounted, ⟨le_rfl, by decide, fun block hblk hmark => ?_⟩, fun first hok => ?_⟩
  · exact absurd ((hformatted.marked block (lt_trans hblk.2 (by decide))).mp hmark) hblk.1.not_gt
  · have hvalue := (@allocateBlocks_wp _ _ .reliable hmounted.toReady (2 ^ 55)).run.1 first hok
    exact absurd hvalue.2.2.1.capacity_lt (by decide)

end Kurogane.KuroFS
