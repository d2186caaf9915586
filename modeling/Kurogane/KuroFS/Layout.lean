/-
# The layout of a volume

A geometry that passes `validate_geometry` places the superblocks, the inode
table, the bitmap and the data area one behind the other. The readers' own range
checks are then never in the way, and each reader is the plain function of the
device contents it is meant to be.
-/

import Kurogane.KuroFS.Codec
import Kurogane.KuroFS.Reader
import Kurogane.Storage.Bits

namespace Kurogane.KuroFS

open Storage Storage.Buffer

variable {left right block : ℕ}

theorem addU64_eq_some (h : left + right < 2 ^ 64) : addU64 left right = some (left + right) := by
  rw [addU64, if_neg (by omega)]

theorem eq_add_of_addU64 {sum : ℕ} (h : addU64 left right = some sum) : sum = left + right := by
  unfold addU64 at h
  split at h <;> cases h
  rfl

theorem le_of_addU64_eq_none (h : addU64 left right = none) : 2 ^ 64 ≤ left + right := by
  unfold addU64 at h
  split at h
  · omega
  · cases h

theorem multiplyU64_eq_some (h : left * right < 2 ^ 64) :
    multiplyU64 left right = some (left * right) := by
  rw [multiplyU64, if_neg]
  rintro ⟨hleft, hright⟩
  rw [gt_iff_lt, Nat.div_lt_iff_lt_mul (pos_of_ne_zero hleft), mul_comm] at hright
  omega

theorem eq_mul_of_multiplyU64 {product : ℕ}
    (h : multiplyU64 left right = some product) : product = left * right ∧ product < 2 ^ 64 := by
  unfold multiplyU64 at h
  split at h
  · cases h
  rename_i hguard
  cases h
  refine ⟨rfl, ?_⟩
  by_cases hleft : left = 0
  · simp [hleft]
  · have hright : right ≤ (2 ^ 64 - 1) / left := Nat.le_of_not_lt fun h => hguard ⟨hleft, h⟩
    rw [Nat.le_div_iff_mul_le (pos_of_ne_zero hleft), mul_comm] at hright
    omega

theorem divideRoundUp_eq (value divisor : ℕ) (h : 0 < divisor) :
    divideRoundUp value divisor = (value + (divisor - 1)) / divisor := by
  have hsplit := Nat.div_add_mod value divisor
  have hmod : value % divisor < divisor := Nat.mod_lt _ h
  unfold divideRoundUp
  split
  · rw [add_zero]
    symm
    rw [Nat.div_eq_iff h, mul_comm]
    omega
  · symm
    rw [Nat.div_eq_iff h, Nat.add_mul, mul_comm]
    omega

/-- What a valid geometry says about a valid device. -/
structure Layout (geometry : Geometry) (device : Device) : Prop where
  fits : geometry.Fits
  validated : validateGeometry geometry device = .ok ()
  callbacks : device.callbacks
  sectorSize : device.sectorSize = 512
  totalBlocks : geometry.totalBlocks = device.sectorCount
  inodeCount_pos : 0 < geometry.inodeCount
  inodeTableStart : geometry.inodeTableStart = 2
  inodeTableBlocks : geometry.inodeTableBlocks = (geometry.inodeCount + 3) / 4
  bitmapStart : geometry.allocationBitmapStart = 2 + geometry.inodeTableBlocks
  bitmapBlocks : geometry.allocationBitmapBlocks = (geometry.totalBlocks + 4095) / 4096
  dataStart : geometry.dataStart =
    geometry.allocationBitmapStart + geometry.allocationBitmapBlocks
  dataStart_lt : geometry.dataStart < geometry.totalBlocks
  rootInode : geometry.rootInode = rootInodeId
  generation_pos : 0 < geometry.generation

theorem Layout.totalBlocks_le {geometry : Geometry} {device : Device}
    (layout : Layout geometry device) : geometry.totalBlocks ≤ 2 ^ 64 - 4096 :=
  layout.totalBlocks ▸ device.sectorCount_le

theorem layout_of_validateGeometry {geometry : Geometry} {device : Device}
    (hvalid : device.valid) (hfits : geometry.Fits)
    (h : validateGeometry geometry device = .ok ()) : Layout geometry device := by
  have hvalidated := h
  simp only [Device.valid, Bool.and_eq_true] at hvalid
  revert h
  fun_cases validateGeometry geometry device with
  | case6 hfields _ hbytes inodeBlocks bitmapBlocks _ hbitmap _ hdata hlayout =>
    intro _
    push Not at hfields hlayout
    obtain ⟨hsec, hdevice, htotal, hcount, -, htable, hroot, hgen, -⟩ := hfields
    obtain ⟨rfl, -⟩ := eq_mul_of_multiplyU64 hbytes
    obtain ⟨_, _, _, _, hlt⟩ := hlayout
    have hbitmapEq := eq_add_of_addU64 hbitmap
    have hdataEq := eq_add_of_addU64 hdata
    have hinodeBlocks : inodeBlocks = _ := divideRoundUp_eq _ _ (by decide)
    have hbitmaps : bitmapBlocks = _ := divideRoundUp_eq _ _ (by decide)
    exact {
      fits := hfits
      validated := hvalidated
      callbacks := hvalid.2
      sectorSize := hdevice.symm.trans hsec
      totalBlocks := htotal
      inodeCount_pos := pos_of_ne_zero hcount
      inodeTableStart := htable
      inodeTableBlocks := by omega
      bitmapStart := by omega
      bitmapBlocks := by omega
      dataStart := by omega
      dataStart_lt := hlt
      rootInode := hroot
      generation_pos := pos_of_ne_zero hgen }
  | _ => nofun

namespace Layout

variable {geometry : Geometry} {device : Device}

section

variable (layout : Layout geometry device)
include layout

theorem totalBlocks_lt : geometry.totalBlocks < 2 ^ 64 :=
  layout.fits.totalBlocks

theorem bounds : geometry.allocationBitmapStart = 2 + geometry.inodeTableBlocks ∧
    geometry.dataStart = geometry.allocationBitmapStart + geometry.allocationBitmapBlocks ∧
    geometry.dataStart < geometry.totalBlocks :=
  ⟨layout.bitmapStart, layout.dataStart, layout.dataStart_lt⟩

theorem device_valid : device.valid := by
  have hpos : device.sectorCount ≠ 0 := by
    have := layout.dataStart_lt
    have := layout.totalBlocks
    omega
  simp [Device.valid, layout.sectorSize, layout.callbacks, hpos]

theorem transferValid (h : block < geometry.totalBlocks) : device.transferValid block := by
  rw [layout.totalBlocks] at h
  simp [Device.transferValid, layout.device_valid, layout.sectorSize, h]

theorem readOne_eq (image : Image) (h : block < geometry.totalBlocks) :
    readOne device image block = .ok (image block) := by
  rw [readOne, if_pos (layout.transferValid h)]

theorem slotBlock_lt {inodeId : ℕ} (hpos : inodeId ≠ 0) (hle : inodeId ≤ geometry.inodeCount) :
    (inodeId - 1) * 128 / 512 < geometry.inodeTableBlocks := by
  have := layout.inodeTableBlocks
  omega

theorem bitmapBlock_lt (h : block < geometry.totalBlocks) :
    block / 4096 < geometry.allocationBitmapBlocks := by
  have := layout.bitmapBlocks
  omega

end

end Layout

structure FileSystem.Ready (fs : FileSystem) : Prop where
  mounted : fs.mounted
  layout : Layout fs.geometry fs.device

theorem FileSystem.Ready.if_mounted {fs : FileSystem} {α : Sort*} {refused rest : α}
    (ready : fs.Ready) : (if !fs.mounted then refused else rest) = rest := by
  rw [ready.mounted]
  rfl

end Kurogane.KuroFS
