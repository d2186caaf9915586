/-
# What the readers return

On a volume whose bookkeeping is in order, reading an inode, a snapshot or file
data is a function of the view.
-/

import Kurogane.KuroFS.Bitmap

namespace Kurogane.KuroFS

open Storage Storage.Buffer List

variable {fs : FileSystem} {image : Image} {held : Set ℕ} {inodeId : ℕ}

theorem locateInode_eq (layout : Layout fs.geometry fs.device) (hid : inodeId ≠ 0)
    (hle : inodeId ≤ fs.geometry.inodeCount) :
    locateInode fs inodeId = .ok (2 + (inodeId - 1) * 128 / 512, (inodeId - 1) * 128 % 512) := by
  have hcount := layout.fits.inodeCount
  have hslot := layout.slotBlock_lt hid hle
  have hbounds := layout.bounds
  rw [locateInode, if_neg (by omega), multiplyU64_eq_some (by omega)]
  dsimp only
  rw [if_neg (by omega), layout.inodeTableStart, addU64_eq_some (by omega)]
  dsimp only
  rw [if_neg (by omega)]

section

variable (ready : fs.Ready) (hid : inodeId ≠ 0) (hle : inodeId ≤ fs.geometry.inodeCount)
include ready hid hle

theorem readInode_eq_decode :
    readInode fs image inodeId = decodeInode (slotBytes image inodeId) inodeId := by
  have layout := ready.layout
  have hcount := layout.fits.inodeCount
  have hslot := layout.slotBlock_lt hid hle
  have hbounds := layout.bounds
  rw [readInode, if_neg hid, ready.if_mounted, if_neg (by omega), multiplyU64_eq_some (by omega)]
  dsimp only
  rw [if_neg (by omega), layout.inodeTableStart, layout.readOne_eq image (by omega)]
  rfl

theorem readInode_eq : readInode fs image inodeId = (view fs.geometry image inodeId).inode := by
  rw [readInode_eq_decode ready hid hle, view_of_mem hid hle, nodeOf_inode]

end

theorem readInode_of_not_mem (ready : fs.Ready)
    (h : inodeId = 0 ∨ fs.geometry.inodeCount < inodeId) :
    readInode fs image inodeId = .error .invalidArgument := by
  rw [readInode]
  split
  · rfl
  · rw [ready.if_mounted, if_pos (by omega)]

variable {inode : Inode}

theorem Node.inode_eq_ok_iff {node : Node} :
    node.inode = .ok inode ↔ ∃ bytes, node = .used inode bytes := by
  cases node with
  | free => simp [Node.inode]
  | bad => simp [Node.inode]
  | used => simp [Node.inode, eq_comm]

theorem readInode_eq_ok_iff (ready : fs.Ready) :
    readInode fs image inodeId = .ok inode ↔
      ∃ bytes, view fs.geometry image inodeId = .used inode bytes := by
  by_cases hmem : inodeId ≠ 0 ∧ inodeId ≤ fs.geometry.inodeCount
  · rw [readInode_eq ready hmem.1 hmem.2, Node.inode_eq_ok_iff]
  rw [readInode_of_not_mem ready (by omega)]
  refine ⟨nofun, fun ⟨bytes, hview⟩ => ?_⟩
  have := used_of_view hview
  omega

variable {bytes : List UInt8}

theorem id_of_view {geometry : Geometry}
    (h : view geometry image inodeId = .used inode bytes) : inode.id = inodeId :=
  (used_of_view h).2.2.1.id_eq

theorem requireCurrentSnapshot_eq_ok_iff (ready : fs.Ready) {snapshot current : Inode} :
    requireCurrentSnapshot fs image snapshot = .ok current ↔
      snapshot = current ∧ ∃ bytes, view fs.geometry image snapshot.id = .used snapshot bytes := by
  unfold requireCurrentSnapshot
  split
  next status hread =>
    refine ⟨nofun, fun ⟨_, hview⟩ => ?_⟩
    rw [(readInode_eq_ok_iff ready).mpr hview] at hread
    cases hread
  rename_i found hread
  have hview := (readInode_eq_ok_iff ready).mp hread
  by_cases hsame : snapshot = found
  · subst hsame
    simp [hview]
  rw [if_pos hsame]
  refine ⟨nofun, fun ⟨_, hview'⟩ => ?_⟩
  rw [(readInode_eq_ok_iff ready).mpr hview'] at hread
  exact absurd (Except.ok.inj hread) hsame

theorem validateInodeExtent_eq_ok_iff (layout : Layout fs.geometry fs.device) :
    validateInodeExtent fs image inode = .ok () ↔
      (inode.id ≠ 0 ∧ inode.id ≤ fs.geometry.inodeCount ∧ inode.linkCount ≠ 0 ∧
        inode.generation ≠ 0) ∧ inode.ExtentValid fs.geometry ∧
      ∀ block ∈ inode.blocks, Marked fs.geometry image block := by
  unfold validateInodeExtent
  split
  · exact ⟨nofun, fun ⟨h, _⟩ => by omega⟩
  split
  next status hvalidate =>
    refine ⟨nofun, fun ⟨_, hvalid, hmark⟩ => ?_⟩
    have hok : validateAllocatedExtent fs image inode.extentStart inode.extentBlocks =
        .ok (inode.extentBlocks * 512) := by
      refine (validateAllocatedExtent_eq_ok_iff layout).mpr ⟨rfl, ?_⟩
      rcases hvalid with h | ⟨hpos, hlow, hhigh, hcap, _⟩
      · exact .inl ⟨h.1, h.2.1⟩
      · exact .inr ⟨hpos, hlow, hhigh, hcap, hmark⟩
    rw [hvalidate] at hok
    cases hok
  next capacity hvalidate =>
    obtain ⟨rfl, hext⟩ := (validateAllocatedExtent_eq_ok_iff layout).mp hvalidate
    split
    · refine ⟨nofun, fun ⟨_, hvalid, _⟩ => ?_⟩
      rcases hvalid with h | h <;> omega
    refine ⟨fun _ => ⟨by omega, ?_, ?_⟩, fun _ => rfl⟩
    · rcases hext with ⟨hzero, hstart⟩ | h
      · exact .inl ⟨hzero, hstart, by omega⟩
      · exact .inr ⟨h.pos, h.dataStart_le, h.le_totalBlocks, h.capacity_lt, by omega⟩
    rcases hext with ⟨hzero, _⟩ | h
    · intro block hblk
      rw [Inode.blocks, hzero, extent_zero] at hblk
      exact hblk.elim
    · exact h.marked

theorem Owns.validateInodeExtent_eq (layout : Layout fs.geometry fs.device)
    (h : Owns fs.geometry held image) (hview : view fs.geometry image inodeId = .used inode bytes) :
    validateInodeExtent fs image inode = .ok () := by
  obtain ⟨hid, hle, hdecoded, -, -⟩ := used_of_view hview
  rw [validateInodeExtent_eq_ok_iff layout, hdecoded.id_eq]
  exact ⟨⟨hid, hle, hdecoded.linkCount_pos.ne', hdecoded.generation_pos.ne'⟩,
    h.extentValid hview, fun block hblk => h.marked_of_mem hview hblk⟩

/-! ## File data -/

theorem readLoop_eq (layout : Layout fs.geometry fs.device) {first offset wanted : ℕ}
    (hend : first * 512 + offset + wanted ≤ fs.geometry.totalBlocks * 512) {fuel done : ℕ}
    (hdone : done ≤ wanted) (hfuel : wanted - done ≤ fuel) :
    readLoop fs image first offset wanted fuel done =
      .ok ((List.range (wanted - done)).map fun i =>
        extentByte image first (offset + done + i)) := by
  have htotal := layout.totalBlocks_lt
  induction fuel generalizing done with
  | zero => rw [readLoop, show wanted - done = 0 by omega]; rfl
  | succ _ ih =>
    rw [readLoop]
    split
    · rw [addU64_eq_some (by omega)]
      dsimp only
      rw [layout.readOne_eq image (by omega)]
      set chunk := min (wanted - done) (512 - (offset + done) % 512) with hchunk
      rw [ih (by omega) (by omega)]
      have hsplit : wanted - done = chunk + (wanted - (done + chunk)) := by omega
      rw [hsplit, range_add, map_append, map_map]
      dsimp only
      congr 2
      · apply map_congr_left
        intro i hi
        rw [mem_range] at hi
        rw [extentByte, show (offset + done + i) / 512 = (offset + done) / 512 by omega,
          show (offset + done + i) % 512 = (offset + done) % 512 + i by omega]
      · apply map_congr_left
        intro i _
        rw [Function.comp_apply, add_assoc, add_assoc, add_assoc]
    · rw [show wanted - done = 0 by omega]
      rfl

theorem readInodeData_eq_of_valid (ready : fs.Ready)
    (hview : view fs.geometry image inode.id = .used inode bytes)
    (hext : validateInodeExtent fs image inode = .ok ()) (offset capacity : ℕ) :
    readInodeData fs image inode offset capacity = .ok ((bytes.drop offset).take capacity) := by
  have layout := ready.layout
  have hbytes : bytes = contents image inode := (used_of_view hview).2.2.2.2
  have hlen := length_of_view hview
  rw [readInodeData, ready.mounted, (readInode_eq_ok_iff ready).mpr ⟨bytes, hview⟩]
  simp only [Bool.not_true, Bool.false_eq_true, if_false, ne_eq, not_true_eq_false, or_self]
  rw [hext]
  dsimp only
  split
  next hempty =>
    rcases hempty with _ | rfl
    · rw [drop_eq_nil_of_le (by omega), take_nil]
    · rw [take_zero]
  have hvalid := ((validateInodeExtent_eq_ok_iff layout).mp hext).2.1
  have hend : inode.extentStart * 512 + offset + min capacity (inode.size - offset) ≤
      fs.geometry.totalBlocks * 512 := by
    rcases hvalid with h | h <;> omega
  rw [readLoop_eq layout hend (Nat.zero_le _) (by omega)]
  congr 1
  apply ext_getElem
  · simp only [length_map, length_range, length_take, length_drop, hlen, Nat.sub_zero]
  · intro i hi hi'
    simp only [getElem_map, getElem_range, getElem_take, getElem_drop, hbytes, contents, add_zero]

/-- Reading through a current snapshot returns the bytes of the view. -/
theorem readInodeData_eq (ready : fs.Ready) (h : Owns fs.geometry held image)
    (hview : view fs.geometry image inode.id = .used inode bytes) (offset capacity : ℕ) :
    readInodeData fs image inode offset capacity = .ok ((bytes.drop offset).take capacity) :=
  readInodeData_eq_of_valid ready hview (h.validateInodeExtent_eq ready.layout hview) offset
    capacity

end Kurogane.KuroFS
