/-
# The codecs read back what they write

Each decoder depends only on the bytes of its record, so a record can be
followed through copies and through writes to its neighbours. What an encoder
writes, the decoder returns.
-/

import Kurogane.KuroFS.Format

namespace Kurogane.KuroFS

open Storage Storage.Buffer List

/-! ## Checksums and zero tests -/

theorem crc32_lt (bytes : Buffer) (size : ℕ) : crc32 bytes size < 2 ^ 32 :=
  UInt32.toNat_lt _

variable {bytes bytes' : Buffer} {size limit : ℕ}

theorem crc32_congr (h : AgreeBelow limit bytes bytes') (hle : size ≤ limit) :
    crc32 bytes size = crc32 bytes' size := by
  have hfold : ∀ (indices : List ℕ) (crc : UInt32), (∀ i ∈ indices, i < limit) →
      indices.foldl (fun crc i => crc32Byte crc (bytes i)) crc =
        indices.foldl (fun crc i => crc32Byte crc (bytes' i)) crc := by
    intro indices
    induction indices with
    | nil => intro crc _; rfl
    | cons i _ ih =>
      intro crc hindices
      simp only [foldl_cons]
      rw [h i (hindices i mem_cons_self)]
      exact ih _ fun j hj => hindices j (mem_cons_of_mem i hj)
  unfold crc32
  rw [hfold _ _ fun i hi => (mem_range.mp hi).trans_le hle]

theorem load_crc32 (bytes : Buffer) (size : ℕ) :
    (bytes.store size 4 (crc32 bytes size)).load size 4 =
      crc32 (bytes.store size 4 (crc32 bytes size)) size := by
  rw [load_store_of_lt bytes (crc32_lt bytes size)]
  exact crc32_congr (agreeBelow_store bytes 4 _ (Nat.le_refl size)).symm le_rfl

variable {bytes : Buffer}

theorem allZero_iff : allZero bytes size ↔ ∀ i < size, bytes i = 0 := by
  simp [allZero]

theorem allZero_congr (h : AgreeBelow size bytes bytes') :
    allZero bytes size = allZero bytes' size := by
  rw [Bool.eq_iff_iff, allZero_iff, allZero_iff]
  exact forall₂_congr fun i hi => by rw [h i hi]

theorem load_eq_zero_of_allZero (h : allZero bytes size) {offset width : ℕ}
    (hfits : offset + width ≤ size) : bytes.load offset width = 0 := by
  rw [allZero_iff] at h
  induction width generalizing offset with
  | zero => rw [load]
  | succ _ ih => rw [load, h offset (by omega), ih (by omega)]; rfl

variable (type : InodeType)

theorem InodeType.ofRaw_raw : InodeType.ofRaw type.raw = some type := by
  cases type <;> rfl

theorem InodeType.raw_pos : 0 < type.raw := by
  cases type <;> decide

theorem InodeType.raw_lt : type.raw < 2 ^ 32 := by
  cases type <;> decide

/-! ## Inodes -/

structure Inode.Fits (inode : Inode) : Prop where
  id : inode.id < 2 ^ 64
  flags : inode.flags < 2 ^ 32
  size : inode.size < 2 ^ 64
  extentStart : inode.extentStart < 2 ^ 64
  extentBlocks : inode.extentBlocks < 2 ^ 64
  linkCount : inode.linkCount < 2 ^ 32
  generation : inode.generation < 2 ^ 32
  revision : inode.revision < 2 ^ 32

structure Inode.Decoded (inode : Inode) (expectedId : ℕ) : Prop extends inode.Fits where
  id_eq : inode.id = expectedId
  linkCount_pos : 0 < inode.linkCount
  generation_pos : 0 < inode.generation
  revision_pos : 0 < inode.revision

theorem decodeFreeInode_congr (h : AgreeBelow 128 bytes bytes')
    (expectedId : ℕ) : decodeFreeInode bytes expectedId = decodeFreeInode bytes' expectedId := by
  unfold decodeFreeInode
  simp (disch := decide) only [allZero_congr h, crc32_congr h, load_congr_of_agreeBelow h]

theorem decodeRevision_lt (bytes : Buffer) : decodeRevision bytes < 2 ^ 32 := by
  unfold decodeRevision
  split
  · decide
  · exact load_lt bytes 48 4

theorem decodeInode_congr (h : AgreeBelow 128 bytes bytes')
    (expectedId : ℕ) : decodeInode bytes expectedId = decodeInode bytes' expectedId := by
  unfold decodeInode decodeRevision
  simp (disch := decide) only [decodeFreeInode_congr h, crc32_congr h, load_congr_of_agreeBelow h]

variable {expectedId : ℕ} {geometry : Geometry} {inode : Inode}

/-- A decoded inode has the expected identity, fields of their encoded width and
positive counters. -/
theorem decoded_of_decodeInode
    (h : decodeInode bytes expectedId = .ok inode) : inode.Decoded expectedId := by
  have h4 : ∀ offset, bytes.load offset 4 < 2 ^ 32 := fun offset => load_lt bytes offset 4
  have h8 : ∀ offset, bytes.load offset 8 < 2 ^ 64 := fun offset => load_lt bytes offset 8
  unfold decodeInode at h
  split at h
  · cases h
  split at h
  · cases h
  split at h
  · cases h
  dsimp only at h
  split at h
  · cases h
  rename_i hvalid
  cases h
  push Not at hvalid
  obtain ⟨hid, hlink, hgen, hrev⟩ := hvalid
  exact ⟨⟨h8 0, h4 12, h8 16, h8 24, h8 32, h4 40, h4 44, decodeRevision_lt bytes⟩, hid,
    pos_of_ne_zero hlink, pos_of_ne_zero hgen,
    pos_of_ne_zero hrev⟩

theorem load_encodeInode (hfits : inode.Fits) :
    (encodeInode inode).load 0 8 = inode.id ∧
    (encodeInode inode).load 8 4 = inode.type.raw ∧
    (encodeInode inode).load 12 4 = inode.flags ∧
    (encodeInode inode).load 16 8 = inode.size ∧
    (encodeInode inode).load 24 8 = inode.extentStart ∧
    (encodeInode inode).load 32 8 = inode.extentBlocks ∧
    (encodeInode inode).load 40 4 = inode.linkCount ∧
    (encodeInode inode).load 44 4 = inode.generation ∧
    (encodeInode inode).load 48 4 = inode.revision := by
  simp only [encodeInode, encodeInodeFields]
  refine ⟨?_, ?_, ?_, ?_, ?_, ?_, ?_, ?_, ?_⟩ <;>
    simp only [load_store_of_disjoint, Nat.reduceAdd, Nat.reduceLeDiff, true_or]
  · exact load_store_of_lt _ hfits.id
  · exact load_store_of_lt _ inode.type.raw_lt
  · exact load_store_of_lt _ hfits.flags
  · exact load_store_of_lt _ hfits.size
  · exact load_store_of_lt _ hfits.extentStart
  · exact load_store_of_lt _ hfits.extentBlocks
  · exact load_store_of_lt _ hfits.linkCount
  · exact load_store_of_lt _ hfits.generation
  · exact load_store_of_lt _ hfits.revision

theorem decodeFreeInode_eq_none_of_type
    (h : bytes.load 8 4 ≠ 0) : decodeFreeInode bytes expectedId = none := by
  unfold decodeFreeInode
  have hzero : ¬ allZero bytes 128 := fun hzero =>
    h (load_eq_zero_of_allZero hzero (by decide))
  rw [if_neg hzero]
  split
  · rfl
  · rw [if_pos (.inr (.inl h))]

theorem decodeInode_encodeInode
    (h : inode.Decoded expectedId) : decodeInode (encodeInode inode) expectedId = .ok inode := by
  obtain ⟨hid, htype, hflags, hsize, hstart, hblks, hlink, hgen, hrev⟩ := load_encodeInode h.toFits
  have hfree : decodeFreeInode (encodeInode inode) expectedId = none := by
    apply decodeFreeInode_eq_none_of_type
    rw [htype]
    exact inode.type.raw_pos.ne'
  have hcrc : (encodeInode inode).load 124 4 = crc32 (encodeInode inode) 124 := by
    exact load_crc32 _ 124
  have hpos := h.revision_pos.ne'
  have hrev' : decodeRevision (encodeInode inode) = inode.revision := by
    rw [decodeRevision, hrev, if_neg hpos]
  unfold decodeInode
  rw [hfree, hid, htype, hflags, hsize, hstart, hblks, hlink, hgen, hrev', InodeType.ofRaw_raw]
  simp only [Option.isSome_none, Bool.false_eq_true, if_false, ne_eq, hcrc, not_true_eq_false]
  rw [if_neg]
  push Not
  exact ⟨h.id_eq, h.linkCount_pos.ne', h.generation_pos.ne', hpos⟩

theorem decodeInode_eq_notFound_iff :
    decodeInode bytes expectedId = .error .notFound ↔
      ∃ generation, decodeFreeInode bytes expectedId = some generation := by
  unfold decodeInode
  constructor
  · intro h
    split at h
    next hfree => exact Option.isSome_iff_exists.mp hfree
    split at h
    · cases h
    split at h
    · cases h
    · dsimp only at h
      split at h <;> cases h
  · rintro ⟨_, hfree⟩
    rw [hfree]
    rfl

theorem decodeFreeInode_of_allZero (expectedId : ℕ)
    (h : allZero bytes 128) : decodeFreeInode bytes expectedId = some 1 := by
  rw [decodeFreeInode, if_pos h]

/-! ## Directory records -/

theorem decodeDirectoryEntry_congr {record record' : Buffer} (h : AgreeBelow 128 record record') :
    decodeDirectoryEntry record = decodeDirectoryEntry record' := by
  unfold decodeDirectoryEntry
  simp (disch := decide) only [crc32_congr h, load_congr_of_agreeBelow h]
  by_cases hlen : record'.load 16 4 > 63
  · simp [hlen]
  have hname : (List.range (record'.load 16 4)).map (fun i => record (20 + i)) =
      (List.range (record'.load 16 4)).map (fun i => record' (20 + i)) := by
    apply map_congr_left
    intro i hi
    rw [mem_range] at hi
    exact h (20 + i) (by omega)
  rw [hname]

/-! ## Superblocks -/

structure Geometry.Fits (geometry : Geometry) : Prop where
  sectorSize : geometry.sectorSize < 2 ^ 32
  totalBlocks : geometry.totalBlocks < 2 ^ 64
  generation : geometry.generation < 2 ^ 64
  inodeCount : geometry.inodeCount < 2 ^ 32
  inodeSize : geometry.inodeSize < 2 ^ 32
  inodeTableStart : geometry.inodeTableStart < 2 ^ 64
  inodeTableBlocks : geometry.inodeTableBlocks < 2 ^ 64
  allocationBitmapStart : geometry.allocationBitmapStart < 2 ^ 64
  allocationBitmapBlocks : geometry.allocationBitmapBlocks < 2 ^ 64
  dataStart : geometry.dataStart < 2 ^ 64
  rootInode : geometry.rootInode < 2 ^ 64
  featureFlags : geometry.featureFlags < 2 ^ 64

theorem decodeGeometry_fits (sector : Buffer) : (decodeGeometry sector).Fits := by
  have h4 : ∀ offset, sector.load offset 4 < 2 ^ 32 := fun offset => load_lt sector offset 4
  have h8 : ∀ offset, sector.load offset 8 < 2 ^ 64 := fun offset => load_lt sector offset 8
  exact ⟨h4 12, h8 16, h8 24, h4 32, h4 36, h8 40, h8 48, h8 56, h8 64, h8 72, h8 80, h8 88⟩

theorem encodeGeometry_of_le (geometry : Geometry) {i : ℕ} (h : 96 ≤ i) :
    encodeGeometry geometry i = 0 := by
  simp only [encodeGeometry]
  repeat rw [store_of_le _ _ (by omega)]
  rw [splice, if_neg (by omega)]
  rfl

theorem decodeGeometry_congr {sector sector' : Buffer} (h : AgreeBelow 96 sector sector') :
    decodeGeometry sector = decodeGeometry sector' := by
  unfold decodeGeometry
  simp (disch := decide) only [load_congr_of_agreeBelow h]

theorem decodeGeometry_encodeGeometry (h : geometry.Fits) :
    decodeGeometry (encodeGeometry geometry) = geometry := by
  simp only [decodeGeometry, encodeGeometry, load_store_of_disjoint, Nat.reduceAdd,
    Nat.reduceLeDiff, true_or]
  rw [load_store_of_lt _ h.sectorSize, load_store_of_lt _ h.totalBlocks,
    load_store_of_lt _ h.generation, load_store_of_lt _ h.inodeCount,
    load_store_of_lt _ h.inodeSize, load_store_of_lt _ h.inodeTableStart,
    load_store_of_lt _ h.inodeTableBlocks, load_store_of_lt _ h.allocationBitmapStart,
    load_store_of_lt _ h.allocationBitmapBlocks, load_store_of_lt _ h.dataStart,
    load_store_of_lt _ h.rootInode, load_store_of_lt _ h.featureFlags]

theorem startsWith_congr {text : List UInt8}
    (h : AgreeBelow text.length bytes bytes') : startsWith bytes text = startsWith bytes' text := by
  rw [Bool.eq_iff_iff]
  simp only [startsWith, all_eq_true, mem_range, beq_iff_eq]
  exact forall₂_congr fun i hi => by rw [h i hi]

section

variable (geometry)

theorem encodeSuperblock_agreeBelow (move : Option MoveIntent) :
    AgreeBelow 96 (encodeSuperblock geometry move) (encodeGeometry geometry) := by
  cases move with
  | none => exact agreeBelow_store _ 4 _ (by decide)
  | some =>
    intro i hi
    rw [encodeSuperblock, agreeBelow_store _ 4 _ (by decide : (96 : ℕ) ≤ 508) i hi]
    simp only [encodeMoveIntent, encodeMoveParent]
    repeat rw [agreeBelow_store _ _ _ (by decide) i hi]
    rw [splice, if_neg (by omega)]

theorem encodeGeometry_magic : startsWith (encodeGeometry geometry) magic := by
  have hagree : AgreeBelow magic.length (encodeGeometry geometry)
      (Buffer.zero.splice 0 8 fun i => magic.getD i 0) := by
    intro i hi
    simp only [encodeGeometry]
    repeat rw [agreeBelow_store _ _ _ (by decide) i hi]
  rw [startsWith_congr hagree]
  decide

theorem decodeMoveIntent_encodeSuperblock_none :
    decodeMoveIntent (encodeSuperblock geometry none) geometry = .ok none := by
  have hzero : allZero ((encodeSuperblock geometry none).slice 96) 160 := by
    rw [allZero_iff]
    intro i hi
    rw [slice, encodeSuperblock, agreeBelow_store _ 4 _ (Nat.le_refl 508) (96 + i) (by omega)]
    exact encodeGeometry_of_le geometry (by omega)
  rw [decodeMoveIntent]
  simp only [hzero, if_true]

end

theorem decodeSuperblock_encodeSuperblock {device : Device} {move : Option MoveIntent}
    (hfits : geometry.Fits) (hgeo : validateGeometry geometry device = .ok ())
    (hmove : decodeMoveIntent (encodeSuperblock geometry move) geometry = .ok move) :
    decodeSuperblock (encodeSuperblock geometry move) device = .ok ⟨geometry, move⟩ := by
  have hagree := encodeSuperblock_agreeBelow geometry move
  have hmagic : startsWith (encodeSuperblock geometry move) magic := by
    rw [startsWith_congr (hagree.mono (by decide)), encodeGeometry_magic]
  have hver : (encodeSuperblock geometry move).load 8 4 = 1 := by
    rw [load_congr_of_agreeBelow hagree (by decide)]
    simp only [encodeGeometry, load_store_of_disjoint, Nat.reduceAdd, Nat.reduceLeDiff, true_or]
    exact load_store_of_lt _ (by decide)
  have hcrc : (encodeSuperblock geometry move).load 508 4 =
      crc32 (encodeSuperblock geometry move) 508 := by
    cases move <;> exact load_crc32 _ 508
  have hdecoded : decodeGeometry (encodeSuperblock geometry move) = geometry := by
    rw [decodeGeometry_congr hagree, decodeGeometry_encodeGeometry hfits]
  rw [decodeSuperblock, hmagic, hver, hcrc, hdecoded, hgeo]
  simp [hmove]

end Kurogane.KuroFS
