/-
# A formatted volume

`format` leaves an empty root directory, free slots and a bitmap in which exactly
the metadata blocks are marked. Such a volume, like every settled one, is mounted as
it is.
-/

import Kurogane.KuroFS.MountSound
import Kurogane.KuroFS.Normalizing

namespace Kurogane.KuroFS

open Storage Storage.Buffer Function Storage.Prog

variable {geometry : Geometry} {device : Device} {image image' : Image} {mode : Mode}
  {fs : FileSystem}

/-! ## Settled volumes -/

/-- The contents of a device: the selected superblock, the volume, and blocks
owned once. -/
structure Disk (device : Device) (geometry : Geometry) (held : Set ℕ) (volume : Volume)
    (move : Option MoveIntent) (image : Image) : Prop where
  selects : Selects device image ⟨geometry, move⟩
  view : view geometry image = volume
  owns : Owns geometry held image

/-- A settled volume with the ownership feature is mounted without a write. -/
theorem Mounted.mount_wp (h : Mounted fs image) {onError : Status → Image → Prop}
    {onValue : FileSystem → Image → Prop} {onCrash : Image → Prop} (hvalue : onValue fs image) :
    (mount fs.device).wp mode onValue onError onCrash image := by
  have layout := h.layout
  have hvalid := layout.device_valid
  have hself : (⟨fs.device, fs.geometry, true⟩ : FileSystem) = fs := by
    rw [← h.mounted]
  rw [mount, if_neg (not_not.mpr layout.sectorSize), hvalid]
  simp only [Bool.not_true, Bool.false_eq_true, if_false]
  rw [wp_bind]
  refine wp_read_of_ok (selectSuperblock_eq_ok_iff.mpr h.selects) ?_
  rw [hself, recover, wp_bind, wp_pure, finishMount, wp_bind, normalizeInodeOwnership,
    wp_bind, wp_mapError, ensureFeature_of_present (.inr rfl) h.ownership, wp_pure,
    wp_bind]
  refine h.consistent.toSound.normalizeLoop_of_normalized h.toReady h.consistent.normalized
    (by decide) (add_comm _ _) ?_
  rw [wp_pure, wp_bind]
  exact wp_read_of_ok ((checkMounted_eq_ok_iff h.toReady).mpr h.consistent) hvalue

theorem Mounted.run_mount (h : Mounted fs image) :
    (mount fs.device).run image = (.ok fs, image) := by
  have hwp : (mount fs.device).wp .reliable (fun fs' image' => fs' = fs ∧ image' = image)
      (fun _ _ => False) (fun _ => True) image := h.mount_wp ⟨rfl, rfl⟩
  obtain ⟨_, hres, rfl, himage⟩ := hwp.exists_value
  exact Prod.ext hres himage

/-! ## Geometry -/

/-- The geometry of a new volume. -/
structure FreshGeometry (device : Device) (inodeCount : ℕ) (geometry : Geometry) : Prop where
  layout : Layout geometry device
  inodeCount : geometry.inodeCount = inodeCount
  generation : geometry.generation = 1
  features : geometry.featureFlags = supportedFeatures

variable {inodeCount index inodeId : ℕ}

theorem freshGeometry_of_calculateGeometry (hvalid : device.valid)
    (hcount : inodeCount < 2 ^ 32) (h : calculateGeometry device inodeCount = .ok geometry) :
    FreshGeometry device inodeCount geometry := by
  have hsectors := device.sectorCount_le
  revert h
  fun_cases calculateGeometry device inodeCount with
  | case7 hpos hsec _ hbytes _ _ _ hbitmap _ hdata hroom =>
    rintro ⟨⟩
    rw [not_not] at hsec
    rw [not_or, not_le] at hroom
    have hbitmapEq := eq_add_of_addU64 hbitmap
    have hdataEq := eq_add_of_addU64 hdata
    refine ⟨layout_of_validateGeometry hvalid ?_ ?_, rfl, rfl, rfl⟩
    · constructor <;> dsimp only [rootInodeId] <;> first | omega | decide
    rw [validateGeometry, if_neg]
    · rw [hbytes]
      dsimp only
      rw [hbitmap]
      dsimp only
      rw [hdata]
      dsimp only
      rw [if_neg]
      push Not
      exact ⟨rfl, rfl, rfl, rfl, hroom.1⟩
    · push Not
      exact ⟨rfl, hsec.symm, rfl, hpos, rfl, rfl, rfl, Nat.one_ne_zero,
        show supportedFeatures &&& (2 ^ 64 - 1 - supportedFeatures) = 0 by decide⟩
  | _ => rintro ⟨⟩

/-! ## The inode table -/

theorem clearTableLoop_wp (layout : Layout geometry device) {remaining block : ℕ}
    (hcount : block + remaining = geometry.inodeTableBlocks) :
    (clearTableLoop device geometry remaining block).wp mode
      (fun _ image' => image' = zeroed image 2 geometry.inodeTableBlocks)
      (fun _ _ => mode = .faulty) (fun _ => True) (zeroed image 2 block) := by
  have hbounds := layout.bounds
  induction remaining generalizing block with
  | zero =>
    rw [clearTableLoop, wp_pure, show block = geometry.inodeTableBlocks by omega]
  | succ _ ih =>
    have hstep : update (zeroed image 2 block) (geometry.inodeTableStart + block)
        Buffer.zero = zeroed image 2 (block + 1) := by
      rw [layout.inodeTableStart]
      funext other
      rw [update_apply, zeroed, zeroed]
      split
      · rw [if_pos (by omega)]
      · exact if_congr (by omega) rfl rfl
    have htable := layout.inodeTableStart
    rw [clearTableLoop, wp_bind, wp_writeOne layout (by omega), hstep]
    exact ⟨trivial, ih (by omega), fun hfault => hfault⟩

def withTable (geometry : Geometry) (image : Image) : Image :=
  Function.update (zeroed image 2 geometry.inodeTableBlocks) 2
    (Buffer.zero.splice 0 128 (encodeInode freshRoot))

theorem initializeInodeTable_wp (layout : Layout geometry device) :
    (initializeInodeTable device geometry).wp mode
      (fun _ image' => image' = withTable geometry image)
      (fun _ _ => mode = .faulty) (fun _ => True) image := by
  have hbounds := layout.bounds
  rw [initializeInodeTable, wp_bind]
  have hloop := @clearTableLoop_wp geometry device image mode layout _ 0 (zero_add _)
  rw [zeroed_zero] at hloop
  refine hloop.mono ?_ (fun _ _ h => h) fun _ h => h
  rintro _ _ rfl
  rw [layout.inodeTableStart, wp_writeOne layout (by omega)]
  exact ⟨trivial, rfl, fun hfault => hfault⟩

/-! ## The bitmap -/

theorem markMetadata_hasBit (geometry : Geometry) {first remaining bit : ℕ} {sector : Buffer}
    (hbit : bit + remaining = 4096)
    (hsec : ∀ other < 4096, sector.hasBit other ↔ other < bit ∧ first + other < geometry.dataStart)
    (htotal : geometry.dataStart ≤ geometry.totalBlocks) {other : ℕ} (hother : other < 4096) :
    (markMetadata geometry first remaining bit sector).hasBit other ↔
      first + other < geometry.dataStart := by
  induction remaining generalizing bit sector with
  | zero =>
    rw [markMetadata, hsec other hother]
    exact ⟨And.right, fun h => ⟨by omega, h⟩⟩
  | succ _ ih =>
    rw [markMetadata]
    split
    · rw [hsec other hother]
      exact ⟨And.right, fun h => ⟨by omega, h⟩⟩
    split
    next hmetadata =>
      refine ih (by omega) fun position hposition => ?_
      have hset := hasBit_setBit sector bit position
      rw [setBit, bitMask] at hset
      rw [hset, Bool.or_eq_true, hsec position hposition, decide_eq_true_eq]
      constructor
      · rintro (⟨hlt, hdata⟩ | rfl)
        · exact ⟨by omega, hdata⟩
        · exact ⟨by omega, hmetadata⟩
      rintro ⟨hlt, hdata⟩
      rcases Nat.eq_or_lt_of_le (Nat.le_of_lt_succ hlt) with rfl | hlt
      · exact .inr rfl
      · exact .inl ⟨hlt, hdata⟩
    next hmetadata =>
      refine ih (by omega) fun position hposition => ?_
      rw [hsec position hposition]
      refine ⟨fun h => ⟨by omega, h.2⟩, fun h => ⟨?_, h.2⟩⟩
      rcases Nat.eq_or_lt_of_le (Nat.le_of_lt_succ h.1) with rfl | hlt
      · exact absurd h.2 hmetadata
      · exact hlt

theorem hasBit_zero (bit : ℕ) : Buffer.zero.hasBit bit = false := by
  rw [hasBit, Buffer.zero]
  simp

section

variable (layout : Layout geometry device)
include layout

theorem markMetadata_zero {block : ℕ} (hblk : block / 4096 = index) :
    blockMarked (markMetadata geometry (index * 4096) 4096 0 Buffer.zero) block ↔
      block < geometry.dataStart := by
  rw [blockMarked_eq, markMetadata_hasBit geometry (zero_add _)
    (fun other _ => by simp [hasBit_zero]) (le_of_lt layout.dataStart_lt)
    (Nat.mod_lt _ (by decide))]
  omega

theorem bitmapLoop_wp {base : Image} {remaining : ℕ}
    (hcount : index + remaining = geometry.allocationBitmapBlocks)
    (hbase : Remarked geometry base image fun block =>
      if block / 4096 < index then block < geometry.dataStart else Marked geometry base block) :
    (bitmapLoop device geometry remaining index).wp mode
      (fun _ image' => Remarked geometry base image' fun block => block < geometry.dataStart)
      (fun _ _ => mode = .faulty) (fun _ => True) image := by
  have hbounds := layout.bounds
  induction remaining generalizing index image with
  | zero =>
    refine hbase.congr fun block hblk => ?_
    rw [if_pos (by omega)]
  | succ _ ih =>
    rw [bitmapLoop, wp_bind, wp_writeOne layout (by omega)]
    refine ⟨trivial, ih (by omega) ?_, fun hfault => hfault⟩
    refine hbase.write layout (by omega) (fun block heq _ => ?_) fun block hne => ?_
    · rw [markMetadata_zero layout heq, if_pos (by omega)]
    by_cases hbelow : block / 4096 < index
    · rw [if_pos hbelow, if_pos (by omega)]
    · rw [if_neg hbelow, if_neg (by omega)]

theorem initializeBitmap_wp :
    (initializeBitmap device geometry).wp mode
      (fun _ image' => Remarked geometry image image' fun block => block < geometry.dataStart)
      (fun _ _ => mode = .faulty) (fun _ => True) image := by
  refine bitmapLoop_wp layout (Nat.zero_add _) ((Remarked.refl geometry image).congr ?_)
  intro block _
  rw [if_neg (Nat.not_lt_zero _)]

end

/-! ## The volume -/

def emptyVolume (inodeCount : ℕ) : Volume := fun inodeId =>
  if inodeId = rootInodeId then .used freshRoot []
  else if inodeId ≠ 0 ∧ inodeId ≤ inodeCount then .free 1
  else .free 0

structure Formatted (device : Device) (geometry : Geometry) (image : Image) : Prop where
  disk : Disk device geometry ∅ (emptyVolume geometry.inodeCount) none image
  marked : ∀ block < geometry.totalBlocks, Marked geometry image block ↔ block < geometry.dataStart

theorem freshRoot_decoded : freshRoot.Decoded rootInodeId :=
  ⟨⟨by decide, by decide, by decide, by decide, by decide, by decide, by decide, by decide⟩, rfl,
    by decide, by decide, by decide⟩

theorem slotBytes_withTable (layout : Layout geometry device) (hid : inodeId ≠ 0)
    (hle : inodeId ≤ geometry.inodeCount) :
    AgreeBelow 128 (slotBytes (withTable geometry image) inodeId)
      (if inodeId = rootInodeId then encodeInode freshRoot else Buffer.zero) := by
  have hslot := layout.slotBlock_lt hid hle
  intro i hi
  rw [slotBytes, slice, withTable, update_apply, rootInodeId]
  by_cases hroot : inodeId = 1
  · subst hroot
    rw [if_pos (by decide), if_pos rfl, splice, if_pos (by omega)]
    congr 1
    omega
  split
  · rw [splice, if_neg (by omega)]
    rfl
  · rw [zeroed, if_pos (by omega)]
    rfl

theorem view_formatted (layout : Layout geometry device)
    (htable : ∀ block, 2 ≤ block → block < geometry.allocationBitmapStart →
      image' block = withTable geometry image block) :
    view geometry image' = emptyVolume geometry.inodeCount := by
  funext inodeId
  rw [view, emptyVolume]
  have hstart := layout.bitmapStart
  have hpos := layout.inodeCount_pos
  split
  next hmem =>
    have hslot := layout.slotBlock_lt hmem.1 hmem.2
    have hbytes : AgreeBelow 128 (slotBytes image' inodeId)
        (if inodeId = rootInodeId then encodeInode freshRoot else Buffer.zero) := by
      rw [slotBytes, htable _ (by omega) (by omega)]
      exact slotBytes_withTable layout hmem.1 hmem.2
    rw [nodeOf_congr hbytes fun _ _ => rfl]
    split
    next hroot =>
      rw [hroot, nodeOf_encodeInode freshRoot_decoded]
      rfl
    · have hzero : allZero Buffer.zero 128 := allZero_iff.mpr fun _ _ => rfl
      rw [nodeOf, decodeFreeInode_of_allZero inodeId hzero]
  next hmem =>
    rw [if_neg]
    rintro rfl
    exact hmem ⟨by decide, hpos⟩

theorem owns_formatted (hview : view geometry image = emptyVolume geometry.inodeCount) :
    Owns geometry ∅ image := by
  have hblks : ∀ inodeId, (view geometry image inodeId).blocks = ∅ := by
    intro inodeId
    rw [hview, emptyVolume]
    split
    · exact extent_zero 0
    · split <;> rfl
  refine ⟨fun inodeId => ?_, fun inodeId block hblk => ?_, fun inodeId _ _ => ?_, nofun, nofun,
    fun _ => Set.disjoint_empty _⟩
  · rw [hview, emptyVolume]
    split
    · exact .inl ⟨rfl, rfl, rfl⟩
    · split <;> trivial
  · rw [hblks] at hblk
    exact hblk.elim
  · rw [hblks]
    exact Set.empty_disjoint _

theorem format_wp {inodeCount : UInt32} (hvalid : device.valid)
    (hgeo : calculateGeometry device inodeCount.toNat = .ok geometry) :
    (format device inodeCount).wp mode (fun _ image' => Formatted device geometry image')
      (fun _ _ => mode = .faulty) (fun _ => True) image := by
  have hfresh := freshGeometry_of_calculateGeometry hvalid inodeCount.toNat_lt hgeo
  have layout := hfresh.layout
  have hstart := layout.bitmapStart
  have hcount : inodeCount ≠ 0 := by
    rintro rfl
    cases hgeo
  rw [format, if_neg hcount, hvalid, hgeo]
  simp only [Bool.not_true, Bool.false_eq_true, if_false]
  rw [wp_bind]
  refine (initializeInodeTable_wp layout).mono ?_ (fun _ _ h => h) fun _ h => h
  rintro _ _ rfl
  rw [wp_bind]
  refine (initializeBitmap_wp layout).mono ?_ (fun _ _ h => h) fun _ h => h
  intro _ marked hmark
  -- the two superblock writes are those of `write_superblock_pair`
  refine (@writeSuperblockPair_wp ⟨device, geometry, true⟩ _ mode layout geometry none).mono ?_
    (fun _ _ h => h) fun _ h => h
  rintro _ _ rfl
  have hview : view geometry (withBoth marked (encodeSuperblock geometry none)) =
      emptyVolume geometry.inodeCount := view_formatted layout fun block hlow hhigh => by
    rw [withBoth_of_le hlow, hmark.outside block (.inl hhigh)]
  refine ⟨⟨selects_withBoth layout (encodable_none _), hview, owns_formatted hview⟩,
    fun block hblk => ?_⟩
  rw [Marked, withBoth_of_le (by omega)]
  exact hmark.marked block (layout.bitmapBlock_lt hblk)

theorem used_of_emptyVolume {inode : Inode} {bytes : List UInt8}
    (hnode : emptyVolume inodeCount inodeId = .used inode bytes) :
    inodeId = rootInodeId ∧ inode = freshRoot ∧ bytes = [] := by
  rw [emptyVolume] at hnode
  split at hnode
  next hroot =>
    cases hnode
    exact ⟨hroot, rfl, rfl⟩
  · split at hnode <;> cases hnode

theorem entries_emptyVolume (inodeCount inodeId : ℕ) :
    (emptyVolume inodeCount).entries inodeId = [] := by
  rw [Volume.entries, emptyVolume]
  split
  · rfl
  · split <;> rfl

theorem not_attached_emptyVolume (inodeCount childId : ℕ) :
    ¬ (emptyVolume inodeCount).Attached childId := by
  rintro ⟨_, hpar⟩
  rw [Volume.Parent, entries_emptyVolume] at hpar
  cases hpar

theorem tree_emptyVolume (inodeCount : ℕ) : Tree (emptyVolume inodeCount) := by
  have hpar : ∀ directoryId childId, ¬ (emptyVolume inodeCount).Parent directoryId childId :=
    fun directoryId childId hpar => not_attached_emptyVolume inodeCount childId ⟨_, hpar⟩
  refine ⟨⟨?_, ?_, ?_, ?_, ?_, ?_, ?_, ?_, ?_⟩, ?_, ?_, ?_⟩
  · intro inodeId status
    rw [emptyVolume]
    split
    · exact nofun
    · split <;> exact nofun
  · intro inodeId inode bytes hnode
    rw [(used_of_emptyVolume hnode).2.1]
    decide
  · intro inodeId inode bytes hnode
    rw [(used_of_emptyVolume hnode).2.1]
    rfl
  · intro inode bytes hnode
    rw [(used_of_emptyVolume hnode).2.1]
    rfl
  · intro inodeId inode bytes hnode _
    rw [(used_of_emptyVolume hnode).2.2, entries_emptyVolume]
    exact spells_nil
  · intro inodeId entry hentry
    rw [entries_emptyVolume] at hentry
    cases hentry
  · intro inodeId entry hentry
    rw [entries_emptyVolume] at hentry
    cases hentry
  · intro inodeId
    rw [entries_emptyVolume]
    exact List.nodup_nil
  · intro inodeId
    rw [entries_emptyVolume]
    exact List.nodup_nil
  · exact ⟨freshRoot, [], if_pos rfl, rfl⟩
  · exact fun hfirst => absurd hfirst (hpar _ _)
  · exact ⟨fun inodeId => ⟨inodeId, fun directoryId h => absurd h (hpar _ _)⟩⟩

theorem normalized_emptyVolume (inodeCount : ℕ) : Normalized (emptyVolume inodeCount) := by
  intro inodeId inode bytes hnode hroot
  rw [emptyVolume, if_neg hroot] at hnode
  split at hnode <;> cases hnode

/-- A new volume can be mounted right away. -/
theorem Formatted.mounted (h : Formatted device geometry image) (hvalid : device.valid)
    (hfeatures : geometry.featureFlags = supportedFeatures) :
    Mounted ⟨device, geometry, true⟩ image where
  mounted := rfl
  layout := h.disk.selects.layout hvalid
  selects := h.disk.selects
  consistent := ⟨⟨h.disk.owns, by rw [h.disk.view]; exact tree_emptyVolume _⟩,
    by rw [h.disk.view]; exact normalized_emptyVolume _⟩
  ownership := by
    rw [hfeatures]
    decide

end Kurogane.KuroFS
