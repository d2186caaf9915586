/-
# The consistency check

`mount` ends with `checkMounted`. It succeeds exactly on consistent volumes: every
block of an allocated inode is in the data area, marked and owned once, the
records form a forest below the root, and the orphan flag tells the inodes that
no record names.
-/

import Kurogane.KuroFS.Mount
import Kurogane.KuroFS.Scanning

namespace Kurogane.KuroFS

open Storage Storage.Buffer List

variable {fs : FileSystem} {image : Image} {held : Set ℕ}

/-- What a successful mount leaves behind. -/
structure Consistent (geometry : Geometry) (image : Image) : Prop
    extends Sound geometry ∅ image where
  normalized : Normalized (view geometry image)

/-! ## Extents -/

theorem inodeExtentsOverlap_eq_false_iff {left right : Inode}
    (layout : Layout fs.geometry fs.device) (hleft : left.ExtentValid fs.geometry)
    (hright : right.ExtentValid fs.geometry) :
    inodeExtentsOverlap left right = false ↔ Disjoint left.blocks right.blocks := by
  have htotal := layout.totalBlocks_lt
  rw [inodeExtentsOverlap, Set.disjoint_left]
  simp only [Inode.blocks, mem_extent]
  split
  · refine ⟨fun _ block hblk hother => ?_, fun _ => rfl⟩
    omega
  have hleftEnd : left.extentStart + left.extentBlocks ≤ fs.geometry.totalBlocks := by
    rcases hleft with h | h <;> omega
  have hrightEnd : right.extentStart + right.extentBlocks ≤ fs.geometry.totalBlocks := by
    rcases hright with h | h <;> omega
  rw [addU64_eq_some (by omega), addU64_eq_some (by omega)]
  simp only [Bool.and_eq_false_iff, decide_eq_false_iff_not, not_lt]
  constructor
  · intro h block hblk hother
    omega
  intro h
  by_contra hoverlap
  have hcommon : left.extentStart ≤ max left.extentStart right.extentStart ∧
      max left.extentStart right.extentStart < left.extentStart + left.extentBlocks := by omega
  exact h hcommon (by omega)

/-! ## Records -/

variable {index otherId : ℕ}

section Records

variable {inode : Inode} {bytes : List UInt8}

structure RecordsChecked (volume : Volume) (inodeId : ℕ) (bytes : List UInt8) : Prop where
  spells : Spells bytes (entriesOf bytes)
  refers : ∀ entry ∈ entriesOf bytes, volume.Refers entry
  not_root : ∀ entry ∈ entriesOf bytes, entry.inodeId ≠ rootInodeId
  not_self : ∀ entry ∈ entriesOf bytes, entry.inodeId ≠ inodeId
  names : ((entriesOf bytes).map (·.name)).Nodup
  children : ((entriesOf bytes).map (·.inodeId)).Nodup

theorem checkDistinct_eq_ok_iff {entry previous : DirectoryEntry}
    (hprev : directoryEntryAt fs image inode index = .ok previous) :
    checkDistinct fs image inode entry index = .ok () ↔
      previous.inodeId ≠ entry.inodeId ∧ previous.name ≠ entry.name := by
  have hsame : (previous.name.length = entry.name.length ∧
      sameName previous entry.name entry.name.length = true) ↔ previous.name = entry.name := by
    rw [sameName_iff le_rfl, take_length]
    exact ⟨And.right, fun h => ⟨by rw [h], h⟩⟩
  rw [checkDistinct, hprev]
  simp only [hsame]
  split
  next hcollides => exact ⟨nofun, fun ⟨hid, hname⟩ => (hcollides.elim hid hname).elim⟩
  next hdist => exact ⟨fun _ => not_or.mp hdist, fun _ => rfl⟩

theorem checkRecord_eq_ok_iff :
    checkRecord fs image inode index = .ok () ↔
      ∃ entry, directoryEntryAt fs image inode index = .ok entry ∧
        entry.inodeId ≠ rootInodeId ∧ entry.inodeId ≠ inode.id ∧
        ∀ previous < index, checkDistinct fs image inode entry previous = .ok () := by
  rw [checkRecord]
  cases hentry : directoryEntryAt fs image inode index with
  | error => exact ⟨nofun, fun ⟨entry, hcontra, _⟩ => nomatch hcontra⟩
  | ok entry =>
    dsimp only
    split
    next hrefused =>
      refine ⟨nofun, fun ⟨found, hfound, hroot, hself, _⟩ => ?_⟩
      cases hfound
      exact (hrefused.elim hroot hself).elim
    rename_i haccepted
    rw [not_or] at haccepted
    rw [foldRange_unit_eq_ok_iff]
    constructor
    · intro hall
      exact ⟨entry, rfl, haccepted.1, haccepted.2, fun previous hlt =>
        hall previous (Nat.zero_le _) (by omega)⟩
    · rintro ⟨_, hfound, -, -, hall⟩ previous - _
      cases hfound
      exact hall previous (by omega)

/-- The records of a directory pass the first pass exactly when they are well
formed. -/
theorem OpenDirectory.checkRecords_eq_ok_iff (hopen : OpenDirectory fs image inode bytes)
    (ready : fs.Ready) :
    checkRecords fs image inode = .ok () ↔
      RecordsChecked (KuroFS.view fs.geometry image) inode.id bytes := by
  have hlen := hopen.length
  have halign := hopen.aligned
  rw [checkRecords, if_neg (not_not.mpr hopen.type), if_neg (not_not.mpr halign),
    foldRange_unit_eq_ok_iff]
  constructor
  · intro hall
    have hrec : ∀ index < inode.size / 128, ∃ entry,
        directoryEntryAt fs image inode index = .ok entry ∧ recordAt bytes index = .ok entry ∧
        (KuroFS.view fs.geometry image).Refers entry ∧ entry.inodeId ≠ rootInodeId ∧
        entry.inodeId ≠ inode.id ∧
        ∀ previous < index, checkDistinct fs image inode entry previous = .ok () := by
      intro index hidx
      obtain ⟨entry, hentry, hroot, hself, hdist⟩ :=
        checkRecord_eq_ok_iff.mp (hall index (Nat.zero_le _) (by omega))
      obtain ⟨hrec, hrefers⟩ := (hopen.directoryEntryAt_eq_ok_iff ready hidx).mp hentry
      exact ⟨entry, hentry, hrec, hrefers, hroot, hself, hdist⟩
    have hspells : Spells bytes (entriesOf bytes) := spells_entriesOf (by omega) (by
      rw [hlen]
      intro index hidx
      obtain ⟨entry, -, hentry, -⟩ := hrec index hidx
      exact ⟨entry, hentry⟩)
    have hcount : (entriesOf bytes).length = inode.size / 128 := by
      have := hspells.length
      omega
    have hget : ∀ {index entry}, (entriesOf bytes)[index]? = some entry →
        directoryEntryAt fs image inode index = .ok entry ∧
        (KuroFS.view fs.geometry image).Refers entry ∧ entry.inodeId ≠ rootInodeId ∧
        entry.inodeId ≠ inode.id ∧
        ∀ previous < index, checkDistinct fs image inode entry previous = .ok () := by
      intro index entry hentry
      obtain ⟨hidx, -⟩ := List.getElem?_eq_some_iff.mp hentry
      obtain ⟨_, hread, hfound, hrest⟩ := hrec index (by omega)
      rw [hspells.record hentry] at hfound
      cases hfound
      exact ⟨hread, hrest⟩
    have hdist : (entriesOf bytes).Pairwise fun left right =>
        left.inodeId ≠ right.inodeId ∧ left.name ≠ right.name := by
      refine pairwise_iff_getElem.mpr fun i j hi hj hlt => ?_
      exact (checkDistinct_eq_ok_iff (hget (getElem?_eq_getElem hi)).1).mp
        ((hget (getElem?_eq_getElem hj)).2.2.2.2 i hlt)
    have hmem : ∀ entry ∈ entriesOf bytes, ∃ index, (entriesOf bytes)[index]? = some entry :=
      fun entry hentry => getElem?_of_mem hentry
    refine ⟨hspells, ?_, ?_, ?_, pairwise_map.mpr (hdist.imp And.right),
      pairwise_map.mpr (hdist.imp And.left)⟩
    · intro entry hentry
      obtain ⟨index, hidx⟩ := hmem entry hentry
      exact (hget hidx).2.1
    · intro entry hentry
      obtain ⟨index, hidx⟩ := hmem entry hentry
      exact (hget hidx).2.2.1
    · intro entry hentry
      obtain ⟨index, hidx⟩ := hmem entry hentry
      exact (hget hidx).2.2.2.1
  · intro h index _ hidx
    have hcount : (entriesOf bytes).length = inode.size / 128 := by
      have := h.spells.length
      omega
    have hread : ∀ {index entry}, (entriesOf bytes)[index]? = some entry →
        directoryEntryAt fs image inode index = .ok entry := by
      intro index entry hentry
      obtain ⟨_, -⟩ := List.getElem?_eq_some_iff.mp hentry
      exact (hopen.directoryEntryAt_eq_ok_iff ready (by omega)).mpr
        ⟨h.spells.record hentry, h.refers entry (mem_of_getElem? hentry)⟩
    have hget := getElem?_eq_getElem (show index < (entriesOf bytes).length by omega)
    refine checkRecord_eq_ok_iff.mpr ⟨_, hread hget, h.not_root _ (mem_of_getElem? hget),
      h.not_self _ (mem_of_getElem? hget), fun previous hlt => ?_⟩
    have hprev := getElem?_eq_getElem (show previous < (entriesOf bytes).length by omega)
    rw [checkDistinct_eq_ok_iff (hread hprev)]
    exact ⟨pairwise_iff_getElem.mp (pairwise_map.mp h.children) _ _ _ _ hlt,
      pairwise_iff_getElem.mp (pairwise_map.mp h.names) _ _ _ _ hlt⟩

end Records

/-! ## The first pass -/

theorem view_ne_bad_notFound (geometry : Geometry) (image : Image) (inodeId : ℕ) :
    view geometry image inodeId ≠ .bad .notFound := by
  intro hbad
  rw [view] at hbad
  split at hbad
  · rw [nodeOf] at hbad
    split at hbad
    · cases hbad
    rename_i hnone
    split at hbad
    · cases hbad
    rename_i status hdec
    cases hbad
    obtain ⟨_, hfree⟩ := decodeInode_eq_notFound_iff.mp hdec
    rw [hnone] at hfree
    cases hfree
  · cases hbad

structure InodeChecked (fs : FileSystem) (image : Image) (inodeId : ℕ) (inode : Inode) :
    Prop where
  extent : validateInodeExtent fs image inode = .ok ()
  flags : validInodeOwnershipFlags inode.flags = true
  linkCount : inode.linkCount = 1
  rootFlags : inodeId = rootInodeId → inode.flags = 0
  records : checkRecords fs image inode = .ok ()
  disjoint : inode.extentBlocks ≠ 0 → ∀ other, inodeId < other →
    other ≤ fs.geometry.inodeCount → checkDisjoint fs image inode other = .ok ()

variable {inode : Inode} {bytes : List UInt8} {inodeId : ℕ}

theorem checkInode_eq_ok_iff (ready : fs.Ready) (hid : inodeId ≠ 0)
    (hle : inodeId ≤ fs.geometry.inodeCount) :
    checkInode fs image inodeId = .ok () ↔
      (∀ status, view fs.geometry image inodeId ≠ .bad status) ∧
        ∀ inode bytes, view fs.geometry image inodeId = .used inode bytes →
          InodeChecked fs image inodeId inode := by
  rw [checkInode, readInode_eq ready hid hle]
  cases hnode : view fs.geometry image inodeId with
  | free => simp [Node.inode]
  | bad status =>
    refine ⟨fun h => ?_, fun h => absurd rfl (h.1 status)⟩
    cases status
    case notFound => exact absurd hnode (view_ne_bad_notFound _ _ _)
    all_goals cases h
  | used inode bytes =>
    have hself := id_of_view hnode
    have hkind : ((∀ status, Node.used inode bytes ≠ .bad status) ∧
        ∀ inode' bytes', Node.used inode bytes = .used inode' bytes' →
          InodeChecked fs image inodeId inode') ↔ InodeChecked fs image inodeId inode := by
      constructor
      · exact fun h => h.2 inode bytes rfl
      · refine fun h => ⟨by rintro _ ⟨⟩, fun _ _ heq => ?_⟩
        cases heq
        exact h
    rw [hkind, Node.inode]
    dsimp only
    cases hext : validateInodeExtent fs image inode with
    | error =>
      refine ⟨by rintro ⟨⟩, fun h => ?_⟩
      have := h.extent
      rw [hext] at this
      cases this
    | ok _ =>
      dsimp only
      split
      next hmetadata =>
        refine ⟨by rintro ⟨⟩, fun h => ?_⟩
        rcases hmetadata with hflags | hlink | ⟨hroot, hflags⟩
        · rw [h.flags] at hflags
          cases hflags
        · exact absurd h.linkCount hlink
        · exact absurd (h.rootFlags (hself ▸ hroot)) hflags
      rename_i hmetadata
      simp only [not_or, not_and, not_not, Bool.not_eq_true, Bool.not_eq_false'] at hmetadata
      obtain ⟨hflags, hlink, hroot⟩ := hmetadata
      cases hrecords : checkRecords fs image inode with
      | error =>
        refine ⟨by rintro ⟨⟩, fun h => ?_⟩
        have := h.records
        rw [hrecords] at this
        cases this
      | ok _ =>
        dsimp only
        split
        next hempty =>
          exact ⟨fun _ => ⟨hext, hflags, hlink, fun h => hroot (hself.trans h),
            hrecords, fun h => absurd hempty h⟩, fun _ => rfl⟩
        rename_i hsome
        rw [foldRange_unit_eq_ok_iff]
        constructor
        · intro hall
          exact ⟨hext, hflags, hlink, fun h => hroot (hself.trans h), hrecords,
            fun _ other hlow hhigh => hall other (by omega) (by omega)⟩
        · intro h other hlow hhigh
          exact h.disjoint hsome other (by omega) (by omega)

theorem checkDisjoint_eq_ok_iff (ready : fs.Ready) (hid : otherId ≠ 0)
    (hle : otherId ≤ fs.geometry.inodeCount) (hvalid : inode.ExtentValid fs.geometry)
    (hother : ∀ other bytes, view fs.geometry image otherId = .used other bytes →
      other.ExtentValid fs.geometry)
    (hslots : ∀ status, view fs.geometry image otherId ≠ .bad status) :
    checkDisjoint fs image inode otherId = .ok () ↔
      Disjoint inode.blocks (view fs.geometry image otherId).blocks := by
  rw [checkDisjoint, readInode_eq ready hid hle]
  cases hnode : view fs.geometry image otherId with
  | free => exact ⟨fun _ => Set.disjoint_empty _, fun _ => rfl⟩
  | bad status => exact absurd hnode (hslots status)
  | used other bytes =>
    rw [Node.inode, Node.blocks,
      ← inodeExtentsOverlap_eq_false_iff ready.layout hvalid (hother other bytes hnode)]
    dsimp only
    cases inodeExtentsOverlap inode other <;> simp

section FirstPass

variable (ready : fs.Ready) (hall : ∀ inodeId, inodeId ≠ 0 → inodeId ≤ fs.geometry.inodeCount →
  checkInode fs image inodeId = .ok ()) {inodeId : ℕ} {inode : Inode} {bytes : List UInt8}
include ready hall

theorem slots_of_checked (inodeId : ℕ) (status : Status) :
    view fs.geometry image inodeId ≠ .bad status := by
  by_cases hmem : inodeId ≠ 0 ∧ inodeId ≤ fs.geometry.inodeCount
  · exact ((checkInode_eq_ok_iff ready hmem.1 hmem.2).mp (hall inodeId hmem.1 hmem.2)).1 status
  · rw [view_of_not_mem (by omega)]
    exact nofun

section

variable (hview : view fs.geometry image inodeId = .used inode bytes)
include hview

theorem inodeChecked_of_view : InodeChecked fs image inodeId inode := by
  obtain ⟨hid, hle, -⟩ := used_of_view hview
  exact ((checkInode_eq_ok_iff ready hid hle).mp (hall inodeId hid hle)).2 inode bytes hview

theorem extentValid_of_checked :
    inode.ExtentValid fs.geometry ∧ ∀ block ∈ inode.blocks, Marked fs.geometry image block :=
  ((validateInodeExtent_eq_ok_iff ready.layout).mp (inodeChecked_of_view ready hall hview).extent).2

theorem recordsChecked_of_view (htype : inode.type = .directory) :
    RecordsChecked (view fs.geometry image) inodeId bytes := by
  have hchecked := inodeChecked_of_view ready hall hview
  have hpass := hchecked.records
  obtain rfl := id_of_view hview
  refine (OpenDirectory.checkRecords_eq_ok_iff ⟨hview, htype, ?_, hchecked.extent⟩ ready).mp hpass
  rw [checkRecords, if_neg (not_not.mpr htype)] at hpass
  by_contra hsize
  rw [if_pos hsize] at hpass
  cases hpass

end

theorem recordsChecked_of_mem {entry : DirectoryEntry}
    (hentry : entry ∈ (view fs.geometry image).entries inodeId) :
    ∃ bytes, (view fs.geometry image).entries inodeId = entriesOf bytes ∧
      RecordsChecked (view fs.geometry image) inodeId bytes := by
  obtain ⟨_, bytes, hview, htype⟩ := Volume.directory_of_mem hentry
  exact ⟨bytes, Volume.entries_of_directory hview htype,
    recordsChecked_of_view ready hall hview htype⟩

/-- The check compares each inode with the later ones only. -/
theorem disjoint_of_checked (hlt : inodeId < otherId) :
    Disjoint (view fs.geometry image inodeId).blocks (view fs.geometry image otherId).blocks := by
  cases hnode : view fs.geometry image inodeId with
  | free => exact Set.empty_disjoint _
  | bad status => exact absurd hnode (slots_of_checked ready hall inodeId status)
  | used inode bytes =>
    rw [Node.blocks]
    by_cases hempty : inode.extentBlocks = 0
    · rw [Inode.blocks, hempty, extent_zero]
      exact Set.empty_disjoint _
    by_cases hle : otherId ≤ fs.geometry.inodeCount
    · exact (checkDisjoint_eq_ok_iff ready (by omega) hle
        (extentValid_of_checked ready hall hnode).1
        (fun other bytes hother => (extentValid_of_checked ready hall hother).1)
        (slots_of_checked ready hall otherId)).mp
        ((inodeChecked_of_view ready hall hnode).disjoint hempty otherId hlt hle)
    · rw [view_of_not_mem (by omega)]
      exact Set.disjoint_empty _

theorem owns_of_checked : Owns fs.geometry ∅ image := by
  refine ⟨fun inodeId => ?_, fun inodeId block hblk => ?_, fun inodeId otherId hne => ?_, nofun,
    nofun, fun _ => Set.disjoint_empty _⟩
  · cases hnode : view fs.geometry image inodeId with
    | used => exact (extentValid_of_checked ready hall hnode).1
    | free => trivial
    | bad => trivial
  · cases hnode : view fs.geometry image inodeId with
    | used =>
      rw [hnode] at hblk
      exact (extentValid_of_checked ready hall hnode).2 block hblk
    | free =>
      rw [hnode] at hblk
      exact hblk.elim
    | bad status => exact absurd hnode (slots_of_checked ready hall inodeId status)
  · rcases Nat.lt_or_gt_of_ne hne with hlt | hlt
    · exact disjoint_of_checked ready hall hlt
    · exact (disjoint_of_checked ready hall hlt).symm

theorem readable_of_checked : Readable (view fs.geometry image) := by
  have hlisted := @recordsChecked_of_mem fs image ready hall
  refine ⟨slots_of_checked ready hall, fun hview => (inodeChecked_of_view ready hall hview).flags,
    fun hview => (inodeChecked_of_view ready hall hview).linkCount,
    fun hview => (inodeChecked_of_view ready hall hview).rootFlags rfl, ?_, ?_, ?_, ?_, ?_⟩
  · intro inodeId inode bytes hview htype
    rw [Volume.entries_of_directory hview htype]
    exact (recordsChecked_of_view ready hall hview htype).spells
  · intro inodeId entry hentry
    obtain ⟨bytes, hents, h⟩ := hlisted hentry
    exact h.refers entry (hents ▸ hentry)
  · intro inodeId entry hentry
    obtain ⟨bytes, hents, h⟩ := hlisted hentry
    exact h.not_root entry (hents ▸ hentry)
  · intro inodeId
    cases hempty : (view fs.geometry image).entries inodeId
    · exact nodup_nil
    · obtain ⟨bytes, hents, h⟩ := hlisted (hempty ▸ mem_cons_self)
      exact hempty ▸ hents ▸ h.names
  intro inodeId
  cases hempty : (view fs.geometry image).entries inodeId
  · exact nodup_nil
  · obtain ⟨_, hents, h⟩ := hlisted (hempty ▸ mem_cons_self)
    exact hempty ▸ hents ▸ h.children

end FirstPass

theorem Readable.checkRecords_eq (hreadable : Readable (view fs.geometry image))
    (howns : Owns fs.geometry held image) (ready : fs.Ready)
    (hself : ∀ inodeId, ¬ (view fs.geometry image).Parent inodeId inodeId)
    (hview : view fs.geometry image inode.id = .used inode bytes) :
    checkRecords fs image inode = .ok () := by
  by_cases htype : inode.type = .directory
  swap
  · rw [checkRecords, if_pos htype]
  have hopen := hreadable.openDirectory howns ready hview htype
  have hents := Volume.entries_of_directory hview htype
  rw [hopen.checkRecords_eq_ok_iff ready]
  refine ⟨?_, ?_, ?_, ?_, ?_, ?_⟩ <;> rw [← hents]
  · exact hreadable.spells hview htype
  · exact fun entry => hreadable.refers
  · exact fun entry => hreadable.not_root
  · exact fun entry hentry hchild =>
      hself inode.id (Volume.parent_iff.mpr ⟨entry, hentry, hchild⟩)
  · exact hreadable.names inode.id
  · exact hreadable.children inode.id

/-- The first pass succeeds exactly when the blocks are owned once and all
records can be read. -/
theorem firstPass_iff (ready : fs.Ready) :
    (∀ inodeId, inodeId ≠ 0 → inodeId ≤ fs.geometry.inodeCount →
        checkInode fs image inodeId = .ok ()) ↔
      Owns fs.geometry ∅ image ∧ Readable (view fs.geometry image) ∧
        ∀ inodeId, ¬ (view fs.geometry image).Parent inodeId inodeId := by
  constructor
  · refine fun hall => ⟨owns_of_checked ready hall, readable_of_checked ready hall, ?_⟩
    intro inodeId hpar
    obtain ⟨entry, hentry, hchild⟩ := Volume.parent_iff.mp hpar
    obtain ⟨bytes, hents, h⟩ := recordsChecked_of_mem ready hall hentry
    exact h.not_self entry (hents ▸ hentry) hchild
  rintro ⟨howns, hreadable, hself⟩ inodeId hid hle
  rw [checkInode_eq_ok_iff ready hid hle]
  refine ⟨hreadable.slots inodeId, fun inode bytes hview => ⟨howns.validateInodeExtent_eq
    ready.layout hview, hreadable.flags hview, hreadable.linkCount hview, ?_, ?_, ?_⟩⟩
  · rintro rfl
    exact hreadable.rootFlags hview
  · obtain rfl := id_of_view hview
    exact hreadable.checkRecords_eq howns ready hself hview
  intro _ other hlt hother
  rw [checkDisjoint_eq_ok_iff ready (by omega) hother (howns.extentValid hview)
    (fun other bytes hother => howns.extentValid hother) (hreadable.slots other)]
  have := howns.disjoint inodeId other (by omega)
  rwa [hview] at this

/-! ## The second pass -/

theorem attachment_of_checkAttachment (hreadable : Readable (view fs.geometry image))
    (howns : Owns fs.geometry held image) (ready : fs.Ready)
    (hview : view fs.geometry image inodeId = .used inode bytes)
    (hroot : inodeId ≠ rootInodeId) (hcheck : checkAttachment fs image inodeId = .ok ()) :
    ¬ (view fs.geometry image).Shared inodeId ∧
      ((view fs.geometry image).Attached inodeId → inode.flags = 0) ∧
      (¬ (view fs.geometry image).Attached inodeId → inode.flags = inodeFlagOrphan) ∧
      (inode.type = .directory → Acc (view fs.geometry image).Parent inodeId) := by
  have hself := id_of_view hview
  have hancestors : checkAncestors fs image inode = .ok () → inode.type = .directory →
      Acc (view fs.geometry image).Parent inodeId := by
    intro hpass htype
    rw [checkAncestors, if_neg (not_not.mpr htype)] at hpass
    cases hreach : inodeReachesRoot fs image inode.id with
    | error =>
      rw [hreach] at hpass
      cases hpass
    | ok =>
      obtain ⟨_, _, -⟩ := used_of_view hview
      rw [hself, inodeReachesRoot, if_neg (by omega), if_neg hroot] at hreach
      exact acc_of_reachesRootWalk hreadable howns ready hroot hreach
  rw [checkAttachment, (readInode_eq_ok_iff ready).mpr ⟨bytes, hview⟩] at hcheck
  dsimp only at hcheck
  rw [hself] at hcheck
  rcases findUniqueParent_spec hreadable howns ready hroot with
    ⟨parentId, hfound, hpar, honly⟩ | ⟨hnone, hunatt⟩ | ⟨hcorrupt, -⟩
  · rw [hfound] at hcheck
    dsimp only at hcheck
    split at hcheck
    · cases hcheck
    rename_i hflags
    refine ⟨?_, fun _ => not_not.mp hflags, fun hnot => absurd ⟨parentId, hpar⟩ hnot,
      hancestors hcheck⟩
    rintro ⟨first, second, hne, hfirst, hsnd⟩
    exact hne ((honly first hfirst).trans (honly second hsnd).symm)
  · rw [hnone] at hcheck
    dsimp only at hcheck
    split at hcheck
    · cases hcheck
    rename_i hflags
    refine ⟨?_, fun hatt => absurd hatt hunatt, fun _ => not_not.mp hflags, hancestors hcheck⟩
    rintro ⟨first, _, -, hfirst, -⟩
    exact hunatt ⟨first, hfirst⟩
  · rw [hcorrupt] at hcheck
    cases hcheck

theorem Consistent.checkAttachment_eq (h : Consistent fs.geometry image) (ready : fs.Ready)
    (hroot : inodeId ≠ rootInodeId) (hid : inodeId ≠ 0)
    (hle : inodeId ≤ fs.geometry.inodeCount) : checkAttachment fs image inodeId = .ok () := by
  rw [checkAttachment, readInode_eq ready hid hle]
  cases hnode : view fs.geometry image inodeId with
  | free => rfl
  | bad status => exact absurd hnode (h.tree.slots inodeId status)
  | used inode =>
    have hself := id_of_view hnode
    have hancestors : checkAncestors fs image inode = .ok () := by
      rw [checkAncestors]
      split
      · rfl
      · obtain ⟨_, hreach⟩ := h.toSound.inodeReachesRoot_ok ready hnode
        rw [hself, hreach]
    rw [Node.inode]
    dsimp only
    rw [hself]
    rcases h.toSound.findUniqueParent_eq ready hroot with
      ⟨parentId, hfound, hpar⟩ | ⟨hnone, hunatt⟩
    · rw [hfound]
      rw [if_neg (not_not.mpr ((h.normalized hnode hroot).1 ⟨parentId, hpar⟩)), hancestors]
    · rw [hnone]
      rw [if_neg (not_not.mpr ((h.normalized hnode hroot).2 hunatt)), hancestors]

theorem validateConsistency_eq_ok_iff (ready : fs.Ready) :
    validateConsistency fs image = .ok () ↔
      (∀ inodeId, inodeId ≠ 0 → inodeId ≤ fs.geometry.inodeCount →
          checkInode fs image inodeId = .ok ()) ∧
        ∀ inodeId, inodeId ≠ rootInodeId → inodeId ≠ 0 → inodeId ≤ fs.geometry.inodeCount →
          checkAttachment fs image inodeId = .ok () := by
  have hfirst : foldRange (fun _ inodeId => checkInode fs image inodeId) fs.geometry.inodeCount
      rootInodeId () = .ok () ↔ ∀ inodeId, inodeId ≠ 0 → inodeId ≤ fs.geometry.inodeCount →
        checkInode fs image inodeId = .ok () := by
    rw [foldRange_unit_eq_ok_iff, rootInodeId]
    exact ⟨fun h inodeId hid hle => h inodeId (by omega) (by omega),
      fun h inodeId hlow hhigh => h inodeId (by omega) (by omega)⟩
  have hsnd : foldRange (fun _ inodeId => checkAttachment fs image inodeId)
      (fs.geometry.inodeCount - 1) (rootInodeId + 1) () = .ok () ↔
      ∀ inodeId, inodeId ≠ rootInodeId → inodeId ≠ 0 → inodeId ≤ fs.geometry.inodeCount →
        checkAttachment fs image inodeId = .ok () := by
    rw [foldRange_unit_eq_ok_iff, rootInodeId]
    exact ⟨fun h inodeId hroot hid hle => h inodeId (by omega) (by omega),
      fun h inodeId hlow hhigh => h inodeId (by omega) (by omega) (by omega)⟩
  rw [validateConsistency, ready.mounted, ← hfirst, ← hsnd]
  cases foldRange (fun _ inodeId => checkInode fs image inodeId) fs.geometry.inodeCount
      rootInodeId () with
  | error => exact ⟨by rintro ⟨⟩, by rintro ⟨⟨⟩, _⟩⟩
  | ok _ => exact ⟨fun h => ⟨rfl, h⟩, And.right⟩

/-- Mounting ends successfully on consistent volumes, and on no others. -/
theorem checkMounted_eq_ok_iff (ready : fs.Ready) :
    checkMounted fs image = .ok () ↔ Consistent fs.geometry image := by
  have hrootId := ready.layout.rootInode
  constructor
  · intro hmounted
    rw [checkMounted] at hmounted
    cases hread : readInode fs image fs.geometry.rootInode with
    | error =>
      rw [hread] at hmounted
      cases hmounted
    | ok root =>
      rw [hread] at hmounted
      dsimp only at hmounted
      split at hmounted
      · cases hmounted
      rename_i htype
      obtain ⟨bytes, hroot⟩ := (readInode_eq_ok_iff ready).mp hread
      obtain ⟨hfirst, hsnd⟩ := (validateConsistency_eq_ok_iff ready).mp hmounted
      obtain ⟨howns, hreadable, -⟩ := (firstPass_iff ready).mp hfirst
      have hattachment : ∀ {inodeId inode bytes},
          view fs.geometry image inodeId = .used inode bytes → inodeId ≠ rootInodeId → _ :=
        fun {inodeId _ _} hview hne =>
          attachment_of_checkAttachment hreadable howns ready hview hne
            (hsnd inodeId hne (used_of_view hview).1 (used_of_view hview).2.1)
      refine ⟨⟨howns, hreadable, ⟨root, bytes, hrootId ▸ hroot, not_not.mp htype⟩, ?_, ⟨?_⟩⟩, ?_⟩
      · intro first second childId hfirst hsnd
        by_contra hne
        obtain ⟨-, _, contents, hchild⟩ := hreadable.used_of_parent hfirst
        have hnotRoot : childId ≠ rootInodeId := fun heq =>
          hreadable.not_parent_root first (heq ▸ hfirst)
        exact (hattachment hchild hnotRoot).1 ⟨first, second, hne, hfirst, hsnd⟩
      · -- a parent is a directory, and the climb from every directory ends
        intro inodeId
        refine ⟨inodeId, fun directoryId hpar => ?_⟩
        obtain ⟨⟨_, contents, hview, hdir⟩, -⟩ := hreadable.used_of_parent hpar
        by_cases hne : directoryId = rootInodeId
        · rw [hne]
          exact ⟨_, fun above habove => absurd habove (hreadable.not_parent_root above)⟩
        · exact (hattachment hview hne).2.2.2 hdir
      · intro inodeId inode contents hview hne
        exact ⟨(hattachment hview hne).2.1, (hattachment hview hne).2.2.1⟩
  · intro h
    obtain ⟨_, bytes, hroot, htype⟩ := h.tree.root
    rw [checkMounted, hrootId, (readInode_eq_ok_iff ready).mpr ⟨bytes, hroot⟩]
    dsimp only
    rw [if_neg (not_not.mpr htype), validateConsistency_eq_ok_iff ready, firstPass_iff ready]
    refine ⟨⟨h.owns, h.tree.toReadable, fun inodeId hpar => ?_⟩, fun inodeId hne hid hle =>
      h.checkAttachment_eq ready hne hid hle⟩
    exact Math.not_transGen_self h.tree.acyclic inodeId (.single hpar)

end Kurogane.KuroFS
