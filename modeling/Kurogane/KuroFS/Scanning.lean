/-
# Reading directories and climbing to parents

What the directory readers return in terms of the view: a record by its index,
an entry by its name, the directory that lists an inode, and the outcome of the
bounded climbs to the root.
-/

import Kurogane.KuroFS.Namespace
import Kurogane.KuroFS.Reading
import Mathlib.Order.Interval.Finset.Nat

namespace Kurogane.KuroFS

open Storage Storage.Buffer List

variable {fs : FileSystem} {image : Image} {held : Set ℕ} {entry : DirectoryEntry}

theorem sameName_iff {name : List UInt8} {length : ℕ} (hle : length ≤ name.length) :
    sameName entry name length = true ↔ entry.name = name.take length := by
  rw [sameName, Bool.and_eq_true, beq_iff_eq, beq_iff_eq]
  refine ⟨And.right, fun h => ⟨?_, h⟩⟩
  rw [h, length_take, min_eq_left hle]

/-! ## Records -/

/-- A directory that is read through a current snapshot and whose extent passes
its check. -/
structure OpenDirectory (fs : FileSystem) (image : Image) (directory : Inode)
    (bytes : List UInt8) : Prop where
  view : view fs.geometry image directory.id = .used directory bytes
  type : directory.type = .directory
  aligned : directory.size % 128 = 0
  extent : validateInodeExtent fs image directory = .ok ()

theorem validateDirectoryChild_eq_ok_iff (ready : fs.Ready) :
    validateDirectoryChild fs image entry = .ok () ↔ (view fs.geometry image).Refers entry := by
  rw [validateDirectoryChild]
  cases hread : readInode fs image entry.inodeId with
  | error =>
    refine ⟨nofun, fun ⟨child, bytes, hchild, _⟩ => ?_⟩
    rw [(readInode_eq_ok_iff ready).mpr ⟨bytes, hchild⟩] at hread
    cases hread
  | ok child =>
    obtain ⟨bytes, hview⟩ := (readInode_eq_ok_iff ready).mp hread
    dsimp only
    split
    next hdiffers =>
      refine ⟨nofun, fun ⟨child', bytes', hchild, hgen, htype⟩ => ?_⟩
      rw [hview] at hchild
      cases hchild
      exact (hdiffers.elim (· hgen) (· htype)).elim
    next hsame =>
      rw [not_or, not_not, not_not] at hsame
      exact ⟨fun _ => ⟨child, bytes, hview, hsame.1, hsame.2⟩, fun _ => rfl⟩

variable {inode : Inode} {index inodeId : ℕ}

namespace OpenDirectory

variable {directory : Inode} {bytes : List UInt8}

section

variable (h : OpenDirectory fs image directory bytes)
include h

theorem length : bytes.length = directory.size :=
  length_of_view h.view

theorem requireDirectory_eq (ready : fs.Ready) :
    requireDirectory fs image directory = .ok directory := by
  rw [requireDirectory, (requireCurrentSnapshot_eq_ok_iff ready).mpr ⟨rfl, bytes, h.view⟩]
  dsimp only
  rw [if_neg (not_not.mpr h.type), if_neg (not_not.mpr h.aligned)]

section

variable (ready : fs.Ready) (hidx : index < directory.size / 128)
include ready hidx

theorem directoryEntryAt_eq :
    directoryEntryAt fs image directory index =
      match recordAt bytes index with
      | .error status => .error status
      | .ok entry =>
        match validateDirectoryChild fs image entry with
        | .error status => .error status
        | .ok () => .ok entry := by
  have hsize : directory.size < 2 ^ 64 := (used_of_view h.view).2.2.1.size
  have hrec : ((bytes.drop (index * 128)).take 128).length = 128 := by
    rw [length_take, length_drop, h.length]
    omega
  have hdec : decodeDirectoryEntry (fun i => ((bytes.drop (index * 128)).take 128).getD i 0) =
      recordAt bytes index := by
    refine decodeDirectoryEntry_congr fun i hi => ?_
    rw [ofList]
    rw [getD_eq_getElem?_getD, getD_eq_getElem?_getD, getElem?_take_of_lt hi]
  rw [directoryEntryAt, ready.if_mounted, h.requireDirectory_eq ready]
  dsimp only
  rw [if_neg (by omega), multiplyU64_eq_some (by omega)]
  dsimp only
  rw [readInodeData_eq_of_valid ready h.view h.extent]
  dsimp only
  rw [if_neg (not_not.mpr hrec)]
  exact hdec ▸ rfl

theorem directoryEntryAt_eq_ok_iff :
    directoryEntryAt fs image directory index = .ok entry ↔
      recordAt bytes index = .ok entry ∧
        (KuroFS.view fs.geometry image).Refers entry := by
  rw [h.directoryEntryAt_eq ready hidx]
  cases hrec : recordAt bytes index with
  | error => exact ⟨nofun, fun hcontra => nomatch hcontra.1⟩
  | ok found =>
    dsimp only
    cases hchild : validateDirectoryChild fs image found with
    | error =>
      refine ⟨nofun, fun ⟨hfound, hrefers⟩ => ?_⟩
      cases hfound
      rw [(validateDirectoryChild_eq_ok_iff ready).mpr hrefers] at hchild
      cases hchild
    | ok _ =>
      have hrefers := (validateDirectoryChild_eq_ok_iff ready).mp hchild
      constructor
      · intro hfound
        cases hfound
        exact ⟨rfl, hrefers⟩
      · rintro ⟨hfound, -⟩
        exact hfound

end

end

end OpenDirectory

/-! ## Sound volumes -/

/-- The invariant of a volume in use: blocks are owned once, and the records
form a forest. -/
structure Sound (geometry : Geometry) (held : Set ℕ) (image : Image) : Prop where
  owns : Owns geometry held image
  tree : Tree (view geometry image)

section Readable

variable {directory : Inode} {bytes : List UInt8}
  (hreadable : Readable (view fs.geometry image)) (howns : Owns fs.geometry held image)
  (ready : fs.Ready) (hview : view fs.geometry image directory.id = .used directory bytes)
  (htype : directory.type = .directory)
include hreadable hview htype

theorem Readable.recordCount :
    directory.size / 128 = ((view fs.geometry image).entries directory.id).length := by
  rw [← length_of_view hview, hreadable.length_entries hview htype,
    Nat.mul_div_cancel _ (by decide)]

include howns ready

theorem Readable.openDirectory : OpenDirectory fs image directory bytes where
  view := hview
  type := htype
  aligned := by
    rw [← length_of_view hview, hreadable.length_entries hview htype, Nat.mul_mod_left]
  extent := howns.validateInodeExtent_eq ready.layout hview

theorem Readable.exists_entry (hidx : index < directory.size / 128) :
    ∃ entry, ((view fs.geometry image).entries directory.id)[index]? = some entry ∧
      directoryEntryAt fs image directory index = .ok entry := by
  have hopen := hreadable.openDirectory howns ready hview htype
  have hlen := hreadable.recordCount hview htype ▸ hidx
  have hentry := getElem?_eq_getElem hlen
  refine ⟨_, hentry, (hopen.directoryEntryAt_eq_ok_iff ready hidx).mpr ⟨?_, ?_⟩⟩
  · exact (hreadable.spells hview htype).record hentry
  · exact hreadable.refers (mem_of_getElem? hentry)

end Readable

variable {search : ParentSearch} {bytes : List UInt8}

/-! ## Parents -/

section Parents

variable {childId : ℕ}

/-- The state of the parent search after the inodes below `bound`. -/
def ParentSearch.Found (volume : Volume) (childId bound : ℕ) (search : ParentSearch) : Prop :=
  (search.parentId = 0 ∧ search.references = 0 ∧
      ∀ directoryId < bound, ¬ volume.Parent directoryId childId) ∨
    (search.parentId ≠ 0 ∧ search.references = 1 ∧ search.parentId < bound ∧
      volume.Parent search.parentId childId ∧
      ∀ directoryId < bound, volume.Parent directoryId childId → directoryId = search.parentId)

theorem ParentSearch.Found.skip {volume : Volume} {bound : ℕ}
    (h : search.Found volume childId bound) (hnot : ¬ volume.Parent bound childId) :
    search.Found volume childId (bound + 1) := by
  rw [ParentSearch.Found, Nat.forall_lt_succ_right, Nat.forall_lt_succ_right]
  rcases h with ⟨hzero, hreferences, hbelow⟩ | ⟨hne, hreferences, _, hfound, honly⟩
  · exact .inl ⟨hzero, hreferences, hbelow, hnot⟩
  · exact .inr ⟨hne, hreferences, by omega, hfound, honly, fun hpar => absurd hpar hnot⟩

def Volume.Shared (volume : Volume) (childId : ℕ) : Prop :=
  ∃ directoryId directoryId', directoryId ≠ directoryId' ∧
    volume.Parent directoryId childId ∧ volume.Parent directoryId' childId

variable (hreadable : Readable (view fs.geometry image)) (howns : Owns fs.geometry held image)
  (ready : fs.Ready)
include hreadable howns ready

theorem countReference_spec {directory : Inode}
    (hview : view fs.geometry image directory.id = .used directory bytes)
    (htype : directory.type = .directory)
    (hsearch : search.Found (view fs.geometry image) childId directory.id) :
    (∃ final, foldRange (countReference fs image childId directory) (directory.size / 128) 0
        search = .ok final ∧
        final.Found (view fs.geometry image) childId (directory.id + 1)) ∨
      ∃ error, foldRange (countReference fs image childId directory) (directory.size / 128) 0
        search = .error error ∧ error = .corruptDirectory ∧
        (view fs.geometry image).Shared childId := by
  set volume := view fs.geometry image with hvolume
  have hid := (used_of_view hview).1
  -- before the record that names the child the search is as it was, after it is complete
  have hrule := @foldRange_rule Status _ (countReference fs image childId directory)
    (fun index state =>
      ((∀ entry ∈ (volume.entries directory.id).take index, entry.inodeId ≠ childId) ∧
          state = search) ∨
        (search.parentId = 0 ∧ state = ⟨directory.id, 1⟩ ∧
          childId ∈ ((volume.entries directory.id).take index).map (·.inodeId)))
    (fun error => error = .corruptDirectory ∧ volume.Shared childId)
    (directory.size / 128) 0 search (.inl ⟨by rw [take_zero]; exact nofun, rfl⟩) (by
      intro index state _ hidx hstate
      rw [zero_add] at hidx
      obtain ⟨entry, hentry, hread⟩ := hreadable.exists_entry howns ready hview htype hidx
      have htake : (volume.entries directory.id).take (index + 1) =
          (volume.entries directory.id).take index ++ [entry] := by
        rw [take_add_one, hentry]
        rfl
      have hlisted : entry ∈ volume.entries directory.id := mem_of_getElem? hentry
      rw [countReference, hread]
      dsimp only
      split
      · refine .inl ⟨state, rfl, ?_⟩
        rw [htake]
        rcases hstate with ⟨hnone, rfl⟩ | ⟨hzero, rfl, hmem⟩
        · refine .inl ⟨fun seen hseen => ?_, rfl⟩
          rcases mem_append.mp hseen with hseen | hseen
          · exact hnone seen hseen
          · rwa [mem_singleton.mp hseen]
        · exact .inr ⟨hzero, rfl, by rw [map_append]; exact mem_append_left _ hmem⟩
      rename_i hchild
      rw [not_not] at hchild
      have hpar : volume.Parent directory.id childId :=
        Volume.parent_iff.mpr ⟨entry, hlisted, hchild⟩
      rcases hstate with ⟨-, hsame⟩ | ⟨-, rfl, hmem⟩
      · rw [hsame]
        rcases hsearch with ⟨hzero, hreferences, -⟩ | ⟨hne, hreferences, hlt, hfound, -⟩
        · rw [if_neg (by omega)]
          refine .inl ⟨_, rfl, .inr ⟨hzero, by rw [hreferences], ?_⟩⟩
          rw [htake, map_append, map_singleton, hchild]
          exact mem_append_right _ (mem_singleton.mpr rfl)
        · rw [if_pos (by omega)]
          exact .inr ⟨_, rfl, rfl, search.parentId, directory.id, by omega, hfound, hpar⟩
      -- the child occurs at most once among the records of one directory
      have hnodup := hreadable.children directory.id
      rw [← take_append_drop (index + 1) (volume.entries directory.id), htake,
        map_append, map_append, map_singleton, hchild] at hnodup
      exact absurd rfl ((nodup_append.mp (nodup_append.mp hnodup).1).2.2 childId hmem
        childId (mem_singleton.mpr rfl)))
  rw [zero_add, hreadable.recordCount hview htype, ← hvolume, take_length] at hrule
  rw [hreadable.recordCount hview htype, ← hvolume]
  rcases hrule with ⟨final, hfinal, hstate⟩ | herror
  · refine .inl ⟨final, hfinal, ?_⟩
    rcases hstate with ⟨hnone, rfl⟩ | ⟨hzero, rfl, hmem⟩
    · have hnot : ¬ volume.Parent directory.id childId := fun hpar => by
        obtain ⟨entry, hentry, hchild⟩ := Volume.parent_iff.mp hpar
        exact hnone entry hentry hchild
      exact hsearch.skip hnot
    rcases hsearch with ⟨-, -, hbelow⟩ | ⟨hne, -⟩
    · refine .inr ⟨hid, rfl, Nat.lt_succ_self _, hmem, Nat.forall_lt_succ_right.mpr ⟨?_, ?_⟩⟩
      · exact fun directoryId hlt hpar => absurd hpar (hbelow directoryId hlt)
      · exact fun _ => rfl
    · exact absurd hzero hne
  · exact .inr herror

theorem countReferences_spec (hid : inodeId ≠ 0) (hle : inodeId ≤ fs.geometry.inodeCount)
    (hsearch : search.Found (view fs.geometry image) childId inodeId) :
    (∃ final, countReferences fs image childId search inodeId = .ok final ∧
        final.Found (view fs.geometry image) childId (inodeId + 1)) ∨
      ∃ error, countReferences fs image childId search inodeId = .error error ∧
        error = .corruptDirectory ∧ (view fs.geometry image).Shared childId := by
  -- a slot that lists nothing leaves the search as it is
  have hskip : (view fs.geometry image).entries inodeId = [] →
      search.Found (view fs.geometry image) childId (inodeId + 1) := by
    intro hempty
    have hnot : ¬ (view fs.geometry image).Parent inodeId childId := by
      rw [Volume.Parent, hempty]
      rintro ⟨_, ⟨⟩, _⟩
    exact hsearch.skip hnot
  rw [countReferences, readInode_eq ready hid hle]
  cases hnode : view fs.geometry image inodeId with
  | free =>
    exact .inl ⟨search, rfl, hskip (by rw [Volume.entries, hnode]; rfl)⟩
  | bad status => exact absurd hnode (hreadable.slots inodeId status)
  | used =>
    obtain rfl := id_of_view hnode
    rw [Node.inode]
    dsimp only
    split
    next htype => exact .inl ⟨search, rfl, hskip (Volume.entries_of_regular hnode htype)⟩
    rename_i htype
    rw [not_not] at htype
    rw [if_neg (not_not.mpr (hreadable.openDirectory howns ready hnode htype).aligned)]
    exact countReference_spec hreadable howns ready hnode htype hsearch

/-- The parent of an inode is found if there is exactly one. -/
theorem findUniqueParent_spec (hroot : childId ≠ rootInodeId) :
    (∃ parentId, findUniqueParent fs image childId = .ok parentId ∧
        (view fs.geometry image).Parent parentId childId ∧
        ∀ directoryId, (view fs.geometry image).Parent directoryId childId →
          directoryId = parentId) ∨
      (findUniqueParent fs image childId = .error .notFound ∧
        ¬ (view fs.geometry image).Attached childId) ∨
      (findUniqueParent fs image childId = .error .corruptDirectory ∧
        (view fs.geometry image).Shared childId) := by
  have hbounds : ∀ {directoryId}, (view fs.geometry image).Parent directoryId childId →
      rootInodeId ≤ directoryId ∧ directoryId < rootInodeId + fs.geometry.inodeCount := by
    intro directoryId hpar
    obtain ⟨⟨_, _, hview, -⟩, -⟩ := hreadable.used_of_parent hpar
    obtain ⟨_, _, -⟩ := used_of_view hview
    rw [rootInodeId]
    omega
  rw [findUniqueParent, if_neg hroot]
  rcases @foldRange_rule Status _ (countReferences fs image childId)
      (fun bound search => search.Found (view fs.geometry image) childId bound)
      (fun error => error = .corruptDirectory ∧ (view fs.geometry image).Shared childId)
      fs.geometry.inodeCount rootInodeId ⟨0, 0⟩ (.inl ⟨rfl, rfl,
        fun _ hlt hpar => (hbounds hpar).1.not_gt hlt⟩)
      (fun inodeId search hlow hhigh hsearch =>
        countReferences_spec hreadable howns ready (by rw [rootInodeId] at hlow; omega)
          (by rw [rootInodeId] at hhigh; omega) hsearch) with
    ⟨final, hfinal, hfound⟩ | ⟨error, herror, rfl, hshared⟩
  · rw [hfinal]
    dsimp only
    rcases hfound with ⟨hzero, -, hbelow⟩ | ⟨hne, -, -, hpar, honly⟩
    · rw [if_pos hzero]
      exact .inr (.inl ⟨rfl, fun ⟨directoryId, hpar⟩ => hbelow directoryId (hbounds hpar).2 hpar⟩)
    · rw [if_neg hne]
      exact .inl ⟨final.parentId, rfl, hpar, fun directoryId hother =>
        honly directoryId (hbounds hother).2 hother⟩
  · rw [herror]
    exact .inr (.inr ⟨rfl, hshared⟩)

/-! ## Climbing -/

/-- A climb that ends proves that the inode lies on no cycle. -/
theorem acc_of_reachesRootWalk {depth current : ℕ} {reached : Bool} (hroot : current ≠ rootInodeId)
    (h : reachesRootWalk fs image depth current = .ok reached) :
    Acc (view fs.geometry image).Parent current := by
  induction depth generalizing current with
  | zero => cases h
  | succ _ ih =>
    rw [reachesRootWalk] at h
    rcases findUniqueParent_spec hreadable howns ready hroot with
      ⟨parentId, hfound, hpar, honly⟩ | ⟨hnone, hunatt⟩ | ⟨hcorrupt, -⟩
    · rw [hfound] at h
      dsimp only at h
      refine ⟨current, fun directoryId hother => ?_⟩
      rw [honly directoryId hother]
      split at h
      next hparentRoot =>
        rw [hparentRoot]
        exact ⟨_, fun above habove => absurd habove (hreadable.not_parent_root above)⟩
      next hparentRoot => exact ih hparentRoot h
    · exact ⟨current, fun directoryId hother => absurd ⟨directoryId, hother⟩ hunatt⟩
    · rw [hcorrupt] at h
      cases h

omit hreadable howns ready

/-- In a forest the search for a parent always ends with an answer. -/
theorem Sound.findUniqueParent_eq (h : Sound fs.geometry held image) (ready : fs.Ready)
    (hroot : childId ≠ rootInodeId) :
    (∃ parentId, findUniqueParent fs image childId = .ok parentId ∧
        (view fs.geometry image).Parent parentId childId) ∨
      (findUniqueParent fs image childId = .error .notFound ∧
        ¬ (view fs.geometry image).Attached childId) := by
  rcases findUniqueParent_spec h.tree.toReadable h.owns ready hroot with
    ⟨parentId, hfound, hpar, -⟩ | hnone | ⟨-, directoryId, directoryId', hne, hfirst, hsnd⟩
  · exact .inl ⟨parentId, hfound, hpar⟩
  · exact .inr hnone
  · exact absurd (h.tree.unique hfirst hsnd) hne

def inodeIds (geometry : Geometry) : Finset ℕ := Finset.Icc 1 geometry.inodeCount

theorem card_inodeIds (geometry : Geometry) : (inodeIds geometry).card = geometry.inodeCount := by
  rw [inodeIds, Nat.card_Icc, Nat.add_sub_cancel]

theorem mem_inodeIds (hview : view fs.geometry image inodeId = .used inode bytes) :
    inodeId ∈ inodeIds fs.geometry := by
  obtain ⟨hid, hle, -⟩ := used_of_view hview
  exact Finset.mem_Icc.mpr ⟨pos_of_ne_zero hid, hle⟩

theorem Readable.mem_inodeIds_of_parent (hreadable : Readable (view fs.geometry image))
    {directoryId childId : ℕ} (hpar : (view fs.geometry image).Parent directoryId childId) :
    directoryId ∈ inodeIds fs.geometry := by
  obtain ⟨⟨_, _, hview, -⟩, -⟩ := hreadable.used_of_parent hpar
  exact mem_inodeIds hview

/-- In a forest the bounded climb of `inode_reaches_root` is long enough. -/
theorem Sound.inodeReachesRoot_ok (h : Sound fs.geometry held image) (ready : fs.Ready)
    (hview : view fs.geometry image inodeId = .used inode bytes) :
    ∃ reached, inodeReachesRoot fs image inodeId = .ok reached := by
  obtain ⟨_, _, -⟩ := used_of_view hview
  rw [inodeReachesRoot, if_neg (by omega)]
  split
  · exact ⟨true, rfl⟩
  rename_i hroot
  have hclimb : inodeId ≠ rootInodeId →
      ∃ reached, reachesRootWalk fs image (inodeIds fs.geometry).card inodeId = .ok reached := by
    refine @Math.bounded_climb _ _ h.tree.acyclic (inodeIds fs.geometry)
      (fun fuel node => node ≠ rootInodeId →
        ∃ reached, reachesRootWalk fs image fuel node = .ok reached)
      h.tree.mem_inodeIds_of_parent ?_ ?_ inodeId (mem_inodeIds hview)
    · intro fuel top hunatt htop
      rcases h.findUniqueParent_eq ready htop with ⟨parentId, -, hpar⟩ | ⟨hnone, -⟩
      · exact absurd hpar (hunatt parentId)
      · exact ⟨false, by rw [reachesRootWalk, hnone]⟩
    intro fuel above below hpar habove hbelow
    rcases h.findUniqueParent_eq ready hbelow with ⟨_, hfound, hother⟩ | ⟨-, hnone⟩
    · obtain rfl := h.tree.unique hother hpar
      rw [reachesRootWalk, hfound]
      dsimp only
      split
      · exact ⟨true, rfl⟩
      next hne => exact habove hne
    · exact absurd ⟨above, hpar⟩ hnone
  rw [← card_inodeIds]
  exact hclimb hroot

end Parents

end Kurogane.KuroFS
