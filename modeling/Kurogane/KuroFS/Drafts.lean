/-
# Drafts

New contents of an inode are written to blocks nobody uses and published by one
update of the inode. In front of the update the volume is as it was; behind it, it
differs in one node only.
-/

import Kurogane.KuroFS.Inodes
import Kurogane.KuroFS.Namespace

namespace Kurogane.KuroFS

open Storage Storage.Buffer List Set

variable {geometry : Geometry} {fs : FileSystem} {base image image' : Image} {mode : Mode}
  {held fresh : Set ℕ} {current : Inode} {bytes : List UInt8} {first count : ℕ}
  {content : Buffer}

/-! ## Bytes and extents -/

variable {i inodeId size : ℕ}

theorem ofList_contents (image : Image) (inode : Inode) (hi : i < inode.size) :
    ofList (contents image inode) i = extentByte image inode.extentStart i := by
  rw [ofList, getD_eq_getElem _ _ (by rw [length_contents]; exact hi)]
  simp [contents]

theorem extentByte_eq_ofList {geometry : Geometry}
    (hview : view geometry image inodeId = .used current bytes) (hi : i < current.size) :
    extentByte image current.extentStart i = ofList bytes i := by
  rw [(used_of_view hview).2.2.2.2, ofList_contents image current hi]

theorem contents_eq_resize (inode : Inode)
    (h : ∀ i < inode.size, extentByte image inode.extentStart i = ofList bytes i) :
    contents image inode = resize bytes inode.size := by
  rw [← map_ofList]
  apply map_congr_left
  intro i hi
  exact h i (mem_range.mp hi)

theorem ValidExtent.resize {geometry : Geometry} {size' first count : ℕ}
    (h : ValidExtent geometry size first count) (hfits : size' ≤ count * 512) :
    ValidExtent geometry size' first count := by
  rcases h with ⟨rfl, rfl, -⟩ | ⟨hpos, hlow, hhigh, hcap, -⟩
  · exact .inl ⟨rfl, rfl, by omega⟩
  · exact .inr ⟨hpos, hlow, hhigh, hcap, hfits⟩

/-! ## Filling an extent -/

/-- A fresh extent with its contents so far. Nothing else has changed since `base`. -/
structure Draft (geometry : Geometry) (held : Set ℕ) (base image : Image) (first count : ℕ)
    (content : Buffer) : Prop where
  quiet : Quiet geometry held (extent first count) base image
  disjoint : Disjoint held (extent first count)
  pos : 0 < count
  capacity_lt : count * 512 < 2 ^ 64
  filled : Filled image first count content

section

variable (h : Draft geometry held base image first count content)
include h

theorem Draft.allocated : Allocated geometry image first count :=
  h.quiet.owns.allocated subset_union_right h.pos h.capacity_lt

theorem Draft.view_eq {node : Node}
    (hview : view geometry base inodeId = node) : view geometry image inodeId = node := by
  rw [h.quiet.view, hview]

end

/-- `program` brings the draft to `content`; it fails only on a faulty device. -/
def Drafts (mode : Mode) (geometry : Geometry) (held : Set ℕ) (base : Image) (first count : ℕ)
    (content : Buffer) (program : KProg Status Unit) (image : Image) : Prop :=
  program.wp mode (fun _ image' => Draft geometry held base image' first count content)
    (fun _ image' => mode = .faulty ∧ Quiet geometry held (extent first count) base image')
    (fun image' => Quiet geometry held (extent first count) base image') image

theorem Draft.done (h : Draft geometry held base image first count content) :
    Drafts mode geometry held base first count content (pure ()) image :=
  h

theorem Drafts.bind {content' : Buffer} {program next : KProg Status Unit}
    (h : Drafts mode geometry held base first count content program image)
    (hnext : ∀ image', Draft geometry held base image' first count content →
      Drafts mode geometry held base first count content' next image') :
    Drafts mode geometry held base first count content' (do program; next) image := by
  rw [Drafts, Prog.wp_bind]
  exact Prog.wp.mono h (fun _ image' hdraft => hnext image' hdraft) (fun _ _ h => h) (fun _ h => h)

/-- A successful allocation is an empty draft; otherwise nothing happened that anybody sees. -/
theorem allocateBlocks_draft (ready : fs.Ready) (h : Owns fs.geometry held image) (count : ℕ) :
    (allocateBlocks fs count).wp mode
      (fun first image' => Draft fs.geometry held image image' first count (ofList []))
      (fun _ image' => Quiet fs.geometry held ∅ image image' ∧
        (mode = .faulty ∨ ¬ Allocatable fs.geometry image count))
      (fun image' => Quiet fs.geometry held ∅ image image') image := by
  have layout := ready.layout
  refine (allocateBlocks_wp ready count).mono ?_ ?_ ?_
  · rintro first _ ⟨hrun, -, halloc, _, hpub, rfl⟩
    have hallocating := (hpub.allocating layout le_rfl).zeroed layout hrun.dataStart_le le_rfl
    refine ⟨hallocating.quiet layout h hrun subset_rfl halloc.marked, ?_, halloc.pos,
      halloc.capacity_lt, filled_zero fun block hblk => if_pos (mem_extent.mp hblk)⟩
    exact disjoint_left.mpr fun block hheld => h.not_mem_freeRun hrun (.inl hheld)
  · rintro _ image' (⟨rfl, hreason⟩ | ⟨hreason, first, hrun, hallocating⟩)
    · refine ⟨Quiet.refl (by rwa [union_empty]), .inr fun hroom => ?_⟩
      obtain ⟨hpos, -, first, hrun⟩ := hroom
      exact hreason.elim hpos.ne' fun hnone => hnone.2 first hrun
    · refine ⟨hallocating.quiet layout h hrun (empty_subset _) (by simp), ?_⟩
      exact hreason.imp_right fun hlarge hroom => absurd hroom.capacity_lt (by omega)
  · rintro _ ⟨_, hrun, hallocating⟩
    exact hallocating.quiet layout h hrun (empty_subset _) (by simp)

theorem Draft.write (h : Draft fs.geometry held base image first count content) (ready : fs.Ready)
    {offset : ℕ} {source : List UInt8} (hfits : offset + source.length ≤ count * 512) :
    Drafts mode fs.geometry held base first count
      (content.splice offset source.length (ofList source))
      (writeExtentData fs first count offset source) image := by
  have hpatched : ∀ {done image' content'}, done ≤ source.length →
      Patched image image' first offset done content' →
      Quiet fs.geometry held (extent first count) base image' := fun hdone hpatch =>
    h.quiet.trans_quiet
      (hpatch.quiet ready.layout h.quiet.owns h.disjoint subset_rfl (by omega))
  exact (writeExtentData_wp ready h.allocated hfits).kept hpatched (fun _ image' hpatch => { h with
    quiet := hpatched le_rfl hpatch, filled := h.filled.patched hpatch }) (fun _ _ h => h)
    fun _ h => h

theorem Draft.append {written : List UInt8} (source : List UInt8)
    (h : Draft fs.geometry held base image first count (ofList written)) (ready : fs.Ready)
    (hfits : written.length + source.length ≤ count * 512) :
    Drafts mode fs.geometry held base first count (ofList (written ++ source))
      (writeExtentData fs first count written.length source) image := by
  rw [ofList_append]
  exact h.write ready hfits

/-! ## Copying a file -/

theorem Draft.copyLoop_drafts (ready : fs.Ready)
    (hview : view fs.geometry base current.id = .used current bytes)
    (hsize : current.size ≤ count * 512) {fuel copied : ℕ} (hcopied : copied ≤ current.size)
    (hfuel : current.size - copied ≤ fuel)
    (h : Draft fs.geometry held base image first count (ofList (bytes.take copied))) :
    Drafts mode fs.geometry held base first count (ofList bytes)
      (copyLoop fs current first count fuel copied) image := by
  have hlen := length_of_view hview
  induction fuel generalizing image copied with
  | zero =>
    rw [take_of_length_le (by omega)] at h
    exact h.done
  | succ _ ih =>
    rw [copyLoop]
    split
    · rw [Drafts, Prog.wp_bind]
      apply Prog.wp_read_of_ok (readInodeData_eq ready h.quiet.owns (h.view_eq hview) copied
        (min (current.size - copied) 512))
      have hchunk : ((bytes.drop copied).take (min (current.size - copied) 512)).length =
          min (current.size - copied) 512 := by
        rw [length_take, length_drop]
        omega
      have hwritten : (bytes.take copied).length = copied := by
        rw [length_take]
        omega
      rw [if_neg (by rw [hchunk]; simp), hchunk]
      have hstep := @Draft.append _ _ _ mode _ _ _ _
        ((bytes.drop copied).take (min (current.size - copied) 512)) h ready
        (by rw [hwritten, hchunk]; omega)
      rw [hwritten, ← take_add] at hstep
      exact hstep.bind fun image' hdraft => ih (by omega) (by omega) hdraft
    · rw [take_of_length_le (by omega)] at h
      exact h.done

theorem Draft.copyContents_drafts (h : Draft fs.geometry held base image first count (ofList []))
    (ready : fs.Ready) (hview : view fs.geometry base current.id = .used current bytes)
    (hsize : current.size ≤ count * 512) :
    Drafts mode fs.geometry held base first count (ofList bytes)
      (copyContents fs current first count) image :=
  Draft.copyLoop_drafts ready hview hsize (Nat.zero_le _) le_rfl h

/-! ## Publication -/

/-- One inode has moved on to other contents, and nothing else has changed. -/
def FileUpdate (geometry : Geometry) (held : Set ℕ) (image : Image) (inode : Inode)
    (contents : List UInt8) (updated : Inode) (image' : Image) : Prop :=
  inode.Revises updated ∧ Becomes geometry held ∅ image
    (Function.update (view geometry image) inode.id (.used updated contents)) image'

/-- Everything is ready for `inode` to replace `current` with the contents `result`. -/
structure Staged (geometry : Geometry) (held fresh : Set ℕ) (base image : Image)
    (current inode : Inode) (result : List UInt8) : Prop where
  quiet : Quiet geometry held fresh base image
  disjoint : Disjoint held fresh
  revises : current.Revises inode.published
  extentValid : inode.ExtentValid geometry
  blocks : inode.blocks ⊆ current.blocks ∪ fresh
  contents : contents image inode = result

theorem Owns.allocated_of_view (h : Owns geometry held image)
    (hview : view geometry image inodeId = .used current bytes) (hblks : current.extentBlocks ≠ 0) :
    Allocated geometry image current.extentStart current.extentBlocks := by
  rcases h.extentValid hview with hempty | ⟨hpos, hlow, hhigh, hcap, -⟩
  · exact absurd hempty.1 hblks
  · exact ⟨hpos, hlow, hhigh, hcap, fun block hblk => h.marked_of_mem hview hblk⟩

theorem Allocated.validExtent (h : Allocated geometry image first count)
    (hsize : size ≤ count * 512) : ValidExtent geometry size first count :=
  .inr ⟨h.pos, h.dataStart_le, h.le_totalBlocks, h.capacity_lt, hsize⟩

variable {result : List UInt8}

theorem Draft.staged (h : Draft geometry held base image first count (ofList result))
    (current : Inode) (hsize : size ≤ count * 512) :
    Staged geometry held (extent first count) base image current
      { current with size := size, extentStart := first, extentBlocks := count }
      (resize result size) where
  quiet := h.quiet
  disjoint := h.disjoint
  revises := ⟨rfl, rfl, rfl, rfl, rfl, rfl⟩
  extentValid := h.allocated.validExtent hsize
  blocks := subset_union_right
  contents := by
    rw [Filled.contents_eq
      { current with size := size, extentStart := first, extentBlocks := count }
      h.filled hsize, map_ofList]

variable {inode : Inode}

theorem Staged.publishable (h : Staged fs.geometry held fresh base image current inode result)
    (hview : view fs.geometry image inode.id = .used current bytes)
    (hfrozen : ¬ current.Frozen fs.geometry) : Publishable fs image inode := by
  have hflags : inode.flags = current.flags := h.revises.flags
  have hdecoded := (used_of_view hview).2.2.1
  have hrevision : inode.revision = current.revision := Nat.succ_injective h.revises.revision
  rw [Inode.Frozen, not_or, not_or] at hfrozen
  refine ⟨⟨current, bytes, hview, h.revises.generation.symm, hrevision.symm, h.revises.type.symm⟩,
    ?_, ?_, ?_, ?_, h.extentValid, ?_⟩
  · have := hdecoded.revision
    omega
  · rw [hflags]
    simpa using hfrozen.2.1
  · rw [hflags]
    exact fun hset hmissing => hfrozen.2.2 ⟨hset, hmissing⟩
  · exact h.revises.linkCount.trans_ne hdecoded.linkCount_pos.ne'
  intro block hblk
  rcases h.blocks hblk with hcur | hfresh
  · exact h.quiet.owns.marked_of_mem hview hcur
  · exact h.quiet.owns.held_marked block (.inr hfresh)

/-- The volume once the staged inode is published. Blocks it no longer uses stay
fresh for what follows. -/
def Staged.Published (geometry : Geometry) (held fresh : Set ℕ) (base : Image)
    (current inode : Inode) (result : List UInt8) (image' : Image) : Prop :=
  Becomes geometry held ((fresh ∪ current.blocks) \ inode.blocks) base
    (Function.update (view geometry base) current.id (.used inode.published result)) image'

theorem Staged.fileUpdate (h : Staged geometry held fresh base image current inode result)
    (hpub : Staged.Published geometry held fresh base current inode result image') :
    FileUpdate geometry held base current result inode.published image' :=
  ⟨h.revises, Becomes.drop hpub⟩

theorem Staged.publish_wp (h : Staged fs.geometry held fresh base image current inode result)
    (ready : fs.Ready) (hview : view fs.geometry base current.id = .used current bytes) :
    (updateInode fs inode).wp mode
      (fun updated image' => updated = inode.published ∧
        Staged.Published fs.geometry held fresh base current inode result image')
      (fun _ image' => (Quiet fs.geometry held ∅ base image' ∧
          (mode = .faulty ∨ current.Frozen fs.geometry)) ∨ (mode = .faulty ∧
        Staged.Published fs.geometry held fresh base current inode result image'))
      (fun image' => Staged.Published fs.geometry held fresh base current inode result image')
      image := by
  have hid : inode.id = current.id := h.revises.id
  have hnode : view fs.geometry image inode.id = .used current bytes := by
    rw [hid, h.quiet.view, hview]
  have hlink : inode.linkCount = current.linkCount := h.revises.linkCount
  have hbecomes : Publishable fs image inode →
      Staged.Published fs.geometry held fresh base current inode result (publish image inode) := by
    intro hpublishable
    have hpub := hpublishable.becomes ready.layout h.quiet.owns h.disjoint
      (by rw [hlink]; exact (used_of_view hview).2.2.1.linkCount) (by rw [hnode]; exact h.blocks)
    rw [hnode, h.quiet.view, hid, h.contents] at hpub
    exact h.quiet.trans hpub
  refine (updateInode_wp ready inode).mono ?_ ?_ ?_
  · rintro _ image' ⟨hpublishable, rfl, rfl⟩
    exact ⟨rfl, hbecomes hpublishable⟩
  · rintro _ image' (⟨rfl, hreason⟩ | ⟨hfault, hpublishable, rfl⟩)
    · refine .inl ⟨h.quiet.drop, hreason.imp_right fun hunpublishable => ?_⟩
      by_contra hfrozen
      exact hunpublishable (h.publishable hnode hfrozen)
    · exact .inr ⟨hfault, hbecomes hpublishable⟩
  · rintro _ ⟨hpublishable, rfl⟩
    exact hbecomes hpublishable

theorem Staged.disjoint_released (h : Staged geometry held fresh base image current inode result)
    (hview : view geometry base current.id = .used current bytes) :
    Disjoint held ((fresh ∪ current.blocks) \ inode.blocks) := by
  refine Disjoint.mono_right sdiff_subset ?_
  rw [disjoint_union_right]
  refine ⟨h.disjoint, ?_⟩
  have hheld := h.quiet.owns.held_disjoint current.id
  rw [h.quiet.view, hview, disjoint_union_right] at hheld
  exact hheld.1.symm

end Kurogane.KuroFS
