/-
# Work that nobody sees yet

An operation prepares its result in blocks that no inode owns and publishes it
with a single slot write. `Quiet` collects what the preparation, and likewise the
release of what has been given up, leaves alone: the superblocks, the whole view,
and the blocks somebody else holds.
-/

import Kurogane.KuroFS.Extents
import Kurogane.KuroFS.Reading

namespace Kurogane.KuroFS

open Storage Storage.Buffer Storage.Prog Set

variable {geometry : Geometry} {device : Device} {fs : FileSystem}
  {image image' image'' : Image} {mode : Mode} {held fresh : Set ℕ}

/-- `image'` holds `volume`. Since `image` neither the superblocks nor the held
blocks have changed, and the fresh blocks are in the hands of the running
operation. -/
structure Becomes (geometry : Geometry) (held fresh : Set ℕ) (image : Image) (volume : Volume)
    (image' : Image) : Prop where
  superblocks : ∀ block < 2, image' block = image block
  view : view geometry image' = volume
  owns : Owns geometry (held ∪ fresh) image'
  held : ∀ block ∈ held, image' block = image block

abbrev Quiet (geometry : Geometry) (held fresh : Set ℕ) (image image' : Image) : Prop :=
  Becomes geometry held fresh image (view geometry image) image'

theorem Quiet.refl (h : Owns geometry (held ∪ fresh) image) :
    Quiet geometry held fresh image image :=
  ⟨fun _ _ => rfl, rfl, h, fun _ _ => rfl⟩

variable {fresh' : Set ℕ} {offset size : ℕ}

theorem Becomes.trans {volume volume' : Volume}
    (h : Becomes geometry held fresh image volume image')
    (h' : Becomes geometry held fresh' image' volume' image'') :
    Becomes geometry held fresh' image volume' image'' where
  superblocks := fun block hblk =>
    (h'.superblocks block hblk).trans (h.superblocks block hblk)
  view := h'.view
  owns := h'.owns
  held := fun block hblk => (h'.held block hblk).trans (h.held block hblk)

variable {volume : Volume}

section

variable (h : Becomes geometry held fresh image volume image')
include h

theorem Becomes.trans_quiet (h' : Quiet geometry held fresh' image' image'') :
    Becomes geometry held fresh' image volume image'' := by
  rw [← h.view]
  exact h.trans h'

theorem Becomes.mono {held' : Set ℕ} (hheld : held' ⊆ held)
    (hfresh : held' ∪ fresh' ⊆ held ∪ fresh) :
    Becomes geometry held' fresh' image volume image' where
  superblocks := h.superblocks
  view := h.view
  owns := h.owns.mono hfresh
  held := fun block hblk => h.held block (hheld hblk)

theorem Becomes.drop : Becomes geometry held ∅ image volume image' :=
  h.mono subset_rfl (by simp)

theorem Becomes.owns_held : Owns geometry held image' :=
  h.owns.mono subset_union_left

end

variable {first count : ℕ}

/-! ## Allocation -/

theorem Owns.not_mem_freeRun (h : Owns geometry held image)
    (hrun : FreeRun geometry image first count) {block : ℕ}
    (hblk : block ∈ held ∨ ∃ inodeId, block ∈ (view geometry image inodeId).blocks) :
    block ∉ extent first count := by
  intro hmem
  refine hrun.free block hmem ?_
  rcases hblk with hheld | ⟨inodeId, hnode⟩
  · exact h.held_marked block hheld
  · exact h.marked inodeId block hnode

theorem Allocating.quiet (layout : Layout geometry device) {fresh : Set ℕ}
    (h : Owns geometry held image) (hrun : FreeRun geometry image first count)
    (hallocating : Allocating geometry image image' first count)
    (hfresh : fresh ⊆ extent first count) (hmark : ∀ block ∈ fresh, Marked geometry image' block) :
    Quiet geometry held fresh image image' := by
  have hstart := layout.bitmapStart
  have hend := hrun.le_totalBlocks
  have hkept : ∀ block, block ∈ held ∨ (∃ inodeId,
    block ∈ (KuroFS.view geometry image inodeId).blocks) →
      geometry.dataStart ≤ block → image' block = image block := fun block hused hdata =>
    hallocating.data block hdata (h.not_mem_freeRun hrun hused)
  obtain ⟨hview, howns⟩ := h.transfer (held ∪ fresh) image' layout
    (fun block _ hblk => hallocating.low block hblk)
    (fun inodeId inode bytes hused => (h.extentValid hused).contents_eq fun block hblk =>
      hkept block (.inr ⟨inodeId, by rw [hused]; exact hblk⟩)
        ((h.extentValid hused).mem_data hblk).1)
    (fun inodeId block hblk => hallocating.marked block
      ((h.valid inodeId).mem_data hblk).2 (h.marked inodeId block hblk))
    (by
      rintro block (hheld | hblk)
      · have hdata := h.held_data block hheld
        exact ⟨hdata.1, hdata.2, hallocating.marked block hdata.2 (h.held_marked block hheld)⟩
      · have hmem := hfresh hblk
        rw [mem_extent] at hmem
        have hlow := hrun.dataStart_le
        exact ⟨by omega, by omega, hmark block hblk⟩)
    (fun inodeId => by
      rw [disjoint_union_right]
      refine ⟨h.held_disjoint inodeId, disjoint_left.mpr fun block hblk hmem => ?_⟩
      exact h.not_mem_freeRun hrun (.inr ⟨inodeId, hblk⟩) (hfresh hmem))
  exact ⟨fun block hblk => hallocating.low block (by omega), hview, howns,
    fun block hblk => hkept block (.inl hblk) (h.held_data block hblk).1⟩

structure Allocatable (geometry : Geometry) (image : Image) (count : ℕ) : Prop where
  pos : 0 < count
  capacity_lt : count * 512 < 2 ^ 64
  run : ∃ first, FreeRun geometry image first count

theorem publishExtentAllocation_quiet (layout : Layout fs.geometry fs.device)
    (h : Owns fs.geometry held image) (hrun : FreeRun fs.geometry image first count) :
    (publishExtentAllocation fs first count).wp mode
      (fun _ image' => Quiet fs.geometry held (extent first count) image image')
      (fun _ image' => mode = .faulty ∧ Quiet fs.geometry held ∅ image image')
      (fun image' => Quiet fs.geometry held ∅ image image') image := by
  have hend := hrun.le_totalBlocks
  refine (publishExtentAllocation_wp layout hrun).kept (fun hmid hpub =>
    (hpub.allocating layout hmid).quiet layout h hrun (empty_subset _) (by simp))
    (fun _ image' hpub => ?_) (fun _ _ h => h) fun _ h => h
  refine (hpub.allocating layout le_rfl).quiet layout h hrun subset_rfl fun block hblk => ?_
  rw [mem_extent] at hblk
  exact (hpub.marked block (layout.bitmapBlock_lt (by omega))).mpr (.inr hblk)

/-! ## Filling fresh blocks -/

def Filled (image : Image) (first count : ℕ) (content : Buffer) : Prop :=
  ∀ i < count * 512, extentByte image first i = content i

theorem filled_zero (h : ∀ block ∈ extent first count, image block = Buffer.zero) :
    Filled image first count Buffer.zero := by
  intro i hi
  rw [extentByte, h _ (by rw [mem_extent]; omega)]
  rfl

theorem Filled.patched {first count : ℕ} {content content' : Buffer}
    (h : Filled image first count content)
    (hpatch : Patched image image' first offset size content') :
    Filled image' first count (content.splice offset size content') := by
  intro i hi
  rw [hpatch.bytes, splice, h i hi]

variable {content : Buffer}

theorem Filled.contents_eq (inode : Inode)
    (h : Filled image inode.extentStart inode.extentBlocks content)
    (hsize : inode.size ≤ inode.extentBlocks * 512) :
    contents image inode = (List.range inode.size).map content := by
  apply List.map_congr_left
  intro i hi
  rw [List.mem_range] at hi
  exact h i (by omega)

theorem Owns.allocated (h : Owns geometry held image) (hheld : extent first count ⊆ held)
    (hpos : 0 < count) (hcap : count * 512 < 2 ^ 64) : Allocated geometry image first count := by
  have hfirst := h.held_data first (hheld (by rw [mem_extent]; omega))
  have hlast := h.held_data (first + count - 1) (hheld (by rw [mem_extent]; omega))
  exact ⟨hpos, hfirst.1, by omega, hcap, fun block hblk => h.held_marked block (hheld hblk)⟩

section

variable (layout : Layout geometry device) (h : Owns geometry (held ∪ fresh) image)
include layout h

/-- A change of data blocks that nobody holds and that shows in no inode. -/
theorem Owns.quiet_of_changed {changed : Set ℕ}
    (hdata : ∀ block ∈ changed, geometry.dataStart ≤ block)
    (hheld : ∀ block ∈ held, block ∉ changed)
    (houtside : ∀ block, block ∉ changed → image' block = image block)
    (hcont : ∀ inodeId inode bytes, KuroFS.view geometry image inodeId = .used inode bytes →
      contents image' inode = contents image inode) : Quiet geometry held fresh image image' := by
  have hlow : ∀ block < geometry.dataStart, image' block = image block := by
    intro block hblk
    apply houtside
    intro hmem
    have := hdata block hmem
    omega
  have hmark : ∀ block < geometry.totalBlocks, Marked geometry image block →
      Marked geometry image' block := by
    intro block hblk hmark
    have := layout.bitmapBlock_lt hblk
    have := layout.dataStart
    rw [Marked, hlow _ (by omega)]
    exact hmark
  have hbounds := layout.bounds
  obtain ⟨hview, howns⟩ := h.transfer (held ∪ fresh) image' layout
    (fun block _ hblk => hlow block (by omega)) hcont
    (fun inodeId block hblk => hmark block ((h.valid inodeId).mem_data hblk).2
      (h.marked inodeId block hblk))
    (fun block hblk => ⟨(h.held_data block hblk).1, (h.held_data block hblk).2,
      hmark block (h.held_data block hblk).2 (h.held_marked block hblk)⟩)
    h.held_disjoint
  exact ⟨fun block hblk => hlow block (by omega), hview, howns,
    fun block hblk => houtside block (hheld block hblk)⟩

theorem Owns.quiet_of_data (hdisj : Disjoint held fresh)
    (houtside : ∀ block, block ∉ fresh → image' block = image block) :
    Quiet geometry held fresh image image' :=
  h.quiet_of_changed layout (fun block hblk => (h.held_data block (.inr hblk)).1)
    (fun _ hblk => disjoint_left.mp hdisj hblk) houtside fun _ _ _ hused =>
      (h.extentValid hused).contents_eq fun block hblk =>
        houtside block fun hmem => h.not_mem_held hused hblk (.inr hmem)

theorem Patched.quiet {first count : ℕ} (hdisj : Disjoint held fresh)
    (hfresh : extent first count ⊆ fresh) (hfits : offset + size ≤ count * 512)
    (hpatch : Patched image image' first offset size content) :
    Quiet geometry held fresh image image' := by
  refine h.quiet_of_data layout hdisj fun block hblk => hpatch.outside block ?_
  by_contra hinside
  refine hblk (hfresh ?_)
  rw [mem_extent]
  omega

/-! ## Release -/

theorem Remarked.quiet_of_released {first count middle : ℕ} (hdisj : Disjoint held fresh)
    (hfresh : extent first count ⊆ fresh) (hmid : middle ≤ first + count)
    (hrel : Remarked geometry image image' (markedWithout geometry image first middle)) :
    Quiet geometry held (fresh \ extent first count) image image' := by
  have hstart := layout.bitmapStart
  have hkept : ∀ block < geometry.totalBlocks, block ∉ extent first count →
      Marked geometry image block → Marked geometry image' block := by
    intro block hblk hout hmark
    rw [mem_extent] at hout
    exact (hrel.marked block (layout.bitmapBlock_lt hblk)).mpr ⟨hmark, by omega⟩
  have houtNode : ∀ inodeId, ∀ block ∈ (KuroFS.view geometry image inodeId).blocks,
      block ∉ extent first count := fun inodeId block hblk hmem =>
    disjoint_left.mp (h.held_disjoint inodeId) hblk (.inr (hfresh hmem))
  have hsubset : held ∪ fresh \ extent first count ⊆ held ∪ fresh :=
    union_subset_union_right _ sdiff_subset
  obtain ⟨hview, howns⟩ := h.transfer (held ∪ fresh \ extent first count) image' layout
    (fun block _ hblk => hrel.outside block (.inl hblk))
    (fun inodeId inode bytes hused => (h.extentValid hused).contents_eq fun block hblk =>
      hrel.outside block (.inr ((h.extentValid hused).mem_data hblk).1))
    (fun inodeId block hblk => hkept block ((h.valid inodeId).mem_data hblk).2
      (houtNode inodeId block hblk) (h.marked inodeId block hblk))
    (by
      intro block hblk
      have hdata := h.held_data block (hsubset hblk)
      refine ⟨hdata.1, hdata.2, hkept block hdata.2 ?_ (h.held_marked block (hsubset hblk))⟩
      rcases hblk with hheld | hrest
      · exact fun hmem => disjoint_left.mp hdisj hheld (hfresh hmem)
      · exact hrest.2)
    (fun inodeId => (h.held_disjoint inodeId).mono_right hsubset)
  exact ⟨fun block hblk => hrel.outside block (.inl (by omega)), hview, howns,
    fun block hblk => hrel.outside block (.inr (h.held_data block (.inl hblk)).1)⟩

end

theorem zeroExtent_quiet (layout : Layout fs.geometry fs.device)
    (h : Owns fs.geometry (held ∪ fresh) image) (hdisj : Disjoint held fresh)
    (hfresh : extent first count ⊆ fresh) (hpos : 0 < count) :
    (zeroExtent fs first count).wp mode
      (fun _ image' => Quiet fs.geometry held fresh image image')
      (fun _ image' => (mode = .faulty ∨ 2 ^ 64 ≤ count * 512) ∧
        Quiet fs.geometry held fresh image image')
      (fun image' => Quiet fs.geometry held fresh image image') image := by
  have hzeroed : ∀ {done image'}, done ≤ count → image' = zeroed image first done →
      Quiet fs.geometry held fresh image image' := by
    rintro done _ hdone rfl
    refine h.quiet_of_data layout hdisj fun block hblk => ?_
    rw [zeroed, if_neg]
    intro hmem
    exact hblk (hfresh (by rw [mem_extent]; omega))
  by_cases halloc : Allocated fs.geometry image first count
  · exact (zeroExtent_wp layout halloc).kept hzeroed (fun _ _ => hzeroed le_rfl)
      (fun _ _ h => ⟨.inl h.1, h.2⟩) fun _ h => h
  rw [zeroExtent, wp_bind, wp_read]
  refine ⟨fun capacity hvalid => ?_, fun _ _ => ⟨.inr ?_, Quiet.refl h⟩⟩
  · obtain ⟨-, ⟨rfl, -⟩ | halloc'⟩ := (validateAllocatedExtent_eq_ok_iff layout).mp hvalid
    · omega
    · exact absurd halloc' halloc
  · by_contra hcap
    exact halloc (h.allocated (hfresh.trans subset_union_right) hpos (by omega))

section

variable (layout : Layout fs.geometry fs.device)
include layout

theorem releaseExtent_quiet (h : Owns fs.geometry (held ∪ fresh) image)
    (hdisj : Disjoint held fresh) (hfresh : extent first count ⊆ fresh) (hpos : 0 < count)
    (hcap : count * 512 < 2 ^ 64) :
    (releaseExtent fs first count).wp mode
      (fun _ image' => Quiet fs.geometry held (fresh \ extent first count) image image')
      (fun _ image' => mode = .faulty ∧
        Quiet fs.geometry held (fresh \ extent first count) image image')
      (fun image' => Quiet fs.geometry held (fresh \ extent first count) image image') image := by
  have halloc := h.allocated (hfresh.trans subset_union_right) hpos hcap
  exact (releaseExtent_wp layout halloc).kept
    (fun hmid hrel => hrel.quiet_of_released layout h hdisj hfresh hmid)
    (fun _ _ hrel => hrel.quiet_of_released layout h hdisj hfresh le_rfl) (fun _ _ h => h)
    fun _ h => h

/-- A staging program that fails only on a faulty device gives its extent back. -/
theorem orAbandon_quiet {α : Type} {base : Image} {program : KProg Status α}
    {onValue : α → Image → Prop} (hprogram : program.wp mode onValue
      (fun _ image' => mode = .faulty ∧ Quiet fs.geometry held fresh base image')
      (fun image' => Quiet fs.geometry held fresh base image') image)
    (hdisj : Disjoint held fresh) (hfresh : extent first count ⊆ fresh) (hpos : 0 < count)
    (hcap : count * 512 < 2 ^ 64) :
    (orAbandon fs first count program).wp mode onValue
      (fun _ image' => mode = .faulty ∧ Quiet fs.geometry held ∅ base image')
      (fun image' => Quiet fs.geometry held ∅ base image') image := by
  rw [orAbandon, wp_bind, wp_attempt]
  refine hprogram.mono (fun _ _ hvalue => hvalue) ?_ (fun _ hquiet => hquiet.drop)
  rintro failure _ ⟨hfault, hquiet⟩
  change (abandonExtent fs first count failure).wp _ _ _ _ _
  rw [abandonExtent, wp_bind]
  refine (releaseExtent_quiet layout hquiet.owns hdisj hfresh hpos hcap).mono ?_ ?_ ?_
  · exact fun _ image' hrel => ⟨hfault, (hquiet.trans_quiet hrel).drop⟩
  · exact fun _ image' hrel => ⟨hfault, (hquiet.trans_quiet hrel.2).drop⟩
  · exact fun image' hrel => (hquiet.trans_quiet hrel).drop

end

/-! ## The invisible tail of an extent -/

/-- Bytes behind the end of an inode can be overwritten unseen. -/
theorem Patched.quiet_of_tail (layout : Layout geometry device) {inodeId : ℕ} {inode : Inode}
    {bytes : List UInt8} (h : Owns geometry (held ∪ fresh) image) (hdisj : Disjoint held fresh)
    (hview : KuroFS.view geometry image inodeId = .used inode bytes) (hoff : inode.size ≤ offset)
    (hblks : ∀ block, inode.extentStart + offset / 512 ≤ block →
      block * 512 < inode.extentStart * 512 + offset + size → block ∈ inode.blocks ∪ fresh)
    (hpatch : Patched image image' inode.extentStart offset size content) :
    Quiet geometry held fresh image image' := by
  have houtside : ∀ block, block ∉ inode.blocks ∪ fresh → image' block = image block := by
    intro block hblk
    apply hpatch.outside
    by_contra hinside
    exact hblk (hblks block (by omega) (by omega))
  refine h.quiet_of_changed layout ?_ ?_ houtside ?_
  · rintro block (hmem | hmem)
    · exact ((h.extentValid hview).mem_data hmem).1
    · exact (h.held_data block (.inr hmem)).1
  · rintro block hblk (hmem | hmem)
    · exact h.not_mem_held hview hmem (.inl hblk)
    · exact disjoint_left.mp hdisj hblk hmem
  intro other otherInode otherBytes hother
  by_cases hsame : other = inodeId
  · subst hsame
    rw [hview] at hother
    cases hother
    refine contents_congr fun i hi => ?_
    rw [hpatch.bytes, if_neg (by omega)]
  refine (h.extentValid hother).contents_eq fun block hblk => houtside block ?_
  rintro (hmem | hmem)
  · have hne := h.disjoint other inodeId hsame
    rw [hview, hother] at hne
    exact disjoint_left.mp hne hblk hmem
  · exact h.not_mem_held hother hblk (.inr hmem)

end Kurogane.KuroFS
