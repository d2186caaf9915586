/-
# Publishing inodes

The specification of the programs that write inode slots. A slot write is the
moment at which an operation becomes visible, and the only one.
-/

import Kurogane.KuroFS.Staging

namespace Kurogane.KuroFS

open Storage Storage.Buffer Function Storage.Prog Set

variable {geometry : Geometry} {fs : FileSystem} {image image' : Image} {inode : Inode}
  {mode : Mode} {held fresh : Set ℕ} {inodeId : ℕ}

theorem writeSlot_wp (layout : Layout fs.geometry fs.device) (hid : inodeId ≠ 0)
    (hle : inodeId ≤ fs.geometry.inodeCount) (content : Buffer) :
    (writeSlot fs inodeId content).wp mode
      (fun _ image' => image' = setSlot image inodeId content)
      (fun _ image' => mode = .faulty ∧ (image' = image ∨ image' = setSlot image inodeId content))
      (fun image' => image' = setSlot image inodeId content) image := by
  have hslot := layout.slotBlock_lt hid hle
  have hbounds := layout.bounds
  rw [writeSlot, wp_bind]
  apply wp_read_of_ok (locateInode_eq layout hid hle)
  rw [wp_bind]
  apply wp_read_of_ok (layout.readOne_eq image (by omega))
  rw [wp_bind, wp_writeOne layout (by omega), wp_flushDevice layout]
  exact ⟨rfl, ⟨rfl, fun hfault => ⟨hfault, .inr rfl⟩⟩, fun hfault => ⟨hfault, .inl rfl⟩⟩

/-! ## Updates -/

def Inode.published (inode : Inode) : Inode := { inode with revision := inode.revision + 1 }

/-- What `update_inode` checks. -/
structure Publishable (fs : FileSystem) (image : Image) (inode : Inode) : Prop where
  current : ∃ current bytes, view fs.geometry image inode.id = .used current bytes ∧
    current.generation = inode.generation ∧ current.revision = inode.revision ∧
    current.type = inode.type
  revision_lt : inode.revision < 2 ^ 32 - 1
  flags : validInodeOwnershipFlags inode.flags = true
  feature : inode.flags ≠ 0 → fs.geometry.featureFlags &&& featureInodeOwnership ≠ 0
  linkCount_ne : inode.linkCount ≠ 0
  extentValid : inode.ExtentValid fs.geometry
  marked : ∀ block ∈ inode.blocks, Marked fs.geometry image block

theorem Publishable.mem (h : Publishable fs image inode) :
    inode.id ≠ 0 ∧ inode.id ≤ fs.geometry.inodeCount := by
  obtain ⟨_, _, hview, -⟩ := h.current
  exact ⟨(used_of_view hview).1, (used_of_view hview).2.1⟩

theorem Publishable.generation_ne (h : Publishable fs image inode) : inode.generation ≠ 0 := by
  obtain ⟨_, _, hview, hgen, -⟩ := h.current
  rw [← hgen]
  exact (used_of_view hview).2.2.1.generation_pos.ne'

def publish (image : Image) (inode : Inode) : Image :=
  setSlot image inode.id (encodeInode inode.published)

/-- An update either passes all checks and writes one slot, or changes nothing. -/
theorem updateInode_wp (ready : fs.Ready) (inode : Inode) :
    (updateInode fs inode).wp mode
      (fun updated image' => Publishable fs image inode ∧ updated = inode.published ∧
        image' = publish image inode)
      (fun _ image' => (image' = image ∧ (mode = .faulty ∨ ¬ Publishable fs image inode)) ∨
        (mode = .faulty ∧ Publishable fs image inode ∧ image' = publish image inode))
      (fun image' => Publishable fs image inode ∧ image' = publish image inode) image := by
  have layout := ready.layout
  rw [updateInode, ready.if_mounted]
  split
  next hflags =>
    refine .inl ⟨rfl, .inr fun h => ?_⟩
    rcases hflags with hinvalid | ⟨hflags, hfeature⟩
    · rw [h.flags] at hinvalid
      cases hinvalid
    · exact h.feature hflags hfeature
  rename_i hflags
  push Not at hflags
  rw [wp_bind, wp_read]
  refine ⟨fun current hcur => ?_, fun status hstat => ?_⟩
  · obtain ⟨bytes, hview⟩ := (readInode_eq_ok_iff ready).mp hcur
    split
    next hstale =>
      refine .inl ⟨rfl, .inr fun h => ?_⟩
      obtain ⟨_, _, hview', hgen, hrev, htype⟩ := h.current
      rw [hview] at hview'
      cases hview'
      exact hstale.elim (· hgen) fun h => h.elim (· hrev) (· htype)
    rename_i hmatch
    push Not at hmatch
    obtain ⟨hgen, hrev, htype⟩ := hmatch
    split
    · refine .inl ⟨rfl, .inr fun h => ?_⟩
      have := h.revision_lt
      omega
    have hbound := (used_of_view hview).2.2.1.revision
    rw [wp_bind, wp_read]
    refine ⟨fun _ hvalid => ?_, fun status hstat => ?_⟩
    · obtain ⟨⟨hid, hle, hlink, -⟩, hext, hmark⟩ := (validateInodeExtent_eq_ok_iff layout).mp hvalid
      have hpublishable : Publishable fs image inode :=
        ⟨⟨current, bytes, hview, hgen, hrev, htype⟩, by omega, by simpa using hflags.1,
          hflags.2, hlink, hext, hmark⟩
      have hpub : { inode with revision := current.revision + 1 } = inode.published := by
        rw [hrev, Inode.published]
      rw [wp_bind, hpub]
      refine (writeSlot_wp layout hid hle _).mono ?_ ?_ ?_
      · rintro _ image' rfl
        exact ⟨hpublishable, rfl, rfl⟩
      · rintro _ image' ⟨hfault, rfl | rfl⟩
        · exact .inl ⟨rfl, .inl hfault⟩
        · exact .inr ⟨hfault, hpublishable, rfl⟩
      · rintro _ rfl
        exact ⟨hpublishable, rfl⟩
    · refine .inl ⟨rfl, .inr fun h => ?_⟩
      have hvalid := (validateInodeExtent_eq_ok_iff layout).mpr
        ⟨⟨h.mem.1, h.mem.2, h.linkCount_ne, h.generation_ne⟩, h.extentValid, h.marked⟩
      rw [hvalid] at hstat
      cases hstat
  · refine .inl ⟨rfl, .inr fun h => ?_⟩
    obtain ⟨_, bytes, hview, -⟩ := h.current
    rw [(readInode_eq_ok_iff ready).mpr ⟨bytes, hview⟩] at hstat
    cases hstat

theorem Publishable.decoded (layout : Layout fs.geometry fs.device) (h : Publishable fs image inode)
    (hlink : inode.linkCount < 2 ^ 32) : inode.published.Decoded inode.id := by
  obtain ⟨_, _, hview, _, -, -⟩ := h.current
  have hdecoded := (used_of_view hview).2.2.1
  have hcount := layout.fits.inodeCount
  have htotal := layout.totalBlocks_lt
  have hmem := h.mem
  have hrev := h.revision_lt
  have hgen' := hdecoded.generation
  have hflags : inode.flags < 2 ^ 32 := by
    have hflags := h.flags
    simp only [validInodeOwnershipFlags, Bool.or_eq_true, beq_iff_eq, inodeFlagPending,
      inodeFlagOrphan] at hflags
    omega
  have hext : inode.size < 2 ^ 64 ∧ inode.extentStart < 2 ^ 64 ∧ inode.extentBlocks < 2 ^ 64 := by
    rcases h.extentValid with h | h <;> omega
  exact ⟨⟨by simp only [Inode.published]; omega, hflags, hext.1, hext.2.1, hext.2.2, hlink,
    by simp only [Inode.published]; omega, by simp only [Inode.published]; omega⟩, rfl,
    pos_of_ne_zero h.linkCount_ne, pos_of_ne_zero h.generation_ne, Nat.succ_pos _⟩

/-- Publication replaces one node. The inode may use its own blocks and fresh
ones; what it no longer uses is fresh from then on. -/
theorem Publishable.becomes (layout : Layout fs.geometry fs.device)
    (h : Owns fs.geometry (held ∪ fresh) image) (hdisj : Disjoint held fresh)
    (hpublishable : Publishable fs image inode) (hlink : inode.linkCount < 2 ^ 32)
    (hblks : inode.blocks ⊆ (view fs.geometry image inode.id).blocks ∪ fresh) :
    Becomes fs.geometry held
      ((fresh ∪ (view fs.geometry image inode.id).blocks) \ inode.blocks) image
      (update (view fs.geometry image) inode.id
        (.used inode.published (contents image inode)))
      (publish image inode) := by
  obtain ⟨hid, hle⟩ := hpublishable.mem
  have hdata := layout.dataStart
  have hview : view fs.geometry (publish image inode) = update (view fs.geometry image) inode.id
        (.used inode.published (contents image inode)) := by
    rw [publish, view_setSlot layout h hid hle,
      nodeOf_encodeInode (hpublishable.decoded layout hlink)]
    congr 2
    refine Inode.ExtentValid.contents_eq (show inode.published.ExtentValid _ from
      hpublishable.extentValid)
      fun block hblk => setSlot_of_ne layout hid hle _ (.inr ?_)
    have := Inode.ExtentValid.mem_data (show inode.published.ExtentValid _ from
      hpublishable.extentValid) hblk
    omega
  refine ⟨fun block hblk => setSlot_of_ne layout hid hle _ (.inl hblk), hview, ?_,
    fun block hblk => setSlot_of_ne layout hid hle _ (.inr ?_)⟩
  · refine (h.setNode hview (fun block => (marked_setSlot layout hid hle _ block).mpr)
      hpublishable.extentValid (hblks.trans ?_)).mono ?_
    · exact union_subset_union_right _ subset_union_right
    have hdisj' : Disjoint held inode.blocks := by
      refine Disjoint.mono_right hblks ?_
      rw [disjoint_union_right]
      exact ⟨((h.held_disjoint inode.id).mono_right subset_union_left).symm, hdisj⟩
    rintro block (hheld | ⟨hfresh | hold, hout⟩)
    · exact ⟨.inl (.inl hheld), disjoint_left.mp hdisj' hheld⟩
    · exact ⟨.inl (.inr hfresh), hout⟩
    · exact ⟨.inr hold, hout⟩
  · have := (h.held_data block (.inl hblk)).1
    omega

def Inode.Frozen (geometry : Geometry) (inode : Inode) : Prop :=
  inode.revision = 2 ^ 32 - 1 ∨ validInodeOwnershipFlags inode.flags = false ∨
    (inode.flags ≠ 0 ∧ geometry.featureFlags &&& featureInodeOwnership = 0)

theorem Inode.ExtentValid.capacity_lt {geometry : Geometry} (h : inode.ExtentValid geometry) :
    inode.extentBlocks * 512 < 2 ^ 64 := by
  rcases h with h | h <;> omega

/-! ## Features -/

theorem ensureFeature_of_present {feature : ℕ}
    (hfeature : feature = featureMoveIntent ∨ feature = featureInodeOwnership)
    (hpres : fs.geometry.featureFlags &&& feature = feature) :
    ensureFeature fs feature = pure fs := by
  have hsupported : ¬ (feature = 0 ∨ feature &&& (2 ^ 64 - 1 - supportedFeatures) ≠ 0) := by
    rcases hfeature with rfl | rfl <;> decide
  rw [ensureFeature, if_neg hsupported, if_pos hpres]

end Kurogane.KuroFS
