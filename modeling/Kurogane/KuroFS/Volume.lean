/-
# The volume an image holds

`view` reads an image as a table of nodes: for every inode number a free slot,
an inode with its readable bytes, or a record that does not decode. This is the
state KuroFS is about; everything else on the device is bookkeeping.

`Owns` is the bookkeeping invariant. The extents of the inodes lie in the data
area, are marked in the bitmap and share no block, and a set of held blocks (in
the hands of a caller or of an operation that has not published them yet) is
marked and belongs to no inode.
-/

import Kurogane.KuroFS.Layout
import Mathlib.Data.Set.Lattice
import Mathlib.Order.CompletePartialOrder

namespace Kurogane.KuroFS

open Storage Storage.Buffer Function

/-! ## Slots, extents and bits -/

def slotBytes (image : Image) (inodeId : ℕ) : Buffer :=
  (image (2 + (inodeId - 1) * 128 / 512)).slice ((inodeId - 1) * 128 % 512)

def setSlot (image : Image) (inodeId : ℕ) (content : Buffer) : Image :=
  Function.update image (2 + (inodeId - 1) * 128 / 512)
    ((image (2 + (inodeId - 1) * 128 / 512)).splice ((inodeId - 1) * 128 % 512) 128 content)

def extentByte (image : Image) (first i : ℕ) : UInt8 := image (first + i / 512) (i % 512)

/-- The readable bytes of an inode. -/
def contents (image : Image) (inode : Inode) : List UInt8 :=
  (List.range inode.size).map (extentByte image inode.extentStart)

/-- The bit of a block in the allocation bitmap. -/
def Marked (geometry : Geometry) (image : Image) (block : ℕ) : Prop :=
  blockMarked (image (geometry.allocationBitmapStart + block / 4096)) block = true

instance (geometry : Geometry) (image : Image) (block : ℕ) :
    Decidable (Marked geometry image block) :=
  inferInstanceAs (Decidable (_ = true))

def extent (first count : ℕ) : Set ℕ := Set.Ico first (first + count)

def Inode.blocks (inode : Inode) : Set ℕ := extent inode.extentStart inode.extentBlocks

@[simp]
theorem mem_extent {first count block : ℕ} :
    block ∈ extent first count ↔ first ≤ block ∧ block < first + count := Iff.rfl

@[simp]
theorem extent_zero (first : ℕ) : extent first 0 = ∅ := by
  ext block
  simp only [mem_extent, Set.mem_empty_iff_false, iff_false]
  omega

/-- An extent in the data area that has room for `size` bytes. -/
def ValidExtent (geometry : Geometry) (size first count : ℕ) : Prop :=
  (count = 0 ∧ first = 0 ∧ size = 0) ∨
    (0 < count ∧ geometry.dataStart ≤ first ∧ first + count ≤ geometry.totalBlocks ∧
      count * 512 < 2 ^ 64 ∧ size ≤ count * 512)

def Inode.ExtentValid (geometry : Geometry) (inode : Inode) : Prop :=
  ValidExtent geometry inode.size inode.extentStart inode.extentBlocks

/-! ## Nodes -/

inductive Node
  | free (generation : ℕ)
  | used (inode : Inode) (bytes : List UInt8)
  | bad (status : Status)
  deriving DecidableEq

abbrev Volume := ℕ → Node

def Node.inode : Node → Except Status Inode
  | free _ => .error .notFound
  | used inode _ => .ok inode
  | bad status => .error status

def Node.blocks : Node → Set ℕ
  | used inode _ => inode.blocks
  | free _ => ∅
  | bad _ => ∅

def Node.ExtentValid (geometry : Geometry) : Node → Prop
  | used inode _ => inode.ExtentValid geometry
  | free _ => True
  | bad _ => True

def nodeOf (image : Image) (slot : Buffer) (inodeId : ℕ) : Node :=
  match decodeFreeInode slot inodeId with
  | some generation => .free generation
  | none =>
    match decodeInode slot inodeId with
    | .ok inode => .used inode (contents image inode)
    | .error status => .bad status

/-- The volume held by an image. Numbers outside the table are free slots
without a generation. -/
def view (geometry : Geometry) (image : Image) : Volume := fun inodeId =>
  if inodeId ≠ 0 ∧ inodeId ≤ geometry.inodeCount then
    nodeOf image (slotBytes image inodeId) inodeId
  else .free 0

variable {geometry : Geometry} {device : Device} {image image' : Image}

theorem nodeOf_inode (image : Image) (slot : Buffer) (inodeId : ℕ) :
    (nodeOf image slot inodeId).inode = decodeInode slot inodeId := by
  unfold nodeOf
  cases hfree : decodeFreeInode slot inodeId with
  | some generation => exact (decodeInode_eq_notFound_iff.mpr ⟨generation, hfree⟩).symm
  | none => cases hdec : decodeInode slot inodeId <;> rfl

variable {inodeId : ℕ} {inode : Inode} {bytes : List UInt8}

theorem nodeOf_of_decodeInode {slot : Buffer} (hdec : decodeInode slot inodeId = .ok inode) :
    nodeOf image slot inodeId = .used inode (contents image inode) := by
  unfold nodeOf
  cases hfree : decodeFreeInode slot inodeId with
  | some generation =>
    rw [decodeInode_eq_notFound_iff.mpr ⟨generation, hfree⟩] at hdec
    cases hdec
  | none => rw [hdec]

theorem nodeOf_congr {slot slot' : Buffer} (hslot : AgreeBelow 128 slot slot')
    (hcont : ∀ inode, decodeInode slot inodeId = .ok inode →
      contents image inode = contents image' inode) :
    nodeOf image slot inodeId = nodeOf image' slot' inodeId := by
  unfold nodeOf
  rw [← decodeFreeInode_congr hslot, ← decodeInode_congr hslot]
  cases hfree : decodeFreeInode slot inodeId with
  | some => rfl
  | none =>
    cases hdec : decodeInode slot inodeId with
    | ok inode => simp only [hcont inode hdec]
    | error => rfl

theorem view_of_mem (hpos : inodeId ≠ 0) (hle : inodeId ≤ geometry.inodeCount) :
    view geometry image inodeId = nodeOf image (slotBytes image inodeId) inodeId := by
  rw [view, if_pos ⟨hpos, hle⟩]

theorem view_of_not_mem (h : inodeId = 0 ∨ geometry.inodeCount < inodeId) :
    view geometry image inodeId = .free 0 := by
  rw [view, if_neg (by omega)]

/-- An allocated inode has a number in the table, decodes from its slot, and its
bytes are those of its extent. -/
theorem used_of_view (h : view geometry image inodeId = .used inode bytes) :
    inodeId ≠ 0 ∧ inodeId ≤ geometry.inodeCount ∧ inode.Decoded inodeId ∧
      decodeInode (slotBytes image inodeId) inodeId = .ok inode ∧
      bytes = contents image inode := by
  unfold view at h
  split at h
  next hmem =>
    have hdec : decodeInode (slotBytes image inodeId) inodeId = .ok inode := by
      rw [← nodeOf_inode image, h]
      rfl
    refine ⟨hmem.1, hmem.2, decoded_of_decodeInode hdec, hdec, ?_⟩
    rw [nodeOf_of_decodeInode hdec] at h
    cases h
    rfl
  · cases h

theorem length_contents (image : Image) (inode : Inode) :
    (contents image inode).length = inode.size := by
  simp [contents]

theorem length_of_view
    (h : view geometry image inodeId = .used inode bytes) : bytes.length = inode.size := by
  rw [(used_of_view h).2.2.2.2, length_contents]

theorem contents_congr (h : ∀ i < inode.size, extentByte image inode.extentStart i =
      extentByte image' inode.extentStart i) : contents image inode = contents image' inode := by
  apply List.map_congr_left
  intro i hi
  exact h i (List.mem_range.mp hi)

/-- The view depends on the slots and on the readable bytes. -/
theorem view_congr (hslot : ∀ inodeId, inodeId ≠ 0 → inodeId ≤ geometry.inodeCount →
      AgreeBelow 128 (slotBytes image' inodeId) (slotBytes image inodeId))
    (hcont : ∀ inodeId inode bytes, view geometry image inodeId = .used inode bytes →
      contents image' inode = contents image inode) :
    view geometry image' = view geometry image := by
  funext inodeId
  by_cases hmem : inodeId ≠ 0 ∧ inodeId ≤ geometry.inodeCount
  · rw [view_of_mem hmem.1 hmem.2, view_of_mem hmem.1 hmem.2]
    refine (nodeOf_congr (hslot inodeId hmem.1 hmem.2).symm fun inode hdec => ?_).symm
    have hview := (view_of_mem hmem.1 hmem.2).trans (nodeOf_of_decodeInode hdec)
    exact (hcont inodeId inode _ hview).symm
  · rw [view_of_not_mem (by omega), view_of_not_mem (by omega)]

/-! ## Ownership of blocks -/

/-- The bookkeeping invariant of a volume, relative to a set of held blocks. -/
structure Owns (geometry : Geometry) (held : Set ℕ) (image : Image) : Prop where
  valid : ∀ inodeId, (view geometry image inodeId).ExtentValid geometry
  marked : ∀ inodeId, ∀ block ∈ (view geometry image inodeId).blocks, Marked geometry image block
  disjoint : ∀ inodeId inodeId', inodeId ≠ inodeId' →
    Disjoint (view geometry image inodeId).blocks (view geometry image inodeId').blocks
  held_data : ∀ block ∈ held, geometry.dataStart ≤ block ∧ block < geometry.totalBlocks
  held_marked : ∀ block ∈ held, Marked geometry image block
  held_disjoint : ∀ inodeId, Disjoint (view geometry image inodeId).blocks held

theorem Owns.mono {held held' : Set ℕ} (h : Owns geometry held image) (hsubset : held' ⊆ held) :
    Owns geometry held' image :=
  { h with
    held_data := fun block hblk => h.held_data block (hsubset hblk)
    held_marked := fun block hblk => h.held_marked block (hsubset hblk)
    held_disjoint := fun inodeId => (h.held_disjoint inodeId).mono_right hsubset }

variable {block : ℕ}

section Lookup

variable {held : Set ℕ} {inodeId : ℕ} {inode : Inode} {bytes : List UInt8}

section

variable (h : Owns geometry held image) (hview : view geometry image inodeId = .used inode bytes)
include h hview

theorem Owns.extentValid : inode.ExtentValid geometry := by
  have hvalid := h.valid inodeId
  rwa [hview] at hvalid

theorem Owns.marked_of_mem (hblk : block ∈ inode.blocks) : Marked geometry image block := by
  have hmark := h.marked inodeId block
  rw [hview] at hmark
  exact hmark hblk

theorem Owns.not_mem_held (hblk : block ∈ inode.blocks) : block ∉ held := by
  have hdisj := h.held_disjoint inodeId
  rw [hview] at hdisj
  exact Set.disjoint_left.mp hdisj hblk

end

end Lookup

theorem Inode.ExtentValid.mem_data (h : inode.ExtentValid geometry) (hblk : block ∈ inode.blocks) :
    geometry.dataStart ≤ block ∧ block < geometry.totalBlocks := by
  simp only [Inode.blocks, mem_extent] at hblk
  rcases h with h | h <;> omega

variable {node : Node}

theorem Node.ExtentValid.mem_data (h : node.ExtentValid geometry)
    (hblk : block ∈ node.blocks) : geometry.dataStart ≤ block ∧ block < geometry.totalBlocks := by
  cases node with
  | free => exact hblk.elim
  | bad => exact hblk.elim
  | used => exact Inode.ExtentValid.mem_data h hblk

theorem Inode.ExtentValid.mem_blocks (h : inode.ExtentValid geometry) {i : ℕ}
    (hi : i < inode.size) : inode.extentStart + i / 512 ∈ inode.blocks := by
  simp only [Inode.blocks, mem_extent]
  rcases h with h | h <;> omega

theorem Inode.ExtentValid.contents_eq (h : inode.ExtentValid geometry)
    (hblks : ∀ block ∈ inode.blocks, image' block = image block) :
    contents image' inode = contents image inode :=
  contents_congr fun i hi => by
    rw [extentByte, extentByte, hblks _ (h.mem_blocks hi)]

variable {held : Set ℕ}

/-- An image that keeps the table, the readable bytes and the bits in use holds
the same volume. -/
theorem Owns.transfer (held' : Set ℕ) (image' : Image) (layout : Layout geometry device)
    (h : Owns geometry held image)
    (htable : ∀ block, 2 ≤ block → block < geometry.allocationBitmapStart →
      image' block = image block)
    (hcont : ∀ inodeId inode bytes, view geometry image inodeId = .used inode bytes →
      contents image' inode = contents image inode)
    (hmark : ∀ inodeId, ∀ block ∈ (view geometry image inodeId).blocks,
      Marked geometry image' block)
    (hheld : ∀ block ∈ held', geometry.dataStart ≤ block ∧ block < geometry.totalBlocks ∧
      Marked geometry image' block)
    (hdisj : ∀ inodeId, Disjoint (view geometry image inodeId).blocks held') :
    view geometry image' = view geometry image ∧ Owns geometry held' image' := by
  have hview : view geometry image' = view geometry image := by
    refine view_congr (fun inodeId hpos hle i hi => ?_) hcont
    have hblk := layout.slotBlock_lt hpos hle
    have hstart := layout.bitmapStart
    rw [slotBytes, slotBytes, htable _ (by omega) (by omega)]
  refine ⟨hview, ?_⟩
  constructor
  · rw [hview]
    exact h.valid
  · rw [hview]
    exact hmark
  · rw [hview]
    exact h.disjoint
  · exact fun block hblk => ⟨(hheld block hblk).1, (hheld block hblk).2.1⟩
  · exact fun block hblk => (hheld block hblk).2.2
  · rw [hview]
    exact hdisj

/-! ## Replacing one node -/

theorem slotBytes_setSlot_self (image : Image) (inodeId : ℕ) (content : Buffer) :
    AgreeBelow 128 (slotBytes (setSlot image inodeId content) inodeId) content := by
  rw [slotBytes, setSlot, update_self]
  exact slice_splice_agreeBelow _ _ _ _

theorem slotBytes_setSlot_of_ne (image : Image) {inodeId other : ℕ} (content : Buffer)
    (hid : inodeId ≠ 0) (hother : other ≠ 0) (hne : other ≠ inodeId) :
    AgreeBelow 128 (slotBytes (setSlot image inodeId content) other) (slotBytes image other) := by
  rw [slotBytes, setSlot]
  by_cases hblk : (other - 1) * 128 / 512 = (inodeId - 1) * 128 / 512
  · rw [hblk, update_self, slotBytes, hblk]
    exact slice_splice_of_disjoint _ _ (by omega)
  · rw [update_of_ne (by omega)]
    exact fun _ _ => rfl

theorem setSlot_of_ne (layout : Layout geometry device) (hid : inodeId ≠ 0)
    (hle : inodeId ≤ geometry.inodeCount) (content : Buffer)
    (hblk : block < 2 ∨ geometry.allocationBitmapStart ≤ block) :
    setSlot image inodeId content block = image block := by
  have hlt := layout.slotBlock_lt hid hle
  have hstart := layout.bitmapStart
  rw [setSlot, update_of_ne (by omega)]

theorem view_setSlot (layout : Layout geometry device) (h : Owns geometry held image)
    (hid : inodeId ≠ 0) (hle : inodeId ≤ geometry.inodeCount) (content : Buffer) :
    view geometry (setSlot image inodeId content) =
      update (view geometry image) inodeId
        (nodeOf (setSlot image inodeId content) content inodeId) := by
  have hdata := layout.dataStart
  funext other
  by_cases hother : other = inodeId
  · subst hother
    rw [update_self, view_of_mem hid hle]
    exact nodeOf_congr (slotBytes_setSlot_self _ _ _) fun _ _ => rfl
  rw [update_of_ne hother]
  by_cases hmem : other ≠ 0 ∧ other ≤ geometry.inodeCount
  · rw [view_of_mem hmem.1 hmem.2, view_of_mem hmem.1 hmem.2]
    refine nodeOf_congr (slotBytes_setSlot_of_ne _ _ hid hmem.1 hother) fun inode hdec => ?_
    rw [decodeInode_congr (slotBytes_setSlot_of_ne _ _ hid hmem.1 hother)] at hdec
    have hvalid := h.valid other
    rw [view_of_mem hmem.1 hmem.2, nodeOf_of_decodeInode hdec] at hvalid
    refine Inode.ExtentValid.contents_eq hvalid fun block hblk => ?_
    have := Inode.ExtentValid.mem_data hvalid hblk
    exact setSlot_of_ne layout hid hle _ (by omega)
  · rw [view_of_not_mem (by omega), view_of_not_mem (by omega)]

theorem nodeOf_encodeInode (h : inode.Decoded inodeId) (image : Image) :
    nodeOf image (encodeInode inode) inodeId = .used inode (contents image inode) :=
  nodeOf_of_decodeInode (decodeInode_encodeInode h)

theorem marked_setSlot (layout : Layout geometry device) (hid : inodeId ≠ 0)
    (hle : inodeId ≤ geometry.inodeCount) (content : Buffer) (block : ℕ) :
    Marked geometry (setSlot image inodeId content) block ↔ Marked geometry image block := by
  rw [Marked, Marked, setSlot_of_ne layout hid hle content (by omega)]

/-- Publishing an inode on blocks that were its own or held. What it gives up is
held from then on. -/
theorem Owns.setNode (h : Owns geometry held image)
    (hview : view geometry image' = update (view geometry image) inodeId node)
    (hmark : ∀ block, Marked geometry image block → Marked geometry image' block)
    (hvalid : node.ExtentValid geometry)
    (hblks : node.blocks ⊆ (view geometry image inodeId).blocks ∪ held) :
    Owns geometry ((held ∪ (view geometry image inodeId).blocks) \ node.blocks) image' := by
  have hother : ∀ other, other ≠ inodeId →
    Disjoint node.blocks (view geometry image other).blocks := by
    intro other hne
    refine (Disjoint.mono_left hblks ?_)
    rw [Set.disjoint_union_left]
    exact ⟨h.disjoint inodeId other hne.symm, (h.held_disjoint other).symm⟩
  have hcases : ∀ other, view geometry image' other =
      if other = inodeId then node else view geometry image other := by
    intro other
    rw [hview, update_apply]
  constructor
  · intro other
    rw [hcases]
    split
    · exact hvalid
    · exact h.valid other
  · intro other block hblk
    rw [hcases] at hblk
    split at hblk
    · rcases hblks hblk with hold | hheld
      · exact hmark block (h.marked inodeId block hold)
      · exact hmark block (h.held_marked block hheld)
    · exact hmark block (h.marked other block hblk)
  · intro first second hne
    rw [hcases, hcases]
    split
    next hfirst =>
      rw [if_neg (by rw [← hfirst]; exact hne.symm)]
      exact hother second (by rw [← hfirst]; exact hne.symm)
    rename_i hfirst
    split
    · exact (hother first hfirst).symm
    · exact h.disjoint first second hne
  · rintro block ⟨hheld | hold, -⟩
    · exact h.held_data block hheld
    · exact (h.valid inodeId).mem_data hold
  · rintro block ⟨hheld | hold, -⟩
    · exact hmark block (h.held_marked block hheld)
    · exact hmark block (h.marked inodeId block hold)
  · intro other
    rw [hcases]
    split
    · exact Set.disjoint_sdiff_right
    rename_i hne
    refine Disjoint.mono_right Set.sdiff_subset ?_
    rw [Set.disjoint_union_right]
    exact ⟨h.held_disjoint other, h.disjoint other inodeId hne⟩

end Kurogane.KuroFS
