/-
# Writing and resizing files

Both operations have one moment at which the new bytes replace the old ones. In
front of it the volume is as it was; behind it, it differs in one node only.
-/

import Kurogane.KuroFS.Drafts

namespace Kurogane.KuroFS

open Storage Storage.Buffer Storage.Prog Set

variable {fs : FileSystem} {base image image' : Image} {mode : Mode} {held fresh : Set ℕ}
  {current : Inode} {bytes : List UInt8}

/-! ## What the operations do -/

section

variable (mode : Mode) (geometry : Geometry) (held : Set ℕ) (image : Image) (inode : Inode)

/-- Started at `start`, a program brings one file of `image` to other contents. If
it is cut or fails, it may also have left the volume as it was. On a reliable
device a failure always does, and only if it is `refused`. -/
def Replaces
    (contents : List UInt8) (refused : Prop) (program : KProg (Status × Inode) Inode)
    (start : Image) : Prop :=
  program.wp mode
    (fun updated image' => FileUpdate geometry held image inode contents updated image')
    (fun _ image' => (Quiet geometry held ∅ image image' ∧ (mode = .faulty ∨ refused)) ∨
      (mode = .faulty ∧ ∃ updated, FileUpdate geometry held image inode contents updated image'))
    (fun image' => Quiet geometry held ∅ image image' ∨
      ∃ updated, FileUpdate geometry held image inode contents updated image') start

structure OpenFile
    (bytes : List UInt8) : Prop where
  view : view geometry image inode.id = .used inode bytes
  regular : inode.type = .regular

/-- Started at `start`, a call on the file `inode` of `image` may lead to the volume
as it was, or the file with the contents `result bytes`. A success without effect
is `idle`. -/
def Updates
    (result : List UInt8 → List UInt8) (idle refused : Prop)
    (program : KProg (Status × Inode) Inode) (start : Image) : Prop :=
  program.wp mode
    (fun updated image' => ∃ bytes, OpenFile geometry image inode bytes ∧
      ((idle ∧ updated = inode ∧ image' = image) ∨
        FileUpdate geometry held image inode (result bytes) updated image'))
    (fun _ image' => (Quiet geometry held ∅ image image' ∧ (mode = .faulty ∨ refused)) ∨
      (mode = .faulty ∧ ∃ bytes updated, OpenFile geometry image inode bytes ∧
        FileUpdate geometry held image inode (result bytes) updated image'))
    (fun image' => Quiet geometry held ∅ image image' ∨
      ∃ bytes updated, OpenFile geometry image inode bytes ∧
        FileUpdate geometry held image inode (result bytes) updated image') start

end

variable {inode : Inode} {geometry : Geometry} {start : Image} {caller : Inode}
  {program : KProg (Status × Inode) Inode} {refused refused' : Prop} {first count : ℕ}

theorem Replaces.updates {idle : Prop} {result : List UInt8 → List UInt8}
    (h : Replaces mode geometry held image inode (result bytes) refused program start)
    (hopen : OpenFile geometry image inode bytes) (hrefused : refused → refused') :
    Updates mode geometry held image inode result idle refused' program start := by
  refine Prog.wp.mono h ?_ ?_ ?_
  · exact fun updated image' hupd => ⟨bytes, hopen, .inr hupd⟩
  · exact fun _ image' => Or.imp (And.imp_right (Or.imp_right hrefused))
      fun ⟨hfault, updated, hupd⟩ => ⟨hfault, bytes, updated, hopen, hupd⟩
  · exact fun image' => Or.imp_right fun ⟨updated, hupd⟩ => ⟨bytes, updated, hopen, hupd⟩

theorem Replaces.imp_refused {contents : List UInt8}
    (h : Replaces mode geometry held image inode contents refused program start)
    (hrefused : refused → refused') :
    Replaces mode geometry held image inode contents refused' program start :=
  Prog.wp.mono h (fun _ _ hupd => hupd)
    (fun _ _ => Or.imp_left (And.imp_right (Or.imp_right hrefused))) (fun _ hcrash => hcrash)

variable {result : List UInt8}

/-! ## Publication -/

theorem Staged.replaces_bind {inode : Inode} {next : Inode → KProg (Status × Inode) Inode}
    (h : Staged fs.geometry held fresh base image current inode result) (ready : fs.Ready)
    (hview : view fs.geometry base current.id = .used current bytes) (hnext : ∀ published,
      Staged.Published fs.geometry held fresh base current inode result published →
      Replaces mode fs.geometry held base current result (current.Frozen fs.geometry)
        (next inode.published) published) :
    Replaces mode fs.geometry held base current result (current.Frozen fs.geometry) (do
      let candidate ← Prog.mapError (·, caller) <| updateInode fs inode
      next candidate) image := by
  rw [Replaces, wp_bind, wp_mapError]
  refine (h.publish_wp ready hview).mono ?_ ?_ ?_
  · rintro _ image' ⟨rfl, hpub⟩
    exact hnext image' hpub
  · exact fun _ image' => Or.imp_right fun ⟨hfault, hpub⟩ =>
      ⟨hfault, _, h.fileUpdate hpub⟩
  · exact fun image' hpub => .inr ⟨_, h.fileUpdate hpub⟩

theorem Staged.replaces {inode : Inode}
    (h : Staged fs.geometry held fresh base image current inode result) (ready : fs.Ready)
    (hview : view fs.geometry base current.id = .used current bytes) :
    Replaces mode fs.geometry held base current result (current.Frozen fs.geometry)
      (Prog.mapError (·, caller) <| updateInode fs inode) image := by
  rw [Replaces, wp_mapError]
  refine (h.publish_wp ready hview).mono ?_ ?_ ?_
  · rintro _ image' ⟨rfl, hpub⟩
    exact h.fileUpdate hpub
  · exact fun _ image' => Or.imp_right fun ⟨hfault, hpub⟩ =>
      ⟨hfault, _, h.fileUpdate hpub⟩
  · exact fun image' hpub => .inr ⟨_, h.fileUpdate hpub⟩

theorem Staged.release_replaces
    (h : Staged fs.geometry held fresh base image' current inode result) (ready : fs.Ready)
    (hview : view fs.geometry base current.id = .used current bytes)
    (hpub : Staged.Published fs.geometry held fresh base current inode result image)
    (hrel : extent first count ⊆ (fresh ∪ current.blocks) \ inode.blocks) (hpos : 0 < count)
    (hcap : count * 512 < 2 ^ 64) :
    Replaces mode fs.geometry held base current result refused (do
      Prog.mapError (·, inode.published) <| releaseExtent fs first count
      pure inode.published) image := by
  rw [Replaces, wp_bind, wp_mapError]
  refine (releaseExtent_quiet ready.layout hpub.owns (h.disjoint_released hview) hrel hpos
    hcap).mono ?_ ?_ ?_
  · exact fun _ image' hquiet => ⟨h.revises, (hpub.trans_quiet hquiet).drop⟩
  · exact fun _ image' hquiet => .inr ⟨hquiet.1, _, h.revises, (hpub.trans_quiet hquiet.2).drop⟩
  · exact fun image' hquiet => .inr ⟨_, h.revises, (hpub.trans_quiet hquiet).drop⟩

theorem replaceExtent_wp (ready : fs.Ready) {content : List UInt8} {size : ℕ}
    (hview : view fs.geometry base current.id = .used current bytes)
    (h : Draft fs.geometry held base image first count (ofList content))
    (hsize : size ≤ count * 512) :
    Replaces mode fs.geometry held base current (resize content size)
      (current.Frozen fs.geometry) (replaceExtent fs inode current size first count) image := by
  have hstaged := h.staged current hsize
  refine hstaged.replaces_bind ready hview fun published hpub => ?_
  split
  · exact hstaged.fileUpdate hpub
  rename_i hblks
  refine hstaged.release_replaces ready hview hpub ?_ (pos_of_ne_zero hblks)
    (h.quiet.owns.extentValid (h.view_eq hview)).capacity_lt
  have hheld := h.quiet.owns.held_disjoint current.id
  rw [h.view_eq hview, disjoint_union_right] at hheld
  exact fun block hblk => ⟨.inr hblk, disjoint_left.mp hheld.2 hblk⟩

/-! ## Writing -/

/-- The bytes of a file after a write. An empty write does not extend it. -/
def written (bytes : List UInt8) (offset : ℕ) (source : List UInt8) : List UInt8 :=
  if source = [] then bytes else overwrite bytes offset source

/-- Why a reliable device does not carry out a write. -/
def WriteRefused (fs : FileSystem) (image : Image) (inode : Inode) (offset size : ℕ) : Prop :=
  (∀ bytes, ¬ OpenFile fs.geometry image inode bytes) ∨ 2 ^ 64 ≤ offset + size ∨
    inode.Frozen fs.geometry ∨
    ¬ Allocatable fs.geometry image (divideRoundUp (max (offset + size) inode.size) 512)

/-- What a write to a file can lead to: the file as it was, or the file with the
range overwritten. -/
theorem writeInodeData_wp (ready : fs.Ready) (h : Owns fs.geometry held image) (inode : Inode)
    (offset : ℕ) (source : List UInt8) :
    Updates mode fs.geometry held image inode (written · offset source) (source = [])
      (WriteRefused fs image inode offset source.length)
      (writeInodeData fs inode offset source) image := by
  have layout := ready.layout
  have hsame : Quiet fs.geometry held ∅ image image := Quiet.refl (by rwa [union_empty])
  rw [Updates, writeInodeData, ready.if_mounted, wp_bind, wp_mapError, wp_read]
  refine ⟨fun current hcur => ?_, fun status hstat => ?_⟩
  swap
  · refine .inl ⟨hsame, .inr <| .inl fun bytes hopen => ?_⟩
    rw [(requireCurrentSnapshot_eq_ok_iff ready).mpr ⟨rfl, bytes, hopen.view⟩] at hstat
    cases hstat
  obtain ⟨rfl, bytes, hview⟩ := (requireCurrentSnapshot_eq_ok_iff ready).mp hcur
  split
  next hdir => exact .inl ⟨hsame, .inr <| .inl fun bytes hopen => hdir hopen.regular⟩
  rename_i hreg
  push Not at hreg
  rw [wp_bind, wp_mapError]
  apply wp_read_of_ok (h.validateInodeExtent_eq layout hview)
  split
  next hempty => exact ⟨bytes, ⟨hview, hreg⟩, .inl ⟨List.eq_nil_of_length_eq_zero hempty, rfl, rfl⟩⟩
  rename_i hnonempty
  split
  next hoverflow => exact .inl ⟨hsame, .inr <| .inr <| .inl (le_of_addU64_eq_none hoverflow)⟩
  rename_i last hlast
  obtain rfl := eq_add_of_addU64 hlast
  dsimp only
  split
  · refine .inl ⟨hsame, .inr <| .inr <| .inr <| .inr fun hroom => ?_⟩
    obtain ⟨_, -, first, hrun⟩ := hroom
    have hlow := hrun.dataStart_le
    have hhigh := hrun.le_totalBlocks
    omega
  have hlen := length_of_view hview
  have hsize : max (offset + source.length) inode.size ≤
      divideRoundUp (max (offset + source.length) inode.size) 512 * 512 := by
    rw [divideRoundUp_eq _ _ (by decide)]
    omega
  have hres : resize (overwrite bytes offset source) (max (offset + source.length) inode.size) =
      written bytes offset source := by
    rw [← hlen, ← length_overwrite, resize_length, written,
      if_neg fun hempty => hnonempty (by rw [hempty, List.length_nil])]
  rw [wp_bind, wp_mapError]
  refine (allocateBlocks_draft ready h _).mono ?_ (fun _ _ hrefused => .inl ⟨hrefused.1,
    hrefused.2.imp_right fun hroom => .inr (.inr (.inr hroom))⟩) (fun _ hquiet => .inl hquiet)
  intro first staged hdraft
  rw [wp_bind, wp_mapError]
  generalize divideRoundUp (max (offset + source.length) inode.size) 512 = count at hsize hdraft ⊢
  -- the copy and the new range go to blocks nobody sees
  have hfills : Drafts mode fs.geometry held image first count
      (ofList (overwrite bytes offset source)) (do
        copyContents fs inode first count
        writeExtentData fs first count offset source) staged := by
    refine (hdraft.copyContents_drafts ready hview (by omega)).bind fun copied hcopied => ?_
    rw [ofList_overwrite]
    exact hcopied.write ready (by omega)
  refine (orAbandon_quiet layout hfills hdraft.disjoint subset_rfl hdraft.pos
    hdraft.capacity_lt).mono ?_ (fun _ _ h => .inl ⟨h.2, .inl h.1⟩) (fun _ hquiet => .inl hquiet)
  intro _ filled hfilled
  refine Replaces.updates ?_ ⟨hview, hreg⟩ fun hfrozen => .inr (.inr (.inl hfrozen))
  rw [← hres]
  exact replaceExtent_wp ready hview hfilled hsize

/-! ## Resizing -/

/-- The bytes a file shows after a resize. A file that grows although its extent
is longer than the new size needs shows what the extent holds. -/
def resizedContents (image : Image) (inode : Inode) (newSize : ℕ) : List UInt8 :=
  if inode.size < newSize ∧ divideRoundUp newSize 512 < inode.extentBlocks then
    contents image { inode with size := newSize }
  else resize (contents image inode) newSize

theorem length_resizedContents (image : Image) (inode : Inode) (newSize : ℕ) :
    (resizedContents image inode newSize).length = newSize := by
  rw [resizedContents]
  split
  · rw [length_contents]
  · rw [length_resize]

variable {newSize : ℕ}

theorem resizeRelocate_wp (ready : fs.Ready) (h : Owns fs.geometry held image) (inode : Inode)
    (hview : view fs.geometry image current.id = .used current bytes)
    (hgrows : current.size ≤ newSize) :
    Replaces mode fs.geometry held image current (resize bytes newSize)
      (current.Frozen fs.geometry ∨ ¬ Allocatable fs.geometry image (divideRoundUp newSize 512))
      (resizeRelocate fs inode current newSize (divideRoundUp newSize 512)) image := by
  have hsize : newSize ≤ divideRoundUp newSize 512 * 512 := by
    rw [divideRoundUp_eq _ _ (by decide)]
    omega
  rw [Replaces, resizeRelocate, wp_bind, wp_mapError]
  refine (allocateBlocks_draft ready h _).mono ?_ (fun _ _ hrefused => .inl ⟨hrefused.1,
    hrefused.2.imp_right .inr⟩) (fun _ hquiet => .inl hquiet)
  intro first staged hdraft
  rw [wp_bind, wp_mapError]
  refine (hdraft.copyContents_drafts ready hview (by omega)).mono ?_
    (fun _ _ h => .inl ⟨h.2.drop, .inl h.1⟩) (fun _ hquiet => .inl hquiet.drop)
  intro _ copied hcopied
  exact (replaceExtent_wp ready hview hcopied hsize).imp_refused .inl

theorem staged_resize (hquiet : Quiet fs.geometry held fresh base image)
    (hdisj : Disjoint held fresh) {newSize : ℕ}
    (hext : ValidExtent fs.geometry newSize current.extentStart count)
    (hblks : extent current.extentStart count ⊆ current.blocks ∪ fresh)
    (hbytes : ∀ i < newSize, extentByte image current.extentStart i = ofList bytes i) :
    Staged fs.geometry held fresh base image current
      { current with size := newSize, extentBlocks := count } (resize bytes newSize) where
  quiet := hquiet
  disjoint := hdisj
  revises := ⟨rfl, rfl, rfl, rfl, rfl, rfl⟩
  extentValid := hext
  blocks := hblks
  contents := contents_eq_resize { current with size := newSize, extentBlocks := count } hbytes

/-- The blocks from the old end of a file on are zeroed before the new size is published, so that
a cut in between shows nothing. The extent may go on over blocks that are still fresh. -/
theorem zeroTail_replaces (ready : fs.Ready) (hquiet : Quiet fs.geometry held fresh image start)
    (hdisj : Disjoint held fresh)
    (hview : view fs.geometry image current.id = .used current bytes)
    (halloc : Allocated fs.geometry start current.extentStart count)
    (hcover : extent current.extentStart count ⊆ current.blocks ∪ fresh)
    (hgrows : current.size ≤ newSize) (hfits : newSize ≤ count * 512) :
    Replaces mode fs.geometry held image current (resize bytes newSize)
      (current.Frozen fs.geometry) (do
        Prog.mapError (·, inode) <| zeroExtentRange fs current.extentStart count current.size
          (newSize - current.size)
        Prog.mapError (·, inode) <| updateInode fs { current with
          size := newSize, extentBlocks := count }) start := by
  have hnode : view fs.geometry start current.id = .used current bytes := by
    rw [hquiet.view, hview]
  have htail : ∀ {done cleared}, done ≤ newSize - current.size →
      Patched start cleared current.extentStart current.size done Buffer.zero →
      Quiet fs.geometry held fresh image cleared := by
    intro done cleared hdone hpatch
    refine hquiet.trans_quiet (hpatch.quiet_of_tail ready.layout hquiet.owns hdisj hnode le_rfl
      fun block hlow hhigh => hcover ?_)
    rw [mem_extent]
    omega
  rw [Replaces, wp_bind, wp_mapError]
  refine (zeroExtentRange_wp ready.layout halloc (by omega)).kept htail
    (fun _ cleared hpatch => ?_) (fun _ _ h => .inl ⟨h.2.drop, .inl h.1⟩)
    fun _ hquiet => .inl hquiet.drop
  refine (staged_resize (htail le_rfl hpatch) hdisj (halloc.validExtent hfits) hcover
    fun i hi => ?_).replaces ready hview
  rw [hpatch.bytes]
  split
  · rw [ofList_of_le (by rw [length_of_view hview]; omega)]
    rfl
  · exact extentByte_eq_ofList hnode (by omega)

theorem resizeWithin_wp (ready : fs.Ready) (h : Owns fs.geometry held image) (inode : Inode)
    (hview : view fs.geometry image current.id = .used current bytes)
    (hfits : newSize ≤ current.extentBlocks * 512) :
    Replaces mode fs.geometry held image current (resize bytes newSize)
      (current.Frozen fs.geometry) (resizeWithin fs inode current newSize) image := by
  have hsame : Quiet fs.geometry held ∅ image image := Quiet.refl (by rwa [union_empty])
  rw [resizeWithin]
  split
  · exact zeroTail_replaces ready hsame (disjoint_empty _) hview
      (h.allocated_of_view hview (by omega)) subset_union_left (by omega) hfits
  · exact (staged_resize hsame (disjoint_empty _) ((h.extentValid hview).resize hfits)
      subset_union_left fun i hi => extentByte_eq_ofList hview (by omega)).replaces ready hview

def shortened (current : Inode) (newSize required : ℕ) : Inode := { current with
  size := newSize
  extentStart := if required = 0 then 0 else current.extentStart
  extentBlocks := required }

theorem blocks_shortened (current : Inode) (newSize required : ℕ) :
    (shortened current newSize required).blocks = extent current.extentStart required := by
  rw [Inode.blocks, shortened]
  split
  next hzero => rw [hzero, extent_zero, extent_zero]
  · rfl

theorem staged_shortened (h : Owns fs.geometry held image)
    (hview : view fs.geometry image current.id = .used current bytes)
    (hshorter : divideRoundUp newSize 512 < current.extentBlocks) :
    Staged fs.geometry held ∅ image image current
      (shortened current newSize (divideRoundUp newSize 512))
      (resizedContents image current newSize) := by
  have halloc := h.allocated_of_view hview (by omega)
  have hlow := halloc.dataStart_le
  have hhigh := halloc.le_totalBlocks
  have hcap := halloc.capacity_lt
  have hrounded := divideRoundUp_eq newSize 512 (by decide)
  set required := divideRoundUp newSize 512
  refine ⟨Quiet.refl (by rwa [union_empty]), disjoint_empty _, ⟨rfl, rfl, rfl, rfl, rfl, rfl⟩,
    ?_, ?_, ?_⟩
  · rw [Inode.ExtentValid, shortened]
    dsimp only
    by_cases hzero : required = 0
    · exact .inl ⟨hzero, if_pos hzero, by omega⟩
    · rw [if_neg hzero]
      exact .inr ⟨pos_of_ne_zero hzero, hlow, by omega,
        lt_of_le_of_lt (Nat.mul_le_mul_right 512 hshorter.le) hcap, by omega⟩
  · rw [blocks_shortened, Inode.blocks]
    intro block hblk
    rw [union_empty, mem_extent]
    rw [mem_extent] at hblk
    omega
  have hstart : contents image (shortened current newSize required) =
      contents image { current with size := newSize } := by
    by_cases hzero : required = 0
    · have hnothing : newSize = 0 := by omega
      simp [contents, shortened, hnothing]
    · simp [contents, shortened, hzero]
  rw [hstart, resizedContents]
  split
  · rfl
  rw [← (used_of_view hview).2.2.2.2]
  refine contents_eq_resize { current with size := newSize } fun i hi => ?_
  have hi : i < newSize := hi
  have hbyte := extentByte_eq_ofList hview (show i < current.size by omega)
  exact hbyte

section

variable (ready : fs.Ready) (h : Owns fs.geometry held image)
  (hview : view fs.geometry image current.id = .used current bytes)
include ready h hview

theorem resizeShrink_wp (inode : Inode)
    (hshorter : divideRoundUp newSize 512 < current.extentBlocks) :
    Replaces mode fs.geometry held image current (resizedContents image current newSize)
      (current.Frozen fs.geometry)
      (resizeShrink fs inode current newSize (divideRoundUp newSize 512)) image := by
  have htotal := ready.layout.totalBlocks_lt
  have halloc := h.allocated_of_view hview (by omega)
  have hend := halloc.le_totalBlocks
  have hstaged := staged_shortened h hview hshorter
  refine hstaged.replaces_bind ready hview fun published hpub => ?_
  rw [addU64_eq_some (by omega)]
  refine hstaged.release_replaces ready hview hpub ?_ (by omega)
    (lt_of_le_of_lt (Nat.mul_le_mul_right 512 (Nat.sub_le _ _)) halloc.capacity_lt)
  intro block hblk
  rw [blocks_shortened, Inode.blocks, mem_sdiff, empty_union, mem_extent, mem_extent]
  rw [mem_extent] at hblk
  omega

theorem resizeInPlace_wp (inode : Inode)
    (hlonger : current.extentBlocks < divideRoundUp newSize 512)
    (hrun : FreeRun fs.geometry image (current.extentStart + current.extentBlocks)
      (divideRoundUp newSize 512 - current.extentBlocks)) :
    Replaces mode fs.geometry held image current (resize bytes newSize)
      (current.Frozen fs.geometry ∨ ¬ Allocatable fs.geometry image (divideRoundUp newSize 512))
      (resizeInPlace fs inode current newSize (divideRoundUp newSize 512)
        (current.extentStart + current.extentBlocks)) image := by
  have layout := ready.layout
  have hrounded := divideRoundUp_eq newSize 512 (by decide)
  have hvalid := h.extentValid hview
  have hsize : current.size ≤ current.extentBlocks * 512 := by rcases hvalid with h | h <;> omega
  have hlow := hrun.dataStart_le
  have hhigh := hrun.le_totalBlocks
  set required := divideRoundUp newSize 512 with hrequired
  set suffix := extent (current.extentStart + current.extentBlocks)
    (required - current.extentBlocks) with hsuffix
  have hcover : extent current.extentStart required ⊆ current.blocks ∪ suffix := by
    intro block hblk
    rw [hsuffix, Inode.blocks, mem_union, mem_extent, mem_extent]
    rw [mem_extent] at hblk
    omega
  have hdisj : Disjoint held suffix :=
    disjoint_left.mpr fun block hheld => h.not_mem_freeRun hrun (.inl hheld)
  have hlarge : 2 ^ 64 ≤ required * 512 → ¬ Allocatable fs.geometry image required :=
    fun hlarge hroom => absurd hroom.capacity_lt (by omega)
  rw [Replaces, resizeInPlace, wp_bind, wp_mapError]
  refine (publishExtentAllocation_quiet layout h hrun).mono ?_
    (fun _ _ h => .inl ⟨h.2, .inl h.1⟩) (fun _ h => .inl h)
  intro _ published hpub
  rw [wp_bind, wp_mapError]
  refine (zeroExtent_quiet layout hpub.owns hdisj subset_rfl (by omega)).mono ?_
    (fun _ _ h => .inl ⟨(hpub.trans_quiet h.2).drop, h.1.imp_right fun hcap => .inr <| hlarge <|
        hcap.trans (Nat.mul_le_mul_right 512 (Nat.sub_le _ _))⟩)
    (fun _ h => .inl (hpub.trans_quiet h).drop)
  intro _ zeroed hzeroed
  have hquiet := hpub.trans_quiet hzeroed
  have hnode : view fs.geometry zeroed current.id = .used current bytes := by
    rw [hquiet.view, hview]
  have halloc : required * 512 < 2 ^ 64 →
      Allocated fs.geometry zeroed current.extentStart required := by
    intro hcap
    refine ⟨by omega, ?_, by omega, hcap, fun block hblk => ?_⟩
    · rcases hvalid with hempty | hext <;> omega
    · rcases hcover hblk with hcur | hfresh
      · exact hquiet.owns.marked_of_mem hnode hcur
      · exact hquiet.owns.held_marked block (.inr hfresh)
  by_cases hcap : required * 512 < 2 ^ 64
  · exact (zeroTail_replaces ready hquiet hdisj hview (halloc hcap) hcover (by omega)
      (by omega)).imp_refused .inl
  · -- the capacity in bytes does not fit
    rw [wp_bind, wp_mapError, zeroExtentRange, wp_bind, wp_read]
    refine ⟨fun capacity hvalid' => ?_, fun _ _ =>
      .inl ⟨hquiet.drop, .inr (.inr (hlarge (by omega)))⟩⟩
    obtain ⟨-, _ | halloc'⟩ := (validateAllocatedExtent_eq_ok_iff layout).mp hvalid'
    · omega
    · exact absurd halloc'.capacity_lt hcap

theorem resizeGrow_wp (inode : Inode) (hlonger : current.extentBlocks < divideRoundUp newSize 512) :
    Replaces mode fs.geometry held image current (resize bytes newSize)
      (current.Frozen fs.geometry ∨ ¬ Allocatable fs.geometry image (divideRoundUp newSize 512))
      (resizeGrow fs inode current newSize (divideRoundUp newSize 512)) image := by
  have layout := ready.layout
  have htotal := layout.totalBlocks_lt
  have hvalid := h.extentValid hview
  have hgrows : current.size ≤ newSize := by
    have hrounded := divideRoundUp_eq newSize 512 (by decide)
    rcases hvalid with h | h <;> omega
  rw [resizeGrow]
  split
  · exact resizeRelocate_wp ready h inode hview hgrows
  rename_i hblks
  have hend := (h.allocated_of_view hview hblks).le_totalBlocks
  have hsum : addU64 current.extentStart current.extentBlocks =
      some (current.extentStart + current.extentBlocks) := addU64_eq_some (by omega)
  rw [hsum]
  rw [Replaces, wp_bind, wp_attempt, wp_read]
  refine ⟨fun _ hfree => ?_, fun status hstat => ?_⟩
  · exact resizeInPlace_wp ready h hview inode hlonger
      ((extentIsFree_eq_ok_iff layout (by omega)).mp hfree)
  · obtain rfl := extentIsFree_error layout (by omega) hstat
    exact resizeRelocate_wp ready h inode hview hgrows

end

/-- Why a reliable device does not carry out a resize. -/
def ResizeRefused (fs : FileSystem) (image : Image) (inode : Inode) (newSize : ℕ) : Prop :=
  (∀ bytes, ¬ OpenFile fs.geometry image inode bytes) ∨ inode.Frozen fs.geometry ∨
    (inode.extentBlocks < divideRoundUp newSize 512 ∧
      ¬ Allocatable fs.geometry image (divideRoundUp newSize 512))

/-- What a resize can lead to: the file as it was, or the file at its new size. -/
theorem resizeInode_wp (ready : fs.Ready) (h : Owns fs.geometry held image) (inode : Inode)
    (newSize : ℕ) :
    Updates mode fs.geometry held image inode (fun _ => resizedContents image inode newSize)
      (newSize = inode.size) (ResizeRefused fs image inode newSize)
      (resizeInode fs inode newSize) image := by
  have layout := ready.layout
  have hsame : Quiet fs.geometry held ∅ image image := Quiet.refl (by rwa [union_empty])
  rw [Updates, resizeInode, ready.if_mounted, wp_bind, wp_mapError, wp_read]
  refine ⟨fun current hcur => ?_, fun status hstat => ?_⟩
  swap
  · refine .inl ⟨hsame, .inr <| .inl fun bytes hopen => ?_⟩
    rw [(requireCurrentSnapshot_eq_ok_iff ready).mpr ⟨rfl, bytes, hopen.view⟩] at hstat
    cases hstat
  obtain ⟨rfl, bytes, hview⟩ := (requireCurrentSnapshot_eq_ok_iff ready).mp hcur
  split
  next hdir => exact .inl ⟨hsame, .inr <| .inl fun bytes hopen => hdir hopen.regular⟩
  rename_i hreg
  push Not at hreg
  have hopen : OpenFile fs.geometry image inode bytes := ⟨hview, hreg⟩
  rw [wp_bind, wp_mapError]
  apply wp_read_of_ok (h.validateInodeExtent_eq layout hview)
  split
  next hsize => exact ⟨bytes, hopen, .inl ⟨hsize, rfl, rfl⟩⟩
  dsimp only
  split
  · refine .inl ⟨hsame, .inr <| .inr <| .inr ⟨?_, fun hroom => ?_⟩⟩
    · rcases h.extentValid hview with _ | _ <;> omega
    obtain ⟨_, -, _, hrun⟩ := hroom
    have hlow := hrun.dataStart_le
    have hhigh := hrun.le_totalBlocks
    omega
  have hexact : inode.extentBlocks ≤ divideRoundUp newSize 512 →
      resizedContents image inode newSize = resize bytes newSize := by
    intro hle
    rw [resizedContents, if_neg (by omega), ← (used_of_view hview).2.2.2.2]
  have hrounded := divideRoundUp_eq newSize 512 (by decide)
  split
  · refine Replaces.updates ?_ hopen fun hfrozen => .inr (.inl hfrozen)
    rw [hexact (by omega)]
    exact resizeWithin_wp ready h inode hview (by omega)
  split
  next hshorter =>
    refine Replaces.updates ?_ hopen fun hfrozen => .inr (.inl hfrozen)
    exact resizeShrink_wp ready h hview inode hshorter
  have hlonger : inode.extentBlocks < divideRoundUp newSize 512 := by omega
  have hgrow : Replaces mode fs.geometry held image inode (resizedContents image inode newSize)
      (inode.Frozen fs.geometry ∨ ¬ Allocatable fs.geometry image (divideRoundUp newSize 512))
      (resizeGrow fs inode inode newSize (divideRoundUp newSize 512)) image := by
    rw [hexact hlonger.le]
    exact resizeGrow_wp ready h hview inode hlonger
  exact Replaces.updates hgrow hopen fun hrefused =>
    .inr (hrefused.imp_right fun hroom => ⟨hlonger, hroom⟩)

end Kurogane.KuroFS
