/-
# The allocation bitmap

Programs that change the bitmap write it a sector at a time, so a cut or a
refused write leaves a prefix of the range done. `Remarked` says which bits an
image has relative to another one, and that nothing outside the bitmap differs.
-/

import Kurogane.KuroFS.Volume
import Kurogane.KuroFS.Writer
import Kurogane.Storage.CrashLogic

namespace Kurogane.KuroFS

open Storage Storage.Buffer Function Storage.Prog

variable {geometry : Geometry} {device : Device} {fs : FileSystem} {image image' : Image}
  {mode : Mode}

/-! ## Single transfers -/

variable {base : Image} {block count current endBlock first fuel : ℕ} {bits bits' : ℕ → Prop}

section Transfers

variable {onValue : Unit → Image → Prop} {onError : Status → Image → Prop}
  {onCrash : Image → Prop}

section

variable (layout : Layout geometry device)
include layout

theorem wp_writeOne (h : block < geometry.totalBlocks) (sector : Buffer) :
    (writeOne device block sector).wp mode onValue onError onCrash image ↔
      onCrash (update image block sector) ∧
        onValue () (update image block sector) ∧
        (mode = .faulty → onError .blockDeviceError image) := by
  rw [writeOne, if_pos (layout.transferValid h)]
  rfl

theorem wp_flushDevice :
    (flushDevice device).wp mode onValue onError onCrash image ↔
      onValue () image ∧ (mode = .faulty → onError .blockDeviceError image) := by
  rw [flushDevice, if_pos layout.device_valid]
  rfl

theorem stages_flush {program : KProg Status Unit} {stage : ℕ → Image → Prop} {last : ℕ}
    (h : program.Stages mode stage last image) :
    (program >>= fun _ => flushDevice device).Stages mode stage last image := by
  rw [Prog.Stages, wp_bind]
  refine h.mono ?_ (fun _ _ h => h) (fun _ h => h)
  intro _ image' hlast
  rw [wp_flushDevice layout]
  exact ⟨hlast, fun hfault => ⟨hfault, last, le_rfl, hlast⟩⟩

end

end Transfers

/-! ## Bits of one sector -/

section

variable (bitmap : Buffer)
include bitmap

theorem blockMarked_eq (block : ℕ) : blockMarked bitmap block = bitmap.hasBit (block % 4096) := rfl

theorem blockMarked_setBit (block other : ℕ) :
    blockMarked (update bitmap (block % 4096 / 8)
        (bitmap (block % 4096 / 8) ||| bitmapMask block)) other ↔
      blockMarked bitmap other ∨ other % 4096 = block % 4096 := by
  have h := Bool.eq_iff_iff.mp (hasBit_setBit bitmap (block % 4096) (other % 4096))
  rwa [Bool.or_eq_true, decide_eq_true_iff] at h

theorem blockMarked_clearBit (block other : ℕ) :
    blockMarked (update bitmap (block % 4096 / 8)
        (bitmap (block % 4096 / 8) &&& ~~~(bitmapMask block))) other ↔
      blockMarked bitmap other ∧ other % 4096 ≠ block % 4096 := by
  have h := Bool.eq_iff_iff.mp (hasBit_clearBit bitmap (block % 4096) (other % 4096))
  rwa [Bool.and_eq_true, decide_eq_true_iff] at h

theorem markSegment_eq (hsec : block % 4096 + count ≤ 4096)
    (hfree : ∀ other, block ≤ other → other < block + count → blockMarked bitmap other = false) :
    ∃ marked, markSegment count block bitmap = .ok marked ∧
      ∀ other, other / 4096 = block / 4096 → (blockMarked marked other ↔
        blockMarked bitmap other ∨ (block ≤ other ∧ other < block + count)) := by
  induction count generalizing block bitmap with
  | zero =>
    exact ⟨bitmap, rfl, fun other _ => ⟨.inl, fun h => h.resolve_right (by omega)⟩⟩
  | succ count ih =>
    rw [markSegment, hfree block (le_rfl) (by omega)]
    rcases Nat.eq_zero_or_pos count with rfl | _
    · refine ⟨_, rfl, fun other hother => ?_⟩
      rw [blockMarked_setBit]
      refine or_congr Iff.rfl ?_
      omega
    obtain ⟨marked, hmark, hbits⟩ := @ih (block + 1) (update bitmap (block % 4096 / 8)
        (bitmap (block % 4096 / 8) ||| bitmapMask block)) (by omega) (by
        intro other hlow hhigh
        rw [← Bool.not_eq_true, blockMarked_setBit, hfree other (by omega) (by omega)]
        simp only [Bool.false_eq_true, false_or]
        omega)
    refine ⟨marked, hmark, fun other hother => ?_⟩
    rw [hbits other (by omega), blockMarked_setBit, or_assoc]
    refine or_congr Iff.rfl ?_
    omega

end

theorem clearSegment_eq {bitmap : Buffer} (hsec : block % 4096 + count ≤ 4096)
    {other : ℕ} (hother : other / 4096 = block / 4096) :
    blockMarked (clearSegment count block bitmap) other ↔
      blockMarked bitmap other ∧ ¬ (block ≤ other ∧ other < block + count) := by
  induction count generalizing block bitmap with
  | zero => exact ⟨fun h => ⟨h, by omega⟩, And.left⟩
  | succ count ih =>
    rw [clearSegment]
    rcases Nat.eq_zero_or_pos count with rfl | _
    · rw [clearSegment, blockMarked_clearBit]
      refine and_congr Iff.rfl ?_
      omega
    · rw [ih (by omega) (by omega), blockMarked_clearBit, and_assoc]
      refine and_congr Iff.rfl ?_
      omega

/-! ## Images that differ in the bitmap only -/

/-- `image'` has the bits `bits` and is `image` outside the bitmap. -/
structure Remarked (geometry : Geometry) (image image' : Image) (bits : ℕ → Prop) : Prop where
  outside : ∀ block, block < geometry.allocationBitmapStart ∨ geometry.dataStart ≤ block →
    image' block = image block
  marked : ∀ block, block / 4096 < geometry.allocationBitmapBlocks →
    (Marked geometry image' block ↔ bits block)

theorem Remarked.refl (geometry : Geometry) (image : Image) :
    Remarked geometry image image (Marked geometry image) :=
  ⟨fun _ _ => rfl, fun _ _ => Iff.rfl⟩

theorem Remarked.congr (h : Remarked geometry image image' bits)
    (hbits : ∀ block, block / 4096 < geometry.allocationBitmapBlocks → (bits block ↔ bits' block)) :
    Remarked geometry image image' bits' :=
  ⟨h.outside, fun block hblk => (h.marked block hblk).trans (hbits block hblk)⟩

theorem Remarked.write (h : Remarked geometry base image bits) (layout : Layout geometry device)
    {sector : ℕ} (hsec : sector < geometry.allocationBitmapBlocks) {bitmap : Buffer}
    (hsame : ∀ block, block / 4096 = sector →
      (Marked geometry image block ↔ bits block) → (blockMarked bitmap block ↔ bits' block))
    (hother : ∀ block, block / 4096 ≠ sector → (bits block ↔ bits' block)) :
    Remarked geometry base (update image (geometry.allocationBitmapStart + sector) bitmap)
      bits' := by
  have hdata := layout.dataStart
  constructor
  · intro block hblk
    rw [update_of_ne (by omega), h.outside block hblk]
  intro block hblk
  by_cases heq : block / 4096 = sector
  · rw [Marked, heq, update_self, hsame block heq (h.marked block hblk)]
  · rw [Marked, update_of_ne (by omega), ← hother block heq]
    exact h.marked block hblk

/-! ## The loops -/

theorem segmentEnd_bounds (hsmall : endBlock ≤ 2 ^ 64 - 4096) (h : current < endBlock) :
    current < segmentEnd current endBlock ∧ segmentEnd current endBlock ≤ endBlock ∧
      current % 4096 + (segmentEnd current endBlock - current) ≤ 4096 := by
  unfold segmentEnd
  omega

abbrev markedWith (geometry : Geometry) (image : Image) (low high : ℕ) : ℕ → Prop :=
  fun block => Marked geometry image block ∨ (low ≤ block ∧ block < high)

abbrev markedWithout (geometry : Geometry) (image : Image) (low high : ℕ) : ℕ → Prop :=
  fun block => Marked geometry image block ∧ ¬ (low ≤ block ∧ block < high)

section

variable (layout : Layout fs.geometry fs.device) (hend : endBlock ≤ fs.geometry.totalBlocks)
  (hfirst : first ≤ current) (hcur : current ≤ endBlock) (hfuel : endBlock - current ≤ fuel)
include layout hend hfirst hcur hfuel

/-- Publication continues an image whose blocks from `first` to `current` are
marked already. -/
theorem publishLoop_wp
    (hfree : ∀ block, first ≤ block → block < endBlock → ¬ Marked fs.geometry base block)
    (hbase : Remarked fs.geometry base image (markedWith fs.geometry base first current)) :
    (publishLoop fs endBlock fuel current).Stages mode (fun middle image' =>
      Remarked fs.geometry base image' (markedWith fs.geometry base first middle))
      endBlock image := by
  induction fuel generalizing current image with
  | zero => rwa [show current = endBlock by omega] at hbase
  | succ _ ih =>
    rw [publishLoop]
    split
    next hlt =>
      obtain ⟨_, _, hsec⟩ := segmentEnd_bounds (hend.trans layout.totalBlocks_le) hlt
      set segment := segmentEnd current endBlock
      have hbitmap := layout.bitmapBlock_lt (show current < fs.geometry.totalBlocks by omega)
      have hbounds := layout.bounds
      rw [if_neg (by omega), Prog.Stages, wp_bind]
      apply wp_read_of_ok (layout.readOne_eq image (by omega))
      obtain ⟨marked, hmark, hbits⟩ := markSegment_eq
        (image (fs.geometry.allocationBitmapStart + current / 4096)) hsec (by
          intro other hlow hhigh
          have hother := hfree other (by omega) (by omega)
          rw [← Bool.not_eq_true, show current / 4096 = other / 4096 by omega]
          change ¬ Marked fs.geometry image other
          rw [hbase.marked other (by omega)]
          exact fun h => h.elim hother (by omega))
      rw [hmark]
      have hwritten : Remarked fs.geometry base
          (update image (fs.geometry.allocationBitmapStart + current / 4096) marked)
          (markedWith fs.geometry base first segment) := by
        refine hbase.write layout hbitmap (fun block heq hmarked => ?_) fun block hne => ?_
        · rw [hbits block heq, ← heq, ← Marked, hmarked, or_assoc]
          exact or_congr Iff.rfl (by omega)
        · exact or_congr Iff.rfl (by omega)
      rw [wp_bind, wp_writeOne layout (by omega)]
      exact ⟨⟨segment, by omega, hwritten⟩, ih (by omega) (by omega) (by omega) hwritten,
        fun hfault => ⟨hfault, current, hcur, hbase⟩⟩
    · rwa [show current = endBlock by omega] at hbase

/-- Release continues an image whose blocks from `first` to `current` are clear
already. -/
theorem releaseLoop_wp
    (hbase : Remarked fs.geometry base image (markedWithout fs.geometry base first current)) :
    (releaseLoop fs endBlock fuel current).Stages mode (fun middle image' =>
      Remarked fs.geometry base image' (markedWithout fs.geometry base first middle))
      endBlock image := by
  induction fuel generalizing current image with
  | zero => rwa [show current = endBlock by omega] at hbase
  | succ _ ih =>
    rw [releaseLoop]
    split
    next hlt =>
      obtain ⟨_, _, hsec⟩ := segmentEnd_bounds (hend.trans layout.totalBlocks_le) hlt
      set segment := segmentEnd current endBlock
      have hbitmap := layout.bitmapBlock_lt (show current < fs.geometry.totalBlocks by omega)
      have hbounds := layout.bounds
      rw [Prog.Stages, wp_bind]
      apply wp_read_of_ok (layout.readOne_eq image (by omega))
      set cleared := clearSegment (segment - current) current
        (image (fs.geometry.allocationBitmapStart + current / 4096))
      have hwritten : Remarked fs.geometry base
          (update image (fs.geometry.allocationBitmapStart + current / 4096) cleared)
          (markedWithout fs.geometry base first segment) := by
        refine hbase.write layout hbitmap (fun block heq hmarked => ?_) fun block hne => ?_
        · rw [clearSegment_eq hsec heq, ← heq, ← Marked, hmarked, and_assoc]
          exact and_congr Iff.rfl (by omega)
        · exact and_congr Iff.rfl (by omega)
      rw [wp_bind, wp_writeOne layout (by omega)]
      exact ⟨⟨segment, by omega, hwritten⟩, ih (by omega) (by omega) (by omega) hwritten,
        fun hfault => ⟨hfault, current, hcur, hbase⟩⟩
    · rwa [show current = endBlock by omega] at hbase

end

/-! ## Reading the bitmap -/

section

variable (layout : Layout fs.geometry fs.device) (h : block < fs.geometry.totalBlocks)
include layout h

theorem requireMarked_eq :
    requireMarked fs image block =
      if Marked fs.geometry image block then .ok () else .error .invalidExtent := by
  have hbitmap := layout.bitmapBlock_lt h
  have hbounds := layout.bounds
  have htotal := layout.totalBlocks_lt
  rw [requireMarked, if_neg (by omega), addU64_eq_some (by omega)]
  dsimp only
  rw [if_neg (by omega), layout.readOne_eq image (by omega)]
  rfl

theorem requireFree_eq :
    requireFree fs image block =
      if Marked fs.geometry image block then .error .noSpace else .ok () := by
  have hbitmap := layout.bitmapBlock_lt h
  have hbounds := layout.bounds
  rw [requireFree, if_neg (by omega), layout.readOne_eq image (by omega)]
  rfl

end

/-- An extent that can be released or written: in the data area, with every bit
set. -/
structure Allocated (geometry : Geometry) (image : Image) (first count : ℕ) : Prop where
  pos : 0 < count
  dataStart_le : geometry.dataStart ≤ first
  le_totalBlocks : first + count ≤ geometry.totalBlocks
  capacity_lt : count * 512 < 2 ^ 64
  marked : ∀ block ∈ extent first count, Marked geometry image block

theorem validateAllocatedExtent_eq_ok_iff (layout : Layout fs.geometry fs.device) {capacity : ℕ} :
    validateAllocatedExtent fs image first count = .ok capacity ↔
      capacity = count * 512 ∧
        ((count = 0 ∧ first = 0) ∨ Allocated fs.geometry image first count) := by
  have htotal := layout.totalBlocks_lt
  unfold validateAllocatedExtent
  split
  next hcount =>
    subst hcount
    split
    next hfirst =>
      refine ⟨nofun, fun ⟨_, h⟩ => ?_⟩
      rcases h with ⟨_, hzero⟩ | h
      · exact absurd hzero hfirst
      · exact absurd h.pos (by decide)
    next hfirst =>
      push Not at hfirst
      simp [hfirst, eq_comm]
  next hcount =>
    split
    next endBlock size hend hsize =>
      obtain rfl := eq_add_of_addU64 hend
      obtain ⟨rfl, hcap⟩ := eq_mul_of_multiplyU64 hsize
      split
      · refine ⟨nofun, fun ⟨_, h⟩ => ?_⟩
        rcases h with ⟨hzero, _⟩ | h
        · exact absurd hzero hcount
        · have := h.dataStart_le
          have := h.le_totalBlocks
          omega
      have hmark : foldRange (fun _ block => requireMarked fs image block) count first () =
          .ok () ↔ ∀ block ∈ extent first count, Marked fs.geometry image block := by
        rw [foldRange_unit_eq_ok_iff]
        refine forall_congr' fun block => ?_
        rw [mem_extent, and_imp]
        refine forall_congr' fun hlow => forall_congr' fun hhigh => ?_
        rw [requireMarked_eq layout (by omega)]
        split <;> simp_all
      split
      next status hfold =>
        refine ⟨nofun, fun ⟨_, h⟩ => ?_⟩
        rcases h with ⟨hzero, _⟩ | h
        · exact absurd hzero hcount
        · rw [hmark.mpr h.marked] at hfold
          cases hfold
      rename_i hfold
      constructor
      · intro h
        cases h
        exact ⟨rfl, .inr ⟨by omega, by omega, by omega, hcap, hmark.mp hfold⟩⟩
      · rintro ⟨rfl, _⟩
        rfl
    next hnone =>
      refine ⟨nofun, fun ⟨_, h⟩ => ?_⟩
      rcases h with ⟨hzero, _⟩ | h
      · exact absurd hzero hcount
      · have := h.le_totalBlocks
        exact absurd (multiplyU64_eq_some h.capacity_lt) (hnone _ _ (addU64_eq_some (by omega)))

structure FreeRun (geometry : Geometry) (image : Image) (first count : ℕ) : Prop where
  dataStart_le : geometry.dataStart ≤ first
  le_totalBlocks : first + count ≤ geometry.totalBlocks
  free : ∀ block ∈ extent first count, ¬ Marked geometry image block

section

variable (layout : Layout fs.geometry fs.device)
include layout

theorem extentIsFree_eq_ok_iff (hcount : 0 < count) :
    extentIsFree fs image first count = .ok () ↔ FreeRun fs.geometry image first count := by
  have htotal := layout.totalBlocks_lt
  unfold extentIsFree
  rw [if_neg (by omega)]
  split
  next hnone =>
    refine ⟨nofun, fun h => ?_⟩
    have := h.le_totalBlocks
    rw [addU64_eq_some (by omega)] at hnone
    cases hnone
  rename_i endBlock hend
  obtain rfl := eq_add_of_addU64 hend
  split
  · refine ⟨nofun, fun h => ?_⟩
    have := h.dataStart_le
    have := h.le_totalBlocks
    omega
  have hfree : (∀ block, first ≤ block → block < first + count →
      requireFree fs image block = .ok ()) ↔
      ∀ block ∈ extent first count, ¬ Marked fs.geometry image block := by
    refine forall_congr' fun block => ?_
    rw [mem_extent, and_imp]
    refine forall_congr' fun hlow => forall_congr' fun hhigh => ?_
    rw [requireFree_eq layout (by omega)]
    split <;> simp_all
  rw [foldRange_unit_eq_ok_iff, hfree]
  exact ⟨fun h => ⟨by omega, by omega, h⟩, FreeRun.free⟩

theorem extentIsFree_error {status : Status} (hcount : 0 < count)
    (h : extentIsFree fs image first count = .error status) : status = .noSpace := by
  have hloop : ∀ count first, first + count ≤ fs.geometry.totalBlocks →
      foldRange (fun _ block => requireFree fs image block) count first () = .error status →
        status = .noSpace := by
    intro count
    induction count with
    | zero => intro first _ hfold; cases hfold
    | succ _ ih =>
      intro first hle hfold
      rw [foldRange, requireFree_eq layout (by omega)] at hfold
      by_cases hmark : Marked fs.geometry image first
      · simp only [hmark, if_true] at hfold
        cases hfold
        rfl
      · simp only [hmark, if_false] at hfold
        exact ih (first + 1) (by omega) hfold
  unfold extentIsFree at h
  rw [if_neg (by omega)] at h
  split at h
  · cases h
    rfl
  rename_i endBlock hend
  obtain rfl := eq_add_of_addU64 hend
  split at h
  · cases h
    rfl
  · exact hloop count first (by omega) h

/-- The scan knows the free blocks that end at `block` and that no run starts
before them. -/
theorem findFreeLoop_spec :
    ∀ remaining block runStart runLength, block + remaining = fs.geometry.totalBlocks →
    runLength < count → fs.geometry.dataStart + runLength ≤ block →
    (runLength ≠ 0 → runStart = block - runLength) →
    (∀ other, block - runLength ≤ other → other < block → ¬ Marked fs.geometry image other) →
    (∀ start, FreeRun fs.geometry image start count → block - runLength ≤ start) →
    (∃ start, findFreeLoop fs image count remaining block runStart runLength = .ok start ∧
        FreeRun fs.geometry image start count ∧
        ∀ other, FreeRun fs.geometry image other count → start ≤ other) ∨
      (findFreeLoop fs image count remaining block runStart runLength = .error .noSpace ∧
        ∀ start, ¬ FreeRun fs.geometry image start count) := by
  have hdata := layout.dataStart
  intro remaining
  induction remaining with
  | zero =>
    intro block runStart runLength htotal hlen hlow hstart hfree hnone
    refine .inr ⟨rfl, fun start hrun => ?_⟩
    have := hnone start hrun
    have := hrun.le_totalBlocks
    omega
  | succ _ ih =>
    intro block runStart runLength htotal hlen hlow hstart hfree hnone
    have hbitmap := layout.bitmapBlock_lt (show block < fs.geometry.totalBlocks by omega)
    rw [findFreeLoop, if_neg (by omega), layout.readOne_eq image (by omega)]
    dsimp only
    by_cases hmark : blockMarked (image (fs.geometry.allocationBitmapStart + block / 4096)) block
    · rw [if_pos hmark]
      refine ih (block + 1) runStart 0 (by omega) (by omega) (by omega) (by omega)
        (fun other hlow hhigh => by omega) fun start hrun => ?_
      -- a run that starts at or before a marked block would contain it
      have hpre := hnone start hrun
      by_contra hle
      exact hrun.free block (by rw [mem_extent]; omega) hmark
    rw [if_neg hmark]
    have hrunStart : (if runLength = 0 then block else runStart) = block - runLength := by
      split
      · omega
      next hne => exact hstart hne
    rw [hrunStart]
    have hextended : ∀ other, block - runLength ≤ other → other < block + 1 →
        ¬ Marked fs.geometry image other := by
      intro other hother hlt
      rcases Nat.lt_succ_iff_lt_or_eq.mp hlt with hlt | rfl
      · exact hfree other hother hlt
      · exact hmark
    split
    · refine .inl ⟨block - runLength, rfl, ⟨by omega, by omega, ?_⟩, hnone⟩
      intro other hother
      rw [mem_extent] at hother
      exact hextended other hother.1 (by omega)
    refine ih (block + 1) (block - runLength) (runLength + 1) (by omega) (by omega) (by omega)
      (fun _ => by omega) (fun other hother hlt => hextended other (by omega) hlt)
      fun start hrun => ?_
    have := hnone start hrun
    omega

end

theorem findFreeExtent_spec (image : Image) (layout : Layout fs.geometry fs.device)
    (hcount : 0 < count) :
    (∃ start, findFreeExtent fs image count = .ok start ∧
        FreeRun fs.geometry image start count ∧
        ∀ other, FreeRun fs.geometry image other count → start ≤ other) ∨
      (findFreeExtent fs image count = .error .noSpace ∧
        ∀ start, ¬ FreeRun fs.geometry image start count) := by
  have hdataLt := layout.dataStart_lt
  exact findFreeLoop_spec layout _ _ _ _ (by omega) hcount (by omega) (by omega)
    (fun other hlow hhigh => by omega) fun start hrun => hrun.dataStart_le

/-! ## Publishing and releasing an extent -/

section

variable (layout : Layout fs.geometry fs.device)
include layout

theorem publishExtentAllocation_wp (hrun : FreeRun fs.geometry image first count) :
    (publishExtentAllocation fs first count).Stages mode (fun middle image' =>
      Remarked fs.geometry image image' (markedWith fs.geometry image first middle))
      (first + count) image := by
  have htotal := layout.totalBlocks_lt
  have hlow := hrun.dataStart_le
  have hhigh := hrun.le_totalBlocks
  rw [publishExtentAllocation, addU64_eq_some (by omega)]
  dsimp only
  rw [if_neg (by omega)]
  exact stages_flush layout <| publishLoop_wp layout hhigh le_rfl (by omega) (by omega)
    (fun block hlow hhigh => hrun.free block (by rw [mem_extent]; omega))
    ((Remarked.refl _ image).congr fun block _ => ⟨.inl, fun h => h.resolve_right (by omega)⟩)

theorem releaseExtent_wp (halloc : Allocated fs.geometry image first count) :
    (releaseExtent fs first count).Stages mode (fun middle image' =>
      Remarked fs.geometry image image' (markedWithout fs.geometry image first middle))
      (first + count) image := by
  have htotal := layout.totalBlocks_lt
  have hpos := halloc.pos
  have hhigh := halloc.le_totalBlocks
  rw [releaseExtent, if_neg (by omega), Prog.Stages, wp_bind]
  apply wp_read_of_ok ((validateAllocatedExtent_eq_ok_iff layout).mpr ⟨rfl, .inr halloc⟩)
  rw [addU64_eq_some (by omega)]
  exact stages_flush layout <| releaseLoop_wp layout hhigh le_rfl (by omega) (by omega)
    ((Remarked.refl _ image).congr fun block _ => ⟨fun h => ⟨h, by omega⟩, And.left⟩)

theorem releaseExtent_wp_of_not_allocated
    (halloc : ¬ Allocated fs.geometry image first count) {onValue onCrash} :
    (releaseExtent fs first count).wp mode onValue (fun _ image' => image' = image) onCrash
      image := by
  rw [releaseExtent]
  split
  · rfl
  rename_i hcount
  rw [wp_bind, wp_read]
  refine ⟨fun capacity hcap => ?_, fun _ _ => rfl⟩
  obtain ⟨_, hzero | h⟩ := (validateAllocatedExtent_eq_ok_iff layout).mp hcap
  · exact absurd hzero.1 hcount
  · exact absurd h halloc

end

end Kurogane.KuroFS
