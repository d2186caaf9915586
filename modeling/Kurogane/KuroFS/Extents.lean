/-
# Extent contents

Programs that fill extents write them a sector at a time. `Patched` describes
an image in which a byte range of an extent was overwritten, so that a cut or a
refused write leaves a shorter range overwritten and nothing else touched.
-/

import Kurogane.KuroFS.Bitmap

namespace Kurogane.KuroFS

open Storage Storage.Buffer Function Storage.Prog

variable {geometry : Geometry} {device : Device} {fs : FileSystem} {image image' : Image}
  {mode : Mode}

/-! ## Zeroing whole blocks -/

def zeroed (image : Image) (first count : ℕ) : Image := fun block =>
  if first ≤ block ∧ block < first + count then Buffer.zero else image block

theorem zeroLoop_wp (layout : Layout fs.geometry fs.device) {first count : ℕ}
    (hend : first + count ≤ fs.geometry.totalBlocks) {remaining index : ℕ}
    (hcount : index + remaining = count) :
    (zeroLoop fs first remaining index).Stages mode
      (fun done image' => image' = zeroed image first done) count
      (zeroed image first index) := by
  have htotal := layout.totalBlocks_lt
  induction remaining generalizing index with
  | zero =>
    obtain rfl : index = count := hcount
    rfl
  | succ _ ih =>
    have hwritten : update (zeroed image first index) (first + index) Buffer.zero =
        zeroed image first (index + 1) := by
      funext block
      by_cases hblk : block = first + index
      · subst hblk
        rw [update_self, zeroed, if_pos (by omega)]
      · rw [update_of_ne hblk, zeroed, zeroed]
        exact if_congr (by omega) rfl rfl
    rw [zeroLoop, addU64_eq_some (by omega)]
    rw [Prog.Stages, wp_bind, wp_writeOne layout (by omega), hwritten]
    exact ⟨⟨index + 1, by omega, rfl⟩, ih (by omega), fun hfault => ⟨hfault, index, by omega, rfl⟩⟩

theorem zeroed_zero (image : Image) (first : ℕ) : zeroed image first 0 = image := by
  funext block
  rw [zeroed, if_neg (by omega)]

theorem zeroExtent_wp (layout : Layout fs.geometry fs.device) {first count : ℕ}
    (halloc : Allocated fs.geometry image first count) :
    (zeroExtent fs first count).Stages mode
      (fun done image' => image' = zeroed image first done) count image := by
  have hloop := @zeroLoop_wp fs image mode layout _ _ halloc.le_totalBlocks _ _ (zero_add count)
  rw [zeroed_zero] at hloop
  rw [zeroExtent, Prog.Stages, wp_bind]
  apply wp_read_of_ok ((validateAllocatedExtent_eq_ok_iff layout).mpr ⟨rfl, .inr halloc⟩)
  exact stages_flush layout hloop

/-! ## Overwriting a byte range -/

/-- In `image'` the bytes `[offset, offset + size)` of the extent at `first` are
those of `content`; everything else is as in `image`. -/
structure Patched (image image' : Image) (first offset size : ℕ) (content : Buffer) : Prop where
  outside : ∀ block, block < first + offset / 512 ∨ first * 512 + offset + size ≤ block * 512 →
    image' block = image block
  bytes : ∀ i, extentByte image' first i =
    if offset ≤ i ∧ i < offset + size then content (i - offset) else extentByte image first i

theorem Patched.refl (image : Image) (first offset : ℕ) (content : Buffer) :
    Patched image image first offset 0 content :=
  ⟨fun _ _ => rfl, fun i => by rw [if_neg (by omega)]⟩

variable {content : Buffer} {base : Image} {offset size done : ℕ}

theorem Patched.step {first : ℕ} (h : Patched base image first offset done content)
    (sector : Buffer) (hdone : done < size) (hsec : (offset + done) % 512 ≠ 0 ∨
        min (size - done) (512 - (offset + done) % 512) ≠ 512 →
      sector = image (first + (offset + done) / 512)) :
    Patched base
      (update image (first + (offset + done) / 512)
        (sector.splice ((offset + done) % 512)
          (min (size - done) (512 - (offset + done) % 512)) (content.slice done)))
      first offset (done + min (size - done) (512 - (offset + done) % 512)) content := by
  set chunk := min (size - done) (512 - (offset + done) % 512) with hchunk
  constructor
  · intro block hblk
    rw [update_of_ne (by omega)]
    exact h.outside block (by omega)
  intro i
  rw [extentByte]
  by_cases hblk : i / 512 = (offset + done) / 512
  · rw [hblk, update_self, splice]
    split
    · rw [if_pos (by omega), slice]
      congr 1
      omega
    rw [hsec (by omega), ← hblk]
    change extentByte image first i = _
    rw [h.bytes]
    exact if_congr (by omega) rfl rfl
  · rw [update_of_ne (by omega)]
    change extentByte image first i = _
    rw [h.bytes]
    exact if_congr (by omega) rfl rfl

theorem patchLoop_wp (layout : Layout fs.geometry fs.device) {first : ℕ}
    (hend : first * 512 + offset + size ≤ fs.geometry.totalBlocks * 512)
    {fuel : ℕ} (hdone : done ≤ size) (hfuel : size - done ≤ fuel)
    (hbase : Patched base image first offset done content) :
    (patchLoop fs first offset size content fuel done).Stages mode
      (fun done image' => Patched base image' first offset done content) size image := by
  have htotal := layout.totalBlocks_lt
  induction fuel generalizing image done with
  | zero => rwa [show done = size by omega] at hbase
  | succ _ ih =>
    rw [patchLoop]
    split
    next hlt =>
      rw [addU64_eq_some (by omega)]
      rw [Prog.Stages, wp_bind, wp_read]
      have hread := layout.readOne_eq image
        (show first + (offset + done) / 512 < fs.geometry.totalBlocks by omega)
      refine ⟨fun sector hsec => ?_, fun status hstat => ?_⟩
      · have hwritten := hbase.step sector hlt (by
          intro hpartial
          rw [if_pos hpartial, hread] at hsec
          exact (Except.ok.inj hsec).symm)
        rw [wp_bind, wp_writeOne layout (by omega)]
        exact ⟨⟨_, by omega, hwritten⟩, ih (by omega) (by omega) hwritten,
          fun hfault => ⟨hfault, done, hdone, hbase⟩⟩
      · rw [hread] at hstat
        split at hstat <;> cases hstat
    · rwa [show done = size by omega] at hbase

theorem patch_stages (layout : Layout fs.geometry fs.device) {first count : ℕ} (content : Buffer)
    (halloc : Allocated fs.geometry image first count) (hfits : offset + size ≤ count * 512) :
    (if size = 0 then pure () else do
      patchLoop fs first offset size content size 0
      flushDevice fs.device).Stages mode
        (fun done image' => Patched image image' first offset done content) size image := by
  have hend := halloc.le_totalBlocks
  split
  next hempty =>
    rw [Prog.Stages, wp_pure, hempty]
    exact Patched.refl image first offset _
  · exact stages_flush layout <| patchLoop_wp layout (by omega) (Nat.zero_le _) le_rfl
      (Patched.refl image first offset _)

theorem writeExtentData_wp (ready : fs.Ready) {first count : ℕ} {source : List UInt8}
    (halloc : Allocated fs.geometry image first count)
    (hfits : offset + source.length ≤ count * 512) :
    (writeExtentData fs first count offset source).Stages mode
      (fun done image' => Patched image image' first offset done fun i => source.getD i 0)
      source.length image := by
  have hcap := halloc.capacity_lt
  rw [writeExtentData, ready.if_mounted, Prog.Stages, wp_bind]
  apply wp_read_of_ok ((validateAllocatedExtent_eq_ok_iff ready.layout).mpr ⟨rfl, .inr halloc⟩)
  rw [addU64_eq_some (by omega)]
  dsimp only
  rw [if_neg (by omega)]
  exact patch_stages ready.layout _ halloc hfits

theorem zeroExtentRange_wp (layout : Layout fs.geometry fs.device) {first count length : ℕ}
    (halloc : Allocated fs.geometry image first count) (hfits : offset + length ≤ count * 512) :
    (zeroExtentRange fs first count offset length).Stages mode
      (fun done image' => Patched image image' first offset done Buffer.zero) length image := by
  have hcap := halloc.capacity_lt
  rw [zeroExtentRange, Prog.Stages, wp_bind]
  apply wp_read_of_ok ((validateAllocatedExtent_eq_ok_iff layout).mpr ⟨rfl, .inr halloc⟩)
  rw [addU64_eq_some (by omega)]
  dsimp only
  rw [if_neg (by omega)]
  exact patch_stages layout _ halloc hfits

/-! ## Allocation -/

/-- An allocation of the extent under way: nothing but the extent and its bits
differs. -/
structure Allocating (geometry : Geometry) (image image' : Image) (first count : ℕ) :
    Prop where
  low : ∀ block < geometry.allocationBitmapStart, image' block = image block
  data : ∀ block, geometry.dataStart ≤ block → block ∉ extent first count →
    image' block = image block
  marked : ∀ block < geometry.totalBlocks, Marked geometry image block →
    Marked geometry image' block
  only : ∀ block < geometry.totalBlocks, Marked geometry image' block →
    Marked geometry image block ∨ block ∈ extent first count

section

variable (layout : Layout geometry device)
include layout

theorem Remarked.allocating {first count middle : ℕ} (hmid : middle ≤ first + count)
    (h : Remarked geometry image image' (markedWith geometry image first middle)) :
    Allocating geometry image image' first count where
  low := fun block hblk => h.outside block (.inl hblk)
  data := fun block hblk _ => h.outside block (.inr hblk)
  marked := fun block hblk hmark =>
    (h.marked block (layout.bitmapBlock_lt hblk)).mpr (.inl hmark)
  only := fun block hblk hmark =>
    ((h.marked block (layout.bitmapBlock_lt hblk)).mp hmark).imp_right fun hrange =>
      ⟨hrange.1, lt_of_lt_of_le hrange.2 hmid⟩

theorem marked_zeroed {first count block : ℕ} (hfirst : geometry.dataStart ≤ first)
    (hblk : block / 4096 < geometry.allocationBitmapBlocks) :
    Marked geometry (zeroed image first count) block ↔ Marked geometry image block := by
  have hdata := layout.dataStart
  rw [Marked, Marked, zeroed, if_neg (by omega)]

theorem Allocating.zeroed {first count : ℕ} (hfirst : geometry.dataStart ≤ first)
    (hdone : done ≤ count) (h : Allocating geometry image image' first count) :
    Allocating geometry image (zeroed image' first done) first count where
  low := fun block hblk => by
    have hdata := layout.dataStart
    rw [KuroFS.zeroed, if_neg (by omega), h.low block hblk]
  data := fun block hblk hout => by
    rw [mem_extent] at hout
    rw [KuroFS.zeroed, if_neg (by omega), h.data block hblk (by rwa [mem_extent])]
  marked := fun block hblk hmark =>
    (marked_zeroed layout hfirst (layout.bitmapBlock_lt hblk)).mpr (h.marked block hblk hmark)
  only := fun block hblk hmark =>
    h.only block hblk ((marked_zeroed layout hfirst (layout.bitmapBlock_lt hblk)).mp hmark)

end

/-- Allocation takes the first free run, marks it and clears it. -/
theorem allocateBlocks_wp (ready : fs.Ready) (count : ℕ) :
    (allocateBlocks fs count).wp mode
      (fun first image' => FreeRun fs.geometry image first count ∧
        (∀ other, FreeRun fs.geometry image other count → first ≤ other) ∧
        Allocated fs.geometry image' first count ∧
        ∃ published, Remarked fs.geometry image published
          (markedWith fs.geometry image first (first + count)) ∧
          image' = zeroed published first count)
      (fun status image' =>
        (image' = image ∧ (count = 0 ∨
          status = .noSpace ∧ ∀ first, ¬ FreeRun fs.geometry image first count)) ∨
        ((mode = .faulty ∨ 2 ^ 64 ≤ count * 512) ∧ ∃ first,
          FreeRun fs.geometry image first count ∧
          Allocating fs.geometry image image' first count))
      (fun image' => ∃ first, FreeRun fs.geometry image first count ∧
        Allocating fs.geometry image image' first count) image := by
  have layout := ready.layout
  rw [allocateBlocks]
  split
  next hcount => exact .inl ⟨rfl, .inl hcount⟩
  rename_i hcount
  rw [ready.if_mounted]
  split
  · refine .inl ⟨rfl, .inr ⟨rfl, fun first hrun => ?_⟩⟩
    have := hrun.dataStart_le
    have := hrun.le_totalBlocks
    omega
  rw [wp_bind]
  rcases findFreeExtent_spec image layout (pos_of_ne_zero hcount) with
    ⟨first, hfound, hrun, hleast⟩ | ⟨hnone, hfull⟩
  · apply wp_read_of_ok hfound
    rw [wp_bind]
    refine (publishExtentAllocation_wp layout hrun).kept (fun hmid hpub =>
      hpub.allocating layout hmid) (fun _ published hpub => ?_)
      (fun _ _ h => .inr ⟨.inl h.1, first, hrun, h.2⟩) fun _ h => ⟨first, hrun, h⟩
    have hallocating := hpub.allocating layout le_rfl
    rw [wp_bind]
    by_cases hcap : count * 512 < 2 ^ 64
    · have halloc : Allocated fs.geometry published first count :=
        ⟨pos_of_ne_zero hcount, hrun.dataStart_le, hrun.le_totalBlocks, hcap,
          fun block hblk => (hpub.marked block (layout.bitmapBlock_lt
            (lt_of_lt_of_le hblk.2 hrun.le_totalBlocks))).mpr (.inr hblk)⟩
      refine (zeroExtent_wp layout halloc).kept (fun hdone heq =>
        heq ▸ hallocating.zeroed layout hrun.dataStart_le hdone) ?_
        (fun _ _ h => .inr ⟨.inl h.1, first, hrun, h.2⟩) fun _ h => ⟨first, hrun, h⟩
      rintro _ image' rfl
      refine ⟨hrun, hleast, { halloc with marked := fun block hblk => ?_ }, published, hpub, rfl⟩
      exact (marked_zeroed layout hrun.dataStart_le (layout.bitmapBlock_lt
        (lt_of_lt_of_le hblk.2 hrun.le_totalBlocks))).mpr (halloc.marked block hblk)
    · -- the capacity in bytes does not fit, so the published range is left as it is
      rw [zeroExtent, wp_bind, wp_read]
      refine ⟨fun capacity hvalid => ?_, fun _ _ =>
        .inr ⟨.inr (by omega), first, hrun, hallocating⟩⟩
      obtain ⟨_, hzero | halloc⟩ := (validateAllocatedExtent_eq_ok_iff layout).mp hvalid
      · exact absurd hzero.1 hcount
      · exact absurd halloc.capacity_lt hcap
  · apply wp_read_of_error hnone
    exact .inl ⟨rfl, .inr ⟨rfl, hfull⟩⟩

end Kurogane.KuroFS
