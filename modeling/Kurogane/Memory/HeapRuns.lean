/-
# Runs of the kernel heap

A run starts from `init_kernel_heap` and performs allocations, releases of any
address, and writes of callers into memory they own. Along the run the pointers
that were handed out and not yet released are recorded; the heap agrees with
this record in every state.
-/

import Kurogane.Memory.HeapCalls

namespace Kurogane.Memory

open List

variable {memory : Words} {initial heap : Heap} {blocks : List Block} {block : Block}
  {start stop size : ℕ}

/-! ## Runs -/

/-- A pointer that `kmalloc` returned, with the request it answers. -/
structure Pointer where
  address : ℕ
  size : ℕ
  alignment : ℕ
  deriving DecidableEq

def Pointer.allocation (pointer : Pointer) : Allocation := ⟨pointer.address, pointer.size⟩

/-- Requests of well-behaved callers. Arguments are machine words, and a caller writes
aligned words of memory it owns, never the magic. Nothing is asked of releases. -/
def HeapRequest.Legal (live : List Pointer) : HeapRequest → Prop
  | kmalloc size alignment => size < 2 ^ 64 ∧ alignment < 2 ^ 64
  | kfree address => address < 2 ^ 64
  | store address value => recordAlignment ∣ address ∧ value ≠ allocationMagic ∧
      ∃ pointer ∈ live, pointer.address ≤ address ∧ address < pointer.address + pointer.size

def HeapRequest.track (heap : Heap) (live : List Pointer) : HeapRequest → List Pointer
  | kmalloc size alignment =>
    match (Memory.kmalloc heap size alignment).1 with
    | some address => ⟨address, size, alignment⟩ :: live
    | none => live
  | kfree address => live.filter fun pointer => pointer.address ≠ address
  | store _ _ => live

inductive HeapReachable (initial : Heap) : Heap → List Pointer → Prop
  | start : HeapReachable initial initial []
  | step {heap : Heap} {live : List Pointer} (request : HeapRequest)
      (hrun : HeapReachable initial heap live) (hlegal : request.Legal live) :
      HeapReachable initial (request.perform heap) (request.track heap live)

/-! ## The initial heap -/

def initialBlock (heap : Heap) : Block := ⟨heap.heapStart, heap.heapSize - headerSize, none⟩

def Clean (memory : Words) (start size : ℕ) : Prop :=
  ∀ address ∈ magicWords memory, start ≤ address → ¬ address < start + size

variable {pointer : Pointer} {address value : ℕ}

theorem magicWords_freshHeader (hvalue : value < allocationMagic) :
    magicWords (setPrevious (setNext (setUsed (setSize memory address value) address false)
      address 0) address 0) ⊆ magicWords memory := by
  have hzero : (0 : ℕ) ≠ allocationMagic := by decide
  exact fun _ hmem => magicWords_update_subset (ne_magic_of_lt hvalue)
    (magicWords_setUsed _ _ _ (magicWords_update_subset hzero
      (magicWords_update_subset hzero hmem)))

theorem arranged_freshHeader (hclean : ∀ address ∈ magicWords memory,
      start ≤ address → ¬ address < start + headerSize + value)
    (haligned : recordAlignment ∣ start) (hstart : start ≠ 0)
    (hstop : start + headerSize + value < 2 ^ 64) (hsize : headerSize + value ≤ allocationMagic) :
    Arranged (setPrevious (setNext (setUsed (setSize memory start value) start false) start 0)
      start 0) start (start + headerSize + value) [⟨start, value, none⟩] := by
  have hhdr : headerSize = 32 := rfl
  refine ⟨hstart, hstop, by omega, ⟨⟨?_, ?_, ?_, ?_, nofun⟩, trivial⟩,
    ⟨rfl, haligned, nofun, rfl⟩, fun address hmagic hlow hhigh => ?_⟩
  · simp [blockSize, setSize, setUsed, setNext, setPrevious]
  · simp [blockUsed, setSize, setUsed, setNext, setPrevious]
  · simp [blockNext, setSize, setUsed, setNext, setPrevious, headAddress]
  · simp [blockPrevious, setSize, setUsed, setNext, setPrevious]
  · have hold := magicWords_freshHeader (by omega) hmagic
    exact absurd hhigh (hclean address hold hlow)

theorem shape_initKernelHeap (hstart : start < 2 ^ 64) (hsize : size ≤ allocationMagic)
    (hclean : Clean memory start size) :
    initKernelHeap memory start size = { memory := memory } ∨
      Shape (initKernelHeap memory start size)
        [initialBlock (initKernelHeap memory start size)] := by
  rw [initKernelHeap]
  split
  · exact .inl rfl
  split
  · next originalEnd alignedStart hadd halign =>
    split
    · exact .inl rfl
    obtain ⟨_, rfl⟩ := (checkedAdd_eq_some hstart).mp hadd
    obtain ⟨hdvd, _, -⟩ := alignUp_eq_some (by decide) halign
    have hstop : start + size = alignedStart + headerSize +
        (start + size - alignedStart - headerSize) := by omega
    have harranged := @arranged_freshHeader memory alignedStart
      (start + size - alignedStart - headerSize)
      (fun address hmagic hlow hhigh => hclean address hmagic (by omega) (by omega)) hdvd (by omega)
      (by omega) (by omega)
    rw [← hstop] at harranged
    refine .inr ⟨harranged, ?_, rfl, cons_ne_nil _ _, rfl, isChain_singleton _, rfl, rfl⟩
    dsimp only
    omega
  · exact .inl rfl

/-! ## The record of live pointers -/

theorem Tiles.allocations_pairwise (h : Tiles start blocks stop) :
    (allocations blocks).Pairwise fun left right =>
      left.user + left.requested + headerSize + allocationPrefixSize ≤ right.user := by
  have hpairwise : blocks.Pairwise fun left right =>
      ∀ first ∈ left.allocation, ∀ second ∈ right.allocation,
        first.user + first.requested + headerSize + allocationPrefixSize ≤ second.user := by
    refine h.pairwise.imp_of_mem fun hleft hright hle first hfirst second hsnd => ?_
    have hhigh := ((h.mem hleft).2.2.2 first hfirst).high
    have hlow := ((h.mem hright).2.2.2 second hsnd).low
    omega
  exact List.Pairwise.filterMap _ (fun _ _ hle first hfirst second hsnd =>
    hle first hfirst second hsnd) hpairwise

/-- The heap is in shape and its live allocations are the recorded pointers. -/
structure Tracked (initial heap : Heap) (live : List Pointer) (blocks : List Block) : Prop where
  shape : Shape heap blocks
  perm : (live.map Pointer.allocation).Perm (allocations blocks)
  aligned : ∀ pointer ∈ live, pointer.alignment ∣ pointer.address
  heapStart : heap.heapStart = initial.heapStart
  heapEnd : heap.heapEnd = initial.heapEnd

variable {live : List Pointer}

theorem Tracked.mem_live (h : Tracked initial heap live blocks)
    (hmem : pointer ∈ live) : pointer.allocation ∈ allocations blocks :=
  h.perm.mem_iff.mp (mem_map_of_mem hmem)

theorem kmalloc_region (heap : Heap) (size alignment : ℕ) :
    (kmalloc heap size alignment).2.heapStart = heap.heapStart ∧
      (kmalloc heap size alignment).2.heapEnd = heap.heapEnd := by
  rw [kmalloc]
  split
  · exact ⟨rfl, rfl⟩
  · split <;> exact ⟨rfl, rfl⟩

theorem kfree_region (heap : Heap) (address : ℕ) :
    (kfree heap address).heapStart = heap.heapStart ∧
      (kfree heap address).heapEnd = heap.heapEnd := by
  rw [kfree]
  split
  · exact ⟨rfl, rfl⟩
  · split <;> exact ⟨rfl, rfl⟩

section

variable (h : Tracked initial heap live blocks)
include h

theorem Tracked.kmalloc {size alignment : ℕ} (halignment : alignment < 2 ^ 64) :
    ∃ blocks', Tracked initial (kmalloc heap size alignment).2
      ((HeapRequest.kmalloc size alignment).track heap live) blocks' := by
  obtain ⟨hstart, hend⟩ := kmalloc_region heap size alignment
  rcases h.shape.kmalloc halignment with hnone | ⟨_, _, _, blocks', huser, hdvd, -,
    hold, hnew, hshape⟩
  · rw [HeapRequest.track, hnone]
    exact ⟨blocks, h⟩
  rw [HeapRequest.track, huser]
  refine ⟨blocks', hshape, ?_, ?_, hstart.trans h.heapStart, hend.trans h.heapEnd⟩
  · have hlive := h.perm
    rw [hold] at hlive
    rw [hnew, map_cons]
    exact (hlive.cons _).trans perm_middle.symm
  intro pointer hptr
  rcases mem_cons.mp hptr with rfl | hptr
  · exact hdvd
  · exact h.aligned pointer hptr

theorem Tracked.kfree (address : ℕ) :
    ∃ blocks', Tracked initial (kfree heap address)
      ((HeapRequest.kfree address).track heap live) blocks' := by
  obtain ⟨hstart, hend⟩ := kfree_region heap address
  have haligned : ∀ pointer ∈ (HeapRequest.kfree address).track heap live,
      pointer.alignment ∣ pointer.address :=
    fun pointer hptr => h.aligned pointer (mem_of_mem_filter hptr)
  have hfilter : (((HeapRequest.kfree address).track heap live).map Pointer.allocation).Perm
      ((allocations blocks).filter fun allocation => allocation.user ≠ address) := by
    rw [HeapRequest.track, show (fun pointer : Pointer => decide (pointer.address ≠ address)) =
      (fun allocation : Allocation => decide (allocation.user ≠ address)) ∘ Pointer.allocation
      from rfl, ← filter_map]
    exact h.perm.filter _
  by_cases hmem : ∃ allocation ∈ allocations blocks, allocation.user = address
  · obtain ⟨allocation, hmem, rfl⟩ := hmem
    obtain ⟨_, hblk, halloc⟩ := mem_allocations.mp hmem
    obtain ⟨_, _, rfl⟩ := append_of_mem hblk
    obtain ⟨blocks', hlive, hshape⟩ := h.shape.kfree_live halloc
    refine ⟨blocks', hshape, ?_, haligned, hstart.trans h.heapStart, hend.trans h.heapEnd⟩
    have hpairwise := h.shape.arranged.tiles.allocations_pairwise
    rw [allocations_append, allocations_cons, halloc, Option.toList_some,
      singleton_append] at hfilter hpairwise
    obtain ⟨-, hafter, hpre⟩ := pairwise_append.mp hpairwise
    have hprefix : allocationPrefixSize = 24 := rfl
    rw [filter_append, filter_cons_of_neg (by simp), filter_eq_self.mpr,
      filter_eq_self.mpr] at hfilter
    · rw [hlive]
      exact hfilter
    · intro other hother
      have hle := (pairwise_cons.mp hafter).1 other hother
      exact decide_eq_true (by omega)
    · intro other hother
      have hle := hpre other hother allocation mem_cons_self
      exact decide_eq_true (by omega)
  · have hother : ∀ allocation ∈ allocations blocks, allocation.user ≠ address :=
      fun allocation halloc heq => hmem ⟨allocation, halloc, heq⟩
    rw [filter_eq_self.mpr fun allocation halloc =>
      decide_eq_true (hother allocation halloc)] at hfilter
    rw [h.shape.kfree_other hother]
    exact ⟨blocks, { h with perm := hfilter, aligned := haligned }⟩

theorem Tracked.store (hlegal : (HeapRequest.store address value).Legal live) :
    Tracked initial ((HeapRequest.store address value).perform heap) live blocks := by
  obtain ⟨-, hvalue, _, hptr, hlow, hhigh⟩ := hlegal
  exact { h with shape := h.shape.store (h.mem_live hptr) hlow hhigh hvalue }

theorem Tracked.perform (request : HeapRequest) (hlegal : request.Legal live) :
    ∃ blocks', Tracked initial (request.perform heap) (request.track heap live) blocks' := by
  cases request with
  | kmalloc => exact h.kmalloc hlegal.2
  | kfree address => exact h.kfree address
  | store => exact ⟨blocks, h.store hlegal⟩

end

theorem Tracked.run (h : Tracked initial initial [] blocks)
    (hrun : HeapReachable initial heap live) : ∃ blocks', Tracked initial heap live blocks' := by
  induction hrun with
  | start => exact ⟨blocks, h⟩
  | step request _ hlegal ih =>
    obtain ⟨_, htracked⟩ := ih
    exact htracked.perform request hlegal

theorem HeapReachable.unchanged (hzero : initial.heapStart = 0)
    (hrun : HeapReachable initial heap live) : heap = initial ∧ live = [] := by
  have hnone : ∀ size alignment, Memory.kmalloc initial size alignment = (none, initial) :=
    fun _ _ => if_pos (.inl hzero)
  induction hrun with
  | start => exact ⟨rfl, rfl⟩
  | step request _ hlegal ih =>
    obtain ⟨rfl, rfl⟩ := ih
    cases request with
    | kmalloc =>
      rw [HeapRequest.perform, HeapRequest.track, hnone]
      exact ⟨rfl, rfl⟩
    | kfree => exact ⟨if_pos (.inr hzero), rfl⟩
    | store =>
      obtain ⟨-, -, _, hptr, -⟩ := hlegal
      cases hptr

/-! ## Heap safety -/

def Apart (address size address' size' : ℕ) : Prop :=
  address + size ≤ address' ∨ address' + size' ≤ address

/-- What a heap guarantees in every state: the blocks tile it, neighbours are not both
free, live pointers are disjoint from each other and from all records, other pointers
cannot be released, and a heap without live pointers is as it was in the beginning. -/
structure HeapSafe (initial heap : Heap) (live : List Pointer) (blocks : List Block) : Prop where
  first : heap.firstBlock = headAddress blocks 0
  linked : Segment heap.memory 0 blocks 0
  tiles : Tiles initial.heapStart blocks initial.heapEnd
  separated : Separated blocks
  used : ∀ block ∈ blocks, ∀ allocation ∈ block.allocation,
    ∃ pointer ∈ live, pointer.allocation = allocation
  disjoint : live.Pairwise fun left right => Apart left.address left.size right.address right.size
  inside : ∀ pointer ∈ live,
    initial.heapStart ≤ pointer.address ∧ pointer.address + pointer.size ≤ initial.heapEnd
  headers : ∀ pointer ∈ live, ∀ block ∈ blocks,
    Apart pointer.address pointer.size block.address headerSize
  prefixes : ∀ pointer ∈ live, ∀ other ∈ live, Apart pointer.address pointer.size
    (other.address - allocationPrefixSize) allocationPrefixSize
  aligned : ∀ pointer ∈ live, pointer.alignment ∣ pointer.address
  foreign : ∀ address, (∀ pointer ∈ live, pointer.address ≠ address) → kfree heap address = heap
  drained : live = [] → blocks = [initialBlock initial] ∧ freeBytes heap = freeBytes initial ∧
    heap.usedBytes = 0 ∧ heap.allocationCount = 0

theorem Tracked.ownBlock (h : Tracked initial heap live blocks) (hmem : pointer ∈ live) :
    ∃ block ∈ blocks, block.allocation = some pointer.allocation ∧ pointer.allocation.Fits block ∧
      initial.heapStart ≤ block.address ∧ block.stop ≤ initial.heapEnd := by
  obtain ⟨block, hblk, halloc⟩ := mem_allocations.mp (h.mem_live hmem)
  obtain ⟨hlow, hhigh, -, hfits⟩ := h.shape.arranged.tiles.mem hblk
  rw [h.heapStart] at hlow
  rw [h.heapEnd] at hhigh
  exact ⟨block, hblk, halloc, hfits _ halloc, hlow, hhigh⟩

theorem Tracked.disjoint (h : Tracked initial heap live blocks) :
    live.Pairwise fun left right => Apart left.address left.size right.address right.size := by
  have hallocations : (allocations blocks).Pairwise fun left right =>
      Apart left.user left.requested right.user right.requested :=
    h.shape.arranged.tiles.allocations_pairwise.imp fun hle => .inl (by omega)
  have hsymm : ∀ {left right : Allocation},
      Apart left.user left.requested right.user right.requested →
        Apart right.user right.requested left.user left.requested := Or.symm
  exact pairwise_map.mp ((h.perm.pairwise_iff hsymm).mpr hallocations)

theorem Tiles.apart (h : Tiles start blocks stop) {left right : Block} (hleft : left ∈ blocks)
    (hright : right ∈ blocks) (hne : left ≠ right) :
    left.stop ≤ right.address ∨ right.stop ≤ left.address := by
  have hsymm : Std.Symm fun left right : Block =>
      left.stop ≤ right.address ∨ right.stop ≤ left.address := ⟨fun _ _ => Or.symm⟩
  have hpairwise : blocks.Pairwise fun left right : Block =>
      left.stop ≤ right.address ∨ right.stop ≤ left.address := h.pairwise.imp .inl
  exact hpairwise.forall hleft hright hne

section

variable (h : Tracked initial heap live blocks)
include h

theorem Tracked.headers (hmem : pointer ∈ live) {other : Block}
    (hother : other ∈ blocks) : Apart pointer.address pointer.size other.address headerSize := by
  obtain ⟨block, hblk, -, hfits, -, -⟩ := h.ownBlock hmem
  have hlow : block.address + headerSize + allocationPrefixSize ≤ pointer.address := hfits.low
  have hhigh : pointer.address + pointer.size ≤ block.stop := hfits.high
  rw [Apart]
  by_cases heq : block = other
  · subst heq
    omega
  have hapart := h.shape.arranged.tiles.apart hblk hother heq
  rw [Block.stop] at hhigh hapart
  rw [Block.stop] at hapart
  omega

theorem Tracked.prefixes {other : Pointer} (hmem : pointer ∈ live) (hother : other ∈ live) :
    Apart pointer.address pointer.size (other.address - allocationPrefixSize)
      allocationPrefixSize := by
  obtain ⟨block, hblk, halloc, hfits, -, -⟩ := h.ownBlock hmem
  obtain ⟨block', hblk', halloc', hfits', -, -⟩ := h.ownBlock hother
  have hlow : block.address + headerSize + allocationPrefixSize ≤ pointer.address := hfits.low
  have hhigh : pointer.address + pointer.size ≤ block.stop := hfits.high
  have hlow' : block'.address + headerSize + allocationPrefixSize ≤ other.address := hfits'.low
  have hhigh' : other.address + other.size ≤ block'.stop := hfits'.high
  rw [Apart]
  by_cases heq : block = block'
  · subst heq
    -- the block has one allocation, so both pointers are the same address
    rw [halloc] at halloc'
    have haddr : pointer.address = other.address :=
      congrArg Allocation.user (Option.some.inj halloc')
    omega
  · have hapart := h.shape.arranged.tiles.apart hblk hblk' heq
    omega

end

/-- Without live pointers the blocks are free, and no two neighbours are. -/
theorem Tracked.drained (h : Tracked initial heap [] blocks)
    (hinitial : Shape initial [initialBlock initial]) :
    blocks = [initialBlock initial] ∧ freeBytes heap = freeBytes initial ∧ heap.usedBytes = 0 ∧
      heap.allocationCount = 0 := by
  have hnone : allocations blocks = [] := h.perm.symm.eq_nil
  have hfree : ∀ block ∈ blocks, block.allocation = none := filterMap_eq_nil_iff.mp hnone
  have htiles := h.shape.arranged.tiles
  have hsize' := hinitial.size_eq
  have hblks : blocks = [initialBlock initial] := by
    match blocks, hfree, h.shape.nonempty, h.shape.separated, htiles with
    | [block], hfree, _, _, ⟨haddr, _, _, hstop⟩ =>
      have hstop : block.address + headerSize + block.size = heap.heapEnd := hstop
      have halloc := hfree block mem_cons_self
      rw [h.heapStart] at haddr
      rw [h.heapEnd] at hstop
      have hblk : block = ⟨block.address, block.size, block.allocation⟩ := rfl
      rw [hblk, halloc, haddr, initialBlock]
      congr 2
      omega
    | left :: right :: rest, hfree, _, hsep, _ =>
      have hlink := (isChain_cons_cons.mp hsep).1
      rw [hfree left (by simp), hfree right (by simp)] at hlink
      rcases hlink with hlink | hlink <;> cases hlink
  refine ⟨hblks, ?_, ?_, ?_⟩
  · have hsum := sumFree_eq h.shape.arranged.segment htiles h.shape.arranged.start_ne
      h.shape.length_le
    have hsum' := sumFree_eq hinitial.arranged.segment hinitial.arranged.tiles
      hinitial.arranged.start_ne hinitial.length_le
    rw [freeBytes, freeBytes, h.shape.head, hinitial.head, hsum, hsum', hblks]
  · rw [h.shape.usedBytes, hnone]
    rfl
  · rw [h.shape.count, hnone]
    rfl

theorem Tracked.safe (h : Tracked initial heap live blocks)
    (hinitial : Shape initial [initialBlock initial]) : HeapSafe initial heap live blocks where
  first := h.shape.head
  linked := h.shape.arranged.segment
  tiles := by
    rw [← h.heapStart, ← h.heapEnd]
    exact h.shape.arranged.tiles
  separated := h.shape.separated
  used := by
    intro block hblk allocation halloc
    have hmem := h.perm.mem_iff.mpr (mem_allocations.mpr ⟨block, hblk, halloc⟩)
    exact mem_map.mp hmem
  disjoint := h.disjoint
  inside := by
    intro pointer hptr
    obtain ⟨block, -, -, hfits, _, hhigh⟩ := h.ownBlock hptr
    have huser : block.address + headerSize + allocationPrefixSize ≤ pointer.address := hfits.low
    exact ⟨by omega, hfits.high.trans hhigh⟩
  headers := fun _ hptr _ => h.headers hptr
  prefixes := fun _ hptr _ => h.prefixes hptr
  aligned := h.aligned
  foreign := by
    intro address hother
    refine h.shape.kfree_other fun allocation halloc => ?_
    obtain ⟨pointer, hptr, rfl⟩ := mem_map.mp (h.perm.mem_iff.mpr halloc)
    exact hother pointer hptr
  drained := by
    rintro rfl
    exact h.drained hinitial

/-- Every state of a heap is safe if its region did not contain the magic to begin with. -/
theorem heap_run_safe (hstart : start < 2 ^ 64) (hsize : size ≤ allocationMagic)
    (hclean : Clean memory start size)
    (hrun : HeapReachable (initKernelHeap memory start size) heap live) :
    ((initKernelHeap memory start size).heapStart = 0 →
        heap = initKernelHeap memory start size ∧ live = []) ∧
      ((initKernelHeap memory start size).heapStart ≠ 0 →
        ∃ blocks, HeapSafe (initKernelHeap memory start size) heap live blocks) := by
  refine ⟨fun hzero => hrun.unchanged hzero, fun hne => ?_⟩
  rcases shape_initKernelHeap hstart hsize hclean with hrefused | hinitial
  · rw [hrefused] at hne
    exact absurd rfl hne
  have htracked : Tracked (initKernelHeap memory start size) (initKernelHeap memory start size) []
      [initialBlock (initKernelHeap memory start size)] :=
    ⟨hinitial, .nil, nofun, rfl, rfl⟩
  obtain ⟨blocks, hblocks⟩ := htracked.run hrun
  exact ⟨blocks, hblocks.safe hinitial⟩

def smallHeap : Heap := initKernelHeap (fun _ => 0) 64 256

theorem heap_run_safe_small :
    ∃ blocks, HeapSafe smallHeap (kmalloc smallHeap 100 16).2 [⟨128, 100, 16⟩] blocks := by
  have hrun : HeapReachable smallHeap (kmalloc smallHeap 100 16).2 [⟨128, 100, 16⟩] :=
    .step (.kmalloc 100 16) .start ⟨by decide, by decide⟩
  exact (heap_run_safe (by decide) (by decide) (fun _ hmagic => absurd hmagic.2 (by decide))
    hrun).2 (by decide)

/-- A region in which something looks like the prefix of an allocation in the block at 64. -/
def forgedMemory : Words
  | 128 => allocationMagic
  | 136 => 64
  | 144 => 8
  | _ => 0

def forgedHeap : Heap := (kmalloc (initKernelHeap forgedMemory 64 256) 64 8).2

/-- The one live pointer is 120, and nobody has written to memory. The release of 152
nevertheless frees its block, and the next request is given the same memory. -/
theorem forged_prefix_released :
    HeapReachable (initKernelHeap forgedMemory 64 256) forgedHeap [⟨120, 64, 8⟩] ∧
      (kfree forgedHeap 152).allocationCount ≠ forgedHeap.allocationCount ∧
      (kmalloc (kfree forgedHeap 152) 64 8).1 = some 120 := by
  refine ⟨?_, by decide, by decide⟩
  exact .step (.kmalloc 64 8) .start ⟨by decide, by decide⟩

end Kurogane.Memory
