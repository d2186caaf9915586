/-
# The heap invariant

`Shape` ties the state of the allocator to a list of blocks. It also says where
the allocation magic occurs in the heap: in front of the live allocations, and
nowhere else. That is what makes `kfree` recognise exactly the pointers that
`kmalloc` handed out.
-/

import Kurogane.Memory.HeapSearch

namespace Kurogane.Memory

open Math Function List

variable {memory : Words} {heap : Heap} {blocks : List Block} {block : Block} {start stop : ℕ}

/-! ## Magic words -/

/-- The aligned addresses at which memory holds the magic. -/
def magicWords (memory : Words) : Set ℕ :=
  {address | recordAlignment ∣ address ∧ memory address = allocationMagic}

variable {address value : ℕ}

theorem magicWords_update (hvalue : value ≠ allocationMagic) :
    magicWords (update memory address value) ⊆ magicWords memory \ {address} := by
  rintro found ⟨halign, hmagic⟩
  by_cases heq : found = address
  · subst heq
    rw [update_self] at hmagic
    exact absurd hmagic hvalue
  · rw [update_of_ne heq] at hmagic
    exact ⟨⟨halign, hmagic⟩, heq⟩

theorem magicWords_update_subset (hvalue : value ≠ allocationMagic) :
    magicWords (update memory address value) ⊆ magicWords memory :=
  fun _ hmem => (magicWords_update hvalue hmem).1

/-- Aligned addresses are not the magic, which is odd. -/
theorem ne_magic_of_aligned (h : recordAlignment ∣ value) : value ≠ allocationMagic := by
  rintro rfl
  exact absurd h (by decide)

theorem ne_magic_of_lt (h : value < allocationMagic) : value ≠ allocationMagic := h.ne

theorem usedWord_ne_magic (word : ℕ) (used : Bool) :
    word / 256 * 256 + used.toNat ≠ allocationMagic := by
  rw [allocationMagic]
  cases used
  · rw [Bool.toNat_false]
    omega
  · rw [Bool.toNat_true]
    omega

theorem magicWords_setUsed (memory : Words) (address : ℕ) (used : Bool) :
    magicWords (setUsed memory address used) ⊆ magicWords memory :=
  magicWords_update_subset (usedWord_ne_magic _ _)

/-! ## Shape -/

def allocations (blocks : List Block) : List Allocation := blocks.filterMap Block.allocation

@[simp]
theorem allocations_nil : allocations [] = [] := rfl

@[simp]
theorem allocations_append (xs ys : List Block) :
    allocations (xs ++ ys) = allocations xs ++ allocations ys := filterMap_append

@[simp]
theorem allocations_cons (block : Block) (blocks : List Block) :
    allocations (block :: blocks) = block.allocation.toList ++ allocations blocks := by
  rw [allocations, filterMap_cons]
  cases block.allocation <;> rfl

theorem mem_allocations {allocation : Allocation} :
    allocation ∈ allocations blocks ↔ ∃ block ∈ blocks, block.allocation = some allocation :=
  mem_filterMap

def Separated (blocks : List Block) : Prop :=
  blocks.IsChain fun left right => left.allocation.isSome ∨ right.allocation.isSome

/-- Memory between two addresses is a list of blocks, and the magic stands in front of
its live allocations only. -/
structure Arranged (memory : Words) (start stop : ℕ) (blocks : List Block) : Prop where
  start_ne : start ≠ 0
  stop_lt : stop < 2 ^ 64
  size_le : stop - start ≤ allocationMagic
  segment : Segment memory 0 blocks 0
  tiles : Tiles start blocks stop
  magic : ∀ address ∈ magicWords memory, start ≤ address → address < stop →
    ∃ allocation ∈ allocations blocks, address = allocation.user - allocationPrefixSize

/-- What the allocator keeps about a heap, with the blocks it consists of. -/
structure Shape (heap : Heap) (blocks : List Block) : Prop where
  arranged : Arranged heap.memory heap.heapStart heap.heapEnd blocks
  room : heap.heapStart + headerSize + allocationPrefixSize < heap.heapEnd
  size_eq : heap.heapSize = heap.heapEnd - heap.heapStart
  nonempty : blocks ≠ []
  first : heap.firstBlock = heap.heapStart
  separated : Separated blocks
  usedBytes : heap.usedBytes = ((allocations blocks).map Allocation.requested).sum
  count : heap.allocationCount = (allocations blocks).length

theorem headAddress_of_tiles (h : Tiles start blocks stop) (hne : blocks ≠ []) (default : ℕ) :
    headAddress blocks default = start := by
  cases blocks with
  | nil => exact absurd rfl hne
  | cons => exact h.1

theorem Shape.head (h : Shape heap blocks) : heap.firstBlock = headAddress blocks 0 := by
  rw [h.first, headAddress_of_tiles h.arranged.tiles h.nonempty]

theorem Shape.length_le (h : Shape heap blocks) : blocks.length ≤ heap.heapSize := by
  rw [h.size_eq]
  exact h.arranged.tiles.length_le

theorem Tiles.requested_le (h : Tiles start blocks stop) :
    ((allocations blocks).map Allocation.requested).sum + (allocations blocks).length + start ≤
      stop := by
  induction blocks generalizing start with
  | nil =>
    have hle := h.le
    simp only [allocations_nil, map_nil, sum_nil, length_nil]
    omega
  | cons block _ ih =>
    obtain ⟨rfl, -, hfits, hrest⟩ := h
    have hsum := ih hrest
    have hhdr : headerSize = 32 := rfl
    have hstop : block.stop = block.address + headerSize + block.size := rfl
    rw [allocations_cons]
    cases halloc : block.allocation with
    | none =>
      rw [Option.toList_none, nil_append]
      omega
    | some allocation =>
      have hlow := (hfits allocation halloc).low
      have hhigh := (hfits allocation halloc).high
      rw [Option.toList_some, cons_append, nil_append, map_cons, sum_cons, length_cons]
      omega

theorem headAddress_aligned (h : Tiles start blocks stop) :
    recordAlignment ∣ headAddress blocks 0 := by
  cases blocks with
  | nil => exact Nat.dvd_zero _
  | cons =>
    rw [headAddress, h.1]
    exact h.2.1

end Kurogane.Memory
