/-
# The kernel heap

The functions of `kernel/memory/allocator.cpp`. The heap is modelled where the
code keeps it, in memory: headers and allocation prefixes are records of 64-bit
words, the block list is followed through the pointers read from memory, and
`kfree` interprets whatever lies in front of the address it is given.

Memory is a function from 8-aligned addresses to words. Addition of the source
that is not checked wraps. A traversal of the block list gets the size of the
heap as fuel, which is more than the number of headers that fit into it.
-/

import Mathlib.Data.Nat.Bitwise

namespace Kurogane.Memory

open Function

/-! ## State -/

/-- `sizeof(BlockHeader)`: size, used flag with padding, next, previous. -/
def headerSize : ℕ := 32

/-- `sizeof(AllocationPrefix)`: magic, block, requested size. -/
def allocationPrefixSize : ℕ := 24

/-- The alignment of both records. -/
def recordAlignment : ℕ := 8

def allocationMagic : ℕ := 0x4B55524F47414E45

abbrev Words := ℕ → ℕ

structure Heap where
  memory : Words
  heapStart : ℕ := 0
  heapEnd : ℕ := 0
  heapSize : ℕ := 0
  firstBlock : ℕ := 0
  usedBytes : ℕ := 0
  allocationCount : ℕ := 0

/-- Arithmetic on `uintptr_t` and `size_t` that the code does not check. -/
def wrap (value : ℕ) : ℕ := value % 2 ^ 64

/-! ## Header fields -/

variable (memory : Words)

section

variable (heap : Heap) (address : ℕ) (block : ℕ)

def blockSize : ℕ := memory block

/-- The flag is the first byte of its word; the rest is padding. -/
def blockUsed : Bool := memory (block + 8) % 256 != 0

def blockNext : ℕ := memory (block + 16)

def blockPrevious : ℕ := memory (block + 24)

def setSize (block size : ℕ) : Words := update memory block size

def setUsed (used : Bool) : Words :=
  update memory (block + 8) (memory (block + 8) / 256 * 256 + used.toNat)

def setNext (block next : ℕ) : Words := update memory (block + 16) next

def setPrevious (block previous : ℕ) : Words :=
  update memory (block + 24) previous

/-- Write the three words of an allocation prefix. -/
def writeAllocationPrefix (address magic block requestedSize : ℕ) : Words :=
  update (update (update memory address magic) (address + 8) block)
    (address + 16) requestedSize

/-! ## Arithmetic -/

def isPowerOfTwo (value : ℕ) : Bool := value != 0 && value &&& (value - 1) == 0

def checkedAdd (value increment : ℕ) : Option ℕ :=
  if increment > 2 ^ 64 - 1 - value then none else some (value + increment)

def alignUp (value alignment : ℕ) : Option ℕ :=
  if !isPowerOfTwo alignment then none
  else if value > 2 ^ 64 - 1 - (alignment - 1) then none
  else some ((value + (alignment - 1)) &&& (2 ^ 64 - 1 - (alignment - 1)))

def blockPayloadStart : ℕ := wrap (block + headerSize)

/-! ## The block list -/

def blockIsKnown (target : ℕ) : ℕ → ℕ → Bool
  | 0, _ => false
  | fuel + 1, current =>
    if current = 0 then false
    else if current = target then true
    else blockIsKnown target fuel (blockNext memory current)

/-- How much of a block a request that fits uses up. If the end cannot be aligned
for a following header, the tail is consumed as well. -/
def consumedPayload (payloadStart blockEnd requestedEnd size : ℕ) : ℕ :=
  match alignUp requestedEnd recordAlignment with
  | some splitAddress => if splitAddress ≤ blockEnd then splitAddress - payloadStart else size
  | none => size

/-- The address and the consumed payload if the request fits into the block. -/
def calculateLayout (block requestedSize alignment : ℕ) : Option (ℕ × ℕ) :=
  let effectiveAlignment := if alignment < recordAlignment then recordAlignment else alignment
  let payloadStart := blockPayloadStart block
  match checkedAdd payloadStart allocationPrefixSize with
  | none => none
  | some prefixEnd =>
    match alignUp prefixEnd effectiveAlignment with
    | none => none
    | some userAddress =>
      match checkedAdd userAddress requestedSize with
      | none => none
      | some requestedEnd =>
        match checkedAdd payloadStart (blockSize memory block) with
        | none => none
        | some blockEnd =>
          if requestedEnd > blockEnd then none
          else some (userAddress,
            consumedPayload payloadStart blockEnd requestedEnd (blockSize memory block))

/-- The first free block the request fits into, with its layout. -/
def findFreeBlock (size alignment : ℕ) : ℕ → ℕ → Option (ℕ × ℕ × ℕ)
  | 0, _ => none
  | fuel + 1, current =>
    if current = 0 then none
    else
      match (if blockUsed memory current then none
        else calculateLayout memory current size alignment) with
      | some (userAddress, consumed) => some (current, userAddress, consumed)
      | none => findFreeBlock size alignment fuel (blockNext memory current)

def blocksAreAdjacent (first second : ℕ) : Bool :=
  first != 0 && second != 0 &&
    checkedAdd (blockPayloadStart first) (blockSize memory first) == some second

def mergeWithNext : Words :=
  let next := blockNext memory block
  if next = 0 ∨ blockUsed memory next ∨ !blocksAreAdjacent memory block next then memory
  else
    let grown := setSize memory block
      (wrap (blockSize memory block + (headerSize + blockSize memory next)))
    let linked := setNext grown block (blockNext memory next)
    if blockNext memory next ≠ 0 then setPrevious linked (blockNext memory next) block else linked

/-! ## The interface -/

def initKernelHeap (start size : ℕ) : Heap :=
  if start = 0 ∨ size = 0 then { memory := memory }
  else
    match checkedAdd start size, alignUp start recordAlignment with
    | some originalEnd, some alignedStart =>
      if alignedStart ≥ originalEnd ∨
          originalEnd - alignedStart < headerSize + allocationPrefixSize + 1 then
        { memory := memory }
      else
        { memory := setPrevious (setNext (setUsed (setSize memory alignedStart
            (originalEnd - alignedStart - headerSize)) alignedStart false) alignedStart 0)
              alignedStart 0
          heapStart := alignedStart
          heapEnd := originalEnd
          heapSize := originalEnd - alignedStart
          firstBlock := alignedStart }
    | _, _ => { memory := memory }

/-- Cut the unused rest off a block. -/
def splitBlock (block consumed : ℕ) : Words :=
  let remainder := blockSize memory block - consumed
  if remainder ≥ headerSize + (allocationPrefixSize + 1) then
    let split := wrap (blockPayloadStart block + consumed)
    let header := setPrevious (setNext (setUsed (setSize memory split (remainder - headerSize))
      split false) split (blockNext memory block)) split block
    let linked := if blockNext memory block ≠ 0
      then setPrevious header (blockNext memory block) split else header
    setNext (setSize linked block consumed) block split
  else memory

/-- `none` is the null pointer. -/
def kmalloc (size alignment : ℕ) : Option ℕ × Heap :=
  if heap.heapStart = 0 ∨ size = 0 ∨ !isPowerOfTwo alignment then (none, heap)
  else
    match findFreeBlock heap.memory size alignment heap.heapSize heap.firstBlock with
    | none => (none, heap)
    | some (block, userAddress, consumed) =>
      let split := splitBlock heap.memory block consumed
      let marked := writeAllocationPrefix split (userAddress - allocationPrefixSize)
        allocationMagic block size
      (some userAddress, { heap with
        memory := setUsed marked block true
        usedBytes := wrap (heap.usedBytes + size)
        allocationCount := wrap (heap.allocationCount + 1) })

/-- What `kfree` finds in front of an address: the block and the requested size,
if they are those of an allocation. -/
def allocationAt : Option (ℕ × ℕ) :=
  if address < wrap (heap.heapStart + headerSize + allocationPrefixSize) ∨
      address ≥ heap.heapEnd ∨ address < allocationPrefixSize then none
  else
    let prefixAddress := address - allocationPrefixSize
    if prefixAddress &&& (recordAlignment - 1) ≠ 0 then none
    else
      let block := heap.memory (prefixAddress + 8)
      let requestedSize := heap.memory (prefixAddress + 16)
      if heap.memory prefixAddress ≠ allocationMagic ∨ block = 0 ∨
          !blockIsKnown heap.memory block heap.heapSize heap.firstBlock ∨
          !blockUsed heap.memory block then none
      else
        match checkedAdd (blockPayloadStart block) (blockSize heap.memory block),
            checkedAdd address requestedSize with
        | some payloadEnd, some allocationEnd =>
          if prefixAddress < blockPayloadStart block ∨ allocationEnd > payloadEnd then none
          else some (block, requestedSize)
        | _, _ => none

/-- Merge a freed block with its neighbours. -/
def coalesce : Words :=
  let merged := mergeWithNext memory block
  if blockPrevious merged block ≠ 0 ∧ !blockUsed merged (blockPrevious merged block) then
    mergeWithNext merged (blockPrevious merged block)
  else merged

/-- `kfree` of a pointer; the null pointer is 0. -/
def kfree : Heap :=
  if address = 0 ∨ heap.heapStart = 0 then heap
  else
    match allocationAt heap address with
    | none => heap
    | some (block, releasedSize) =>
      let cleared := writeAllocationPrefix heap.memory (address - allocationPrefixSize) 0 0 0
      { heap with
        memory := coalesce (setUsed cleared block false) block
        usedBytes := if releasedSize ≤ heap.usedBytes then heap.usedBytes - releasedSize else 0
        allocationCount :=
          if heap.allocationCount > 0 then heap.allocationCount - 1 else heap.allocationCount }

def sumFree : ℕ → ℕ → ℕ
  | 0, _ => 0
  | fuel + 1, current =>
    if current = 0 then 0
    else (if blockUsed memory current then 0 else blockSize memory current) +
      sumFree fuel (blockNext memory current)

def freeBytes : ℕ := wrap (sumFree heap.memory heap.heapSize heap.firstBlock)

end

/-! ## Runs -/

/-- A caller may also write to the memory it was given, a word at a time. -/
inductive HeapRequest
  | kmalloc (size alignment : ℕ)
  | kfree (address : ℕ)
  | store (address value : ℕ)

def HeapRequest.perform : HeapRequest → Heap → Heap
  | kmalloc size alignment, heap => (Memory.kmalloc heap size alignment).2
  | kfree address, heap => Memory.kfree heap address
  | store address value, heap => { heap with memory := update heap.memory address value }

end Kurogane.Memory
