/-
# Allocation and release keep the heap in shape

`kmalloc` turns a free block into a used one and possibly a free rest; `kfree`
turns a used block into a free one and joins it with its free neighbours. Both
keep `Shape`, with one live allocation more or less.
-/

import Kurogane.Memory.HeapOperations

namespace Kurogane.Memory

open Function List Option

variable {memory : Words} {heap : Heap} {blocks before after : List Block} {block : Block}
  {start stop : ℕ}

/-! ## Separation -/

variable {other : Block} {owner address value : ℕ}

theorem Separated.head_of_free (h : Separated (block :: after))
    (hfree : block.allocation = none) : Separated (other :: after) := by
  cases after with
  | nil => exact isChain_singleton _
  | cons =>
    obtain ⟨hlink, hrest⟩ := isChain_cons_cons.mp h
    rw [hfree] at hlink
    exact isChain_cons_cons.mpr ⟨.inr (hlink.resolve_left nofun), hrest⟩

theorem Separated.last_of_free (h : Separated (before ++ [block]))
    (hfree : block.allocation = none) : Separated (before ++ [other]) := by
  obtain ⟨hpre, -, hlink⟩ := isChain_append.mp h
  refine isChain_append.mpr ⟨hpre, isChain_singleton _, fun left hleft right hright => ?_⟩
  have hused := hlink left hleft block rfl
  rw [hfree] at hused
  exact .inl (hused.resolve_right nofun)

theorem Separated.cons_used (h : Separated after) (hused : block.allocation.isSome) :
    Separated (block :: after) := by
  cases after with
  | nil => exact isChain_singleton _
  | cons => exact isChain_cons_cons.mpr ⟨.inl hused, h⟩

theorem Separated.append_used (h : Separated before) (hused : block.allocation.isSome) :
    Separated (before ++ [block]) := by
  refine isChain_append.mpr ⟨h, isChain_singleton _, fun left _ right hright => ?_⟩
  cases some.inj hright
  exact .inr hused

theorem Separated.join (hpre : Separated (before ++ [block]))
    (hafter : Separated (block :: after)) : Separated (before ++ block :: after) :=
  isChain_split.mpr ⟨hpre, hafter⟩

/-! ## Arrangements -/

section

variable (h : Arranged memory start stop (before ++ block :: after))
include h

theorem Arranged.header : HeaderAt memory block (lastAddress before 0) (headAddress after 0) :=
  (segment_split.mp h.segment).2.1

theorem Arranged.bounds :
    start ≤ block.address ∧ block.stop ≤ stop ∧ recordAlignment ∣ block.address ∧
      ∀ allocation ∈ block.allocation, allocation.Fits block :=
  h.tiles.mem (mem_append_right _ mem_cons_self)

theorem Arranged.size_lt : block.size < allocationMagic := by
  obtain ⟨_, hhigh, -⟩ := h.bounds
  have hsize := h.size_le
  have hhdr : headerSize = 32 := rfl
  rw [Block.stop] at hhigh
  omega

theorem Arranged.splitBlock {consumed : ℕ} (hfree : block.allocation = none)
    (hconsumed : consumed ≤ block.size)
    (hboundary : consumed = block.size ∨ recordAlignment ∣ block.address + headerSize + consumed) :
    ∃ size rest, consumed ≤ size ∧ (rest = [] ∨ ∃ piece : Block, rest = [piece] ∧
        piece.allocation = none) ∧
      Arranged (splitBlock memory block.address consumed) start stop
        (before ++ { block with size := size } :: (rest ++ after)) := by
  by_cases hsplits : Splits block consumed
  · have halign : recordAlignment ∣ block.address + headerSize + consumed := by
      refine hboundary.resolve_left fun heq => ?_
      rw [Splits, heq, Nat.sub_self] at hsplits
      exact absurd hsplits (by decide)
    obtain ⟨-, hhigh, hdvd, -⟩ := h.bounds
    have hafter := (tiles_split.mp h.tiles).2.2.2
    refine ⟨consumed, [block.rest consumed], le_rfl, .inr ⟨_, rfl, rfl⟩, h.start_ne, h.stop_lt,
      h.size_le, h.segment.split h.tiles h.stop_lt hfree hsplits,
      h.tiles.split hsplits halign hfree, fun address hmagic hlow hhigh' => ?_⟩
    have hold := magicWords_splitBlock h.header (hhigh.trans_lt h.stop_lt) hsplits h.size_lt hdvd
      (headAddress_aligned hafter) halign hmagic
    have hlive := h.magic address hold hlow hhigh'
    simpa [hfree, Block.rest] using hlive
  · rw [splitBlock_of_not_splits h.header.size hsplits]
    exact ⟨block.size, [], hconsumed, .inl rfl, h⟩

end

theorem magicWords_markBlock {block user requested : ℕ}
    (hlow : block + headerSize + allocationPrefixSize ≤ user) (howner : owner ≠ allocationMagic)
    (hrequested : requested ≠ allocationMagic) (magic : ℕ) (used : Bool) :
    magicWords (markBlock memory block user magic owner requested used) ⊆
      insert (user - allocationPrefixSize) (magicWords memory) := by
  rintro _ ⟨hdvd, hmagic⟩
  rw [markBlock_apply _ _ _ _ _ _ _ hlow] at hmagic
  split at hmagic
  · exact absurd hmagic (usedWord_ne_magic _ _)
  split at hmagic
  · exact absurd hmagic hrequested
  split at hmagic
  · exact absurd hmagic howner
  split at hmagic
  · next heq => exact .inl heq
  · exact .inr ⟨hdvd, hmagic⟩

variable {allocation : Allocation}

section

variable (h : Arranged memory start stop (before ++ block :: after))
include h

theorem Arranged.allocate (hfits : allocation.Fits block) (hfree : block.allocation = none) :
    Arranged (markBlock memory block.address allocation.user allocationMagic block.address
        allocation.requested true) start stop
      (before ++ { block with allocation := some allocation } :: after) := by
  have hlow := hfits.low
  have hhigh := hfits.high
  obtain ⟨_, _, hdvd, -⟩ := h.bounds
  have hsize := h.size_le
  refine { h with segment := ?_, tiles := ?_, magic := fun address hmagic haddr haddr' => ?_ }
  · refine h.segment.mark h.tiles hlow (by omega) rfl fun found hfound => ?_
    cases some.inj hfound
    exact ⟨rfl, rfl, rfl, rfl⟩
  · refine h.tiles.mark fun found hfound => ?_
    cases some.inj hfound
    exact hfits
  have hrequested : allocation.requested ≠ allocationMagic := by
    have hhdr : headerSize = 32 := rfl
    omega
  rcases magicWords_markBlock hlow (ne_magic_of_aligned hdvd) hrequested _ _ hmagic with
    rfl | hold
  · exact ⟨allocation, by simp, rfl⟩
  obtain ⟨found, hfound, heq⟩ := h.magic address hold haddr haddr'
  refine ⟨found, ?_, heq⟩
  rw [allocations_append, allocations_cons, hfree] at hfound
  rw [allocations_append, allocations_cons]
  simp only [toList_none, nil_append, mem_append] at hfound ⊢
  exact hfound.imp_right .inr

theorem Arranged.release (halloc : block.allocation = some allocation) :
    Arranged (markBlock memory block.address allocation.user 0 0 0 false) start stop
      (before ++ { block with allocation := none } :: after) := by
  obtain ⟨-, -, -, hfits⟩ := h.bounds
  have hlow := (hfits allocation halloc).low
  have hhigh := (hfits allocation halloc).high
  have hzero : (0 : ℕ) ≠ allocationMagic := by decide
  refine ⟨h.start_ne, h.stop_lt, h.size_le, h.segment.mark h.tiles hlow (by omega) rfl nofun,
    h.tiles.mark nofun, fun address hmagic haddr haddr' => ?_⟩
  have hne : address ≠ allocation.user - allocationPrefixSize := by
    rintro rfl
    have hword := hmagic.2
    have hhdr : headerSize = 32 := rfl
    rw [markBlock_apply _ _ _ _ _ _ _ hlow, if_neg (by omega), if_neg (by omega),
      if_neg (by omega), if_pos rfl] at hword
    exact hzero hword
  have hold := (magicWords_markBlock hlow hzero hzero _ _ hmagic).resolve_left hne
  obtain ⟨found, hfound, heq⟩ := h.magic address hold haddr haddr'
  refine ⟨found, ?_, heq⟩
  rw [allocations_append, allocations_cons, halloc] at hfound
  rw [allocations_append, allocations_cons]
  simp only [toList_some, toList_none, nil_append, mem_append, mem_singleton] at hfound ⊢
  rcases hfound with hfound | rfl | hfound
  · exact .inl hfound
  · exact absurd heq hne
  · exact .inr hfound

end

theorem Arranged.join {follower : Block}
    (h : Arranged memory start stop (before ++ block :: follower :: after))
    (hblk : block.allocation = none) (hfollower : follower.allocation = none) :
    Arranged (mergeWithNext memory block.address) start stop
      (before ++ block.join follower :: after) := by
  obtain ⟨_, -, hdvd, -⟩ := h.bounds
  obtain ⟨-, -, -, hadjacent, -, -, hafter⟩ := tiles_split.mp h.tiles
  obtain ⟨-, hhdr, hhdr', -⟩ := segment_split.mp h.segment
  have hstart := h.start_ne
  have htiles := h.tiles.merge
  have hjoin : (block.join follower).size < allocationMagic := by
    obtain ⟨-, hhigh, -⟩ := htiles.mem (List.mem_append_right _ List.mem_cons_self)
    have hsize := h.size_le
    have hheaderSize : headerSize = 32 := rfl
    have haddr : (block.join follower).address = block.address := rfl
    rw [Block.stop] at hhigh
    omega
  refine ⟨hstart, h.stop_lt, h.size_le,
    h.segment.merge h.tiles hstart h.stop_lt hblk hfollower, htiles,
    fun address hmagic haddr haddr' => ?_⟩
  have hold := magicWords_mergeWithNext hhdr hhdr' hadjacent.symm (by omega)
    (hafter.le.trans_lt h.stop_lt) hfollower hjoin hdvd (headAddress_aligned hafter) hmagic
  have hlive := h.magic address hold haddr haddr'
  simpa [hblk, hfollower, Block.join] using hlive

section

variable (h : Arranged memory start stop (before ++ block :: after))
  (hfree : block.allocation = none)
include h hfree

theorem Arranged.mergeWithNext (hsep : Separated after) :
    ∃ merged rest, merged.address = block.address ∧ merged.allocation = none ∧
      allocations rest = allocations after ∧ Separated (merged :: rest) ∧
      Arranged (mergeWithNext memory block.address) start stop (before ++ merged :: rest) := by
  have hhdr := h.header
  cases after with
  | nil =>
    rw [mergeWithNext_of_last hhdr]
    exact ⟨block, [], rfl, hfree, rfl, isChain_singleton _, h⟩
  | cons follower rest =>
    cases halloc : follower.allocation with
    | some =>
      have hused : blockUsed memory follower.address := by
        rw [(segment_split.mp h.segment).2.2.1.used, halloc]
        rfl
      rw [mergeWithNext_of_used hhdr hused]
      refine ⟨block, follower :: rest, rfl, hfree, rfl, isChain_cons_cons.mpr ⟨.inr ?_, hsep⟩, h⟩
      rw [halloc]
      rfl
    | none =>
      refine ⟨block.join follower, rest, rfl, rfl, ?_, hsep.head_of_free halloc,
        h.join hfree halloc⟩
      rw [allocations_cons, halloc]
      rfl

/-- A freed block is joined with its free neighbours. -/
theorem Arranged.coalesce (hpre : Separated before) (hafter : Separated after) :
    ∃ blocks, blocks ≠ [] ∧ allocations blocks = allocations before ++ allocations after ∧
      Separated blocks ∧ Arranged (coalesce memory block.address) start stop blocks := by
  obtain ⟨merged, rest, haddr, hnone, hrest, hsep, hmerged⟩ := h.mergeWithNext hfree hafter
  have hprev := hmerged.header.previous
  rw [haddr] at hprev
  rw [Memory.coalesce, hprev]
  rcases eq_nil_or_concat before with rfl | ⟨initial, neighbour, rfl⟩
  · rw [lastAddress, if_neg (fun hand => hand.1 rfl)]
    exact ⟨merged :: rest, cons_ne_nil _ _, by rw [allocations_cons, hnone, hrest]; rfl,
      hsep, hmerged⟩
  rw [concat_eq_append] at hpre hmerged ⊢
  rw [append_assoc, singleton_append] at hmerged
  rw [lastAddress_append, hmerged.header.used]
  have hpos : neighbour.address ≠ 0 := by
    have hlow := hmerged.bounds.1
    have hstart := hmerged.start_ne
    omega
  cases halloc : neighbour.allocation with
  | some =>
    have hused : neighbour.allocation.isSome := by
      rw [halloc]
      rfl
    rw [isSome_some, if_neg (by simp)]
    refine ⟨initial ++ neighbour :: merged :: rest, by simp, ?_,
      hpre.join (hsep.cons_used hused), hmerged⟩
    simp [hnone, hrest]
  | none =>
    rw [isSome_none, if_pos ⟨hpos, rfl⟩]
    refine ⟨initial ++ neighbour.join merged :: rest, by simp, ?_,
      (hpre.last_of_free halloc).join (hsep.head_of_free hnone),
      hmerged.join halloc hnone⟩
    simp [halloc, hrest, Block.join]

end

/-! ## Calls -/

/-- `kmalloc` fails without a trace, or one more allocation is live: as large and as
aligned as requested. -/
theorem Shape.kmalloc {size alignment : ℕ} (h : Shape heap blocks)
    (halignment : alignment < 2 ^ 64) :
    kmalloc heap size alignment = (none, heap) ∨
      ∃ user before after blocks', (kmalloc heap size alignment).1 = some user ∧
        alignment ∣ user ∧ 0 < size ∧ allocations blocks = before ++ after ∧
        allocations blocks' = before ++ ⟨user, size⟩ :: after ∧
        Shape (kmalloc heap size alignment).2 blocks' := by
  rw [Memory.kmalloc]
  split
  · exact .inl rfl
  next hvalid =>
  have hsize : 0 < size := Nat.pos_of_ne_zero fun hzero => hvalid (.inr (.inl hzero))
  have hpower : isPowerOfTwo alignment := by
    by_contra hnot
    exact hvalid (.inr (.inr (by simpa using hnot)))
  cases hfind : findFreeBlock heap.memory size alignment heap.heapSize heap.firstBlock with
  | none => exact .inl rfl
  | some found =>
  obtain ⟨address, user, _⟩ := found
  refine .inr ?_
  rw [h.head] at hfind
  obtain ⟨before, block, after, rfl, rfl, hfree, hlayout⟩ :=
    findFreeBlock_eq_some h.arranged.segment h.arranged.tiles hfind
  have hlayout := layoutValid_of_calculateLayout h.arranged.header.size
    (h.arranged.bounds.2.1.trans_lt h.arranged.stop_lt) halignment hpower hlayout
  obtain ⟨size', rest, _, hrest, hsplit⟩ :=
    h.arranged.splitBlock hfree hlayout.consumed_le hlayout.boundary
  have hinside := hlayout.inside
  have hfits : Allocation.Fits ⟨user, size⟩ { block with size := size' } := by
    refine ⟨hlayout.low, ?_, hlayout.recordAligned, hsize⟩
    rw [Block.stop]
    dsimp only
    omega
  have harranged := hsplit.allocate hfits hfree
  have hrestFree : allocations rest = [] := by
    rcases hrest with rfl | ⟨piece, rfl, hpiece⟩
    · rfl
    · rw [allocations_cons, hpiece]
      rfl
  have hblks : allocations (before ++
      { address := block.address, size := size', allocation := some ⟨user, size⟩ } ::
        (rest ++ after)) = allocations before ++ ⟨user, size⟩ :: allocations after := by
    simp [hrestFree]
  have hold : allocations (before ++ block :: after) = allocations before ++ allocations after := by
    simp [hfree]
  have hbound := harranged.tiles.requested_le
  have hused := h.usedBytes
  have hcount := h.count
  have hstop := h.arranged.stop_lt
  rw [hblks] at hbound
  rw [hold] at hused hcount
  simp only [map_append, map_cons, sum_append, sum_cons, length_append,
    length_cons] at hbound hused hcount
  refine ⟨user, allocations before, allocations after, _, rfl, hlayout.aligned, hsize, hold,
    hblks, harranged, h.room, h.size_eq, by simp, h.first, ?_, ?_, ?_⟩
  · have hpre : Separated before := h.separated.left_of_append
    have hafter : Separated (block :: after) := h.separated.right_of_append
    refine (hpre.append_used rfl).join ?_
    rcases hrest with rfl | ⟨_, rfl, _⟩
    · exact hafter.head_of_free hfree
    · exact (hafter.head_of_free hfree).cons_used rfl
  · rw [hblks]
    simp only [map_append, map_cons, sum_append, sum_cons]
    rw [wrap_eq (by omega), hused]
    omega
  rw [hblks]
  simp only [length_append, length_cons]
  rw [wrap_eq (by omega), hcount]
  omega

theorem Shape.allocationAt_live (h : Shape heap (before ++ block :: after))
    (halloc : block.allocation = some allocation) :
    allocationAt heap allocation.user = some (block.address, allocation.requested) := by
  obtain ⟨_, _, _, hfits⟩ := h.arranged.bounds
  have hfits := hfits allocation halloc
  have hlow := hfits.low
  have hhigh := hfits.high
  have hpos := hfits.requested_pos
  have hend := h.arranged.stop_lt
  have hne := h.arranged.start_ne
  have hhdr := h.arranged.header
  have hprefix := hhdr.record allocation halloc
  have hprefixSize : allocationPrefixSize = 24 := rfl
  have hload : blockPayloadStart block.address = block.address + headerSize := wrap_eq (by omega)
  have hknown : blockIsKnown heap.memory block.address heap.heapSize heap.firstBlock := by
    rw [h.head, blockIsKnown_iff h.arranged.segment h.arranged.tiles hne h.length_le]
    exact ⟨block, mem_append_right _ mem_cons_self, rfl⟩
  have hmask : (allocation.user - allocationPrefixSize) &&& (recordAlignment - 1) = 0 := by
    obtain ⟨_, hmultiple⟩ := hfits.aligned
    rw [show recordAlignment = 8 from rfl] at hmultiple
    have hmod := Nat.and_two_pow_sub_one_eq_mod (allocation.user - allocationPrefixSize) 3
    rw [show recordAlignment - 1 = 2 ^ 3 - 1 from rfl, hmod]
    omega
  have hused : blockUsed heap.memory block.address := by
    rw [hhdr.used, halloc]
    rfl
  have hvalue : block.address + headerSize + block.size = block.stop := rfl
  have hbound : ¬ (allocation.user < wrap (heap.heapStart + headerSize + allocationPrefixSize) ∨
      allocation.user ≥ heap.heapEnd ∨ allocation.user < allocationPrefixSize) := by
    rw [wrap_eq (by omega)]
    omega
  have hadd : checkedAdd (block.address + headerSize) block.size = some block.stop :=
    (checkedAdd_eq_some (by omega)).mpr ⟨by omega, hvalue.symm⟩
  have hadd' : checkedAdd allocation.user allocation.requested =
      some (allocation.user + allocation.requested) :=
    (checkedAdd_eq_some (by omega)).mpr ⟨by omega, rfl⟩
  rw [allocationAt, if_neg hbound]
  dsimp only
  rw [if_neg (by rw [hmask]; simp), hprefix.magic, hprefix.block, hprefix.requested, hknown, hused,
    if_neg (by simp; omega), hload, hhdr.size, hadd, hadd']
  dsimp only
  rw [if_neg (by omega)]

/-- `kfree` accepts live pointers only. -/
theorem Shape.live_of_allocationAt {released : ℕ} (h : Shape heap blocks)
    (hat : allocationAt heap address = some (owner, released)) :
    ∃ block ∈ blocks, ∃ requested, block.allocation = some ⟨address, requested⟩ := by
  have hroom := h.room
  have hend := h.arranged.stop_lt
  have hheaderSize : headerSize = 32 := rfl
  rw [allocationAt] at hat
  split at hat
  · cases hat
  next hbound =>
  rw [wrap_eq (by omega)] at hbound
  dsimp only at hat
  split at hat
  · cases hat
  next hmask =>
  split at hat
  · cases hat
  next hrec =>
  have hmagic : heap.memory (address - allocationPrefixSize) = allocationMagic := by
    by_contra hne
    exact hrec (.inl hne)
  have hdvd : recordAlignment ∣ address - allocationPrefixSize := by
    have hmod := Nat.and_two_pow_sub_one_eq_mod (address - allocationPrefixSize) 3
    refine Nat.dvd_of_mod_eq_zero ?_
    rw [show recordAlignment = 2 ^ 3 from rfl, ← hmod]
    exact not_not.mp hmask
  obtain ⟨allocation, hmem, _⟩ := h.arranged.magic _ ⟨hdvd, hmagic⟩ (by omega) (by omega)
  obtain ⟨block, hblk, halloc⟩ := mem_allocations.mp hmem
  have huser : allocation.user = address := by omega
  refine ⟨block, hblk, allocation.requested, ?_⟩
  rw [halloc, ← huser]

theorem Shape.kfree_live (h : Shape heap (before ++ block :: after))
    (halloc : block.allocation = some allocation) :
    ∃ blocks', allocations blocks' = allocations before ++ allocations after ∧
      Shape (kfree heap allocation.user) blocks' := by
  obtain ⟨-, -, -, hfits⟩ := h.arranged.bounds
  have hlow := (hfits allocation halloc).low
  have hprefixSize : allocationPrefixSize = 24 := rfl
  have hrel := h.arranged.release halloc
  obtain ⟨blocks', hne, hlive, hsep, harranged⟩ := hrel.coalesce rfl
    h.separated.left_of_append h.separated.right_of_append.tail
  have hused := h.usedBytes
  have hcount := h.count
  rw [allocations_append, allocations_cons, halloc] at hused hcount
  simp only [toList_some, singleton_append, map_append, map_cons,
    sum_append, sum_cons, length_append, length_cons] at hused hcount
  refine ⟨blocks', hlive, ?_⟩
  rw [kfree, if_neg (by have hstart := h.arranged.start_ne; omega), h.allocationAt_live halloc]
  refine ⟨harranged, h.room, h.size_eq, hne, h.first, hsep, ?_, ?_⟩
  · dsimp only
    rw [hlive, map_append, sum_append, if_pos (by omega)]
    omega
  · dsimp only
    rw [hlive, length_append, if_pos (by omega)]
    omega

theorem Shape.kfree_other (h : Shape heap blocks)
    (hother : ∀ allocation ∈ allocations blocks, allocation.user ≠ address) :
    kfree heap address = heap := by
  rw [kfree]
  split
  · rfl
  cases hat : allocationAt heap address with
  | none => rfl
  | some =>
    obtain ⟨block, hblk, _, halloc⟩ := h.live_of_allocationAt hat
    exact absurd rfl (hother _ (mem_allocations.mpr ⟨block, hblk, halloc⟩))

theorem Arranged.store (h : Arranged memory start stop (before ++ block :: after))
    (halloc : block.allocation = some allocation) (hlow : allocation.user ≤ address)
    (hhigh : address < allocation.user + allocation.requested) (hvalue : value ≠ allocationMagic) :
    Arranged (update memory address value) start stop (before ++ block :: after) := by
  have hfits := h.bounds.2.2.2 allocation halloc
  have hfits_low := hfits.low
  have hfits_high := hfits.high
  have hheaderSize : headerSize = 32 := rfl
  have hprefixSize : allocationPrefixSize = 24 := rfl
  have hother : ∀ place, place ≠ address → update memory address value place = memory place :=
    fun place hne => update_of_ne hne _ _
  obtain ⟨hpre, -, -, hafter⟩ := tiles_split.mp h.tiles
  obtain ⟨hseg, hhdr, hseg'⟩ := segment_split.mp h.segment
  refine { h with
    segment := ?_
    magic := fun place hplace => h.magic place (magicWords_update_subset hvalue hplace) }
  refine segment_split.mpr ⟨hseg.congr hpre fun place _ hlt => hother place (by omega),
    hhdr.relink (fun i hi => hother _ (by omega)) ((hother _ (by omega)).trans hhdr.previous)
      fun found hfound i hi => ?_,
    hseg'.congr hafter fun place hge _ => hother place (by omega)⟩
  rw [halloc] at hfound
  cases some.inj hfound
  exact hother _ (by omega)

/-- A caller writes into its allocation, anything but the magic. -/
theorem Shape.store (h : Shape heap blocks)
    (hlive : allocation ∈ allocations blocks) (hlow : allocation.user ≤ address)
    (hhigh : address < allocation.user + allocation.requested) (hvalue : value ≠ allocationMagic) :
    Shape { heap with memory := update heap.memory address value } blocks := by
  obtain ⟨_, hblk, halloc⟩ := mem_allocations.mp hlive
  obtain ⟨_, _, rfl⟩ := append_of_mem hblk
  exact { h with arranged := h.arranged.store halloc hlow hhigh hvalue }

end Kurogane.Memory
