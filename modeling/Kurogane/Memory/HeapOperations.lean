/-
# Splitting, allocating and merging blocks

What the allocator does to memory, as a change of the block list. Each operation
writes inside a few neighbouring blocks and, at most, the backward link of the
block that follows them.
-/

import Kurogane.Memory.HeapInvariant

namespace Kurogane.Memory

open Function

variable {memory memory' : Words} {before after : List Block} {block follower : Block}
  {previous next start middle stop finish : ℕ}

theorem lastAddress_append (xs : List Block) (block : Block) (default : ℕ) :
    lastAddress (xs ++ [block]) default = block.address := by
  induction xs generalizing default with
  | nil => rfl
  | cons x xs ih => exact ih _

/-- Some neighbouring blocks are replaced by others in the same place. -/
theorem Segment.replace (old new : List Block)
    (h : Segment memory previous (before ++ (old ++ after)) next) (hpre : Tiles start before middle)
    (hafter : Tiles stop after finish) (hlow : ∀ address < middle, memory' address = memory address)
    (hhigh : ∀ address ≥ stop, address ≠ headAddress after 0 + 24 →
      memory' address = memory address)
    (hhead : headAddress (new ++ after) next = headAddress (old ++ after) next)
    (hnew : Segment memory' (lastAddress before previous) new (headAddress after next))
    (hprev : after ≠ [] → memory' (headAddress after 0 + 24) =
      lastAddress new (lastAddress before previous)) :
    Segment memory' previous (before ++ (new ++ after)) next := by
  rw [segment_append, segment_append] at h ⊢
  refine ⟨?_, hnew, ?_⟩
  · rw [hhead]
    exact h.1.congr hpre fun address _ hlt => hlow address hlt
  · exact h.2.2.relink hafter (fun address hle _ hne => hhigh address hle hne) hprev

theorem headAddress_cases (hafter : Tiles stop after finish) :
    after = [] ∧ headAddress after 0 = 0 ∨ after ≠ [] ∧ headAddress after 0 = stop := by
  by_cases hne : after = []
  · exact .inl ⟨hne, by rw [hne]; rfl⟩
  · exact .inr ⟨hne, headAddress_of_tiles hafter hne 0⟩

/-! ## Splitting -/

def Splits (block : Block) (consumed : ℕ) : Prop :=
  headerSize + (allocationPrefixSize + 1) ≤ block.size - consumed

instance (block : Block) (consumed : ℕ) : Decidable (Splits block consumed) :=
  inferInstanceAs (Decidable (_ ≤ _))

def Block.rest (block : Block) (consumed : ℕ) : Block :=
  ⟨block.address + headerSize + consumed, block.size - consumed - headerSize, none⟩

variable {allocation : Option Allocation} {consumed : ℕ}

theorem splitBlock_of_not_splits (hsize : blockSize memory block.address = block.size)
    (h : ¬ Splits block consumed) : splitBlock memory block.address consumed = memory := by
  rw [splitBlock, hsize]
  exact if_neg h

theorem splitBlock_apply (hhdr : HeaderAt memory block previous next)
    (hstop : block.stop < 2 ^ 64) (h : Splits block consumed) (address : ℕ) :
    splitBlock memory block.address consumed address =
      if address = block.address + 16 then (block.rest consumed).address
      else if address = block.address then consumed
      else if address = next + 24 ∧ next ≠ 0 then (block.rest consumed).address
      else if address = (block.rest consumed).address + 24 then block.address
      else if address = (block.rest consumed).address + 16 then next
      else if address = (block.rest consumed).address + 8 then
        memory ((block.rest consumed).address + 8) / 256 * 256
      else if address = (block.rest consumed).address then (block.rest consumed).size
      else memory address := by
  rw [Splits] at h
  rw [Block.stop] at hstop
  have hsplit : wrap (blockPayloadStart block.address + consumed) =
      block.address + headerSize + consumed := by
    have hload : blockPayloadStart block.address = block.address + headerSize := wrap_eq (by omega)
    rw [hload, wrap_eq (by omega)]
  rw [splitBlock, hhdr.size]
  simp only [ge_iff_le, if_pos h, hsplit, hhdr.next, Block.rest]
  by_cases hzero : next = 0
  · simp [hzero, setSize, setNext, setUsed, setPrevious, update_apply]
    rfl
  · simp [hzero, setSize, setNext, setUsed, setPrevious, update_apply]
    rfl

theorem Segment.split (h : Segment memory previous (before ++ block :: after) 0)
    (htiles : Tiles start (before ++ block :: after) finish) (hfinish : finish < 2 ^ 64)
    (hfree : block.allocation = none) (hsplits : Splits block consumed) :
    Segment (splitBlock memory block.address consumed) previous
      (before ++ { block with size := consumed } :: block.rest consumed :: after) 0 := by
  obtain ⟨hpre, _, -, hafter⟩ := tiles_split.mp htiles
  obtain ⟨-, hhdr, -⟩ := segment_split.mp h
  have hle := hafter.le
  have happly := splitBlock_apply hhdr (hle.trans_lt hfinish) hsplits
  have hrestAddress : (block.rest consumed).address = block.address + headerSize + consumed := rfl
  have hheaderSize : headerSize = 32 := rfl
  have hstop : block.stop = block.address + headerSize + block.size := rfl
  have hroom : headerSize + (allocationPrefixSize + 1) ≤ block.size - consumed := hsplits
  have hfollower := headAddress_cases hafter
  refine Segment.replace [block] [{ block with size := consumed }, block.rest consumed] h hpre
    hafter ?_ ?_ rfl ?_ ?_
  · intro address hlt
    simp (disch := omega) only [happly, if_neg]
  · intro address hge hne
    simp (disch := omega) only [happly, if_neg]
  · refine ⟨⟨?_, ?_, ?_, ?_, ?_⟩, ⟨?_, ?_, ?_, ?_, ?_⟩, trivial⟩ <;> try dsimp only
    · rw [blockSize, happly, if_neg (by omega), if_pos rfl]
    · simp (disch := omega) only [blockUsed, happly, if_neg]
      exact hhdr.used
    · rw [blockNext, happly, if_pos rfl]
      rfl
    · simp (disch := omega) only [blockPrevious, happly, if_neg]
      exact hhdr.previous
    · intro allocation halloc
      rw [hfree] at halloc
      cases halloc
    · simp (disch := omega) only [blockSize, happly, if_neg, if_true]
    · simp (disch := omega) only [blockUsed, happly, if_neg, if_true, Nat.mul_mod_left]
      rfl
    · simp (disch := omega) only [blockNext, happly, if_neg, if_true]
      rfl
    · simp (disch := omega) only [blockPrevious, happly, if_neg, if_true]
    · rintro _ ⟨⟩
  · intro hne
    have hzero : headAddress after 0 = block.stop := headAddress_of_tiles hafter hne 0
    rw [happly, if_neg (by omega), if_neg (by omega), if_pos ⟨rfl, by omega⟩]
    rfl

theorem Tiles.split (htiles : Tiles start (before ++ block :: after) finish)
    (hsplits : Splits block consumed)
    (hbound : recordAlignment ∣ block.address + headerSize + consumed)
    (hfree : block.allocation = none) :
    Tiles start (before ++ { block with size := consumed } :: block.rest consumed :: after)
      finish := by
  obtain ⟨hpre, halign, -, hafter⟩ := tiles_split.mp htiles
  have hroom : headerSize + (allocationPrefixSize + 1) ≤ block.size - consumed := hsplits
  have hrest : (block.rest consumed).stop = block.stop := by
    simp only [Block.stop, Block.rest]
    omega
  refine tiles_split.mpr ⟨hpre, halign, ?_, rfl, hbound, by rintro _ ⟨⟩, ?_⟩
  · intro allocation halloc
    rw [hfree] at halloc
    cases halloc
  · rw [hrest]
    exact hafter

theorem magicWords_splitBlock (hhdr : HeaderAt memory block previous next)
    (hstop : block.stop < 2 ^ 64) (hsplits : Splits block consumed)
    (hsize : block.size < allocationMagic) (halign : recordAlignment ∣ block.address)
    (hnext : recordAlignment ∣ next)
    (hbound : recordAlignment ∣ block.address + headerSize + consumed) :
    magicWords (splitBlock memory block.address consumed) ⊆ magicWords memory := by
  rintro address ⟨hdvd, hmagic⟩
  refine ⟨hdvd, ?_⟩
  have hroom : headerSize + (allocationPrefixSize + 1) ≤ block.size - consumed := hsplits
  have hconsumed : consumed < allocationMagic := by omega
  have hrest : (block.rest consumed).size < allocationMagic := by
    simp only [Block.rest]
    omega
  rw [splitBlock_apply hhdr hstop hsplits] at hmagic
  -- every word written is an address, a size or a flag
  split at hmagic
  · exact absurd hmagic (ne_magic_of_aligned hbound)
  split at hmagic
  · exact absurd hmagic (ne_magic_of_lt hconsumed)
  split at hmagic
  · exact absurd hmagic (ne_magic_of_aligned hbound)
  split at hmagic
  · exact absurd hmagic (ne_magic_of_aligned halign)
  split at hmagic
  · exact absurd hmagic (ne_magic_of_aligned hnext)
  split at hmagic
  · have hflag := usedWord_ne_magic (memory ((block.rest consumed).address + 8)) false
    rw [Bool.toNat_false, add_zero] at hflag
    exact absurd hmagic hflag
  split at hmagic
  · exact absurd hmagic (ne_magic_of_lt hrest)
  · exact hmagic

/-! ## Allocating and releasing -/

theorem Segment.previous_head (h : Segment memory previous after next) (hne : after ≠ []) :
    memory (headAddress after 0 + 24) = previous := by
  cases after with
  | nil => exact absurd rfl hne
  | cons => exact h.1.previous

def markBlock (memory : Words) (block user magic owner requested : ℕ) (used : Bool) : Words :=
  setUsed (writeAllocationPrefix memory (user - allocationPrefixSize) magic owner requested) block
    used

theorem markBlock_apply (memory : Words) (block user magic owner requested : ℕ) (used : Bool)
    (hlow : block + headerSize + allocationPrefixSize ≤ user) (address : ℕ) :
    markBlock memory block user magic owner requested used address =
      if address = block + 8 then memory (block + 8) / 256 * 256 + used.toNat
      else if address = user - allocationPrefixSize + 16 then requested
      else if address = user - allocationPrefixSize + 8 then owner
      else if address = user - allocationPrefixSize then magic
      else memory address := by
  have hheaderSize : headerSize = 32 := rfl
  have hflag : writeAllocationPrefix memory (user - allocationPrefixSize) magic owner requested
      (block + 8) = memory (block + 8) := by
    rw [writeAllocationPrefix, update_of_ne (by omega), update_of_ne (by omega),
      update_of_ne (by omega)]
  rw [markBlock, setUsed, hflag]
  simp only [writeAllocationPrefix, update_apply]

theorem Segment.mark {user magic owner requested : ℕ} {used : Bool}
    (h : Segment memory previous (before ++ block :: after) 0)
    (htiles : Tiles start (before ++ block :: after) finish)
    (hlow : block.address + headerSize + allocationPrefixSize ≤ user) (hhigh : user ≤ block.stop)
    (hused : used = allocation.isSome)
    (hrec : ∀ found ∈ allocation, found.user = user ∧ magic = allocationMagic ∧
      owner = block.address ∧ requested = found.requested) :
    Segment (markBlock memory block.address user magic owner requested used) previous
      (before ++ { block with allocation := allocation } :: after) 0 := by
  obtain ⟨hpre, _, -, hafter⟩ := tiles_split.mp htiles
  obtain ⟨-, hhdr, hseg⟩ := segment_split.mp h
  have happly := markBlock_apply memory block.address user magic owner requested used hlow
  have hheaderSize : headerSize = 32 := rfl
  have hprefixSize : allocationPrefixSize = 24 := rfl
  have hother : ∀ address, (address ≤ block.address ∨ address = block.address + 16 ∨
      address = block.address + 24 ∨ block.stop ≤ address) →
      markBlock memory block.address user magic owner requested used address = memory address := by
    intro address haddr
    simp (disch := omega) only [happly, if_neg]
  refine Segment.replace [block] [{ block with allocation := allocation }] h hpre hafter
    (fun address hlt => hother address (.inl hlt.le))
    (fun address hge _ => hother address (.inr (.inr (.inr hge)))) rfl ?_ ?_
  · refine ⟨⟨?_, ?_, ?_, ?_, ?_⟩, trivial⟩ <;> try dsimp only
    · rw [blockSize, hother _ (.inl le_rfl)]
      exact hhdr.size
    · rw [blockUsed, happly, if_pos rfl, Nat.mul_add_mod', hused]
      cases allocation.isSome <;> rfl
    · rw [blockNext, hother _ (.inr (.inl rfl))]
      exact hhdr.next
    · rw [blockPrevious, hother _ (.inr (.inr (.inl rfl)))]
      exact hhdr.previous
    intro found hfound
    obtain ⟨rfl, rfl, rfl, rfl⟩ := hrec found hfound
    constructor
    · simp (disch := omega) only [happly, if_neg, if_true]
    · simp (disch := omega) only [happly, if_neg, if_true]
    · rw [happly, if_neg (by omega), if_pos rfl]
  · intro hne
    have hhead := headAddress_of_tiles hafter hne 0
    rw [hother _ (.inr (.inr (.inr (by omega))))]
    exact hseg.previous_head hne

theorem Tiles.mark (h : Tiles start (before ++ block :: after) finish)
    (hfits : ∀ found ∈ allocation, found.Fits block) :
    Tiles start (before ++ { block with allocation := allocation } :: after) finish := by
  obtain ⟨hpre, halign, -, hafter⟩ := tiles_split.mp h
  refine tiles_split.mpr ⟨hpre, halign, ?_, hafter⟩
  intro found hfound
  exact { hfits found hfound with }

/-! ## Merging -/

def Block.join (block follower : Block) : Block :=
  ⟨block.address, block.size + (headerSize + follower.size), none⟩

theorem mergeWithNext_of_last (hhdr : HeaderAt memory block previous 0) :
    mergeWithNext memory block.address = memory := by
  rw [mergeWithNext, hhdr.next]
  exact if_pos (.inl rfl)

section

variable (hhdr : HeaderAt memory block previous follower.address)
include hhdr

theorem mergeWithNext_of_used (hused : blockUsed memory follower.address) :
    mergeWithNext memory block.address = memory := by
  rw [mergeWithNext, hhdr.next]
  exact if_pos (.inr (.inl hused))

theorem mergeWithNext_apply {after : ℕ} (hfollower : HeaderAt memory follower block.address after)
    (hadjacent : block.stop = follower.address) (haddr : block.address ≠ 0)
    (hstop : follower.stop < 2 ^ 64) (hfree : follower.allocation = none) (address : ℕ) :
    mergeWithNext memory block.address address =
      if address = after + 24 ∧ after ≠ 0 then block.address
      else if address = block.address + 16 then after
      else if address = block.address then (block.join follower).size
      else memory address := by
  rw [Block.stop] at hstop hadjacent
  have hload : blockPayloadStart block.address = block.address + headerSize := wrap_eq (by omega)
  have hnext : follower.address ≠ 0 := by omega
  have hadd : checkedAdd (block.address + headerSize) block.size = some follower.address :=
    (checkedAdd_eq_some (by omega)).mpr ⟨by omega, hadjacent.symm⟩
  have hsum : wrap (block.size + (headerSize + follower.size)) =
      block.size + (headerSize + follower.size) := wrap_eq (by omega)
  have hcondition : ¬ (follower.address = 0 ∨ blockUsed memory follower.address ∨
      (!blocksAreAdjacent memory block.address follower.address)) := by
    rw [hfollower.used, hfree, blocksAreAdjacent, hload, hhdr.size, hadd]
    simp [haddr, hnext]
  rw [mergeWithNext, hhdr.next]
  simp only [if_neg hcondition, hhdr.size, hfollower.size, hsum, hfollower.next]
  by_cases hzero : after = 0
  · simp [hzero, setSize, setNext, update_apply, Block.join]
  · simp [hzero, setSize, setNext, setPrevious, update_apply, Block.join]

end

theorem Segment.merge (h : Segment memory previous (before ++ block :: follower :: after) 0)
    (htiles : Tiles start (before ++ block :: follower :: after) finish) (hstart : start ≠ 0)
    (hfinish : finish < 2 ^ 64) (hblk : block.allocation = none)
    (hfree : follower.allocation = none) :
    Segment (mergeWithNext memory block.address) previous
      (before ++ block.join follower :: after) 0 := by
  obtain ⟨hpre, _, -, hadjacent, _, -, hafter⟩ := tiles_split.mp htiles
  obtain ⟨-, hhdr, hfollower, _⟩ := segment_split.mp h
  have hle := hafter.le
  have hpos : block.address ≠ 0 := by
    have hge := hpre.le
    omega
  have happly := mergeWithNext_apply hhdr hfollower hadjacent.symm hpos (hle.trans_lt hfinish) hfree
  have hheaderSize : headerSize = 32 := rfl
  have hstop : block.stop = block.address + headerSize + block.size := rfl
  have hstop' : follower.stop = follower.address + headerSize + follower.size := rfl
  have hnext := headAddress_cases hafter
  refine Segment.replace [block, follower] [block.join follower] h hpre hafter ?_ ?_ rfl ?_ ?_
  · intro address hlt
    simp (disch := omega) only [happly, if_neg]
  · intro address hge hne
    simp (disch := omega) only [happly, if_neg]
  · have hjoin : (block.join follower).address = block.address := rfl
    refine ⟨⟨?_, ?_, ?_, ?_, nofun⟩, trivial⟩ <;> rw [hjoin]
    · simp (disch := omega) only [blockSize, happly, if_neg, if_true]
    · simp (disch := omega) only [blockUsed, happly, if_neg]
      have hused := hhdr.used
      rw [hblk] at hused
      exact hused
    · rw [blockNext, happly, if_neg (by omega), if_pos rfl]
      rfl
    · simp (disch := omega) only [blockPrevious, happly, if_neg]
      exact hhdr.previous
  · intro hne
    have hhead := headAddress_of_tiles hafter hne 0
    rw [happly, if_pos ⟨rfl, by omega⟩]
    rfl

theorem Tiles.merge (htiles : Tiles start (before ++ block :: follower :: after) finish) :
    Tiles start (before ++ block.join follower :: after) finish := by
  obtain ⟨hpre, halign, -, hadjacent, -, -, hafter⟩ := tiles_split.mp htiles
  have hstop : (block.join follower).stop = follower.stop := by
    simp only [Block.stop, Block.join] at hadjacent ⊢
    omega
  refine tiles_split.mpr ⟨hpre, halign, by rintro _ ⟨⟩, ?_⟩
  rw [hstop]
  exact hafter

theorem magicWords_mergeWithNext {after : ℕ}
    (hhdr : HeaderAt memory block previous follower.address)
    (hfollower : HeaderAt memory follower block.address after)
    (hadjacent : block.stop = follower.address) (haddr : block.address ≠ 0)
    (hstop : follower.stop < 2 ^ 64) (hfree : follower.allocation = none)
    (hsize : (block.join follower).size < allocationMagic)
    (halign : recordAlignment ∣ block.address) (hafter : recordAlignment ∣ after) :
    magicWords (mergeWithNext memory block.address) ⊆ magicWords memory := by
  rintro _ ⟨hdvd, hmagic⟩
  refine ⟨hdvd, ?_⟩
  rw [mergeWithNext_apply hhdr hfollower hadjacent haddr hstop hfree] at hmagic
  split at hmagic
  · exact absurd hmagic (ne_magic_of_aligned halign)
  split at hmagic
  · exact absurd hmagic (ne_magic_of_aligned hafter)
  split at hmagic
  · exact absurd hmagic (ne_magic_of_lt hsize)
  · exact hmagic

end Kurogane.Memory
