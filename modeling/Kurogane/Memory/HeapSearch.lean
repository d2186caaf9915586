/-
# Searching the block list

The loops of the allocator follow the links read from memory. On a heap whose
blocks tile it they visit exactly the blocks of the list.
-/

import Kurogane.Memory.HeapBlocks

namespace Kurogane.Memory

open Math

variable {memory : Words} {previous start stop fuel : ℕ} {blocks : List Block} {block : Block}

/-! ## Arithmetic -/

variable {value alignment size user consumed : ℕ}

theorem checkedAdd_eq_some {increment sum : ℕ} (hvalue : value < 2 ^ 64) :
    checkedAdd value increment = some sum ↔ value + increment < 2 ^ 64 ∧
      sum = value + increment := by
  rw [checkedAdd]
  split
  · simp only [reduceCtorEq, false_iff, not_and]
    omega
  simp only [Option.some.injEq]
  constructor
  · rintro rfl
    exact ⟨by omega, rfl⟩
  · exact fun h => h.2.symm

theorem wrap_eq (h : value < 2 ^ 64) : wrap value = value := Nat.mod_eq_of_lt h

theorem isPowerOfTwo_iff : isPowerOfTwo value ↔ value ≠ 0 ∧ value &&& (value - 1) = 0 := by
  simp [isPowerOfTwo]

theorem alignUp_eq_some {result : ℕ} (halignment : alignment < 2 ^ 64)
    (h : alignUp value alignment = some result) :
    alignment ∣ result ∧ value ≤ result ∧ result < value + alignment := by
  rw [alignUp] at h
  split at h
  · cases h
  rename_i hpower
  have hpower : isPowerOfTwo alignment := by simpa using hpower
  obtain ⟨hne, hand⟩ := isPowerOfTwo_iff.mp hpower
  obtain ⟨k, rfl⟩ := exists_two_pow_of_and_sub_one hne hand
  split at h
  · cases h
  cases h
  have hk : k < 64 := (Nat.pow_lt_pow_iff_right (by decide)).mp halignment
  rw [and_complement_mask hk.le (by omega)]
  have hdiv := Nat.div_add_mod (value + (2 ^ k - 1)) (2 ^ k)
  rw [mul_comm] at hdiv
  exact ⟨Nat.dvd_mul_left _ _, by omega, by omega⟩

/-! ## Layout -/

/-- Where an allocation of a block may lie, and how much of the block it uses up. -/
structure LayoutValid (block : Block) (requestedSize alignment user consumed : ℕ) : Prop where
  low : block.address + headerSize + allocationPrefixSize ≤ user
  aligned : alignment ∣ user
  recordAligned : recordAlignment ∣ user
  inside : user + requestedSize ≤ block.address + headerSize + consumed
  consumed_le : consumed ≤ block.size
  boundary : consumed = block.size ∨ recordAlignment ∣ block.address + headerSize + consumed

theorem consumedPayload_spec {payloadStart blockEnd requestedEnd : ℕ}
    (hend : blockEnd = payloadStart + size) (hlow : payloadStart ≤ requestedEnd)
    (hhigh : requestedEnd ≤ blockEnd) :
    requestedEnd ≤ payloadStart + consumedPayload payloadStart blockEnd requestedEnd size ∧
      consumedPayload payloadStart blockEnd requestedEnd size ≤ size ∧
      (consumedPayload payloadStart blockEnd requestedEnd size = size ∨
        recordAlignment ∣ payloadStart + consumedPayload payloadStart blockEnd
          requestedEnd size) := by
  rw [consumedPayload]
  cases hsplit : alignUp requestedEnd recordAlignment with
  | none =>
    dsimp only
    exact ⟨by omega, le_rfl, .inl rfl⟩
  | some splitAddress =>
    obtain ⟨halign, hle, -⟩ := alignUp_eq_some (by decide) hsplit
    dsimp only
    split
    · have hsum : payloadStart + (splitAddress - payloadStart) = splitAddress := by omega
      rw [hsum]
      exact ⟨hle, by omega, .inr halign⟩
    · exact ⟨by omega, le_rfl, .inl rfl⟩

theorem recordAlignment_dvd (hpower : isPowerOfTwo alignment)
    (hle : recordAlignment ≤ alignment) : recordAlignment ∣ alignment := by
  obtain ⟨hne, hand⟩ := isPowerOfTwo_iff.mp hpower
  obtain ⟨k, rfl⟩ := exists_two_pow_of_and_sub_one hne hand
  have hpow : (2 : ℕ) ^ 3 ≤ 2 ^ k := hle
  exact Nat.pow_dvd_pow 2 ((Nat.pow_le_pow_iff_right (by decide)).mp hpow)

theorem dvd_recordAlignment (hpower : isPowerOfTwo alignment)
    (hlt : alignment < recordAlignment) : alignment ∣ recordAlignment := by
  obtain ⟨hne, hand⟩ := isPowerOfTwo_iff.mp hpower
  obtain ⟨k, rfl⟩ := exists_two_pow_of_and_sub_one hne hand
  have hpow : 2 ^ k < (2 : ℕ) ^ 3 := hlt
  exact Nat.pow_dvd_pow 2 ((Nat.pow_lt_pow_iff_right (by decide)).mp hpow).le

theorem layoutValid_of_calculateLayout {requestedSize : ℕ}
    (hsize : blockSize memory block.address = block.size) (hstop : block.stop < 2 ^ 64)
    (halignment : alignment < 2 ^ 64) (hpower : isPowerOfTwo alignment)
    (h : calculateLayout memory block.address requestedSize alignment = some (user, consumed)) :
    LayoutValid block requestedSize alignment user consumed := by
  rw [Block.stop] at hstop
  have hload : blockPayloadStart block.address = block.address + headerSize := wrap_eq (by omega)
  simp only [calculateLayout, hload, hsize] at h
  split at h
  · cases h
  rename_i prefixEnd hpre
  obtain ⟨-, rfl⟩ := (checkedAdd_eq_some (by omega)).mp hpre
  split at h
  · cases h
  rename_i userAddress halign
  have heffective : (if alignment < recordAlignment then recordAlignment else alignment) <
    2 ^ 64 := by
    split
    · decide
    · exact halignment
  obtain ⟨hdvd, _, -⟩ := alignUp_eq_some heffective halign
  split at h
  · cases h
  rename_i requestedEnd hrequested
  split at h
  · cases h
  rename_i blockEnd hend
  obtain ⟨-, rfl⟩ := (checkedAdd_eq_some (by omega)).mp hend
  split at h
  · cases h
  rename_i hfits
  have huser : userAddress < 2 ^ 64 := by
    by_contra hlarge
    rw [checkedAdd] at hrequested
    split at hrequested
    · cases hrequested
    · cases hrequested
      omega
  obtain ⟨-, rfl⟩ := (checkedAdd_eq_some huser).mp hrequested
  cases h
  obtain ⟨hinside, hconsumed, hbound⟩ := consumedPayload_spec rfl (by omega : block.address +
    headerSize ≤ user + requestedSize) (not_lt.mp hfits)
  refine ⟨by omega, ?_, ?_, hinside, hconsumed, hbound⟩
  · split at hdvd
    next hsmall => exact (dvd_recordAlignment hpower hsmall).trans hdvd
    · exact hdvd
  split at hdvd
  · exact hdvd
  next hlarge => exact (recordAlignment_dvd hpower (not_lt.mp hlarge)).trans hdvd

/-! ## Traversals -/

/-- A header takes room, so the fuel lasts for every block. -/
theorem Tiles.length_le (h : Tiles start blocks stop) : blocks.length ≤ stop - start := by
  induction blocks generalizing start with
  | nil => exact Nat.zero_le _
  | cons _ _ ih =>
    obtain ⟨rfl, -, -, hrest⟩ := h
    have hlen := ih hrest
    have hle := hrest.le
    have hsize : headerSize = 32 := rfl
    rw [Block.stop] at hlen hle
    rw [List.length_cons]
    omega

section

variable (h : Segment memory previous blocks 0) (htiles : Tiles start blocks stop)
include h htiles

theorem blockIsKnown_iff (hstart : start ≠ 0) (hfuel : blocks.length ≤ fuel) (target : ℕ) :
    blockIsKnown memory target fuel (headAddress blocks 0) ↔
      ∃ block ∈ blocks, block.address = target := by
  induction blocks generalizing previous start fuel with
  | nil =>
    cases fuel <;> simp [blockIsKnown, headAddress]
  | cons block _ ih =>
    obtain ⟨rfl, -, -, hrest⟩ := htiles
    cases fuel with
    | zero => cases hfuel
    | succ =>
      have hstop : block.stop ≠ 0 := by
        rw [Block.stop]
        omega
      have hrest' := ih h.2 hrest hstop (Nat.le_of_succ_le_succ hfuel)
      rw [headAddress, blockIsKnown, if_neg hstart, h.1.next]
      by_cases heq : block.address = target
      · simp [heq]
      · rw [if_neg heq, hrest']
        simp [heq]

theorem findFreeBlock_eq_some {address : ℕ}
    (hfind : findFreeBlock memory size alignment fuel (headAddress blocks 0) =
      some (address, user, consumed)) :
    ∃ before block after, blocks = before ++ block :: after ∧ block.address = address ∧
      block.allocation = none ∧
      calculateLayout memory block.address size alignment = some (user, consumed) := by
  induction blocks generalizing previous start fuel with
  | nil =>
    cases fuel <;> simp [findFreeBlock, headAddress] at hfind
  | cons block rest ih =>
    obtain ⟨rfl, -, -, hrest⟩ := htiles
    cases fuel with
    | zero => simp [findFreeBlock] at hfind
    | succ =>
      rw [headAddress, findFreeBlock] at hfind
      split at hfind
      · cases hfind
      split at hfind
      next found layout hlayout =>
        cases hfind
        refine ⟨[], block, rest, rfl, rfl, ?_, ?_⟩
        · split at hlayout
          · cases hlayout
          next hfree =>
            rw [h.1.used] at hfree
            exact Option.not_isSome_iff_eq_none.mp hfree
        · split at hlayout
          · cases hlayout
          · exact hlayout
      · rw [h.1.next] at hfind
        obtain ⟨before, found, after, heq, hfound⟩ := ih h.2 hrest hfind
        exact ⟨block :: before, found, after, by rw [heq, List.cons_append], hfound⟩

theorem sumFree_eq (hstart : start ≠ 0) (hfuel : blocks.length ≤ fuel) :
    sumFree memory fuel (headAddress blocks 0) =
      (blocks.map fun block => if block.allocation.isSome then 0 else block.size).sum := by
  induction blocks generalizing previous start fuel with
  | nil =>
    cases fuel <;> simp [sumFree, headAddress]
  | cons block _ ih =>
    obtain ⟨rfl, -, -, hrest⟩ := htiles
    cases fuel with
    | zero => cases hfuel
    | succ =>
      have hstop : block.stop ≠ 0 := by
        rw [Block.stop]
        omega
      have hrest' := ih h.2 hrest hstop (Nat.le_of_succ_le_succ hfuel)
      rw [headAddress, sumFree, if_neg hstart, h.1.next, hrest', h.1.used, h.1.size,
        List.map_cons, List.sum_cons]

end

end Kurogane.Memory
