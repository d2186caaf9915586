/-
# The block list in memory

A heap is a list of blocks, free or allocated. `Segment` says how memory holds a
part of such a list: the header fields, the links in both directions and the
allocation prefixes. `Tiles` says that the blocks fill a range of addresses
without a gap. Both split at any block, so that a change inside one block leaves
the blocks in front of it and behind it as they are.
-/

import Kurogane.Math.Alignment
import Kurogane.Memory.Allocator
import Mathlib.Data.List.Chain

namespace Kurogane.Memory

open Math

/-! ## Blocks -/

structure Allocation where
  user : ℕ
  requested : ℕ

structure Block where
  address : ℕ
  size : ℕ
  allocation : Option Allocation

def Block.stop (block : Block) : ℕ := block.address + headerSize + block.size

/-- An allocation lies inside the payload, behind its prefix. -/
structure Allocation.Fits (allocation : Allocation) (block : Block) : Prop where
  low : block.address + headerSize + allocationPrefixSize ≤ allocation.user
  high : allocation.user + allocation.requested ≤ block.stop
  aligned : recordAlignment ∣ allocation.user
  requested_pos : 0 < allocation.requested

structure PrefixAt (memory : Words) (block : ℕ) (allocation : Allocation) : Prop where
  magic : memory (allocation.user - allocationPrefixSize) = allocationMagic
  block : memory (allocation.user - allocationPrefixSize + 8) = block
  requested : memory (allocation.user - allocationPrefixSize + 16) = allocation.requested

/-- Memory holds the header of a block, and the prefix of its allocation. -/
structure HeaderAt (memory : Words) (block : Block) (previous next : ℕ) : Prop where
  size : blockSize memory block.address = block.size
  used : blockUsed memory block.address = block.allocation.isSome
  next : blockNext memory block.address = next
  previous : blockPrevious memory block.address = previous
  record : ∀ allocation ∈ block.allocation, PrefixAt memory block.address allocation

def headAddress : List Block → ℕ → ℕ
  | [], default => default
  | block :: _, _ => block.address

def lastAddress : List Block → ℕ → ℕ
  | [], default => default
  | block :: rest, _ => lastAddress rest block.address

/-- Memory holds a part of the block list between two neighbours. -/
def Segment (memory : Words) : ℕ → List Block → ℕ → Prop
  | _, [], _ => True
  | previous, block :: rest, next =>
    HeaderAt memory block previous (headAddress rest next) ∧
      Segment memory block.address rest next

/-- The blocks fill a range of addresses; headers are aligned. -/
def Tiles : ℕ → List Block → ℕ → Prop
  | start, [], stop => start = stop
  | start, block :: rest, stop =>
    block.address = start ∧ recordAlignment ∣ start ∧
      (∀ allocation ∈ block.allocation, allocation.Fits block) ∧ Tiles block.stop rest stop

variable {memory memory' : Words} {previous next start stop : ℕ} {blocks before after : List Block}
  {block : Block}

/-! ## Splitting and framing -/

theorem headAddress_append (xs ys : List Block) (default : ℕ) :
    headAddress (xs ++ ys) default = headAddress xs (headAddress ys default) := by
  cases xs <;> rfl

theorem segment_append (xs ys : List Block) (previous : ℕ) :
    Segment memory previous (xs ++ ys) next ↔
      Segment memory previous xs (headAddress ys next) ∧
        Segment memory (lastAddress xs previous) ys next := by
  induction xs generalizing previous with
  | nil => simp [Segment, lastAddress]
  | cons x xs ih =>
    simp only [List.cons_append, Segment, lastAddress, ih, headAddress_append, and_assoc]

theorem tiles_append (xs ys : List Block) (start : ℕ) :
    Tiles start (xs ++ ys) stop ↔ ∃ middle, Tiles start xs middle ∧ Tiles middle ys stop := by
  induction xs generalizing start with
  | nil => simp [Tiles]
  | cons x xs ih =>
    simp only [List.cons_append, Tiles, ih]
    constructor
    · rintro ⟨haddr, halign, hfits, middle, hxs, hys⟩
      exact ⟨middle, ⟨haddr, halign, hfits, hxs⟩, hys⟩
    · rintro ⟨middle, ⟨haddr, halign, hfits, hxs⟩, hys⟩
      exact ⟨haddr, halign, hfits, middle, hxs, hys⟩

section

variable (h : Tiles start blocks stop)
include h

theorem Tiles.le : start ≤ stop := by
  induction blocks generalizing start with
  | nil => exact h.le
  | cons _ _ ih =>
    obtain ⟨rfl, -, -, hrest⟩ := h
    have hle := ih hrest
    rw [Block.stop] at hle
    omega

theorem Tiles.mem (hmem : block ∈ blocks) :
    start ≤ block.address ∧ block.stop ≤ stop ∧ recordAlignment ∣ block.address ∧
      ∀ allocation ∈ block.allocation, allocation.Fits block := by
  induction blocks generalizing start with
  | nil => cases hmem
  | cons _ _ ih =>
    obtain ⟨rfl, halign, hfits, hrest⟩ := h
    rcases List.mem_cons.mp hmem with rfl | hmem
    · exact ⟨le_rfl, hrest.le, halign, hfits⟩
    · obtain ⟨hle, hstop, hrest'⟩ := ih hrest hmem
      rw [Block.stop] at hle
      exact ⟨by omega, hstop, hrest'⟩

theorem Tiles.pairwise : blocks.Pairwise fun left right => left.stop ≤ right.address := by
  induction blocks generalizing start with
  | nil => exact List.Pairwise.nil
  | cons _ _ ih =>
    obtain ⟨rfl, -, -, hrest⟩ := h
    exact List.Pairwise.cons (fun block hmem => (hrest.mem hmem).1) (ih hrest)

end

theorem Allocation.Fits.prefix_mem {allocation : Allocation} (h : allocation.Fits block) {i : ℕ}
    (hi : i < allocationPrefixSize) :
    block.address + headerSize ≤ allocation.user - allocationPrefixSize + i ∧
      allocation.user - allocationPrefixSize + i < block.stop := by
  have hlow := h.low
  have hhigh := h.high
  omega

variable {previous' : ℕ}

theorem HeaderAt.relink (h : HeaderAt memory block previous next)
    (hhdr : ∀ i < 24, memory' (block.address + i) = memory (block.address + i))
    (hprev : memory' (block.address + 24) = previous')
    (hheader : ∀ allocation ∈ block.allocation, ∀ i < allocationPrefixSize,
      memory' (allocation.user - allocationPrefixSize + i) =
        memory (allocation.user - allocationPrefixSize + i)) :
    HeaderAt memory' block previous' next := by
  have hzero : memory' block.address = memory block.address := hhdr 0 (by decide)
  refine ⟨?_, ?_, ?_, hprev, fun allocation halloc => ?_⟩
  · rw [blockSize, hzero]
    exact h.size
  · rw [blockUsed, hhdr 8 (by decide)]
    exact h.used
  · rw [blockNext, hhdr 16 (by decide)]
    exact h.next
  have hrec := h.record allocation halloc
  have hsame := hheader allocation halloc
  have hmagic := hsame 0 (by decide)
  exact ⟨hmagic.trans hrec.magic, (hsame 8 (by decide)).trans hrec.block,
    (hsame 16 (by decide)).trans hrec.requested⟩

theorem HeaderAt.congr (h : HeaderAt memory block previous next)
    (hfits : ∀ allocation ∈ block.allocation, allocation.Fits block)
    (hsame : ∀ address, block.address ≤ address → address < block.stop →
      memory' address = memory address) : HeaderAt memory' block previous next := by
  have hstop : block.stop = block.address + 32 + block.size := rfl
  refine h.relink (fun i hi => hsame _ (by omega) (by omega))
    ((hsame _ (by omega) (by omega)).trans h.previous) fun allocation halloc i hi => ?_
  obtain ⟨_, hhigh⟩ := (hfits allocation halloc).prefix_mem hi
  exact hsame _ (by omega) hhigh

theorem Segment.congr (h : Segment memory previous blocks next) (htiles : Tiles start blocks stop)
    (hsame : ∀ address, start ≤ address → address < stop → memory' address = memory address) :
    Segment memory' previous blocks next := by
  induction blocks generalizing previous start with
  | nil => trivial
  | cons block _ ih =>
    obtain ⟨rfl, -, hfits, hrest⟩ := htiles
    have hle := hrest.le
    have hstop : block.address ≤ block.stop := by
      rw [Block.stop]
      omega
    refine ⟨h.1.congr hfits fun address hlow hhigh => hsame address hlow (by omega), ?_⟩
    exact ih h.2 hrest fun address hlow hhigh => hsame address (by omega) hhigh

theorem segment_split :
    Segment memory previous (before ++ block :: after) next ↔
      Segment memory previous before block.address ∧
        HeaderAt memory block (lastAddress before previous) (headAddress after next) ∧
        Segment memory block.address after next := by
  rw [segment_append]
  rfl

theorem tiles_split :
    Tiles start (before ++ block :: after) stop ↔
      Tiles start before block.address ∧ recordAlignment ∣ block.address ∧
        (∀ allocation ∈ block.allocation, allocation.Fits block) ∧
        Tiles block.stop after stop := by
  rw [tiles_append]
  constructor
  · rintro ⟨_, hpre, rfl, halign, hfits, hafter⟩
    exact ⟨hpre, halign, hfits, hafter⟩
  · rintro ⟨hpre, halign, hfits, hafter⟩
    exact ⟨_, hpre, rfl, halign, hfits, hafter⟩

theorem Segment.relink (h : Segment memory previous blocks next)
    (htiles : Tiles start blocks stop)
    (hsame : ∀ address, start ≤ address → address < stop → address ≠ headAddress blocks 0 + 24 →
      memory' address = memory address)
    (hprev : blocks ≠ [] → memory' (headAddress blocks 0 + 24) = previous') :
    Segment memory' previous' blocks next := by
  cases blocks with
  | nil => trivial
  | cons block =>
    obtain ⟨rfl, -, hfits, hrest⟩ := htiles
    obtain ⟨hhdr, hseg⟩ := h
    have hle := hrest.le
    have hstop : block.address + headerSize ≤ block.stop := by
      rw [Block.stop]
      omega
    have hsize : headerSize = 32 := rfl
    have hother : ∀ address, block.address ≤ address → address < stop →
        address ≠ block.address + 24 → memory' address = memory address := hsame
    refine ⟨hhdr.relink (fun i hi => hother _ (by omega) (by omega) (by omega))
      (hprev (List.cons_ne_nil _ _)) fun allocation halloc i hi => ?_,
      hseg.congr hrest fun address hlow hhigh => hother address (by omega) hhigh (by omega)⟩
    obtain ⟨hlow, hhigh⟩ := (hfits allocation halloc).prefix_mem hi
    exact hother _ (by omega) (by omega) (by omega)

end Kurogane.Memory
