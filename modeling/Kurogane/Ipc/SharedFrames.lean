/-
# Frames of shared-memory objects

Taking frames for an object and giving them back, against the ledger of frames. The
frames outstanding stay distinct and in use; a creation that runs out of frames leaves
the allocator as it was.
-/

import Kurogane.Ipc.SharedMemory
import Mathlib.Order.CompletePartialOrder

namespace Kurogane.Ipc.SharedMemory

open Math Memory Function Multiset

variable {region : Region} {memory : Frames region} {world : World region} {frame : Word}

/-! ## Frames in use -/

def Held (memory : Frames region) (frame : Word) : Prop :=
  ∃ index, region.frameIndexForAddress frame = some index ∧ region.reserved index = false ∧
    memory.bitmap index = true

instance (memory : Frames region) (frame : Word) : Decidable (Held memory frame) :=
  match hindex : region.frameIndexForAddress frame with
  | none => isFalse (by rintro ⟨index, hsome, -⟩; rw [hindex] at hsome; cases hsome)
  | some index =>
    decidable_of_iff (region.reserved index = false ∧ memory.bitmap index = true)
      ⟨fun h => ⟨index, hindex, h⟩, by
        rintro ⟨_, hother, h⟩
        rw [hindex] at hother
        cases hother
        exact h⟩

/-- The frames outstanding are distinct, and the allocator counts them as in use. -/
structure Accounted (memory : Frames region) (events : List (LedgerEvent Word)) : Prop where
  once : ReturnedOnce events
  nodup : (outstanding events).Nodup
  held : ∀ frame ∈ outstanding events, Held memory frame

theorem Held.mem_inUse (h : Held memory frame) : frame ∈ memory.inUse := by
  obtain ⟨_, hidx, -, hmark⟩ := h
  intro other hother
  rw [hidx] at hother
  cases hother
  exact hmark

theorem Held.mark (h : Held memory frame) (index : ℕ) : Held (memory.mark index) frame := by
  obtain ⟨found, hfound, hresv, hmark⟩ := h
  refine ⟨found, hfound, hresv, ?_⟩
  rw [Frames.bitmap_mark, update_apply]
  split
  · rfl
  · exact hmark

variable {index : ℕ}

theorem held_mark (hidx : index < region.frameCount) (hfree : memory.bitmap index = false) :
    Held (memory.mark index) (region.frameAddress index) := by
  refine ⟨index, Region.frameIndexForAddress_frameAddress hidx,
    Frames.not_reserved_of_free hfree, ?_⟩
  rw [Frames.bitmap_mark, update_self]

theorem Held.tryFreeFrame (h : Held memory frame) :
    (tryFreeFrame memory frame).inUse = memory.inUse \ {frame} ∧
      ∀ other ≠ frame, Held memory other → Held (tryFreeFrame memory frame) other := by
  obtain ⟨index, hidx, hresv, hmark⟩ := h
  obtain ⟨hlt, hframe⟩ := Region.frameAddress_of_index hidx
  have hfreed : Memory.tryFreeFrame memory frame = memory.unmark index hresv := by
    rw [Memory.tryFreeFrame, hidx]
    dsimp only
    rw [dif_neg]
    rintro (hskip | hskip)
    · rw [hresv] at hskip
      cases hskip
    · rw [hmark] at hskip
      cases hskip
  rw [hfreed]
  refine ⟨by rw [Frames.inUse_unmark memory hlt, hframe], fun other hne hother => ?_⟩
  obtain ⟨found, hfound, hresv', hmark'⟩ := hother
  refine ⟨found, hfound, hresv', ?_⟩
  have hidx' : found ≠ index := by
    rintro rfl
    exact hne ((Region.frameAddress_of_index hfound).2.trans hframe.symm)
  rw [Frames.bitmap_unmark, update_of_ne hidx']
  exact hmark'

/-! ## Taking and freeing -/

def World.markFrame (world : World region) (index : ℕ) : World region :=
  { world with
    memory := world.memory.mark index
    events := .taken (region.frameAddress index) :: world.events }

theorem takeFrame_cases (world : World region) :
    world.takeFrame = (none, world) ∨
      ∃ index < region.frameCount, world.memory.bitmap index = false ∧
        world.takeFrame = (some (region.frameAddress index), world.markFrame index) := by
  rw [World.takeFrame]
  rcases allocFrame_cases world.memory with hnone | ⟨index, hlt, hfree, hsome⟩
  · rw [hnone]
    exact .inl rfl
  · rw [hsome]
    exact .inr ⟨index, hlt, hfree, rfl⟩

theorem Accounted.markFrame (h : Accounted world.memory world.events)
    (hidx : index < region.frameCount) (hfree : world.memory.bitmap index = false) :
    Accounted (world.markFrame index).memory (world.markFrame index).events := by
  refine ⟨h.once, ?_, ?_⟩
  · refine nodup_cons.mpr ⟨fun hmem => ?_, h.nodup⟩
    exact Frames.not_mem_inUse_of_free hfree hidx (h.held _ hmem).mem_inUse
  intro frame hframe
  rcases mem_cons.mp hframe with rfl | hframe
  · exact held_mark hidx hfree
  · exact (h.held frame hframe).mark index

theorem Accounted.freeFrame (h : Accounted world.memory world.events)
    (hframe : frame ∈ outstanding world.events) :
    Accounted (world.freeFrame frame).memory (world.freeFrame frame).events := by
  refine ⟨⟨hframe, h.once⟩, h.nodup.erase frame, fun other hother => ?_⟩
  obtain ⟨hne, hother⟩ := (h.nodup.mem_erase_iff).mp hother
  exact (h.held frame hframe).tryFreeFrame.2 other hne (h.held other hother)

theorem freeFrames_frame (world : World region) (frames : List Word) :
    (world.freeFrames frames).initialized = world.initialized ∧
      (world.freeFrames frames).objects = world.objects ∧
      (world.freeFrames frames).events = returnAll world.events frames := by
  induction frames generalizing world with
  | nil => exact ⟨rfl, rfl, rfl⟩
  | cons frame _ ih => exact ih (world.freeFrame frame)

theorem Accounted.freeFrames (h : Accounted world.memory world.events) {frames : List Word}
    (hframes : (frames : Multiset Word) ≤ outstanding world.events) :
    Accounted (world.freeFrames frames).memory (world.freeFrames frames).events ∧
      (world.freeFrames frames).memory.inUse = world.memory.inUse \ {frame | frame ∈ frames} := by
  induction frames generalizing world with
  | nil =>
    refine ⟨h, ?_⟩
    simp [World.freeFrames]
  | cons frame rest ih =>
    rw [← cons_coe] at hframes
    have hmem : frame ∈ outstanding world.events := mem_of_le hframes (mem_cons_self _ _)
    have hrest : (rest : Multiset Word) ≤ outstanding (world.freeFrame frame).events := by
      rw [← erase_cons_head frame (rest : Multiset Word)]
      exact erase_le_erase frame hframes
    obtain ⟨hacct, hinUse⟩ := ih (h.freeFrame hmem) hrest
    refine ⟨hacct, ?_⟩
    rw [World.freeFrames, hinUse]
    change (tryFreeFrame world.memory frame).inUse \ _ = _
    rw [(h.held frame hmem).tryFreeFrame.1, Set.sdiff_sdiff]
    congr 1
    ext other
    simp

inductive Taken (world : World region) (taken : List Word) (count : ℕ) :
    Option (List Word) × World region → Prop where
  | all (frames new : List Word) (next : World region) (hframes : frames = taken ++ new)
      (hcount : new.length = count)
      (hevents : outstanding next.events = (new : Multiset Word) + outstanding world.events)
      (haccounted : Accounted next.memory next.events)
      (hinitialized : next.initialized = world.initialized)
      (hobjects : next.objects = world.objects) : Taken world taken count (some frames, next)
  | none (next : World region)
      (hevents : outstanding next.events = outstanding world.events - (taken : Multiset Word))
      (haccounted : Accounted next.memory next.events)
      (hinUse : next.memory.inUse = world.memory.inUse \ {frame | frame ∈ taken})
      (hinitialized : next.initialized = world.initialized)
      (hobjects : next.objects = world.objects) : Taken world taken count (none, next)

theorem takeFrames_spec (world : World region) (taken : List Word) (count : ℕ)
    (h : Accounted world.memory world.events)
    (htaken : (taken : Multiset Word) ≤ outstanding world.events) :
    Taken world taken count (world.takeFrames taken count) := by
  induction count generalizing world taken with
  | zero =>
    refine .all taken [] world (List.append_nil taken).symm rfl ?_ h rfl rfl
    rw [coe_nil, zero_add]
  | succ count ih =>
    rw [World.takeFrames]
    rcases takeFrame_cases world with hnone | ⟨index, hlt, hfree, hsome⟩
    · rw [hnone]
      obtain ⟨hacct, hinUse⟩ := h.freeFrames htaken
      obtain ⟨hinit, hobjects, hevs⟩ := freeFrames_frame world taken
      refine .none _ ?_ hacct hinUse hinit hobjects
      rw [hevs, outstanding_returnAll]
    rw [hsome]
    dsimp only
    have hle : ((taken ++ [region.frameAddress index] : List Word) : Multiset Word) ≤
        outstanding (world.markFrame index).events := by
      rw [← coe_add, add_comm, coe_singleton, singleton_add]
      exact cons_le_cons _ htaken
    have htakes := ih _ _ (h.markFrame hlt hfree) hle
    generalize (world.markFrame index).takeFrames (taken ++ [region.frameAddress index]) count =
      result at htakes
    cases htakes with
    | all frames new next hframes hcount hevs hacct hinit hobjects =>
      rw [List.append_assoc] at hframes
      refine .all frames (region.frameAddress index :: new) next hframes (by simp [hcount]) ?_
        hacct hinit hobjects
      rw [hevs]
      change _ + (_ ::ₘ outstanding world.events) = _
      rw [add_cons, ← cons_coe, cons_add]
    | none next hevs hacct hinUse hinit hobjects =>
      refine .none next ?_ hacct ?_ hinit hobjects
      · rw [hevs]
        change (_ ::ₘ outstanding world.events) - _ = _
        rw [← coe_add, add_comm, coe_singleton, singleton_add, sub_cons, erase_cons_head]
      have hnew := Frames.not_mem_inUse_of_free hfree hlt
      rw [hinUse]
      change (world.memory.mark index).inUse \ _ = _
      rw [Frames.inUse_mark _ hlt]
      ext frame
      simp only [Set.mem_sdiff, Set.mem_insert_iff, Set.mem_ofPred_eq, List.mem_append,
        List.mem_singleton, not_or]
      constructor
      · rintro ⟨rfl | hframe, hnot, hne⟩
        · exact absurd rfl hne
        · exact ⟨hframe, hnot⟩
      · rintro ⟨hframe, hnot⟩
        exact ⟨.inr hframe, hnot, by rintro rfl; exact hnew hframe⟩

end Kurogane.Ipc.SharedMemory
