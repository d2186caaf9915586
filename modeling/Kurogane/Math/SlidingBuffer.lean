/-
# Sliding buffers

A queue in an array whose front moves on as items are taken. The items are moved back to
the start of the array only when room is needed at its end.
-/

import Mathlib.Data.List.Basic

namespace Kurogane.Math

open List

structure Sliding (α : Type) (capacity : ℕ) where
  slots : ℕ → α
  offset : ℕ
  length : ℕ
  within : offset + length ≤ capacity

namespace Sliding

variable {α : Type} {capacity : ℕ} (buffer : Sliding α capacity)

def contents : List α := (range buffer.length).map fun index =>
    buffer.slots (buffer.offset + index)

def empty (fill : α) : Sliding α capacity := ⟨fun _ => fill, 0, 0, Nat.zero_le capacity⟩

def compact : Sliding α capacity where
  slots index := if index < buffer.length then buffer.slots (buffer.offset + index)
    else buffer.slots index
  offset := 0
  length := buffer.length
  within := by
    have hwithin := buffer.within
    omega

/-- The buffer that has room for more items, as far as possible. -/
def makeRoom (more : ℕ) : Sliding α capacity :=
  if buffer.offset > 0 ∧ buffer.offset + buffer.length + more > capacity then buffer.compact
  else buffer

def extend (items : List α) (h : buffer.offset + buffer.length + items.length ≤ capacity) :
    Sliding α capacity where
  slots index :=
    if index < buffer.offset + buffer.length then buffer.slots index
    else items.getD (index - (buffer.offset + buffer.length)) (buffer.slots index)
  offset := buffer.offset
  length := buffer.length + items.length
  within := by rwa [← Nat.add_assoc]

/-- Write items behind the last one, if there is room for all of them. -/
def append (items : List α) : Bool × Sliding α capacity :=
  if items = [] then (true, buffer)
  else
    let roomy := buffer.makeRoom items.length
    if h : roomy.offset + roomy.length + items.length ≤ capacity then (true, roomy.extend items h)
    else (false, roomy)

/-- Take items from the front, at most `limit`. -/
def drain (limit : ℕ) : List α × Sliding α capacity :=
  let amount := min buffer.length limit
  (buffer.contents.take amount,
    { slots := buffer.slots
      offset := if buffer.length - amount = 0 then 0 else buffer.offset + amount
      length := buffer.length - amount
      within := by
        have hwithin := buffer.within
        split <;> omega })

variable {buffer}

theorem length_contents : buffer.contents.length = buffer.length := by
  rw [contents, length_map, length_range]

theorem contents_compact : buffer.compact.contents = buffer.contents := by
  refine map_congr_left fun index hidx => ?_
  have hlt : 0 + index < buffer.length := by
    rw [Nat.zero_add]
    exact mem_range.mp hidx
  change (if 0 + index < buffer.length then buffer.slots (buffer.offset + (0 + index)) else _) = _
  rw [if_pos hlt, Nat.zero_add]

theorem contents_extend {items : List α}
    (h : buffer.offset + buffer.length + items.length ≤ capacity) :
    (buffer.extend items h).contents = buffer.contents ++ items := by
  have hitems : items = (range items.length).map fun index =>
      (buffer.extend items h).slots (buffer.offset + (buffer.length + index)) := by
    refine ext_getElem (by simp) fun index hidx _ => ?_
    simp only [extend, ← Nat.add_assoc, getElem_map, getElem_range]
    grind
  have hfront : buffer.contents = (range buffer.length).map fun index =>
      (buffer.extend items h).slots (buffer.offset + index) := by
    refine map_congr_left fun index hidx => ?_
    have hlt := mem_range.mp hidx
    simp [extend, hlt]
  calc (buffer.extend items h).contents = (range (buffer.length + items.length)).map fun index =>
          (buffer.extend items h).slots (buffer.offset + index) := rfl
    _ = buffer.contents ++ (range items.length).map fun index =>
          (buffer.extend items h).slots (buffer.offset + (buffer.length + index)) := by
        rw [range_add, map_append, map_map, ← hfront]
        rfl
    _ = buffer.contents ++ items := by rw [← hitems]

theorem contents_makeRoom (more : ℕ) : (buffer.makeRoom more).contents = buffer.contents := by
  rw [makeRoom]
  split
  · exact contents_compact
  · rfl

theorem length_makeRoom (more : ℕ) : (buffer.makeRoom more).length = buffer.length := by
  rw [← length_contents, contents_makeRoom, length_contents]

theorem room_makeRoom (more : ℕ) :
    (buffer.makeRoom more).offset + (buffer.makeRoom more).length + more ≤ capacity ↔
      buffer.length + more ≤ capacity := by
  rw [length_makeRoom, makeRoom]
  split
  · change 0 + buffer.length + more ≤ capacity ↔ _
    omega
  · omega

theorem append_cases (buffer : Sliding α capacity) (items : List α) :
    (buffer.length + items.length ≤ capacity ∧ (buffer.append items).1 = true ∧
      (buffer.append items).2.contents = buffer.contents ++ items) ∨
    (capacity < buffer.length + items.length ∧ (buffer.append items).1 = false ∧
      (buffer.append items).2.contents = buffer.contents) := by
  have hin := buffer.within
  unfold append
  by_cases hitems : items = []
  · rw [if_pos hitems]
    refine .inl ⟨?_, rfl, ?_⟩
    · rw [hitems, length_nil]
      omega
    · rw [hitems, append_nil]
  rw [if_neg hitems]
  dsimp only
  split
  next hroom =>
    refine .inl ⟨(room_makeRoom _).mp hroom, rfl, ?_⟩
    rw [contents_extend, contents_makeRoom]
  next hfull =>
    exact Or.inr ⟨Nat.not_le.mp ((room_makeRoom _).not.mp hfull), rfl, contents_makeRoom _⟩

theorem contents_drain (limit : ℕ) :
    (buffer.drain limit).1 ++ (buffer.drain limit).2.contents = buffer.contents := by
  have hrest : (buffer.drain limit).2.contents =
      buffer.contents.drop (min buffer.length limit) := by
    refine ext_getElem ?_ fun index hidx _ => ?_
    · rw [length_contents, length_drop, length_contents]
      rfl
    have hleft : index < buffer.length - min buffer.length limit := by
      rwa [length_contents] at hidx
    simp only [contents, drain, getElem_map, getElem_range, getElem_drop]
    rw [if_neg (by omega), Nat.add_assoc]
  rw [hrest]
  exact take_append_drop _ _

end Sliding

end Kurogane.Math
