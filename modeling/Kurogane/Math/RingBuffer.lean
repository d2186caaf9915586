/-
# Ring buffers

A queue in an array of fixed capacity, with the positions of its front and of the next
free slot. The contents are the items from the front on, around the end of the array.
-/

import Mathlib.Data.List.GetD
import Mathlib.Data.Nat.ModEq

namespace Kurogane.Math

open Function List

structure Ring (α : Type) (capacity : ℕ) where
  slots : ℕ → α
  head : ℕ
  tail : ℕ
  count : ℕ
  head_lt : head < capacity
  count_le : count ≤ capacity
  tail_eq : tail = (head + count) % capacity

namespace Ring

variable {α : Type} {capacity : ℕ} (ring : Ring α capacity)

def contents : List α :=
  (List.range ring.count).map fun offset => ring.slots ((ring.head + offset) % capacity)

def rewind (slots : ℕ → α) (h : 0 < capacity) : Ring α capacity where
  slots := slots
  head := 0
  tail := 0
  count := 0
  head_lt := h
  count_le := Nat.zero_le capacity
  tail_eq := (Nat.zero_mod capacity).symm

def push (item : α) (h : ring.count < capacity) : Ring α capacity where
  slots := Function.update ring.slots ring.tail item
  head := ring.head
  tail := (ring.tail + 1) % capacity
  count := ring.count + 1
  head_lt := ring.head_lt
  count_le := h
  tail_eq := by rw [ring.tail_eq, Nat.mod_add_mod, Nat.add_assoc]

/-- Step over the front item and leave `fill` in its slot. -/
def pop (fill : α) (h : ring.count ≠ 0) : Ring α capacity where
  slots := Function.update ring.slots ring.head fill
  head := (ring.head + 1) % capacity
  tail := ring.tail
  count := ring.count - 1
  head_lt := Nat.mod_lt _ (Nat.zero_lt_of_lt ring.head_lt)
  count_le := Nat.le_trans (Nat.sub_le _ _) ring.count_le
  tail_eq := by
    have hsum : ring.head + 1 + (ring.count - 1) = ring.head + ring.count := by omega
    rw [ring.tail_eq, Nat.mod_add_mod, hsum]

/-- Items at the start of the array, followed by `blank`. -/
def ofList (blank : α) (items : List α) (h : items.length ≤ capacity) (hpos : 0 < capacity) :
    Ring α capacity where
  slots := fun index => items.getD index blank
  head := 0
  tail := items.length % capacity
  count := items.length
  head_lt := hpos
  count_le := h
  tail_eq := by rw [Nat.zero_add]

variable {ring}

@[simp]
theorem length_contents : ring.contents.length = ring.count := by
  rw [contents, length_map, length_range]

theorem contents_eq_nil : ring.contents = [] ↔ ring.count = 0 := by
  rw [← length_eq_zero_iff, length_contents]

@[simp]
theorem contents_rewind (slots : ℕ → α) (h : 0 < capacity) :
    (rewind slots h : Ring α capacity).contents = [] := rfl

theorem position_ne {start first second : ℕ} (hlt : first < second)
    (hround : second < first + capacity) :
    (start + first) % capacity ≠ (start + second) % capacity := by
  intro heq
  have hdvd : capacity ∣ start + second - (start + first) := (Nat.modEq_iff_dvd' (by omega)).mp heq
  have hle := Nat.le_of_dvd (by omega) hdvd
  omega

theorem contents_push (item : α) (h : ring.count < capacity) :
    (ring.push item h).contents = ring.contents ++ [item] := by
  have hlast : (ring.head + ring.count) % capacity = ring.tail := ring.tail_eq.symm
  change (List.range (ring.count + 1)).map _ = _
  rw [range_succ, map_append, map_singleton, contents]
  congr 1
  · refine map_congr_left fun offset hoff => ?_
    have hlt := mem_range.mp hoff
    refine update_of_ne ?_ _ _
    rw [← hlast]
    exact position_ne hlt (by omega)
  · change [update ring.slots ring.tail item ((ring.head + ring.count) % capacity)] = _
    rw [hlast, update_self]

theorem contents_pop (fill : α) (h : ring.count ≠ 0) :
    ring.contents = ring.slots ring.head :: (ring.pop fill h).contents := by
  have hcount : ring.count = ring.count - 1 + 1 := by omega
  have hhead : (ring.head + 0) % capacity = ring.head := by
    rw [add_zero, Nat.mod_eq_of_lt ring.head_lt]
  rw [contents, hcount, range_succ_eq_map, map_cons, map_map, hhead]
  congr 1
  refine map_congr_left fun offset hoff => ?_
  have hlt := mem_range.mp hoff
  have hle := ring.count_le
  change ring.slots ((ring.head + (offset + 1)) % capacity) =
    update ring.slots ring.head fill (((ring.head + 1) % capacity + offset) % capacity)
  have hposition : ((ring.head + 1) % capacity + offset) % capacity =
      (ring.head + (offset + 1)) % capacity := by
    rw [Nat.mod_add_mod]
    congr 1
    omega
  rw [hposition, update_of_ne]
  nth_rewrite 2 [← hhead]
  exact (position_ne (by omega) (by omega)).symm

@[simp]
theorem contents_ofList (blank : α) (items : List α) (h : items.length ≤ capacity)
    (hpos : 0 < capacity) : (ofList blank items h hpos).contents = items := by
  refine ext_getElem (by rw [length_contents]; rfl) fun index hidx hidx' => ?_
  have hlt : (0 + index) % capacity = index := by
    rw [zero_add, Nat.mod_eq_of_lt (by omega)]
  simp only [contents, getElem_map, getElem_range]
  change items.getD ((0 + index) % capacity) blank = _
  rw [hlt, getD_eq_getElem _ _ hidx']

end Ring

end Kurogane.Math
