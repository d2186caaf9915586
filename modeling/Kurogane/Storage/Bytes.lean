/-
# Byte buffers and little-endian fields

A buffer is read by offset, and only the offsets below its size ever matter, so
two buffers are compared on the range somebody looks at. Integer fields are
stored least significant byte first. The rules say what a field holds after a
store, and that a store elsewhere leaves it alone.
-/

import Mathlib.Data.List.GetD
import Mathlib.Tactic.Ring

namespace Kurogane.Storage

open List

/-- The contents of a byte buffer. -/
abbrev Buffer := ℕ → UInt8

variable {bytes' : Buffer} {size size' offset width offset' i : ℕ}

namespace Buffer

def zero : Buffer := fun _ => 0

def slice (bytes : Buffer) (offset : ℕ) : Buffer := fun i => bytes (offset + i)

/-- Overwrite the `size` bytes from `offset` on with the first bytes of `content`. -/
def splice (bytes : Buffer) (offset size : ℕ) (content : Buffer) : Buffer :=
  fun i => if offset ≤ i ∧ i < offset + size then content (i - offset) else bytes i

/-- The unsigned integer held by the `width` bytes from `offset` on. -/
def load (bytes : Buffer) (offset : ℕ) : ℕ → ℕ
  | 0 => 0
  | width + 1 => (bytes offset).toNat + 256 * bytes.load (offset + 1) width

/-- Store `value` in the `width` bytes from `offset` on, dropping what does not fit. -/
def store (bytes : Buffer) (offset width value : ℕ) : Buffer :=
  fun i =>
    if offset ≤ i ∧ i < offset + width then UInt8.ofNat (value / 256 ^ (i - offset))
    else bytes i

/-- Agreement of two buffers on their first `size` bytes. -/
def AgreeBelow (size : ℕ) (bytes bytes' : Buffer) : Prop :=
  ∀ i < size, bytes i = bytes' i

theorem AgreeBelow.mono {bytes : Buffer} (hsize : size ≤ size')
    (h : AgreeBelow size' bytes bytes') : AgreeBelow size bytes bytes' :=
  fun i hi => h i (lt_of_lt_of_le hi hsize)

theorem AgreeBelow.symm {bytes : Buffer}
    (h : AgreeBelow size bytes bytes') : AgreeBelow size bytes' bytes :=
  fun i hi => (h i hi).symm

theorem load_lt (bytes : Buffer) (offset width : ℕ) : bytes.load offset width < 256 ^ width := by
  induction width generalizing offset with
  | zero => simp [load]
  | succ _ ih =>
    have hrest := ih (offset + 1)
    have hbyte : (bytes offset).toNat < 256 := (bytes offset).toNat_lt
    rw [load, pow_succ]
    omega

theorem load_congr {bytes : Buffer}
    (h : ∀ i, offset ≤ i → i < offset + width → bytes i = bytes' i) :
    bytes.load offset width = bytes'.load offset width := by
  induction width generalizing offset with
  | zero => rfl
  | succ _ ih =>
    rw [load, load, h offset (le_rfl) (by omega), ih]
    intro i hlow hhigh
    exact h i (by omega) (by omega)

theorem load_congr_of_agreeBelow {bytes : Buffer} (h : AgreeBelow size bytes bytes')
    (hfits : offset + width ≤ size) : bytes.load offset width = bytes'.load offset width :=
  load_congr fun i _ hi => h i (by omega)

section

variable (bytes : Buffer)
include bytes

/-- Reading a field back gives the stored value, up to its width. -/
theorem load_store (offset width value : ℕ) :
    (bytes.store offset width value).load offset width = value % 256 ^ width := by
  induction width generalizing bytes offset value with
  | zero => simp [load, Nat.mod_one]
  | succ width ih =>
    have hrest : (bytes.store offset (width + 1) value).load (offset + 1) width =
        (bytes.store (offset + 1) width (value / 256)).load (offset + 1) width := by
      apply load_congr
      intro i hlow hhigh
      have hin : offset ≤ i ∧ i < offset + (width + 1) := by omega
      have hin' : offset + 1 ≤ i ∧ i < offset + 1 + width := by omega
      rw [store, store, if_pos hin, if_pos hin', Nat.div_div_eq_div_mul, ← pow_succ']
      congr 3
      omega
    have hfirst : ((bytes.store offset (width + 1) value) offset).toNat = value % 256 := by
      simp [store]
    rw [load, hrest, ih, hfirst, pow_succ', Nat.mod_mul]

theorem load_store_of_lt {value : ℕ} (h : value < 256 ^ width) :
    (bytes.store offset width value).load offset width = value := by
  rw [load_store, Nat.mod_eq_of_lt h]

/-- A store to other bytes leaves a field alone. -/
theorem load_store_of_disjoint {width' : ℕ} (value : ℕ)
    (h : offset' + width' ≤ offset ∨ offset + width ≤ offset') :
    (bytes.store offset width value).load offset' width' = bytes.load offset' width' := by
  apply load_congr
  intro i hlow hhigh
  rw [store, if_neg (by omega)]

theorem agreeBelow_store (width value : ℕ)
    (h : size ≤ offset) : AgreeBelow size (bytes.store offset width value) bytes := by
  intro i hi
  rw [store, if_neg (by omega)]

theorem slice_splice_agreeBelow (offset size : ℕ) (content : Buffer) :
    AgreeBelow size ((bytes.splice offset size content).slice offset) content := by
  intro i hi
  rw [slice, splice, if_pos (by omega)]
  congr 1
  omega

theorem slice_splice_of_disjoint (content : Buffer)
    (h : offset' + size' ≤ offset ∨ offset + size ≤ offset') :
    AgreeBelow size' ((bytes.splice offset size content).slice offset') (bytes.slice offset') := by
  intro i hi
  rw [slice, slice, splice, if_neg (by omega)]

theorem store_of_le (value : ℕ) (h : offset + width ≤ i) :
    bytes.store offset width value i = bytes i := by
  rw [store, if_neg (by omega)]

end

-- fields are only ever read through the rules above
attribute [irreducible] load store

/-! ## Byte strings -/

/-- A byte string followed by zeros. -/
def ofList (bytes : List UInt8) : Buffer := fun i => bytes.getD i 0

/-- Cut a byte string off at `size`, or extend it by zeros. -/
def resize (bytes : List UInt8) (size : ℕ) : List UInt8 :=
  bytes.take size ++ List.replicate (size - bytes.length) 0

/-- Put `source` at `offset` of a byte string. A gap behind its end is filled
with zeros. -/
def overwrite (bytes : List UInt8) (offset : ℕ) (source : List UInt8) : List UInt8 :=
  resize bytes offset ++ source ++ bytes.drop (offset + source.length)

theorem length_resize (bytes : List UInt8) (size : ℕ) : (resize bytes size).length = size := by
  simp only [resize, length_append, length_take, length_replicate]
  omega

theorem length_overwrite (bytes source : List UInt8) (offset : ℕ) :
    (overwrite bytes offset source).length = max (offset + source.length) bytes.length := by
  simp only [overwrite, length_append, length_resize, length_drop]
  omega

theorem ofList_of_le {bytes : List UInt8} (h : bytes.length ≤ i) : ofList bytes i = 0 := by
  rw [ofList, getD_eq_default _ _ h]

theorem ofList_append (bytes source : List UInt8) :
    ofList (bytes ++ source) = (ofList bytes).splice bytes.length source.length
      (ofList source) := by
  funext i
  rw [splice]
  split
  next h => rw [ofList, ofList, getD_append_right _ _ _ _ h.1]
  · by_cases hi : i < bytes.length
    · rw [ofList, ofList, getD_append _ _ _ _ hi]
    · rw [ofList_of_le (by rw [length_append]; omega), ofList_of_le (by omega)]

theorem ofList_resize (bytes : List UInt8) (size i : ℕ) :
    ofList (resize bytes size) i = if i < size then ofList bytes i else 0 := by
  split
  next h =>
    by_cases hi : i < bytes.length
    · rw [ofList, ofList, resize, getD_append _ _ _ _ (by rw [length_take]; omega),
        getD_eq_getElem?_getD, getElem?_take_of_lt h, ← getD_eq_getElem?_getD]
    · rw [ofList_of_le (Nat.le_of_not_lt hi), ofList, resize, getD_append_right _ _ _ _
        (by rw [length_take]; omega), getD_eq_getElem?_getD,
        getElem?_getD_replicate_default_eq]
  · rw [ofList_of_le (by rw [length_resize]; omega)]

theorem ofList_overwrite (bytes source : List UInt8) (offset : ℕ) :
    ofList (overwrite bytes offset source) =
      (ofList bytes).splice offset source.length (ofList source) := by
  funext i
  rw [splice, overwrite, ofList_append, splice, ofList_append, splice, length_append, length_resize]
  split
  · rw [if_neg (by omega), ofList, getD_eq_getElem?_getD, getElem?_drop,
      ← getD_eq_getElem?_getD, ofList]
    congr 1
    omega
  rename_i h
  split
  · rfl
  rw [ofList_resize]
  split
  · rfl
  · rw [ofList_of_le]
    simp only [length_drop] at h
    omega

theorem map_ofList (bytes : List UInt8) (size : ℕ) :
    (List.range size).map (ofList bytes) = resize bytes size := by
  apply ext_getElem
  · simp [length_resize]
  intro i hi hi'
  rw [length_map, length_range] at hi
  have hvalue := ofList_resize bytes size i
  rw [if_pos hi, ofList, getD_eq_getElem _ _ hi'] at hvalue
  simp [hvalue]

theorem resize_length (bytes : List UInt8) : resize bytes bytes.length = bytes := by
  simp [resize]

end Buffer

end Kurogane.Storage
