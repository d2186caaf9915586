/-
# Directories as lists of records

The bytes of a directory are a sequence of fixed-size records. `Spells` relates
them to the entries they encode.
-/

import Kurogane.KuroFS.Codec

namespace Kurogane.KuroFS

open Storage Storage.Buffer List

def recordAt (bytes : List UInt8) (index : ℕ) : Except Status DirectoryEntry :=
  decodeDirectoryEntry (ofList (bytes.drop (index * 128)))

/-- The entries of a directory; records that do not decode are passed over. -/
def entriesOf (bytes : List UInt8) : List DirectoryEntry :=
  (range (bytes.length / 128)).filterMap fun index => (recordAt bytes index).toOption

structure Spells (bytes : List UInt8) (entries : List DirectoryEntry) : Prop where
  length : bytes.length = entries.length * 128
  record : ∀ {index entry}, entries[index]? = some entry → recordAt bytes index = .ok entry

variable {bytes : List UInt8}

theorem Spells.entriesOf_eq {entries : List DirectoryEntry}
    (h : Spells bytes entries) : entriesOf bytes = entries := by
  have hmap : (range (bytes.length / 128)).map (fun index => (recordAt bytes index).toOption) =
      entries.map some := by
    apply ext_getElem
    · rw [length_map, length_range, length_map, h.length, Nat.mul_div_cancel _ (by decide)]
    intro index hidx hidx'
    rw [length_map] at hidx'
    rw [getElem_map, getElem_range, getElem_map, h.record (getElem?_eq_getElem hidx')]
    rfl
  calc entriesOf bytes = ((range (bytes.length / 128)).map fun index =>
          (recordAt bytes index).toOption).filterMap id := by
        rw [filterMap_map]
        rfl
    _ = (entries.map some).filterMap id := by rw [hmap]
    _ = entries := by simp

theorem spells_entriesOf (hlen : bytes.length % 128 = 0)
    (h : ∀ index < bytes.length / 128, ∃ entry, recordAt bytes index = .ok entry) :
    Spells bytes (entriesOf bytes) := by
  have : Nonempty DirectoryEntry := ⟨[], 0, 0, .regular⟩
  choose! decode hdec using h
  have hspells : Spells bytes ((range (bytes.length / 128)).map decode) := by
    constructor
    · rw [length_map, length_range]
      omega
    intro index entry hentry
    rw [getElem?_map, Option.map_eq_some_iff] at hentry
    obtain ⟨_, hfound, rfl⟩ := hentry
    obtain ⟨hlt, rfl⟩ := List.getElem?_eq_some_iff.mp hfound
    rw [length_range] at hlt
    rw [getElem_range]
    exact hdec index hlt
  rwa [hspells.entriesOf_eq]

theorem spells_nil : Spells [] [] := ⟨rfl, nofun⟩

end Kurogane.KuroFS
