/-
# Short names of a FAT32 directory

A name is kept in eleven bytes of a directory entry, in upper case. Two flags of the entry say
which of its parts was written in lower case.
-/

import Kurogane.Libk.Utf8
import Mathlib.Data.List.DropRight

namespace Kurogane.Fat32

open List
open Libk.Utf8 (forall_byte)

inductive Status
  | invalidArgument
  | corruptDirectory
  | unsupported
  | unsupportedNameEncoding
  deriving DecidableEq

abbrev Bytes := List UInt8

def space : UInt8 := 32

def dot : UInt8 := 46

def isUpper (character : UInt8) : Bool := 65 ≤ character && character ≤ 90

def isLower (character : UInt8) : Bool := 97 ≤ character && character ≤ 122

def asciiLower (character : UInt8) : UInt8 :=
  if isUpper character then character + 32 else character

def asciiUpper (character : UInt8) : UInt8 :=
  if isLower character then character - 32 else character

/-- Printable, and none of `"*+,./:;<=>?[\]|`. -/
def validShortNameByte (value : UInt8) : Bool :=
  0x21 ≤ value && value ≤ 0x7E && value ∉
    ([34, 42, 43, 44, 46, 47, 58, 59, 60, 61, 62, 63, 91, 92, 93, 124] : Bytes)

/-! ## Encoding -/

def base (name : Bytes) : Bytes := name.takeWhile (· ≠ dot)

def extension (name : Bytes) : Bytes := (name.dropWhile (· ≠ dot)).tail

def lowerOnly (part : Bytes) : Bool := part.any isLower && !part.any isUpper

def pad (length : ℕ) (part : Bytes) : Bytes := (part.map asciiUpper).rightpad length space

/-- The bytes of an entry and its case flags, for the bytes of a name before its terminator. -/
def encodeShortName (name : Bytes) : Except Status (Bytes × UInt8) :=
  if name = [] then .error .invalidArgument
  else if 1 < name.count dot ∨ 12 < name.length then .error .unsupported
  else if base name = [] ∨ 8 < (base name).length ∨ 3 < (extension name).length ∨
      dot ∈ name ∧ extension name = [] then .error .unsupported
  else if ∃ source ∈ base name ++ extension name,
      asciiUpper source = space ∨ ¬validShortNameByte (asciiUpper source) then
    .error .unsupported
  else .ok (pad 8 (base name) ++ pad 3 (extension name),
    (if lowerOnly (base name) then 0x08 else 0) |||
      if lowerOnly (extension name) then 0x10 else 0)

/-! ## Decoding -/

def recase (lower : Bool) (value : UInt8) : UInt8 :=
  if lower && isUpper value then asciiLower value else value

def decodeByte (lower : Bool) (value : UInt8) : Except Status UInt8 :=
  if validShortNameByte value then .ok (recase lower value)
  else .error (if 0x7F < value then .unsupportedNameEncoding else .corruptDirectory)

def join (base extension : Bytes) : Bytes :=
  base ++ if extension = [] then [] else dot :: extension

/-- The name in the first eleven bytes of an entry with the given case flags. -/
def decodeShortName (entry : Bytes) (flags : UInt8) : Except Status Bytes :=
  let base := (entry.take 8).rdropWhile (· = space)
  let extension := (entry.drop 8).rdropWhile (· = space)
  let dotEntry := base = [dot] ∨ base = [dot, dot]
  if base = [] ∨ dotEntry ∧ extension ≠ [] then .error .corruptDirectory
  else do
    let base ← if dotEntry then .ok base else
      (base.modifyHead fun value => if value = 0x05 then 0xE5 else value).mapM
        (decodeByte (flags &&& 0x08 ≠ 0))
    return join base (← extension.mapM (decodeByte (flags &&& 0x10 ≠ 0)))

/-! ## One byte -/

theorem asciiUpper_eq_dot : ∀ character, asciiUpper character = dot ↔ character = dot :=
  forall_byte (by decide +kernel)

theorem asciiUpper_recase : ∀ character lower,
    asciiUpper (recase lower (asciiUpper character)) = asciiUpper character :=
  forall_byte (by decide +kernel)

theorem recase_asciiUpper : ∀ character lower,
    (if lower then isUpper character else isLower character) = false →
    recase lower (asciiUpper character) = character :=
  forall_byte (by decide +kernel)

theorem ne_of_validShortNameByte : ∀ value, validShortNameByte value →
    value ≠ space ∧ value ≠ dot ∧ value ≠ 0x05 ∧ value ≠ 0 ∧ value ≠ 0xE5 :=
  forall_byte (by decide +kernel)

/-! ## One part of a name -/

/-- What the decoder makes of a part. -/
def recased (lower : Bool) (part : Bytes) : Bytes := (part.map asciiUpper).map (recase lower)

def mixed (part : Bytes) : Bool := part.any isLower && part.any isUpper

structure Fits (length : ℕ) (part : Bytes) : Prop where
  le : part.length ≤ length
  valid : ∀ value ∈ part.map asciiUpper, validShortNameByte value

variable {length : ℕ} {part name bytes : Bytes} {flags : UInt8}

theorem recased_eq_self (hmixed : ¬mixed part) : recased (lowerOnly part) part = part := by
  rw [recased, map_map]
  refine (map_congr_left fun character hmem => ?_).trans (map_id _)
  refine recase_asciiUpper character _ ?_
  rw [mixed] at hmixed
  rw [lowerOnly]
  grind

theorem Fits.first (hpart : Fits length part) (hne : part ≠ []) :
    ∃ first more, part = first :: more ∧ asciiUpper first ≠ dot ∧ asciiUpper first ≠ 0x05 ∧
      asciiUpper first ≠ 0 ∧ asciiUpper first ≠ 0xE5 := by
  obtain ⟨first, more, rfl⟩ := exists_cons_of_ne_nil hne
  exact ⟨first, more, rfl, (ne_of_validShortNameByte _ (hpart.valid _ (by simp))).2⟩

theorem Fits.length_pad (hpart : Fits length part) : (pad length part).length = length := by
  simp [pad, hpart.le]

theorem Fits.rdropWhile_pad (hpart : Fits length part) :
    (pad length part).rdropWhile (· = space) = part.map asciiUpper := by
  rw [pad, rightpad]
  induction length - (part.map asciiUpper).length with
  | zero =>
    rw [replicate_zero, append_nil]
    refine rdropWhile_eq_self_iff.mpr fun hne => ?_
    simpa using (ne_of_validShortNameByte _ (hpart.valid _ (getLast_mem hne))).1
  | succ count ih => rw [replicate_succ', ← append_assoc, rdropWhile_concat_pos _ _ _ (by simp), ih]

theorem Fits.mapM_decodeByte (hpart : Fits length part) (lower : Bool) :
    (part.map asciiUpper).mapM (decodeByte lower) = .ok (recased lower part) := by
  have hvalid := hpart.valid
  rw [recased]
  generalize part.map asciiUpper = values at hvalid ⊢
  induction values with
  | nil => rfl
  | cons value values ih =>
    rw [forall_mem_cons] at hvalid
    rw [mapM_cons, decodeByte, if_pos hvalid.1, ih hvalid.2]
    rfl

/-! ## The whole name -/

theorem join_base_extension (hdot : dot ∈ name → extension name ≠ []) :
    join (base name) (extension name) = name := by
  induction name with
  | nil => rfl
  | cons character rest ih =>
    by_cases hchar : character = dot
    · subst hchar
      simpa [join, base, extension] using hdot
    · have hrest := ih (by simpa [extension, hchar, Ne.symm hchar] using hdot)
      simpa [join, base, extension, hchar] using hrest

theorem map_join (base extension : Bytes) :
    (join base extension).map asciiUpper =
      join (base.map asciiUpper) (extension.map asciiUpper) := by
  cases extension with
  | nil => simp [join]
  | cons => simp [join, (asciiUpper_eq_dot dot).mpr rfl]

structure Encoded (name bytes : Bytes) (flags : UInt8) : Prop where
  base_ne : base name ≠ []
  base : Fits 8 (base name)
  extension : Fits 3 (extension name)
  join : join (Fat32.base name) (Fat32.extension name) = name
  bytes : bytes = pad 8 (Fat32.base name) ++ pad 3 (Fat32.extension name)
  flags : decide (flags &&& 0x08 ≠ 0) = lowerOnly (Fat32.base name) ∧
    decide (flags &&& 0x10 ≠ 0) = lowerOnly (Fat32.extension name)

theorem encoded : encodeShortName name = .ok (bytes, flags) → Encoded name bytes flags := by
  fun_cases encodeShortName name with
  | case5 _ _ hlengths hinvalid =>
    rintro ⟨⟩
    push Not at hlengths
    obtain ⟨hbase, hlen, hlen', hdot⟩ := hlengths
    have hvalid : ∀ source ∈ base name ++ extension name,
        validShortNameByte (asciiUpper source) := by grind
    rw [forall_mem_append] at hvalid
    refine ⟨hbase, ⟨hlen, forall_mem_map.mpr hvalid.1⟩, ⟨hlen', forall_mem_map.mpr hvalid.2⟩,
      join_base_extension hdot, rfl, ?_⟩
    cases lowerOnly (base name) <;> cases lowerOnly (extension name) <;> decide
  | _ => rintro ⟨⟩

theorem Encoded.bytes_eq (hname : Encoded name bytes flags) :
    bytes = (Fat32.base (name.map asciiUpper)).rightpad 8 space ++
      (Fat32.extension (name.map asciiUpper)).rightpad 3 space := by
  simp [hname.bytes, pad, Fat32.base, Fat32.extension, takeWhile_map, dropWhile_map,
    Function.comp_def, asciiUpper_eq_dot]

/-- The decoder reads both parts back, with the flags of the encoder or with others. -/
theorem Encoded.decode (hname : Encoded name bytes flags) (others : UInt8) :
    ∃ decoded, decodeShortName bytes others = .ok decoded ∧
      decoded = Fat32.join (recased (others &&& 0x08 ≠ 0) (Fat32.base name))
        (recased (others &&& 0x10 ≠ 0) (Fat32.extension name)) ∧
      decoded.map asciiUpper = name.map asciiUpper := by
  refine ⟨_, ?_, rfl, ?_⟩
  · obtain ⟨first, more, hcons, hdot, hfive, -⟩ := hname.base.first hname.base_ne
    have hbase := hname.base.mapM_decodeByte (others &&& 0x08 ≠ 0)
    rw [decodeShortName, hname.bytes, take_left' hname.base.length_pad,
      drop_left' hname.base.length_pad, hname.base.rdropWhile_pad, hname.extension.rdropWhile_pad]
    simp_all [hname.extension.mapM_decodeByte]
    rfl
  · conv_rhs => rw [← hname.join]
    simp [map_join, recased, Function.comp_def, asciiUpper_recase]

/-- Short names are decoded to what was encoded, up to the case of letters in parts that mix both
cases. Names share their bytes if they differ in case only, and the bytes start neither with the
mark of the end of a directory nor with that of a deleted entry. -/
theorem shortName_roundTrip {other otherBytes : Bytes} {otherFlags : UInt8}
    (hname : encodeShortName name = .ok (bytes, flags))
    (hother : encodeShortName other = .ok (otherBytes, otherFlags)) :
    (∃ decoded, decodeShortName bytes flags = .ok decoded ∧
      decoded.map asciiUpper = name.map asciiUpper ∧
      (¬mixed (base name) → ¬mixed (extension name) → decoded = name)) ∧
    (bytes = otherBytes ↔ name.map asciiUpper = other.map asciiUpper) ∧
    bytes.length = 11 ∧ ∀ first ∈ bytes.head?, first ≠ 0 ∧ first ≠ 0xE5 := by
  have hname := encoded hname
  have hother := encoded hother
  obtain ⟨decoded, hdec, hjoin, hupper⟩ := hname.decode flags
  refine ⟨⟨decoded, hdec, hupper, fun hbase hext => ?_⟩, ⟨fun hsame => ?_, fun hsame => ?_⟩, ?_, ?_⟩
  · rw [hjoin, hname.flags.1, hname.flags.2, recased_eq_self hbase, recased_eq_self hext,
      hname.join]
  · obtain ⟨_, hdec', -, hupper'⟩ := hother.decode flags
    rw [← hsame, hdec] at hdec'
    cases hdec'
    exact hupper.symm.trans hupper'
  · rw [hname.bytes_eq, hother.bytes_eq, hsame]
  · rw [hname.bytes, length_append, hname.base.length_pad, hname.extension.length_pad]
  · obtain ⟨first, more, hcons, -, -, hmarks⟩ := hname.base.first hname.base_ne
    simpa [hname.bytes, pad, hcons] using hmarks

theorem shortName_roundTrip_letters : ∃ decoded,
    decodeShortName (65 :: replicate 7 32 ++ [66, 32, 32]) 0x18 = .ok decoded ∧
      decoded = [97, 46, 98] := by
  obtain ⟨⟨decoded, hdec, -, hsame⟩, -⟩ := shortName_roundTrip
    (show encodeShortName [97, 46, 98] = .ok (_, 0x18) from rfl)
    (show encodeShortName [65, 46, 98] = .ok (_, 0x10) from rfl)
  exact ⟨decoded, hdec, hsame (by decide) (by decide)⟩

end Kurogane.Fat32
