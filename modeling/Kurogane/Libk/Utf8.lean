/-
# UTF-8

The kernel has two decoders: `k_utf8_decode_one` reads a text of known size, `next_z` a text
that ends with a zero byte. Both are compared with the encoding of a Unicode scalar value.
-/

import Mathlib.Data.List.Basic
import Mathlib.Data.Nat.Bitwise

namespace Kurogane.Libk.Utf8

open List Except

inductive Status where
  | bufferTooSmall
  | corrupted

/-- What a lead byte announces: the length, the first bits of the value and the least value. -/
def lead (first : UInt8) : Option (ℕ × ℕ × ℕ) :=
  if first < 0x80 then some (1, first.toNat, 0)
  else if first &&& 0xE0 = 0xC0 then some (2, (first &&& 0x1F).toNat, 0x80)
  else if first &&& 0xF0 = 0xE0 then some (3, (first &&& 0x0F).toNat, 0x800)
  else if first &&& 0xF8 = 0xF0 then some (4, (first &&& 0x07).toNat, 0x10000)
  else none

def isContinuation (byte : UInt8) : Bool := byte &&& 0xC0 = 0x80

def append (value : ℕ) (byte : UInt8) : ℕ := value <<< 6 ||| (byte &&& 0x3F).toNat

/-- No scalar has this value. -/
abbrev Excluded (value : ℕ) : Prop := value > 0x10FFFF ∨ value ≥ 0xD800 ∧ value ≤ 0xDFFF

/-- The loop over the bytes behind the lead byte. -/
def continuation (value : ℕ) : List UInt8 → Except Status ℕ
  | [] => .ok value
  | byte :: rest =>
    if !isContinuation byte then .error .corrupted else continuation (append value byte) rest

/-- The code point and the number of bytes consumed. -/
def decodeOne : List UInt8 → Except Status (ℕ × ℕ)
  | [] => .error .bufferTooSmall
  | first :: rest =>
    match lead first with
    | none => .error .corrupted
    | some (length, value, minimum) =>
      if rest.length + 1 < length then .error .bufferTooSmall
      else
        match continuation value (rest.take (length - 1)) with
        | .error status => .error status
        | .ok value =>
          if length ≠ 1 ∧ value < minimum ∨ Excluded value then .error .corrupted
          else .ok (value, length)

/-! ## Bytes -/

/-- The same for the number that a lead byte is. -/
def leadOf (first : ℕ) : Option (ℕ × ℕ × ℕ) :=
  if first < 0x80 then some (1, first, 0)
  else if first < 0xC0 then none
  else if first < 0xE0 then some (2, first % 32, 0x80)
  else if first < 0xF0 then some (3, first % 16, 0x800)
  else if first < 0xF8 then some (4, first % 8, 0x10000)
  else none

theorem forall_byte {p : UInt8 → Prop} (h : ∀ n < 256, p (.ofNat n)) (byte : UInt8) : p byte := by
  have hbyte := h byte.toNat byte.toNat_lt
  rwa [UInt8.ofNat_toNat] at hbyte

theorem lead_eq (first : UInt8) : lead first = leadOf first.toNat :=
  forall_byte (p := fun first => lead first = leadOf first.toNat) (by decide +kernel) first

theorem isContinuation_iff {byte : UInt8} :
    isContinuation byte ↔ 0x80 ≤ byte.toNat ∧ byte.toNat < 0xC0 :=
  forall_byte (p := fun byte => isContinuation byte ↔ 0x80 ≤ byte.toNat ∧ byte.toNat < 0xC0)
    (by decide +kernel) byte

theorem append_eq (value : ℕ) (byte : UInt8) :
    append value byte = value * 64 + byte.toNat % 64 := by
  have hbits : (byte &&& 0x3F).toNat = byte.toNat % 64 := by
    rw [UInt8.toNat_and]
    exact Nat.and_two_pow_sub_one_eq_mod _ 6
  rw [append, hbits, ← Nat.shiftLeft_add_eq_or_of_lt (Nat.mod_lt _ (by decide)), Nat.shiftLeft_eq]

variable {value length : ℕ} {bytes rest text : List UInt8}

theorem continuation_cons_eq_ok {bits : ℕ} {byte : UInt8} :
    continuation bits (byte :: rest) = .ok value ↔ (0x80 ≤ byte.toNat ∧ byte.toNat < 0xC0) ∧
      continuation (bits * 64 + byte.toNat % 64) rest = .ok value := by
  rw [continuation, append_eq, ← isContinuation_iff]
  cases isContinuation byte <;> simp

theorem decodeOne_cons_eq_ok {first : UInt8} :
    decodeOne (first :: rest) = .ok (value, length) ↔ ∃ bits minimum,
      leadOf first.toNat = some (length, bits, minimum) ∧ length ≤ rest.length + 1 ∧
      continuation bits (rest.take (length - 1)) = .ok value ∧
      (value < minimum → length = 1) ∧ ¬ Excluded value := by
  rw [decodeOne, lead_eq]
  constructor
  · intro h
    split at h
    · cases h
    next bits minimum hlead =>
    split at h
    · cases h
    next hlen =>
    split at h
    · cases h
    next hcont =>
    split at h
    · cases h
    next hbad =>
    cases h
    rw [not_or, not_and', not_ne_iff] at hbad
    exact ⟨bits, minimum, hlead, Nat.le_of_not_lt hlen, hcont, hbad⟩
  · rintro ⟨bits, minimum, hlead, hlen, hcont, hmin, hvalid⟩
    rw [hlead]
    dsimp only
    rw [if_neg (by omega), hcont]
    exact if_neg (not_or.mpr ⟨fun hshort => hshort.1 (hmin hshort.2), hvalid⟩)

/-! ## Encodings -/

/-- The bytes encode the value in the shortest form. -/
inductive Encodes (value : ℕ) : List UInt8 → Prop where
  | one {first : UInt8} (hfirst : first.toNat = value) (hhigh : value < 0x80) :
      Encodes value [first]
  | two {first second : UInt8} (hfirst : first.toNat = 0xC0 + value / 64)
      (hsecond : second.toNat = 0x80 + value % 64) (hlow : 0x80 ≤ value) (hhigh : value < 0x800) :
      Encodes value [first, second]
  | three {first second third : UInt8} (hfirst : first.toNat = 0xE0 + value / 4096)
      (hsecond : second.toNat = 0x80 + value / 64 % 64) (hthird : third.toNat = 0x80 + value % 64)
      (hlow : 0x800 ≤ value) (hhigh : value < 0x10000) : Encodes value [first, second, third]
  | four {first second third fourth : UInt8} (hfirst : first.toNat = 0xF0 + value / 262144)
      (hsecond : second.toNat = 0x80 + value / 4096 % 64)
      (hthird : third.toNat = 0x80 + value / 64 % 64) (hfourth : fourth.toNat = 0x80 + value % 64)
      (hlow : 0x10000 ≤ value) (hhigh : value ≤ 0x10FFFF) :
      Encodes value [first, second, third, fourth]

theorem not_excluded (char : Char) : ¬ Excluded char.toNat := by
  have hvalid : char.toNat < 0xD800 ∨ 0xDFFF < char.toNat ∧ char.toNat < 0x110000 := char.valid
  omega

theorem encodes_utf8EncodeChar (char : Char) : Encodes char.toNat (String.utf8EncodeChar char) := by
  have hvalid := not_excluded char
  have hbyte : ∀ {n}, n < 256 → (UInt8.ofNat n).toNat = n := UInt8.toNat_ofNat_of_lt
  rw [String.utf8EncodeChar]
  generalize hvalue : char.toNat = value at *
  rw [Char.toNat] at hvalue
  rw [hvalue]
  split_ifs with hone htwo hthree
  · exact .one (hbyte (by omega)) (by omega)
  · refine .two ?_ ?_ (by omega) (by omega) <;> rw [hbyte] <;> omega
  · refine .three ?_ ?_ ?_ (by omega) (by omega) <;> rw [hbyte] <;> omega
  · refine .four ?_ ?_ ?_ ?_ (by omega) (by omega) <;> rw [hbyte] <;> omega

theorem Encodes.unique {bytes' : List UInt8} (h : Encodes value bytes) (h' : Encodes value bytes') :
    bytes = bytes' := by
  cases h <;> cases h' <;> first
    | omega
    | simp only [cons.injEq, ← UInt8.toNat_inj, and_true]
      omega

theorem Encodes.decodeOne (h : Encodes value bytes) (hvalid : ¬ Excluded value)
    (rest : List UInt8) : decodeOne (bytes ++ rest) = .ok (value, bytes.length) := by
  cases h with
  | one hfirst hhigh =>
    refine decodeOne_cons_eq_ok.mpr ⟨value, 0, ?_, by simp, rfl, nofun, hvalid⟩
    rw [hfirst, leadOf, if_pos hhigh]
    rfl
  | two hfirst hsecond hlow hhigh =>
    refine decodeOne_cons_eq_ok.mpr ⟨value / 64, 0x80, ?_, by simp, ?_, by omega, hvalid⟩
    · grind [leadOf]
    · exact continuation_cons_eq_ok.mpr ⟨by omega, congrArg ok (by omega)⟩
  | three hfirst hsecond hthird hlow hhigh =>
    refine decodeOne_cons_eq_ok.mpr ⟨value / 4096, 0x800, ?_, by simp, ?_, by omega, hvalid⟩
    · grind [leadOf]
    · refine continuation_cons_eq_ok.mpr ⟨by omega, ?_⟩
      exact continuation_cons_eq_ok.mpr ⟨by omega, congrArg ok (by omega)⟩
  | four hfirst hsecond hthird hfourth hlow hhigh =>
    refine decodeOne_cons_eq_ok.mpr ⟨value / 262144, 0x10000, ?_, by simp, ?_, by omega, hvalid⟩
    · grind [leadOf]
    · refine continuation_cons_eq_ok.mpr ⟨by omega, continuation_cons_eq_ok.mpr ⟨by omega, ?_⟩⟩
      exact continuation_cons_eq_ok.mpr ⟨by omega, congrArg ok (by omega)⟩

theorem exists_encodes_of_decodeOne (h : Utf8.decodeOne text = .ok (value, length)) :
    ¬ Excluded value ∧ ∃ bytes rest, text = bytes ++ rest ∧ bytes.length = length ∧
      Encodes value bytes := by
  cases text with
  | nil => cases h
  | cons first rest =>
    obtain ⟨bits, minimum, hlead, hlen, hcont, hmin, hvalid⟩ := decodeOne_cons_eq_ok.mp h
    refine ⟨hvalid, ?_⟩
    rw [leadOf] at hlead
    split_ifs at hlead with hone _ htwo hthree hfour <;> cases hlead
    · cases hcont
      exact ⟨[first], rest, rfl, rfl, .one rfl hone⟩
    · match rest, hlen with
      | second :: rest, _ =>
        obtain ⟨hsecond, hval⟩ := continuation_cons_eq_ok.mp hcont
        cases hval
        exact ⟨[first, second], rest, rfl, rfl, by constructor <;> omega⟩
    · match rest, hlen with
      | second :: third :: rest, _ =>
        obtain ⟨hsecond, hval⟩ := continuation_cons_eq_ok.mp hcont
        obtain ⟨hthird, hval⟩ := continuation_cons_eq_ok.mp hval
        cases hval
        exact ⟨[first, second, third], rest, rfl, rfl, by constructor <;> omega⟩
    · match rest, hlen with
      | second :: third :: fourth :: rest, _ =>
        obtain ⟨hsecond, hval⟩ := continuation_cons_eq_ok.mp hcont
        obtain ⟨hthird, hval⟩ := continuation_cons_eq_ok.mp hval
        obtain ⟨hfourth, hval⟩ := continuation_cons_eq_ok.mp hval
        cases hval
        exact ⟨[first, second, third, fourth], rest, rfl, rfl, by constructor <;> omega⟩

theorem decodeOne_encoded (char : Char) (rest : List UInt8) :
    decodeOne (String.utf8EncodeChar char ++ rest) =
      .ok (char.toNat, (String.utf8EncodeChar char).length) :=
  (encodes_utf8EncodeChar char).decodeOne (not_excluded char) rest

/-- The decoder reads the encodings of scalar values and nothing else. -/
theorem exists_char_of_decodeOne (h : decodeOne text = .ok (value, length)) :
    ∃ (char : Char) (rest : List UInt8), text = String.utf8EncodeChar char ++ rest ∧
      char.toNat = value ∧ (String.utf8EncodeChar char).length = length := by
  obtain ⟨hvalid, bytes, rest, rfl, rfl, hbytes⟩ := exists_encodes_of_decodeOne h
  have hscalar : value < 0xD800 ∨ 0xDFFF < value ∧ value < 0x110000 := by omega
  obtain ⟨char, rfl⟩ : ∃ char : Char, char.toNat = value := ⟨.ofNatAux value hscalar, rfl⟩
  obtain rfl := hbytes.unique (encodes_utf8EncodeChar char)
  exact ⟨char, rest, rfl, rfl, rfl⟩

theorem decodeOne_length (h : decodeOne text = .ok (value, length)) :
    0 < length ∧ length ≤ text.length := by
  obtain ⟨char, rest, rfl, rfl, rfl⟩ := exists_char_of_decodeOne h
  rw [length_append]
  exact ⟨length_pos_iff.mpr String.utf8EncodeChar_ne_nil, Nat.le_add_right _ _⟩

/-! ## Texts of known size -/

def validate (text : List UInt8) : Except Status Unit :=
  if text = [] then .ok ()
  else
    match _h : decodeOne text with
    | .error status => .error status
    | .ok (_, consumed) => validate (text.drop consumed)
termination_by text.length
decreasing_by
  have := decodeOne_length ‹_›
  rw [length_drop]
  omega

def encode (chars : List Char) : List UInt8 := chars.flatMap String.utf8EncodeChar

theorem validate_iff (text : List UInt8) :
    validate text = .ok () ↔ ∃ chars, text = encode chars := by
  fun_induction validate text with
  | case1 => exact ⟨fun _ => ⟨[], rfl⟩, fun _ => rfl⟩
  | case2 text hne status hdec =>
    refine ⟨nofun, ?_⟩
    rintro ⟨_ | ⟨char, chars⟩, rfl⟩
    · exact absurd rfl hne
    · cases (decodeOne_encoded char (encode chars)).symm.trans hdec
  | case3 text _ _ _ hdec ih =>
    obtain ⟨char, rest, rfl, rfl, rfl⟩ := exists_char_of_decodeOne hdec
    refine ih.trans ?_
    rw [drop_left]
    constructor
    · rintro ⟨chars, rfl⟩
      exact ⟨char :: chars, rfl⟩
    rintro ⟨_ | ⟨char', chars⟩, hchars⟩
    · exact absurd (append_eq_nil_iff.mp hchars).1 String.utf8EncodeChar_ne_nil
    · rw [hchars] at hdec
      have hsame := (decodeOne_encoded char' (encode chars)).symm.trans hdec
      obtain rfl := Char.toNat_inj.mp (Prod.mk.inj (ok.inj hsame)).1
      exact ⟨chars, append_cancel_left hchars⟩

/-! ## Texts with a terminator -/

structure Scalar where
  value : ℕ
  bytes : ℕ
  valid : Bool
  deriving DecidableEq

def replacement : Scalar := ⟨0xFFFD, 1, false⟩

/-- The loop of `next_z`. It has no result if it leaves the text, and the result no value if a
byte does not continue. -/
def continuationZ (value : ℕ) : ℕ → List UInt8 → Option (Option ℕ)
  | 0, _ => some (some value)
  | _ + 1, [] => none
  | remaining + 1, byte :: rest =>
    if byte = 0 ∨ !isContinuation byte then some none
    else continuationZ (append value byte) remaining rest

/-- There is no result if a byte behind the text is read. -/
def nextZ : List UInt8 → Option Scalar
  | [] => none
  | first :: rest =>
    if first = 0 then some ⟨0, 0, false⟩
    else if first < 0x80 then some ⟨first.toNat, 1, true⟩
    else
      match lead first with
      | none => some replacement
      | some (length, value, minimum) =>
        (continuationZ value (length - 1) rest).map fun
          | none => replacement
          | some value =>
            if value < minimum ∨ Excluded value then replacement else ⟨value, length, true⟩

/-- Calling `next_z` until it consumes nothing. -/
def scanZ (text : List UInt8) : Option (List Scalar) :=
  match _h : nextZ text with
  | none => none
  | some scalar =>
    if scalar.bytes = 0 then some []
    else (scanZ (text.drop scalar.bytes)).map (scalar :: ·)
termination_by text.length
decreasing_by
  cases text with
  | nil => contradiction
  | cons =>
    rw [length_drop, length_cons]
    omega

theorem continuationZ_eq (bits remaining : ℕ) (h : 0 ∉ text) :
    continuationZ bits remaining (text ++ [0]) =
      some (if text.length < remaining then none
        else (continuation bits (text.take remaining)).toOption) := by
  induction remaining generalizing bits text with
  | zero => rfl
  | succ remaining ih =>
    cases text with
    | nil => rfl
    | cons byte rest =>
      rw [mem_cons, not_or] at h
      rw [cons_append, continuationZ, take_succ_cons, continuation, length_cons]
      cases isContinuation byte with
      | false => simp [Except.toOption]
      | true => simp [Ne.symm h.1, ih _ h.2]

def startOf (text : List UInt8) : Scalar :=
  match decodeOne text with
  | .ok (value, length) => ⟨value, length, true⟩
  | .error _ => replacement

theorem nextZ_eq (hne : text ≠ []) (h : 0 ∉ text) : nextZ (text ++ [0]) = some (startOf text) := by
  cases text with
  | nil => exact absurd rfl hne
  | cons first rest =>
    rw [mem_cons, not_or] at h
    rw [cons_append, nextZ, if_neg (Ne.symm h.1), startOf, decodeOne]
    split
    · next hsmall =>
      have hlt : first.toNat < 0x80 := hsmall
      rw [lead_eq, leadOf, if_pos hlt]
      simp only [continuation, take_zero, Nat.sub_self]
      rw [if_neg (by omega), if_neg (by omega)]
    next hlarge =>
    have hlarge : ¬ first.toNat < 0x80 := hlarge
    cases hlead : lead first with
    | none => rfl
    | some found =>
      obtain ⟨length, bits, minimum⟩ := found
      have hlen : length ≠ 1 := by
        grind [lead_eq, leadOf]
      dsimp only
      rw [continuationZ_eq _ _ h.2, Option.map_some]
      by_cases hshort : rest.length + 1 < length
      · rw [if_pos (by omega), if_pos hshort]
      rw [if_neg (by omega), if_neg hshort]
      cases continuation bits (rest.take (length - 1)) with
      | error => rfl
      | ok value =>
        simp only [Except.toOption, hlen, ne_eq, not_false_eq_true, true_and]
        split_ifs <;> rfl

/-- The scalars are read from consecutive parts of the text, which are not empty and together
are the whole text. -/
inductive Reads : List UInt8 → List Scalar → Prop where
  | nil : Reads [] []
  | cons {part rest : List UInt8} {scalars : List Scalar} (hne : part ≠ [])
      (hpart : part.length = (startOf (part ++ rest)).bytes) (h : Reads rest scalars) :
      Reads (part ++ rest) (startOf (part ++ rest) :: scalars)

theorem startOf_bytes (hne : text ≠ []) :
    0 < (startOf text).bytes ∧ (startOf text).bytes ≤ text.length := by
  rw [startOf]
  split
  · next hdec => exact decodeOne_length hdec
  · exact ⟨Nat.one_pos, length_pos_iff.mpr hne⟩

theorem exists_reads (text : List UInt8) (h : 0 ∉ text) :
    ∃ scalars, scanZ (text ++ [0]) = some scalars ∧ Reads text scalars := by
  by_cases hne : text = []
  · subst hne
    exact ⟨[], by rw [scanZ]; rfl, .nil⟩
  have hnext := nextZ_eq hne h
  obtain ⟨hpos, hle⟩ := startOf_bytes hne
  obtain ⟨part, rest, rfl, hpart⟩ : ∃ part rest, text = part ++ rest ∧
      part.length = (startOf text).bytes :=
    ⟨_, _, (take_append_drop _ _).symm, length_take_of_le hle⟩
  obtain ⟨scalars, hscan, hreads⟩ := exists_reads rest fun hmem => h (mem_append_right _ hmem)
  refine ⟨_ :: scalars, ?_, .cons (length_pos_iff.mp (hpart ▸ hpos)) hpart hreads⟩
  rw [scanZ]
  split
  · next hnone => cases hnext.symm.trans hnone
  next scalar hsome =>
  cases hnext.symm.trans hsome
  rw [if_neg hpos.ne', ← hpart, append_assoc, drop_left, hscan]
  rfl
termination_by text.length
decreasing_by
  have hlen := congrArg length ‹text = part ++ rest›
  rw [length_append] at hlen
  omega

/-- **Both decoders implement UTF-8.** A text is valid if it is a text of characters, and
decoding at the start of a character gives this character. With a terminator, the whole
text is read part by part, and nothing behind it. -/
theorem utf8_exact (text : List UInt8) :
    (validate text = .ok () ↔ ∃ chars, text = encode chars) ∧
    (∀ before char after, text = encode before ++ encode (char :: after) →
      decodeOne (text.drop (encode before).length) = .ok (char.toNat, (encode [char]).length)) ∧
    (0 ∉ text → ∃ scalars, scanZ (text ++ [0]) = some scalars ∧ Reads text scalars) := by
  refine ⟨validate_iff text, ?_, exists_reads text⟩
  rintro before char after rfl
  rw [drop_left]
  simp [encode, decodeOne_encoded]

theorem scanZ_letter :
    ∃ scalars, scanZ ([0xC5, 0x82] ++ [0]) = some scalars ∧ Reads [0xC5, 0x82] scalars :=
  (utf8_exact [0xC5, 0x82]).2.2 (by decide)

end Kurogane.Libk.Utf8
