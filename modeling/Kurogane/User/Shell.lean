/-
# `cat` in the shell

The shell shows a file through a line buffer of fixed size, which is carried over from one
read to the next. A full line is shown when the next character has already been taken.
-/

import Mathlib.Data.List.Basic

namespace Kurogane.User.Shell

open List

abbrev Text := List UInt8

def outputCapacity : ℕ := 128

def newline : UInt8 := 10

def carriageReturn : UInt8 := 13

def ascii (message : String) : Text := message.toList.map fun character => character.toNat.toUInt8

def display (character : UInt8) : UInt8 :=
  if 32 ≤ character ∧ character ≤ 126 then character else 46

/-- One byte of the file, with the lines emitted so far and the line that is being filled. -/
def catByte (shown : List Text × Text) (character : UInt8) : List Text × Text :=
  if character = carriageReturn then shown
  else if character = newline ∨ shown.2.length + 1 ≥ outputCapacity then (shown.1 ++ [shown.2], [])
  else (shown.1, shown.2 ++ [display character])

/-- The reads up to the end of the file or a failure, which is `none`. -/
def catReads : List (Option Text) → List Text × Text → ℕ × List Text
  | [], (emitted, line) | some [] :: _, (emitted, line) =>
    (0, if line = [] then emitted else emitted ++ [line])
  | none :: _, (emitted, _) => (1, emitted ++ [ascii "cat: read failed"])
  | some input :: rest, shown => catReads rest (input.foldl catByte shown)

/-- The new status and the emitted lines. The path is resolved by `flux_shell_make_path`, which
may refuse it. -/
def cat (path : Option Text) (opens : Text → Bool) (reads : List (Option Text)) : ℕ × List Text :=
  match path with
  | none => (2, [ascii "cat: invalid path"])
  | some path =>
    if opens path then catReads reads ([], []) else (1, [ascii "cat: cannot open file"])

def textLines (content : Text) : List Text :=
  ((content.filter (· ≠ carriageReturn)).splitOn newline).map (map display)

/-- The lines that are shown: an empty line at the end is not. -/
def shownLines (content : Text) : List Text :=
  if (textLines content).getLast? = some [] then (textLines content).dropLast
  else textLines content

theorem textLines_cons (character : UInt8) (rest : Text) :
    textLines (character :: rest) =
      if character = carriageReturn then textLines rest
      else if character = newline then [] :: textLines rest
      else (textLines rest).modifyHead (cons (display character)) := by
  by_cases hreturn : character = carriageReturn
  · simp [textLines, hreturn]
  by_cases hnewline : character = newline
  · simp [textLines, splitOn_cons_eq_if_modifyHead, hnewline, newline, carriageReturn]
  rw [if_neg hreturn, if_neg hnewline, textLines, filter_cons_of_pos (by simpa),
    splitOn_cons_eq_if_modifyHead, if_neg (by simpa), textLines]
  generalize (rest.filter (· ≠ carriageReturn)).splitOn newline = lines
  cases lines <;> rfl

theorem exists_textLines (content : Text) : ∃ line lines, textLines content = line :: lines :=
  exists_cons_of_ne_nil (by simp [textLines])

/-- The emitted lines and the open line are the text lines of what was read. -/
theorem foldl_catByte {content line : Text} {lines : List Text} (shown : List Text × Text)
    (hcontent : textLines content = line :: lines)
    (hlines : ∀ other ∈ (shown.2 ++ line) :: lines, other.length < outputCapacity) :
    (content.foldl catByte shown).1 ++ [(content.foldl catByte shown).2] =
      shown.1 ++ (shown.2 ++ line) :: lines := by
  induction content generalizing shown line lines with
  | nil =>
    obtain ⟨rfl, rfl⟩ := cons.inj hcontent
    simp
  | cons character rest ih =>
    obtain ⟨next, others, hrest⟩ := exists_textLines rest
    rw [textLines_cons, hrest] at hcontent
    rw [foldl_cons, catByte]
    split
    · rw [if_pos ‹_›] at hcontent
      exact ih shown (hrest.trans hcontent) hlines
    rw [if_neg ‹_›] at hcontent
    by_cases hnewline : character = newline
    · rw [if_pos hnewline] at hcontent
      obtain ⟨rfl, rfl⟩ := cons.inj hcontent
      rw [if_pos (.inl hnewline), ih (_, []) hrest fun other hmem => hlines other (.tail _ hmem)]
      simp
    · rw [if_neg hnewline] at hcontent
      obtain ⟨rfl, rfl⟩ := cons.inj hcontent
      have hroom := hlines _ mem_cons_self
      rw [length_append, length_cons] at hroom
      rw [if_neg (not_or.mpr ⟨hnewline, by omega⟩), ih _ hrest (by simpa using hlines)]
      simp

theorem catReads_pieces {pieces : List Text} (hpieces : [] ∉ pieces) (shown : List Text × Text) :
    catReads (pieces.map some) shown = catReads [] (pieces.flatten.foldl catByte shown) := by
  induction pieces generalizing shown with
  | nil => rfl
  | cons piece rest ih =>
    obtain ⟨hne, hrest⟩ := not_or.mp (mt mem_cons.mpr hpieces)
    obtain ⟨first, others, rfl⟩ := exists_cons_of_ne_nil (Ne.symm hne)
    rw [flatten_cons, foldl_append]
    exact ih hrest _

def characters (shown : List Text × Text) : ℕ := shown.1.flatten.length + shown.2.length

/-- No character is added, and a text line that does not fit into the line buffer loses one
at least: the one that finds the buffer full. -/
theorem characters_foldl_catByte {content line : Text} {lines : List Text}
    (shown : List Text × Text) (hcontent : textLines content = line :: lines)
    (hbuffer : shown.2.length < outputCapacity) :
    characters (content.foldl catByte shown) ≤
        characters shown + line.length + lines.flatten.length ∧
      ((∃ other ∈ (shown.2 ++ line) :: lines, outputCapacity ≤ other.length) →
        characters (content.foldl catByte shown) <
          characters shown + line.length + lines.flatten.length) := by
  induction content generalizing shown line lines with
  | nil =>
    obtain ⟨rfl, rfl⟩ := cons.inj hcontent
    refine ⟨Nat.le_refl _, ?_⟩
    rintro ⟨other, hmem, hlong⟩
    obtain rfl : other = shown.2 := by simpa using hmem
    exact absurd hbuffer (Nat.not_lt.mpr hlong)
  | cons character rest ih =>
    obtain ⟨next, others, hrest⟩ := exists_textLines rest
    rw [textLines_cons, hrest] at hcontent
    rw [foldl_cons, catByte]
    split
    · rw [if_pos ‹_›] at hcontent
      exact ih shown (hrest.trans hcontent) hbuffer
    rw [if_neg ‹_›] at hcontent
    by_cases hnewline : character = newline
    · rw [if_pos hnewline] at hcontent
      obtain ⟨rfl, rfl⟩ := cons.inj hcontent
      rw [if_pos (.inl hnewline)]
      obtain ⟨hle, hlt⟩ := ih (shown.1 ++ [shown.2], []) hrest (Nat.succ_pos _)
      simp only [characters, flatten_append, length_append, flatten_cons, flatten_nil,
        length_nil, append_nil] at hle hlt ⊢
      refine ⟨by omega, ?_⟩
      rintro ⟨other, hmem, hlong⟩
      rcases mem_cons.mp hmem with rfl | hmem
      · exact absurd hbuffer (Nat.not_lt.mpr hlong)
      · have := hlt ⟨other, by simpa using hmem, hlong⟩
        omega
    · rw [if_neg hnewline] at hcontent
      obtain ⟨rfl, rfl⟩ := cons.inj hcontent
      split
      · -- The buffer is full: the character is gone, whatever follows.
        obtain ⟨hle, -⟩ := ih (shown.1 ++ [shown.2], []) hrest (Nat.succ_pos _)
        simp only [characters, flatten_append, length_append, flatten_cons, flatten_nil,
          length_nil, append_nil, length_cons] at hle ⊢
        exact ⟨by omega, fun _ => by omega⟩
      · next hroom =>
        obtain ⟨hle, hlt⟩ := ih (shown.1, shown.2 ++ [display character]) hrest (by
          rw [length_append, length_singleton]
          omega)
        simp only [characters, length_append, length_cons, length_nil, append_assoc,
          cons_append, nil_append] at hle hlt ⊢
        exact ⟨by omega, fun hlong => by have := hlt hlong; omega⟩

/-- The emitted lines show the text lines in order, each as one emitted line or as several
consecutive ones, with no character lost, repeated or moved. -/
def Shows (emitted lines : List Text) : Prop :=
  ∃ groups : List (List Text), [] ∉ groups ∧ groups.flatten = emitted ∧
    groups.map flatten = lines

theorem Shows.flatten_eq {emitted lines : List Text} (h : Shows emitted lines) :
    emitted.flatten = lines.flatten := by
  obtain ⟨groups, -, rfl, rfl⟩ := h
  exact flatten_flatten

theorem shows_self (lines : List Text) : Shows lines lines := by
  refine ⟨lines.map ([·]), by simp, ?_, by simp [Function.comp_def]⟩
  induction lines with
  | nil => rfl
  | cons line rest ih => rw [map_cons, flatten_cons, ih, singleton_append]

theorem flatten_shownLines (content : Text) :
    (shownLines content).flatten = (textLines content).flatten := by
  rw [shownLines]
  split
  · next hlast =>
    conv_rhs => rw [← dropLast_append_getLast? [] hlast]
    rw [flatten_append, flatten_singleton, append_nil]
  · rfl

/-- However the reads split a file, the same lines are shown, and the file is shown whole
exactly if every text line is shorter than the line buffer. -/
theorem cat_shows (path : Text) (opens : Text → Bool) (hopens : opens path) (pieces : List Text)
    (hpieces : [] ∉ pieces) :
    (∀ others : List Text, [] ∉ others → others.flatten = pieces.flatten →
      cat (some path) opens (others.map some) = cat (some path) opens (pieces.map some)) ∧
    (cat (some path) opens (pieces.map some)).1 = 0 ∧
    (Shows (cat (some path) opens (pieces.map some)).2 (shownLines pieces.flatten) ↔
      ∀ line ∈ textLines pieces.flatten, line.length < outputCapacity) := by
  simp only [cat, hopens, if_true, catReads_pieces hpieces]
  refine ⟨fun _ hothers hsame => by rw [catReads_pieces hothers, hsame], rfl, ?_, fun hlines => ?_⟩
  all_goals obtain ⟨line, lines, hcontent⟩ := exists_textLines pieces.flatten
  · intro hshows other hother
    by_contra hlong
    have hless := (characters_foldl_catByte ([], []) hcontent (Nat.succ_pos _)).2
      ⟨other, hcontent ▸ hother, Nat.not_lt.mp hlong⟩
    have hsame := congrArg length hshows.flatten_eq
    rw [flatten_shownLines, hcontent, flatten_cons, length_append, catReads] at hsame
    simp only [characters, flatten_nil, length_nil] at hless hsame
    split at hsame
    · next hempty =>
      rw [hempty, length_nil] at hless
      omega
    · rw [flatten_append, length_append, flatten_singleton] at hsame
      omega
  · have hread := foldl_catByte ([], []) hcontent (by rwa [hcontent] at hlines)
    rw [nil_append, nil_append, ← hcontent] at hread
    have hshown : (catReads [] (pieces.flatten.foldl catByte ([], []))).2 =
        shownLines pieces.flatten := by
      rw [shownLines, catReads, ← hread, getLast?_concat, dropLast_concat]
      simp only [Option.some.injEq]
    rw [hshown]
    exact shows_self _

theorem cat_shows_short :
    Shows (cat (some [47]) (fun _ => true) [some [97, 13, 10], some [9]]).2 [[97], [46]] :=
  (cat_shows [47] _ rfl [[97, 13, 10], [9]] (by decide)).2.2.mpr (by decide +kernel)

/-- The last character of a line of 128 is not shown. -/
theorem cat_drops :
    cat (some [47]) (fun _ => true) [some (replicate 128 97)] = (0, [replicate 127 97]) ∧
      textLines (replicate 128 97) = [replicate 128 97] := by
  decide +kernel

end Kurogane.User.Shell
