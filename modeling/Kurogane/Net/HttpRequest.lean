/-
# The request of an HTTP call

The plain and the encrypted transport write the same request. Only the encrypted one looks at
the characters of the host and the path before.
-/

import Mathlib.Data.List.DropRight

namespace Kurogane.Net.Http

open List

abbrev Text := List UInt8

def ascii (text : String) : Text := text.toUTF8.toList

def carriageReturn : UInt8 := 13

def lineFeed : UInt8 := 10

def space : UInt8 := 32

def tab : UInt8 := 9

def colon : UInt8 := 58

def slash : UInt8 := 47

def transportTag : Text := ascii "~tls~"

def requestCapacity : ℕ := 768

/-! ## The request -/

/-- Texts and the request stand for what is in front of their terminators and cursors. -/
def appendRequestText (request : Option Text) (text : Text) : Option Text :=
  request.filter (·.length + text.length ≤ requestCapacity) |>.map (· ++ text)

def writeRequest (host path : Text) : Option Text :=
  [ascii "GET ", path, ascii " HTTP/1.1\r\nHost: ", host,
    ascii ("\r\nUser-Agent: KuroganeWeb/0.3\r\n" ++
      "Accept: text/html,text/plain,*/*\r\nConnection: close\r\n\r\n")].foldl
    appendRequestText (some [])

def validWebTarget (host path : Text) : Bool :=
  path.head? = some slash ∧ host.length ≠ 0 ∧ host.length < 64 ∧ path.length ≠ 0 ∧
    path.length < 160

def hostCharacter (character : UInt8) : Bool :=
  (97 ≤ character ∧ character ≤ 122) ∨ (65 ≤ character ∧ character ≤ 90) ∨
    (48 ≤ character ∧ character ≤ 57) ∨ character = 46 ∨ character = 45

/-- URI bytes must be escaped by the caller. -/
def pathCharacter (character : UInt8) : Bool := 32 < character ∧ character < 127 ∧ character ≠ 35

/-- The request inside the encrypted connection. -/
def buildHttpRequest (host path : Text) : Option Text :=
  if path.head? ≠ some slash ∨ !host.all hostCharacter ∨ host.length = 0 ∨ host.length > 253 ∨
    !path.all pathCharacter ∨ path.length > 1024 then none
  else writeRequest host path

/-- The host behind the tag, and whether there was one. -/
def effectiveHost (host : Text) : Bool × Text :=
  if transportTag.isPrefixOf host then (true, host.drop transportTag.length) else (false, host)

/-- The bytes sent once the name is resolved and the connection stands. -/
def httpGet (host path : Text) : Option Text :=
  let (secure, host) := effectiveHost host
  if !validWebTarget host path then none
  else if secure then buildHttpRequest host path
  else writeRequest host path

/-! ## What a server reads -/

def lineEnd (character : UInt8) : Bool := character = carriageReturn ∨ character = lineFeed

def blank (character : UInt8) : Bool := character = space ∨ character = tab

/-- Lines, each ended by a carriage return and a line feed. -/
def textOf (lines : List Text) : Text := (lines.map (· ++ [carriageReturn, lineFeed])).flatten

def trim (text : Text) : Text := (text.dropWhile blank).rdropWhile blank

/-- The name of a field and its value, to which the blanks around it do not belong. -/
def field (line : Text) : Text × Text :=
  (line.takeWhile (· ≠ colon), trim (line.dropWhile (· ≠ colon)).tail)

def fixedFields : List (Text × Text) :=
  [(ascii "User-Agent", ascii "KuroganeWeb/0.3"),
    (ascii "Accept", ascii "text/html,text/plain,*/*"), (ascii "Connection", ascii "close")]

/-- The bytes are one request for the path, with the host in the only Host field and no other
field than the fixed ones, and nothing follows the empty line at its end. -/
def OneRequest (host path bytes : Text) : Prop :=
  ∃ (start : Text) (fields : List Text), bytes = textOf (start :: fields ++ [[]]) ∧
    (∀ line ∈ start :: fields, ∀ character ∈ line, ¬ lineEnd character) ∧
    start.splitOn space = [ascii "GET", path, ascii "HTTP/1.1"] ∧
    fields.map field = (ascii "Host", host) :: fixedFields

/-- No line ends in the host or the path, no space in the path, no blanks around the host. -/
structure Clean (host path : Text) : Prop where
  host_lines : ∀ character ∈ host, ¬ lineEnd character
  host_trimmed : trim host = host
  path_lines : ∀ character ∈ path, ¬ lineEnd character
  path_words : space ∉ path

/-! ## What is written -/

def requestLine (path : Text) : Text := ascii "GET" ++ space :: path ++ space :: ascii "HTTP/1.1"

def fieldLines (host : Text) : List Text :=
  [ascii "Host: " ++ host, ascii "User-Agent: KuroganeWeb/0.3",
    ascii "Accept: text/html,text/plain,*/*", ascii "Connection: close"]

variable {host path bytes : Text} {lines others : List Text}

theorem foldl_appendRequestText {texts : List Text} {request : Option Text}
    (h : texts.foldl appendRequestText request = some bytes) :
    ∃ start, request = some start ∧ bytes = start ++ texts.flatten := by
  induction texts generalizing request with
  | nil => exact ⟨bytes, h, by simp⟩
  | cons text rest ih =>
    obtain ⟨middle, hmiddle, rfl⟩ := ih h
    obtain ⟨start, hstart, rfl⟩ := Option.map_eq_some_iff.mp hmiddle
    exact ⟨start, (Option.filter_eq_some_iff.mp hstart).1, by simp⟩

theorem writeRequest_eq (h : writeRequest host path = some bytes) :
    bytes = textOf (requestLine path :: fieldLines host ++ [[]]) := by
  obtain ⟨_, ⟨⟩, rfl⟩ := foldl_appendRequestText h
  have hget : ascii "GET " = ascii "GET" ++ [space] := by decide +kernel
  have hline : ascii " HTTP/1.1\r\nHost: " =
      space :: ascii "HTTP/1.1" ++ [carriageReturn, lineFeed] ++ ascii "Host: " := by decide +kernel
  have hrest : ascii ("\r\nUser-Agent: KuroganeWeb/0.3\r\n" ++
        "Accept: text/html,text/plain,*/*\r\nConnection: close\r\n\r\n") =
      [carriageReturn, lineFeed] ++ textOf ((fieldLines []).tail ++ [[]]) := by decide +kernel
  rw [hget, hline, hrest]
  simp [textOf, requestLine, fieldLines]

theorem countP_textOf :
    (textOf lines).countP lineEnd = lines.flatten.countP lineEnd + 2 * lines.length := by
  induction lines with
  | nil => rfl
  | cons line rest ih =>
    have htwo : [carriageReturn, lineFeed].countP lineEnd = 2 := by decide
    rw [textOf, map_cons, flatten_cons, countP_append, countP_append, htwo, flatten_cons,
      countP_append, length_cons]
    change _ + (textOf rest).countP lineEnd = _
    omega

/-- Lines can be read back from a text. -/
theorem textOf_inj (hlines : ∀ line ∈ lines, ∀ character ∈ line, ¬ lineEnd character)
    (hothers : ∀ line ∈ others, ∀ character ∈ line, ¬ lineEnd character)
    (h : textOf lines = textOf others) : lines = others := by
  have hfirst : ∀ line rest, (∀ character ∈ line, ¬ lineEnd character) →
      (textOf (line :: rest)).takeWhile (!lineEnd ·) = line := by
    intro line rest hline
    have hpos : ∀ character ∈ line, (!lineEnd character) = true := by simpa using hline
    rw [textOf, map_cons, flatten_cons, append_assoc, takeWhile_append_of_pos hpos]
    exact append_nil line
  induction lines generalizing others with
  | nil =>
    cases others with
    | nil => rfl
    | cons => simp [textOf] at h
  | cons line rest ih =>
    cases others with
    | nil => simp [textOf] at h
    | cons other rest' =>
      obtain ⟨hline, hrest⟩ := forall_mem_cons.mp hlines
      obtain ⟨hother, hrest'⟩ := forall_mem_cons.mp hothers
      obtain rfl : line = other := by
        rw [← hfirst line rest hline, h, hfirst other rest' hother]
      rw [textOf, textOf, map_cons, map_cons, flatten_cons, flatten_cons,
        append_cancel_left_eq] at h
      rw [ih hrest hrest' h]

theorem length_splitOn (separator : UInt8) (text : Text) :
    (text.splitOn separator).length = text.count separator + 1 := by
  induction text with
  | nil => rfl
  | cons first rest ih =>
    rw [splitOn_cons_eq_if_modifyHead, count_cons]
    split
    · rw [length_cons, ih]
    · rw [length_modifyHead, ih, Nat.add_zero]

/-! ## One request is sent -/

theorem countP_flatten_eq_zero : lines.flatten.countP lineEnd = 0 ↔
    ∀ line ∈ lines, ∀ character ∈ line, ¬ lineEnd character := by
  rw [countP_eq_zero]
  constructor
  · intro h line hline character hmem
    exact h character (mem_flatten.mpr ⟨line, hline, hmem⟩)
  · intro h character hmem
    obtain ⟨line, hline, hmem⟩ := mem_flatten.mp hmem
    exact h line hline character hmem

theorem countP_written : (requestLine path :: fieldLines host ++ [[]]).flatten.countP lineEnd =
    path.countP lineEnd + host.countP lineEnd := by
  have hfixed : (ascii "GET").countP lineEnd = 0 ∧ (ascii "HTTP/1.1").countP lineEnd = 0 ∧
      (ascii "Host: ").countP lineEnd = 0 ∧ [space].countP lineEnd = 0 ∧
      ((fieldLines []).tail ++ [[]]).flatten.countP lineEnd = 0 := by decide +kernel
  obtain ⟨hget, hversion, hname, hspace, hrest⟩ := hfixed
  have hlines : (requestLine path :: fieldLines host ++ [[]]).flatten =
      ascii "GET" ++ [space] ++ path ++ [space] ++ ascii "HTTP/1.1" ++ ascii "Host: " ++ host ++
        ((fieldLines []).tail ++ [[]]).flatten := by
    simp [requestLine, fieldLines]
  simp only [hlines, countP_append, hget, hspace, hversion, hname, hrest]
  omega

theorem map_field_fieldLines :
    (fieldLines host).map field = (ascii "Host", trim host) :: fixedFields := by
  have hname : ascii "Host: " = ascii "Host" ++ [colon, space] := by decide +kernel
  have hcolon : ∀ character ∈ ascii "Host", decide (character ≠ colon) = true := by decide +kernel
  have hfixed : (fieldLines []).tail.map field = fixedFields := by decide +kernel
  have hhost : field (ascii "Host: " ++ host) = (ascii "Host", trim host) := by
    rw [hname, append_assoc, field, takeWhile_append_of_pos hcolon, dropWhile_append_of_pos hcolon]
    simp [trim, blank]
  rw [← hfixed, ← hhost]
  rfl

/-- What is written is one request for the path and the host exactly if both are clean. -/
theorem oneRequest_iff (h : writeRequest host path = some bytes) :
    OneRequest host path bytes ↔ Clean host path := by
  have hwritten := writeRequest_eq h
  have hends := @countP_written host path
  constructor
  · rintro ⟨start, fields, hbytes, hlines, hwords, hfields⟩
    replace hlines : ∀ line ∈ start :: fields ++ [[]], ∀ character ∈ line, ¬ lineEnd character :=
      forall_mem_append.mpr ⟨hlines, by simp⟩
    have hlength : fields.length = 4 := by
      rw [← length_map field, hfields]
      rfl
    -- The text has two line ends for each of the six lines, and none is left for the host.
    have hcount := congrArg (countP lineEnd) (hbytes.symm.trans hwritten)
    rw [countP_textOf, countP_textOf, countP_flatten_eq_zero.mpr hlines, hends] at hcount
    simp only [cons_append, length_cons, length_append, hlength, fieldLines] at hcount
    obtain ⟨hpath, hhost⟩ : path.countP lineEnd = 0 ∧ host.countP lineEnd = 0 := by
      constructor <;> omega
    rw [hpath, hhost] at hends
    have hsame := textOf_inj hlines (countP_flatten_eq_zero.mp hends) (hbytes.symm.trans hwritten)
    rw [cons_append, cons_append, cons.injEq, append_cancel_right_eq] at hsame
    obtain ⟨rfl, rfl⟩ := hsame
    rw [map_field_fieldLines, cons.injEq, Prod.mk.injEq] at hfields
    refine ⟨countP_eq_zero.mp hhost, hfields.1.2, countP_eq_zero.mp hpath, ?_⟩
    have hspaces := length_splitOn space (requestLine path)
    have hfixed : (ascii "GET").count space = 0 ∧ (ascii "HTTP/1.1").count space = 0 := by
      decide +kernel
    rw [hwords, requestLine] at hspaces
    simp only [length_cons, length_nil, count_append, count_cons_self, hfixed] at hspaces
    rw [← count_eq_zero]
    omega
  · intro hclean
    rw [countP_eq_zero.mpr hclean.path_lines, countP_eq_zero.mpr hclean.host_lines] at hends
    refine ⟨requestLine path, fieldLines host, hwritten,
      (forall_mem_append.mp (countP_flatten_eq_zero.mp hends)).1, ?_, ?_⟩
    · have hwords : requestLine path =
          [space].intercalate [ascii "GET", path, ascii "HTTP/1.1"] := by
        simp [requestLine, intercalate]
      rw [hwords, splitOn_intercalate]
      · exact forall_mem_cons.mpr ⟨by decide +kernel,
          forall_mem_cons.mpr ⟨hclean.path_words, by decide +kernel⟩⟩
      · simp
    · rw [map_field_fieldLines, hclean.host_trimmed]

theorem clean_of_all (hhost : host.all hostCharacter) (hpath : path.all pathCharacter) :
    Clean host path := by
  rw [all_eq_true] at hhost hpath
  have hplain : ∀ character, lineEnd character ∨ blank character → ¬ hostCharacter character := by
    intro character hends
    simp only [lineEnd, blank, decide_eq_true_eq] at hends
    rcases hends with (rfl | rfl) | rfl | rfl <;> decide
  have hvisible : ∀ character, lineEnd character → ¬ pathCharacter character := by
    intro character hends
    simp only [lineEnd, decide_eq_true_eq] at hends
    rcases hends with rfl | rfl <;> decide
  refine ⟨fun character hmem hends => hplain character (.inl hends) (hhost character hmem), ?_,
    fun character hmem hends => hvisible character hends (hpath character hmem),
    mt (hpath _) (by decide)⟩
  rw [trim, dropWhile_eq_self_iff.mpr fun hl hblank => hplain _ (.inr hblank)
      (hhost _ (getElem_mem hl)),
    rdropWhile_eq_self_iff.mpr fun hl hblank => hplain _ (.inr hblank) (hhost _ (getLast_mem hl))]

end Kurogane.Net.Http
