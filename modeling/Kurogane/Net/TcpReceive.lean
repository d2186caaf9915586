/-
# Receiving a stream

The peer sends a stream of bytes and then its FIN. Whatever slices of it arrive, in whatever
order and however often, the client takes in a beginning of the stream: what it has handed
out, then what waits in the buffer. The sequence that it expects next says how far it has
come, and the window that it advertises never promises more room than there is.
-/

import Kurogane.Net.TcpReassembly
import Kurogane.Net.TcpSequence

namespace Kurogane.Net.TcpClient

open Math

/-! ## Slices -/

section

open List

variable {α : Type} (items : List α) (first last : ℕ)

def slice : List α := (items.drop first).take (last - first)

variable {items first last}

theorem length_slice (hlast : last ≤ items.length) :
    (slice items first last).length = last - first := by
  rw [slice, length_take, length_drop]
  omega

theorem slice_of_le (hempty : last ≤ first) : slice items first last = [] := by
  rw [slice, Nat.sub_eq_zero_of_le hempty, take_zero]

theorem slice_append {middle : ℕ} (hfirst : first ≤ middle) (hlast : middle ≤ last) :
    slice items first middle ++ slice items middle last = slice items first last := by
  have hsplit : last - first = (middle - first) + (last - middle) := by omega
  have hdrop : items.drop middle = (items.drop first).drop (middle - first) := by
    rw [drop_drop]
    congr 1
    omega
  rw [slice, slice, slice, hsplit, take_add, hdrop]

theorem drop_slice (count : ℕ) :
    (slice items first last).drop count = slice items (first + count) last := by
  rw [slice, slice, drop_take, drop_drop, Nat.sub_sub]

theorem slice_zero : slice items 0 last = items.take last := by
  rw [slice, drop_zero, Nat.sub_zero]

end

/-! ## Positions in the stream -/

/-- The sequence of a byte of the stream. The FIN comes after the last byte. -/
def streamSequence (initial : Sequence) (position : ℕ) : Sequence :=
  initial + 1 + BitVec.ofNat 32 position

theorem streamSequence_add (initial : Sequence) (position count : ℕ) :
    streamSequence initial position + BitVec.ofNat 32 count =
      streamSequence initial (position + count) := by
  rw [streamSequence, streamSequence, BitVec.ofNat_add, BitVec.add_assoc]

variable {initial : Sequence} {first second : ℕ}

theorem streamSequence_before (hfirst : first ≤ 2 ^ 31) (hsnd : second ≤ 2 ^ 31)
    (hnear : first < second + 2 ^ 31) :
    sequenceBefore (streamSequence initial first) (streamSequence initial second) ↔
      first < second := by
  rw [sequenceBefore_iff, streamSequence, streamSequence]
  have hdifference : (initial + 1 + BitVec.ofNat 32 first -
      (initial + 1 + BitVec.ofNat 32 second)).toNat =
      (first + 2 ^ 32 - second) % 2 ^ 32 := by
    bv_omega
  omega

theorem streamSequence_sub (horder : first ≤ second) (hsnd : second < 2 ^ 32) :
    (streamSequence initial second - streamSequence initial first).toNat = second - first := by
  rw [streamSequence, streamSequence]
  bv_omega

def finCount (flags : Flags) : ℕ := if flags.fin then 1 else 0

theorem finCount_le (flags : Flags) : finCount flags ≤ 1 := by
  rw [finCount]
  split
  · exact le_rfl
  · exact Nat.zero_le _

variable {offset : ℕ}

theorem endSequence_eq (flags : Flags) (payload : List UInt8) :
    endSequence (streamSequence initial offset) flags payload =
      streamSequence initial (offset + payload.length + finCount flags) := by
  rw [endSequence, streamSequence_add, finCount]
  cases flags.fin with
  | true => exact streamSequence_add initial _ 1
  | false => exact BitVec.add_zero _

/-- A part of the stream that begins at an offset, with the FIN if it ends the stream. -/
structure Slice (stream : List UInt8) (initial : Sequence) (sequence : Sequence) (flags : Flags)
    (payload : List UInt8) (offset : ℕ) : Prop where
  starts : sequence = streamSequence initial offset
  bytes : payload = slice stream offset (offset + payload.length)
  within : offset + payload.length ≤ stream.length
  ends : flags.fin → offset + payload.length = stream.length

theorem Slice.end_le {stream : List UInt8} {initial sequence : Sequence} {flags : Flags}
    {payload : List UInt8} (hslice : Slice stream initial sequence flags payload offset) :
    offset + payload.length + finCount flags ≤ stream.length + 1 := by
  exact Nat.add_le_add hslice.within (finCount_le flags)

/-! ## The receive side of a client -/

def closedCount (client : Client) : ℕ := if client.peerClosed then 1 else 0

/-- The client has taken in the first bytes of the stream, and has handed out the first of
them. -/
structure Taking (stream : List UInt8) (initial : Sequence) (delivered taken : ℕ)
    (client : Client) : Prop where
  ordered : delivered ≤ taken
  within : taken ≤ stream.length
  receiveNext : client.receiveNext = streamSequence initial (taken + closedCount client)
  closed : client.peerClosed → taken = stream.length
  pending : client.pending.contents = slice stream delivered taken
  queue : ∀ index buffered, client.outOfOrder index = some buffered →
    ∃ offset, Slice stream initial buffered.sequence buffered.flags buffered.payload offset ∧
      0 < offset + buffered.payload.length + finCount buffered.flags

variable {segment : TcpSegment}

section

variable {stream : List UInt8} {initial : Sequence} {delivered taken : ℕ} {client : Client}

section

variable (htake : Taking stream initial delivered taken client)
include htake

theorem Taking.pending_length : client.pending.length = taken - delivered := by
  rw [← Sliding.length_contents, htake.pending, length_slice htake.within]

theorem Taking.congr {other : Client} (hnext : other.receiveNext = client.receiveNext)
    (hclosed : other.peerClosed = client.peerClosed) (hpend : other.pending = client.pending)
    (hqueue : other.outOfOrder = client.outOfOrder) :
    Taking stream initial delivered taken other := by
  refine ⟨htake.ordered, htake.within, ?_, ?_, ?_, ?_⟩
  · rw [hnext, closedCount, hclosed]
    exact htake.receiveNext
  · rw [hclosed]
    exact htake.closed
  · rw [hpend]
    exact htake.pending
  · rw [hqueue]
    exact htake.queue

theorem Taking.receiveNext_open
    (hopen : client.peerClosed = false) : client.receiveNext = streamSequence initial taken := by
  rw [htake.receiveNext, closedCount, hopen]
  rfl

end

variable {sequence : Sequence} {flags : Flags} {payload : List UInt8} {offset : ℕ}

theorem Taking.ingestFin (htake : Taking stream initial delivered taken client)
    (hslice : Slice stream initial sequence flags payload offset)
    (hopen : client.peerClosed = false) (hend : offset + payload.length = taken) :
    Taking stream initial delivered taken (ingestFin client sequence flags payload) ∧
      (TcpClient.ingestFin client sequence flags payload).peerClosed = flags.fin := by
  have hnext : sequence + BitVec.ofNat 32 payload.length = client.receiveNext := by
    rw [hslice.starts, streamSequence_add, hend, htake.receiveNext_open hopen]
  rw [TcpClient.ingestFin]
  by_cases hfin : flags.fin
  · rw [if_pos ⟨hfin, hnext⟩, hfin]
    refine ⟨{ htake with receiveNext := ?_, closed := fun _ => ?_ }, rfl⟩
    · change client.receiveNext + 1 = streamSequence initial (taken + 1)
      rw [htake.receiveNext_open hopen]
      exact streamSequence_add initial taken 1
    · rw [← hend]
      exact hslice.ends hfin
  · rw [if_neg fun hboth => hfin hboth.1, hopen]
    exact ⟨htake, (Bool.eq_false_iff.mpr hfin).symm⟩

section

variable (hlen : stream.length < 2 ^ 31) (htake : Taking stream initial delivered taken client)
  (hslice : Slice stream initial sequence flags payload offset)
include hlen htake hslice

theorem skipLength_eq (hopen : client.peerClosed = false) (hstart : offset ≤ taken)
    (hend : taken ≤ offset + payload.length) :
    skipLength client sequence payload = taken - offset := by
  have hin := hslice.within
  have hpre : sequenceBefore sequence client.receiveNext ↔ offset < taken := by
    rw [hslice.starts, htake.receiveNext_open hopen]
    exact streamSequence_before (by omega) (by omega) (by omega)
  have hafter : sequenceAfter (sequence + BitVec.ofNat 32 payload.length) client.receiveNext ↔
      taken < offset + payload.length := by
    rw [sequenceAfter, hslice.starts, streamSequence_add, htake.receiveNext_open hopen]
    exact streamSequence_before (by omega) (by omega) (by omega)
  rw [skipLength]
  split
  · split
    next hold =>
      rw [← Bool.not_eq_true, hafter] at hold
      omega
    · rw [hslice.starts, htake.receiveNext_open hopen]
      exact streamSequence_sub hstart (by omega)
  next hearlier =>
    rw [hpre] at hearlier
    omega

theorem Taking.after_start (hopen : client.peerClosed = false) :
    sequenceAfter sequence client.receiveNext ↔ taken < offset := by
  have hin := htake.within
  have hin' := hslice.within
  rw [sequenceAfter, hslice.starts, htake.receiveNext_open hopen]
  exact streamSequence_before (by omega) (by omega) (by omega)

/-- A slice that starts in order and brings something new is taken in, unless there is no
room for it in the buffer. -/
theorem Taking.ingest (hfits : payload.length ≤ outOfOrderPayloadCapacity)
    (hopen : client.peerClosed = false) (hstart : offset ≤ taken)
    (hend : taken < offset + payload.length + finCount flags) :
    ∃ after, ingestContiguous client sequence flags payload = (.ok, after) ∧
        Taking stream initial delivered (offset + payload.length) after ∧
        after.peerClosed = flags.fin ∨
      ingestContiguous client sequence flags payload = (.queueFull, after) ∧
        delivered + streamReceiveCapacity < offset + payload.length ∧
        Taking stream initial delivered taken after := by
  have hin := hslice.within
  have hdeliv := htake.ordered
  have hcount := finCount_le flags
  have hnew : taken ≤ offset + payload.length := by omega
  rw [ingestContiguous, if_neg (not_lt.mpr hfits)]
  split
  · obtain rfl : offset + payload.length = taken := by omega
    obtain ⟨htaken, hclosed⟩ := htake.ingestFin hslice hopen rfl
    exact ⟨_, .inl ⟨rfl, htaken, hclosed⟩⟩
  have horder := (htake.after_start hlen hslice hopen).not.mpr (not_lt.mpr hstart)
  rw [if_neg horder, skipLength_eq hlen htake hslice hopen hstart hnew]
  dsimp only
  rw [if_neg (by omega)]
  have hrem : payload.drop (taken - offset) = slice stream taken (offset + payload.length) := by
    conv_lhs => rw [hslice.bytes, drop_slice]
    rw [Nat.add_sub_cancel' hstart]
  rw [hrem]
  split
  next hnothing =>
    rw [length_slice hin] at hnothing
    obtain rfl : offset + payload.length = taken := by omega
    obtain ⟨htaken, hclosed⟩ := htake.ingestFin hslice hopen rfl
    exact ⟨_, .inl ⟨rfl, htaken, hclosed⟩⟩
  rw [appendPending]
  dsimp only
  rcases Sliding.append_cases client.pending (slice stream taken (offset + payload.length)) with
    ⟨hroom, hok, hcont⟩ | ⟨hfull, hok, hcont⟩
  · rw [hok]
    have happended : Taking stream initial delivered (offset + payload.length) { client with
          pending := (client.pending.append (slice stream taken (offset + payload.length))).2
          receiveNext := client.receiveNext +
            BitVec.ofNat 32 (slice stream taken (offset + payload.length)).length } := by
      refine ⟨by omega, hin, ?_, fun hclosed => ?_, ?_, htake.queue⟩
      · rw [htake.receiveNext_open hopen, length_slice hin, streamSequence_add, closedCount,
          hopen, Nat.add_sub_cancel' hnew]
        rfl
      · exact absurd (hopen.symm.trans hclosed) Bool.false_ne_true
      · exact hcont.trans (by rw [htake.pending, slice_append hdeliv hnew])
    obtain ⟨htaken, hclosed⟩ := happended.ingestFin hslice hopen rfl
    exact ⟨_, .inl ⟨rfl, htaken, hclosed⟩⟩
  · rw [hok]
    rw [htake.pending_length, length_slice hin] at hfull
    exact ⟨_, .inr ⟨rfl, by omega,
      { htake with ordered := hdeliv, pending := hcont.trans htake.pending }⟩⟩

theorem Taking.after_end (hsome : 0 < offset + payload.length + finCount flags) :
    sequenceAfter (endSequence sequence flags payload) client.receiveNext ↔
      client.peerClosed = false ∧ taken < offset + payload.length + finCount flags := by
  have hend := hslice.end_le
  have hin := htake.within
  have hclosed := htake.closed
  have hcount : closedCount client ≤ 1 := by
    rw [closedCount]
    split
    · exact le_rfl
    · exact Nat.zero_le _
  rw [sequenceAfter, hslice.starts, endSequence_eq, htake.receiveNext,
    streamSequence_before (by omega) (by omega) (by omega), closedCount]
  cases hpeer : client.peerClosed with
  | true =>
    have htaken := hclosed hpeer
    simp only [if_true, Bool.true_eq_false, false_and, iff_false]
    omega
  | false => simp

end

/-! ## The queue -/

section

variable (htake : Taking stream initial delivered taken client)
  (hslice : Slice stream initial segment.sequence segment.flags segment.payload offset)
  (hsome : 0 < offset + segment.payload.length + finCount segment.flags)
include htake hslice hsome

theorem Taking.storeBufferedSegment (index : Fin outOfOrderQueueDepth) :
    Taking stream initial delivered taken (storeBufferedSegment client segment index) := by
  refine { htake with queue := fun other buffered hbuf => ?_ }
  change Function.update _ _ _ other = _ at hbuf
  by_cases hsame : other = index
  · rw [hsame, Function.update_self] at hbuf
    cases hbuf
    exact ⟨offset, hslice, hsome⟩
  · rw [Function.update_of_ne hsame] at hbuf
    exact htake.queue other buffered hbuf

theorem Taking.queueOutOfOrder :
    Taking stream initial delivered taken (queueOutOfOrder client segment).2 := by
  have hstored := htake.storeBufferedSegment hslice hsome
  fun_cases TcpClient.queueOutOfOrder client segment with
  | case4 | case5 | case6 => exact hstored _
  | _ => exact htake

end

theorem peerClosed_queueOutOfOrder (client : Client) (segment : TcpSegment) :
    (queueOutOfOrder client segment).2.peerClosed = client.peerClosed := by
  fun_cases queueOutOfOrder client segment <;> rfl

/-- A round of the flush takes in a slice of the queue, or leaves the stream as it is. -/
theorem Taking.flushRound (hlen : stream.length < 2 ^ 31)
    (htake : Taking stream initial delivered taken client)
    (hnew : ∀ index buffered, client.outOfOrder index = some buffered →
      sequenceAfter buffered.endSequence client.receiveNext) :
    ∃ further, taken ≤ further ∧
      Taking stream initial delivered further (flushRound client).2 ∧
      (client.peerClosed → (TcpClient.flushRound client).2.peerClosed) := by
  rw [TcpClient.flushRound]
  split
  · exact ⟨taken, le_rfl, htake, id⟩
  rename_i index hcand
  obtain ⟨buffered, hbuf, horder⟩ := flushCandidate_some hcand
  obtain ⟨offset, hslice, hsome⟩ := htake.queue index buffered hbuf
  obtain ⟨hopen, hend⟩ := (htake.after_end hlen hslice hsome).mp (hnew index buffered hbuf)
  rw [← Bool.not_eq_true, htake.after_start hlen hslice hopen] at horder
  rw [hbuf]
  dsimp only
  rcases htake.ingest hlen hslice buffered.fits hopen (not_lt.mp horder) hend with
    ⟨ingested, ⟨hres, hingested, _⟩ | ⟨hres, _, hkept⟩⟩
  · have hcount := finCount_le buffered.flags
    have hless : taken ≤ offset + buffered.payload.length := by omega
    rw [hres]
    refine ⟨offset + buffered.payload.length, hless, ?_, fun hclosed => ?_⟩
    · dsimp only
      split
      · exact { hingested with queue := by rintro _ _ ⟨⟩ }
      · exact { hingested with
          queue := fun other kept hkept =>
            hingested.queue other kept (removeBuffered_some hkept).2 }
    · rw [hopen] at hclosed
      cases hclosed
  · rw [hres]
    refine ⟨taken, le_rfl, hkept, fun hclosed => ?_⟩
    rw [hopen] at hclosed
    cases hclosed

theorem Taking.flushLoop (hlen : stream.length < 2 ^ 31) (rounds : ℕ)
    (htake : Taking stream initial delivered taken client) :
    ∃ further, taken ≤ further ∧
      Taking stream initial delivered further (flushLoop rounds client).2 ∧
      (client.peerClosed → (TcpClient.flushLoop rounds client).2.peerClosed) := by
  induction rounds generalizing client taken with
  | zero => exact ⟨taken, le_rfl, htake, id⟩
  | succ _ ih =>
    have hdropped : Taking stream initial delivered taken (dropDuplicates client) :=
      { htake with
        queue := fun index buffered hbuf =>
          htake.queue index buffered (dropDuplicates_some hbuf).1 }
    obtain ⟨further, hfurther, hround, hclosed⟩ := hdropped.flushRound hlen
      fun index buffered hbuf => (dropDuplicates_some hbuf).2
    rw [TcpClient.flushLoop]
    split
    next heq =>
      rw [heq] at hround hclosed
      exact ⟨further, hfurther, hround, hclosed⟩
    rename_i heq
    rw [heq] at hround hclosed
    obtain ⟨last, hlast, hrest, hstill⟩ := ih hround
    exact ⟨last, hfurther.trans hlast, hrest, fun hpeer => hstill (hclosed hpeer)⟩

/-! ## A segment -/

/-- What a slice of the stream does to the client. If it starts in order and there is room
for it, all of it is taken in. -/
structure TakesIn (stream : List UInt8) (initial : Sequence) (delivered taken : ℕ) (flags : Flags)
    (offset last : ℕ) (before after : Client) : Prop where
  still : before.peerClosed → after.peerClosed
  further : ∃ further, taken ≤ further ∧ Taking stream initial delivered further after ∧
    (offset ≤ taken → last ≤ delivered + streamReceiveCapacity →
      last ≤ further ∧ (flags.fin → after.peerClosed))

section

variable (hlen : stream.length < 2 ^ 31) (htake : Taking stream initial delivered taken client)
include hlen htake

section

variable (hslice : Slice stream initial segment.sequence segment.flags segment.payload offset)
include hslice

theorem Taking.ingestSegment (hopen : client.peerClosed = false) (hstart : offset ≤ taken)
    (hend : taken < offset + segment.payload.length + finCount segment.flags) :
    TakesIn stream initial delivered taken segment.flags offset (offset + segment.payload.length)
      client (ingestSegment client segment).2 := by
  have hcount := finCount_le segment.flags
  have hless : taken ≤ offset + segment.payload.length := by omega
  rw [TcpClient.ingestSegment]
  rcases htake.ingest hlen hslice segment.fits hopen hstart hend with
    ⟨ingested, ⟨hok, hingested, hclosed⟩ | ⟨hfull, hroom, hkept⟩⟩
  · rw [hok]
    dsimp only
    obtain ⟨further, hfurther, hflushed, hstill⟩ :=
      hingested.flushLoop hlen (outOfOrderQueueDepth + 1)
    have hres : TakesIn stream initial delivered taken segment.flags offset
        (offset + segment.payload.length) client (flushOutOfOrder ingested).2 :=
      ⟨fun hpeer => absurd (hopen.symm.trans hpeer) Bool.false_ne_true, further,
        hless.trans hfurther, hflushed,
        fun _ _ => ⟨hfurther, fun hfin => hstill (hclosed.trans hfin)⟩⟩
    split
    all_goals
      rename_i heq
      rw [heq] at hres
      exact hres
  · rw [hfull]
    exact ⟨fun hpeer => absurd (hopen.symm.trans hpeer) Bool.false_ne_true, taken, le_rfl, hkept,
      fun _ hfits => absurd hfits (not_le.mpr hroom)⟩

theorem Taking.acceptSegment :
    TakesIn stream initial delivered taken segment.flags offset (offset + segment.payload.length)
      client (acceptSegment client segment).2 := by
  have hin := hslice.within
  rw [TcpClient.acceptSegment]
  split
  next hempty =>
    refine ⟨id, taken, le_rfl, htake, fun hstart _ => ⟨by omega, fun hfin => ?_⟩⟩
    rw [hempty.2] at hfin
    cases hfin
  rename_i hsome
  have hpos : 0 < offset + segment.payload.length + finCount segment.flags := by
    rw [finCount]
    split
    · omega
    rename_i hfin
    have hload : segment.payload.length ≠ 0 := fun hload =>
      hsome ⟨hload, Bool.eq_false_iff.mpr hfin⟩
    omega
  have hafter := htake.after_end hlen hslice hpos
  split
  next hold =>
    rw [← Bool.not_eq_true, hafter, not_and] at hold
    refine ⟨id, taken, le_rfl, htake, fun hstart _ => ?_⟩
    cases hpeer : client.peerClosed with
    | true =>
      have htaken := htake.closed hpeer
      exact ⟨by omega, fun _ => rfl⟩
    | false =>
      have hbehind := hold hpeer
      refine ⟨by omega, fun hfin => ?_⟩
      have hlast := hslice.ends hfin
      have htaken := htake.within
      rw [finCount, hfin, if_pos rfl] at hbehind
      omega
  rename_i hnew
  rw [Bool.not_eq_false, hafter] at hnew
  have hstart := htake.after_start hlen hslice hnew.1
  split
  next hearly =>
    rw [hstart] at hearly
    have hqueued := htake.queueOutOfOrder hslice hpos
    have hpeer := peerClosed_queueOutOfOrder client segment
    have hres : TakesIn stream initial delivered taken segment.flags offset
        (offset + segment.payload.length) client (TcpClient.queueOutOfOrder client segment).2 :=
      ⟨fun hclosed => hpeer.trans hclosed, taken, le_rfl, hqueued,
        fun hlate => absurd hearly (not_lt.mpr hlate)⟩
    split
    all_goals
      rename_i heq
      rw [heq] at hres
      exact hres
  next hinOrder =>
    rw [hstart, not_lt] at hinOrder
    exact htake.ingestSegment hlen hslice hnew.1 hinOrder hnew.2

end

theorem Taking.absorb (hreset : segment.flags.rst = false)
    (hslice : Slice stream initial segment.sequence segment.flags segment.payload offset) :
    TakesIn stream initial delivered taken segment.flags offset (offset + segment.payload.length)
      client (absorb client segment).2 := by
  obtain ⟨_, _, _, hnext, hpend, hqueue, hclosed⟩ := heardAck_fields client segment
  have hheard := htake.congr hnext hclosed hpend hqueue
  obtain ⟨hstill, hfurther⟩ := hheard.acceptSegment hlen hslice
  have habsorbed : (TcpClient.absorb client segment).2 =
      (TcpClient.acceptSegment (heardAck client segment) segment).2 := by
    rw [TcpClient.absorb]
    rw [if_neg (ne_true_of_eq_false hreset)]
    rfl
  rw [habsorbed]
  exact ⟨fun hpeer => hstill (hclosed.trans hpeer), hfurther⟩

end

end

end Kurogane.Net.TcpClient
