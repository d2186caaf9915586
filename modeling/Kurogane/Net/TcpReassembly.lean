/-
# Putting a stream together

The queue of segments that came too early, and how it is emptied. The loop that empties it
takes a segment out in each round, so it ends after as many rounds as there are slots.
-/

import Kurogane.Net.TcpMoves

namespace Kurogane.Net.TcpClient

open Function Finset

variable {client : Client}

/-! ## The candidate of the flush -/

variable {buffered : BufferedSegment} {index : Fin outOfOrderQueueDepth}

theorem flushCandidate_some (hcand : flushCandidate client = some index) :
    ∃ buffered, client.outOfOrder index = some buffered ∧
      sequenceAfter buffered.sequence client.receiveNext = false := by
  revert hcand
  refine List.foldlRecOn (motive := fun candidate => candidate = some index → _) _ _ (nofun) ?_
  intro candidate hcand other _ hnext
  split at hnext
  · exact hcand hnext
  rename_i buffered hbuf
  split at hnext
  · exact hcand hnext
  rename_i horder
  split at hnext
  · cases hnext
    exact ⟨buffered, hbuf, Bool.eq_false_iff.mpr horder⟩
  split at hnext
  · cases hnext
    exact ⟨buffered, hbuf, Bool.eq_false_iff.mpr horder⟩
  · exact hcand hnext

/-! ## Statuses -/

theorem ingestContiguous_queue (client : Client) (sequence : Sequence) (flags : Flags)
    (payload : List UInt8) :
    (ingestContiguous client sequence flags payload).2.outOfOrder = client.outOfOrder := by
  have hfin : ∀ client, (ingestFin client sequence flags payload).outOfOrder =
      client.outOfOrder := by
    intro client
    fun_cases ingestFin client sequence flags payload <;> rfl
  have happended : ∀ data, (appendPending client data).2.outOfOrder = client.outOfOrder :=
    fun _ => rfl
  fun_cases ingestContiguous client sequence flags payload with
  | case2 | case5 => exact hfin client
  | case6 _ _ _ _ _ remaining _ _ hdata =>
    have hqueue := happended remaining
    rw [hdata] at hqueue
    exact (hfin _).trans hqueue
  | case7 _ _ _ _ _ remaining _ _ _ _ hdata => exact hdata ▸ happended remaining
  | _ => rfl

theorem ingestContiguous_status {sequence : Sequence} {flags : Flags} {payload : List UInt8}
    (horder : sequenceAfter sequence client.receiveNext = false) :
    (ingestContiguous client sequence flags payload).1 ≠ .wouldBlock := by
  have hstat : ∀ data, (appendPending client data).1 ≠ .wouldBlock := by
    intro data
    rw [appendPending]
    dsimp only
    split <;> rintro ⟨⟩
  fun_cases ingestContiguous client sequence flags payload with
  | case3 _ _ hafter => exact absurd hafter (by simp [horder])
  | case7 _ _ _ _ _ remaining _ _ _ _ hdata => exact hdata ▸ hstat remaining
  | _ => rintro ⟨⟩

theorem flushRound_status : (flushRound client).1 ≠ some .wouldBlock := by
  fun_cases flushRound client with
  | case5 _ hcand buffered hbuf _ _ hok hres =>
    obtain ⟨_, hsame, horder⟩ := flushCandidate_some hcand
    cases hbuf.symm.trans hsame
    have hstat := @ingestContiguous_status client _ buffered.flags buffered.payload horder
    rw [hres] at hstat
    exact fun hblk => hstat (Option.some.inj hblk)
  | _ => rintro ⟨⟩

variable (rounds more : ℕ) (link : Link)

theorem flushLoop_status (client : Client) : (flushLoop rounds client).1 ≠ .wouldBlock := by
  fun_induction flushLoop rounds client with
  | case1 => rintro ⟨⟩
  | case2 _ client _ _ hres =>
    have hround := @flushRound_status (dropDuplicates client)
    rw [hres] at hround
    exact fun hblk => hround (congrArg some hblk)
  | case3 _ _ _ _ ih => exact ih

theorem queueOutOfOrder_status (client : Client) (segment : TcpSegment) :
    (queueOutOfOrder client segment).1 ≠ .wouldBlock := by
  fun_cases queueOutOfOrder client segment <;> rintro ⟨⟩

theorem ingestSegment_answer {segment : TcpSegment}
    (horder : sequenceAfter segment.sequence client.receiveNext = false) :
    (ingestSegment client segment).1 ≠ .done .wouldBlock := by
  have hingest : (ingestContiguous client segment.sequence segment.flags segment.payload).1 ≠
    .wouldBlock := ingestContiguous_status horder
  fun_cases ingestSegment client segment with
  | case4 ingested _ _ _ _ _ hres =>
    have hflush := flushLoop_status (outOfOrderQueueDepth + 1) ingested
    rw [flushOutOfOrder] at hres
    rw [hres] at hflush
    exact fun hblk => hflush (Answer.done.inj hblk)
  | case5 _ _ _ _ hres =>
    rw [hres] at hingest
    exact fun hblk => hingest (Answer.done.inj hblk)
  | _ => rintro ⟨⟩

theorem absorb_answer (client : Client) (segment : TcpSegment) :
    (absorb client segment).1 ≠ .done .wouldBlock := by
  rw [absorb]
  split
  · rintro ⟨⟩
  generalize recordAck _ segment = heard
  have hqueue := queueOutOfOrder_status heard segment
  fun_cases acceptSegment heard segment with
  | case4 _ _ _ _ _ _ hres =>
    rw [hres] at hqueue
    exact fun hblk => hqueue (Answer.done.inj hblk)
  | case5 _ _ horder => exact ingestSegment_answer (Bool.eq_false_iff.mpr horder)
  | _ => rintro ⟨⟩

theorem acknowledgeOrDefer_status : (acknowledgeOrDefer link).1 ≠ .wouldBlock := by
  change (if retryableTransmitStatus _ = true then Status.ok else _) ≠ _
  split
  · rintro ⟨⟩
  rename_i hretry
  intro hblk
  rw [hblk] at hretry
  exact hretry rfl

/-- No segment makes a call report that it would block. -/
theorem processIncoming_status (segment : TcpSegment) :
    (processIncoming link segment).1 ≠ .wouldBlock := by
  have hanswer := absorb_answer link.client segment
  rw [processIncoming]
  split
  · rintro ⟨⟩
  split
  · exact acknowledgeOrDefer_status _
  next heq =>
    rw [heq] at hanswer
    exact fun hblk => hanswer (congrArg Answer.done hblk)

/-! ## The rounds of the flush -/

def occupied (client : Client) : Finset (Fin outOfOrderQueueDepth) :=
  Finset.univ.filter fun index => (client.outOfOrder index).isSome

theorem mem_occupied :
    index ∈ occupied client ↔ ∃ buffered, client.outOfOrder index = some buffered := by
  rw [occupied, mem_filter, Option.isSome_iff_exists]
  exact and_iff_right (mem_univ index)

theorem dropDuplicates_some (hbuf : (dropDuplicates client).outOfOrder index = some buffered) :
    client.outOfOrder index = some buffered ∧
      sequenceAfter buffered.endSequence client.receiveNext = true :=
  Option.filter_eq_some_iff.mp hbuf

theorem removeBuffered_some {other : Fin outOfOrderQueueDepth}
    (hbuf : (removeBuffered client index).outOfOrder other = some buffered) :
    other ≠ index ∧ client.outOfOrder other = some buffered := by
  change update client.outOfOrder index none other = some buffered at hbuf
  by_cases hsame : other = index
  · rw [hsame, update_self] at hbuf
    cases hbuf
  · rw [update_of_ne hsame] at hbuf
    exact ⟨hsame, hbuf⟩

theorem occupied_dropDuplicates (client : Client) :
    occupied (dropDuplicates client) ⊆ occupied client := by
  intro index hidx
  obtain ⟨buffered, hbuf⟩ := mem_occupied.mp hidx
  exact mem_occupied.mpr ⟨buffered, (dropDuplicates_some hbuf).1⟩

theorem flushRound_occupied {flushed : Client} (hround : flushRound client = (none, flushed)) :
    (occupied flushed).card < (occupied client).card := by
  revert hround
  fun_cases flushRound client with
  | case4 index _ buffered hbuf ingested hres =>
    rintro ⟨⟩
    have hqueue := ingestContiguous_queue client buffered.sequence buffered.flags buffered.payload
    rw [hres] at hqueue
    refine card_lt_card (ssubset_iff_of_subset ?_ |>.mpr ⟨index, ?_, ?_⟩)
    · intro other hother
      obtain ⟨kept, hkept⟩ := mem_occupied.mp hother
      exact mem_occupied.mpr ⟨kept, hqueue ▸ (removeBuffered_some hkept).2⟩
    · exact mem_occupied.mpr ⟨buffered, hbuf⟩
    · intro hidx
      obtain ⟨_, hkept⟩ := mem_occupied.mp hidx
      exact (removeBuffered_some hkept).1 rfl
  | _ => rintro ⟨⟩

theorem flushLoop_enough (client : Client) (hrounds : (occupied client).card < rounds) :
    flushLoop (rounds + more) client = flushLoop rounds client := by
  induction rounds generalizing client with
  | zero => exact absurd hrounds (Nat.not_lt_zero _)
  | succ rounds ih =>
    have hdropped := card_le_card (occupied_dropDuplicates client)
    rw [Nat.add_right_comm, flushLoop, flushLoop]
    split
    · rfl
    next flushed heq =>
      have hless := flushRound_occupied heq
      exact ih flushed (by omega)

/-- The loop of `flush_out_of_order` has ended after the rounds of the model. -/
theorem flushOutOfOrder_enough (client : Client) :
    flushLoop (outOfOrderQueueDepth + 1 + more) client = flushOutOfOrder client :=
  flushLoop_enough (outOfOrderQueueDepth + 1) more client
    (Nat.lt_succ_of_le ((card_le_univ _).trans (Fintype.card_fin _).le))

end Kurogane.Net.TcpClient
