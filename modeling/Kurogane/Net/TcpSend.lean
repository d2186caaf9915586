/-
# Sending a buffer

What `send` does with the send side of a client. A chunk of the buffer is queued at one
sequence, again and again, until all of it is acknowledged or the time is over. If nothing
of it was acknowledged, the sequence is taken back.

A call that would block before its first chunk is acknowledged leaves the sequence as it
was. A call that would block behind an acknowledged chunk does not: a part of the buffer is
in the stream of the peer, and a second try sends that part again behind itself.
-/

import Kurogane.Net.TcpCalls

namespace Kurogane.Net.TcpClient

def Talking (client : Client) : Prop :=
  client.state = .established ∨ client.state = .closeWait

def Lost (client : Client) : Prop := client.state = .error ∨ client.state = .reset

def dataSegments (stack : NetworkStack) : List Outgoing :=
  stack.wire.filter fun outgoing => outgoing.payload ≠ []

variable {client : Client} {first second third : Link} {mode : Mode} {chunk : ℕ}

theorem Talking.hears (htalking : Talking client) : Hears client := by
  rcases htalking with hstate | hstate
  · exact ⟨by simp [hstate], by simp [hstate], .inr (by simp [hstate])⟩
  · exact ⟨by simp [hstate], by simp [hstate], .inr (by simp [hstate])⟩

theorem absorb_talking {segment : TcpSegment} (hreset : segment.flags.rst = false)
    (htalking : Talking client) : Talking (absorb client segment).2 := by
  have hstate := (absorb_received client hreset).state
  rw [(heardAck_fields client segment).2.2.1] at hstate
  rcases hstate with hsame | ⟨_, hwait⟩
  · rw [Talking, hsame]
    exact htalking
  · exact .inr hwait

theorem inFlight_advance (hspan : inFlight client + chunk < 2 ^ 32) :
    inFlight { client with sendNext := client.sendNext + BitVec.ofNat 32 chunk } =
      inFlight client + chunk := by
  simp only [inFlight] at hspan ⊢
  bv_omega

/-! ## The wire -/

section

variable {link taken : Link} {segment : TcpSegment}

theorem dataSegments_sendTcp (stack : NetworkStack) (outgoing : Outgoing) :
    dataSegments (stack.sendTcp outgoing).2 =
      if (stack.sendTcp outgoing).1 = .ok ∧ outgoing.payload ≠ [] then
        outgoing :: dataSegments stack
      else dataSegments stack := by
  by_cases hsent : (stack.sendTcp outgoing).1 = .ok
  · have hwire := wire_sent hsent
    by_cases hload : outgoing.payload = [] <;> simp [dataSegments, hwire, hsent, hload]
  · have hwire : (stack.sendTcp outgoing).2.wire = stack.wire := if_neg hsent
    simp [dataSegments, hwire, hsent]

theorem dataSegments_sendTcp_control (stack : NetworkStack) {outgoing : Outgoing}
    (hload : outgoing.payload = []) :
    dataSegments (stack.sendTcp outgoing).2 = dataSegments stack := by
  rw [dataSegments_sendTcp, if_neg fun hdata => hdata.2 hload]

theorem dataSegments_processIncoming (link : Link) (segment : TcpSegment) :
    dataSegments (processIncoming link segment).2.stack = dataSegments link.stack := by
  rw [processIncoming]
  split
  · rfl
  split
  · exact dataSegments_sendTcp_control _ rfl
  · rfl

/-! ## Waiting for an acknowledgement -/

/-- What waiting leaves: the next sequence, the data on the wire, and not more in flight. -/
structure Waited (before after : Link) : Prop where
  sendNext : after.client.sendNext = before.client.sendNext
  inFlight : inFlight after.client ≤ inFlight before.client
  data : dataSegments after.stack = dataSegments before.stack

theorem Waited.refl (link : Link) : Waited link link := ⟨rfl, le_rfl, rfl⟩

theorem Waited.trans (hsnd : Waited first second)
    (hthird : Waited second third) : Waited first third :=
  ⟨hthird.sendNext.trans hsnd.sendNext, hthird.inFlight.trans hsnd.inFlight,
    hthird.data.trans hsnd.data⟩

theorem absorb_sends (segment : TcpSegment) (hflight : inFlight client < 2 ^ 31) :
    (absorb client segment).2.sendNext = client.sendNext ∧
      inFlight (absorb client segment).2 ≤ inFlight client := by
  by_cases hreset : segment.flags.rst
  · rw [absorb_reset hreset]
    exact ⟨rfl, le_rfl⟩
  have hrecv := absorb_received client (Bool.eq_false_iff.mpr hreset)
  have hnext : (absorb client segment).2.sendNext = client.sendNext :=
    hrecv.sendNext.trans (heardAck_fields client segment).1
  have hacked := heardAck_inFlight segment hflight
  refine ⟨hnext, ?_⟩
  have hsame : inFlight (absorb client segment).2 = inFlight (heardAck client segment) := by
    rw [inFlight, inFlight, hrecv.sendNext, hrecv.sendUnacknowledged]
  omega

theorem Waited.take (link : Link) : Waited link (takeOrPollOne link).2 := by
  have hclient := client_takeOrPollOne link
  refine ⟨by rw [hclient], by rw [hclient], ?_⟩
  rw [dataSegments, dataSegments, wire_takeOrPollOne]

theorem Waited.process (htaken : takeOrPollOne link = (.ok segment, taken))
    (hflight : TcpClient.inFlight link.client < 2 ^ 31) :
    Waited link (processIncoming taken segment).2 := by
  obtain ⟨hclient, hfor⟩ := takeOrPollOne_ok htaken
  have htake := Waited.take link
  rw [htaken] at htake
  rw [← hclient] at hfor hflight
  obtain ⟨hnext, hless⟩ := absorb_sends segment hflight
  rw [← client_processIncoming hfor] at hnext hless
  exact htake.trans ⟨hnext, hless, dataSegments_processIncoming taken segment⟩

def Wait.Ends (expectedAck : Sequence) (client : Client) : Wait → Prop
  | .acknowledged =>
    Talking client ∧ sequenceBefore client.sendUnacknowledged expectedAck = false
  | .expired => Talking client
  | .failed _ => Lost client

theorem awaitAck_spec (expectedAck : Sequence) (rounds : ℕ)
    (htalking : Talking link.client) (hflight : inFlight link.client < 2 ^ 31) :
    Moves mode link (awaitAck expectedAck rounds link).2 ∧
      Waited link (awaitAck expectedAck rounds link).2 ∧
      (awaitAck expectedAck rounds link).1.Ends expectedAck
        (awaitAck expectedAck rounds link).2.client := by
  induction rounds generalizing link with
  | zero => exact ⟨.refl, .refl link, htalking⟩
  | succ _ ih =>
    have hwaited := Waited.take link
    have hclient := client_takeOrPollOne link
    rw [awaitAck]
    split
    next taken heq =>
      have htake : Moves mode link taken := .takeError heq
      rw [heq] at hwaited hclient
      split
      · obtain ⟨hmoves, hagain, hends⟩ := ih (hclient ▸ htalking) (hclient ▸ hflight)
        exact ⟨htake.trans hmoves, hwaited.trans hagain, hends⟩
      · exact ⟨htake.trans (setError_moves _), hwaited.trans ⟨rfl, le_rfl, rfl⟩, .inl rfl⟩
    rename_i segment taken heq
    have hproc : Moves mode link (processIncoming taken segment).2 :=
      processIncoming_moves heq htalking.hears
    have hheard := Waited.process heq hflight
    dsimp only
    split
    · refine ⟨hproc.trans (fail_moves _ _ false ?_ (nofun)), hheard.trans ⟨rfl, le_rfl, rfl⟩, ?_⟩
      · by_cases hreset : (processIncoming taken segment).2.client.state = .reset
        · simp [hreset]
        · simp [hreset]
      · by_cases hreset : (processIncoming taken segment).2.client.state = .reset
        · exact .inr (by simp [failSend, hreset])
        · exact .inl (by simp [failSend, hreset])
    rename_i hstat
    obtain ⟨hreset, habsorbed⟩ := processIncoming_goesOn heq hstat
    have hopen : Talking (processIncoming taken segment).2.client := by
      rw [habsorbed]
      exact absorb_talking hreset htalking
    split
    next hacknowledged => exact ⟨hproc, hheard, hopen, hacknowledged⟩
    · obtain ⟨hmoves, hagain, hends⟩ := ih hopen (hheard.inFlight.trans_lt hflight)
      exact ⟨hproc.trans hmoves, hheard.trans hagain, hends⟩

end

/-! ## A chunk and its retransmissions -/

section

variable {link : Link} {sequence : Sequence} {payload : List UInt8}

/-- All data that went out in the meantime has the sequence and the payload. -/
def Repeats (sequence : Sequence) (payload : List UInt8) (before after : Link) : Prop :=
  ∃ fresh, dataSegments after.stack = fresh ++ dataSegments before.stack ∧
    ∀ outgoing ∈ fresh, outgoing.sequence = sequence ∧ outgoing.payload = payload

theorem Waited.repeats {before after : Link} (hwaited : Waited before after) :
    Repeats sequence payload before after :=
  ⟨[], hwaited.data, by simp⟩

theorem Repeats.trans (hsnd : Repeats sequence payload first second)
    (hthird : Repeats sequence payload second third) : Repeats sequence payload first third := by
  obtain ⟨fresh, hfresh, hsame⟩ := hsnd
  obtain ⟨fresher, hfresher, hsame'⟩ := hthird
  refine ⟨fresher ++ fresh, by rw [hfresher, hfresh, List.append_assoc], fun outgoing hout => ?_⟩
  rcases List.mem_append.mp hout with hout | hout
  · exact hsame' outgoing hout
  · exact hsame outgoing hout

theorem queueLoop_repeats (client : Client) (outgoing : Outgoing) (rounds : ℕ)
    (stack : NetworkStack) :
    Repeats outgoing.sequence outgoing.payload ⟨client, stack⟩
      ⟨client, (queueLoop outgoing rounds stack).2⟩ := by
  have hsent : ∀ stack, Repeats outgoing.sequence outgoing.payload ⟨client, stack⟩
      ⟨client, (NetworkStack.sendTcp stack outgoing).2⟩ := by
    intro stack
    have hdata := dataSegments_sendTcp stack outgoing
    split at hdata
    · exact ⟨[outgoing], hdata, by simp⟩
    · exact ⟨[], hdata, by simp⟩
  induction rounds generalizing stack with
  | zero => exact ⟨[], rfl, by simp⟩
  | succ _ ih =>
    have hpolled : Repeats outgoing.sequence outgoing.payload
        ⟨client, (stack.sendTcp outgoing).2⟩ ⟨client, (stack.sendTcp outgoing).2.poll.2⟩ :=
      ⟨[], by rw [dataSegments, dataSegments, wire_poll]; rfl, by simp⟩
    rw [queueLoop]
    dsimp only
    split
    · exact hsent stack
    split
    · exact hsent stack
    split
    · exact (hsent stack).trans hpolled
    · exact ((hsent stack).trans hpolled).trans (ih _)

theorem queueSegment_repeats (link : Link) (sequence acknowledgement : Sequence) (flags : Flags)
    (payload : List UInt8) :
    Repeats sequence payload link
      (queueSegmentWithBackpressure link sequence acknowledgement flags payload).2 :=
  queueLoop_repeats link.client (link.client.outgoing sequence acknowledgement flags payload) _ _

theorem Repeats.length_le (hrepeats : Repeats sequence payload first second) :
    (dataSegments first.stack).length ≤ (dataSegments second.stack).length := by
  obtain ⟨fresh, hfresh, -⟩ := hrepeats
  rw [hfresh, List.length_append]
  exact Nat.le_add_left _ _

theorem queueSegment_grows {acknowledgement : Sequence} {flags : Flags} (hload : payload ≠ [])
    (hok : (queueSegmentWithBackpressure link sequence acknowledgement flags payload).1 = .ok) :
    (dataSegments link.stack).length <
      (dataSegments (queueSegmentWithBackpressure link sequence acknowledgement flags
        payload).2.stack).length := by
  rcases @queueSegment_cases ⟨true, false, false⟩ rfl link sequence acknowledgement flags payload
    with ⟨hfail, _⟩ | ⟨waited, hmoves, hsent, hres⟩
  · exact absurd hok hfail
  have hearlier := (hmoves.wire.filter fun outgoing => decide (outgoing.payload ≠ [])).length_le
  rw [hres, dataSegments_sendTcp, if_pos ⟨hsent, hload⟩]
  exact Nat.lt_succ_of_le hearlier

/-- A client that sends a chunk, before and after the sequence is committed. There was so much
data on the wire earlier. -/
structure Chunking (sequence expectedAck : Sequence) (payload : List UInt8) (earlier limit : ℕ)
    (committed : Bool) (link : Link) : Prop where
  talking : Talking link.client
  sendNext : link.client.sendNext = if committed then expectedAck else sequence
  inFlight : inFlight link.client ≤ limit + if committed then (expectedAck - sequence).toNat else 0
  grown : committed = true → payload ≠ [] → earlier < (dataSegments link.stack).length

def Delivery.Ends (sequence expectedAck : Sequence) (payload : List UInt8) (earlier limit : ℕ)
    (link : Link) : Delivery → Prop
  | .acknowledged =>
    Talking link.client ∧ link.client.sendNext = expectedAck ∧
      link.client.sendUnacknowledged = expectedAck ∧
      (payload ≠ [] → earlier < (dataSegments link.stack).length)
  | .expired committed => Chunking sequence expectedAck payload earlier limit committed link
  | .failed _ => Lost link.client ∧ inFlight link.client ≤ limit + (expectedAck - sequence).toNat

theorem transmitChunk_spec (hwaits : mode.waits)
    (hcommits : mode.commits) {earlier limit : ℕ} (payload : List UInt8)
    (hchunk : chunk ≤ maxSegmentPayload) (hlimit : limit < 2 ^ 16) {expectedAck : Sequence}
    (hexpected : sequence + BitVec.ofNat 32 chunk = expectedAck) (transmissions : ℕ)
    (committed : Bool)
    (hearlier : earlier ≤ (dataSegments link.stack).length)
    (hchunking : Chunking sequence expectedAck payload earlier limit committed link) :
    Moves mode link
        (transmitChunk sequence expectedAck payload transmissions committed link).2 ∧
      Repeats sequence payload link
        (transmitChunk sequence expectedAck payload transmissions committed link).2 ∧
      (transmitChunk sequence expectedAck payload transmissions committed link).1.Ends sequence
        expectedAck payload earlier limit
        (transmitChunk sequence expectedAck payload transmissions committed link).2 := by
  have hlen : (expectedAck - sequence).toNat = chunk := by
    rw [maxSegmentPayload] at hchunk
    bv_omega
  induction transmissions generalizing link committed with
  | zero => exact ⟨.refl, (Waited.refl link).repeats, hchunking⟩
  | succ _ ih =>
    have htalking := hchunking.talking
    obtain ⟨hqueued, hclient⟩ :=
      queueSegment_moves hwaits (Permitted.data sequence payload htalking)
    have hrepeats := queueSegment_repeats link sequence link.client.receiveNext
      { psh := true, ack := true } payload
    have hgrows : payload ≠ [] → _ → (dataSegments link.stack).length <
      (dataSegments (queueSegmentWithBackpressure link sequence link.client.receiveNext
        { psh := true, ack := true } payload).2.stack).length := queueSegment_grows
    rw [transmitChunk]
    generalize queueSegmentWithBackpressure link sequence link.client.receiveNext
      { psh := true, ack := true } payload = queued at hqueued hclient hrepeats hgrows ⊢
    obtain ⟨_, queued⟩ := queued
    dsimp only at hqueued hclient hrepeats hgrows ⊢
    have hearlier' := hearlier.trans hrepeats.length_le
    have hchunking : Chunking sequence expectedAck payload earlier limit committed queued :=
      ⟨hclient ▸ htalking, hclient ▸ hchunking.sendNext, hclient ▸ hchunking.inFlight,
        fun hcommitted hload => (hchunking.grown hcommitted hload).trans_le hrepeats.length_le⟩
    split
    · obtain ⟨hmoves, hagain, hends⟩ := ih committed hearlier' hchunking
      exact ⟨hqueued.trans hmoves, hrepeats.trans hagain, hends⟩
    split
    · refine ⟨hqueued.trans (setError_moves _), hrepeats.trans (Waited.repeats ⟨rfl, le_rfl, rfl⟩),
        .inl rfl, ?_⟩
      have hflight := hchunking.inFlight
      change inFlight queued.client ≤ _
      split at hflight <;> omega
    -- The chunk is on the wire, and its sequence numbers are in use.
    rename_i hok
    obtain ⟨sent, heq, hsent, hagain, hchunking⟩ : ∃ sent, (if committed then queued
          else { queued with client := { queued.client with sendNext := expectedAck } }) = sent ∧
        Moves mode link sent ∧ Repeats sequence payload link sent ∧
        Chunking sequence expectedAck payload earlier limit true sent := by
      cases committed with
      | true => exact ⟨_, rfl, hqueued, hrepeats, hchunking⟩
      | false =>
        have hnext : queued.client.sendNext = sequence := hchunking.sendNext
        have hflight : inFlight queued.client ≤ limit := hchunking.inFlight
        have hadvanced : inFlight { queued.client with sendNext := expectedAck } =
            inFlight queued.client + chunk := by
          rw [← hexpected, ← hnext]
          rw [maxSegmentPayload] at hchunk
          exact inFlight_advance (by omega)
        refine ⟨_, rfl, ?_, hrepeats.trans ⟨[], rfl, by simp⟩, hchunking.talking, rfl, ?_,
          fun _ hload => hearlier.trans_lt (hgrows hload (not_not.mp hok))⟩
        · have hcommit := Move.commit queued chunk hcommits hchunk (by omega)
          rw [hnext, hexpected] at hcommit
          exact hqueued.tail hcommit
        · change inFlight { queued.client with sendNext := expectedAck } ≤ _
          rw [hadvanced, if_pos rfl, hlen]
          omega
    rw [heq]
    have hflight := hchunking.inFlight
    rw [if_pos rfl, hlen] at hflight
    have hopen : Talking (takeBudget sent).2.client := hchunking.talking
    have hbound : inFlight (takeBudget sent).2.client < 2 ^ 31 := by
      rw [maxSegmentPayload] at hchunk
      change inFlight sent.client < _
      omega
    obtain ⟨hawaited, hwaited, hends⟩ : Moves mode _ _ ∧ _ :=
      awaitAck_spec expectedAck (takeBudget sent).1 hopen hbound
    have hbudget := (hsent.tail (.budget sent)).trans hawaited
    have hgrown := hchunking.grown rfl
    have hdata := hwaited.data
    change _ = dataSegments sent.stack at hdata
    rw [← hdata] at hgrown
    have hstill : Repeats sequence payload sent (takeBudget sent).2 := ⟨[], rfl, by simp⟩
    have hrepeated := (hagain.trans hstill).trans hwaited.repeats
    have hnext := hwaited.sendNext.trans hchunking.sendNext
    have hless := hwaited.inFlight
    split
    next heq =>
      rw [heq] at hends hbudget hrepeated hnext hless hgrown
      refine ⟨hbudget, hrepeated, hends.1, hnext, ?_, hgrown⟩
      have hreached := sequenceBefore_eq_false.mp hends.2
      rw [if_pos rfl] at hnext
      rw [inFlight, hnext] at hless
      bv_omega
    next heq =>
      rw [heq] at hends hbudget hrepeated hless
      refine ⟨hbudget, hrepeated, hends, ?_⟩
      rw [hlen]
      exact hless.trans hflight
    rename_i heq
    rw [heq] at hends hbudget hrepeated hnext hless hgrown
    obtain ⟨hmoves, hagain, hends⟩ := ih true (hearlier.trans hrepeated.length_le)
      ⟨hends, hnext, by
        rw [if_pos rfl, hlen]
        exact hless.trans hflight, fun _ => hgrown⟩
    exact ⟨hbudget.trans hmoves, hrepeated.trans hagain, hends⟩

/-! ## The chunks of a buffer -/

/-- Nearly all that is in flight between two calls fits into the largest window. -/
def Fits (client : Client) : Prop := Lost client ∨ inFlight client < 2 ^ 16

/-- A call refuses at once, or it finds the connection open and sends its chunks. -/
theorem send_cases (hfits : Fits link.client) (data : List UInt8) :
    (∃ status, send link data = (status, link) ∧ status ≠ .wouldBlock ∧ status ≠ .ok) ∨
      Talking link.client ∧ inFlight link.client < 2 ^ 16 ∧
        send link data = sendChunks data.length data link := by
  rw [send]
  split
  · exact .inl ⟨_, rfl, nofun, nofun⟩
  split
  · exact .inl ⟨_, rfl, nofun, nofun⟩
  rename_i hopen
  rw [not_or, not_ne_iff] at hopen
  have halive : ¬ Lost link.client := by simp [Lost, hopen.1]
  exact .inr ⟨.inl hopen.1, hfits.resolve_left halive, rfl⟩

section

variable (hwaits : mode.waits) (hcommits : mode.commits)
include hwaits hcommits

theorem sendChunks_spec (rounds : ℕ)
    (data : List UInt8) (htalking : Talking link.client) (hflight : inFlight link.client < 2 ^ 16) :
    Moves mode link (sendChunks rounds data link).2 ∧
      Fits (sendChunks rounds data link).2.client := by
  induction rounds generalizing link data with
  | zero => exact ⟨.refl, .inr hflight⟩
  | succ _ ih =>
    rw [sendChunks]
    split
    · exact ⟨.refl, .inr hflight⟩
    split
    · exact ⟨.refl, .inr hflight⟩
    dsimp only
    generalize hchunk : min (min data.length maxSegmentPayload) link.client.peerWindow.toNat = chunk
    have hbound : chunk ≤ maxSegmentPayload := by omega
    obtain ⟨hmoves, _, hends⟩ := transmitChunk_spec hwaits hcommits (data.take chunk) hbound
      hflight rfl dataTransmissionLimit false le_rfl ⟨htalking, rfl, le_rfl, nofun⟩
    split
    next heq =>
      rw [heq] at hmoves hends
      exact ⟨hmoves, .inl hends.1⟩
    next heq =>
      rw [heq] at hmoves hends
      exact ⟨hmoves, .inr (hends.inFlight.trans_lt hflight)⟩
    next expired heq =>
      rw [heq] at hmoves hends
      split
      next hunacknowledged =>
        have hrewound := hmoves.tail (.rewind expired hcommits)
        rw [hunacknowledged] at hrewound
        refine ⟨hrewound, .inr ?_⟩
        simp [inFlight, hunacknowledged]
      · exact ⟨hmoves.trans (setError_moves _), .inl (.inl rfl)⟩
    next acknowledged heq =>
      rw [heq] at hmoves hends
      obtain ⟨hopen, hnext, hacked, -⟩ := hends
      have hsettled : inFlight acknowledged.client < 2 ^ 16 := by
        rw [inFlight, hnext, hacked, BitVec.sub_self]
        decide
      obtain ⟨hrest, hfits⟩ := ih (data.drop chunk) hopen hsettled
      exact ⟨hmoves.trans hrest, hfits⟩

theorem send_spec (link : Link) (data : List UInt8) (hfits : Fits link.client) :
    Moves mode link (send link data).2 ∧ Fits (send link data).2.client := by
  rcases send_cases hfits data with ⟨_, hsend, -⟩ | ⟨htalking, hflight, hsend⟩ <;> rw [hsend]
  · exact ⟨.refl, hfits⟩
  · exact sendChunks_spec hwaits hcommits _ _ htalking hflight

end

end

end Kurogane.Net.TcpClient
