/-
# Callers that try again

A caller hands a buffer to `send` again and again until it is sent, and lets the client make
progress in between. Every call sends parts of the buffer at their places behind the
sequence it starts from. As long as no call would block behind a chunk that was acknowledged,
all calls start from the same sequence, so that the peer sees the buffer once. A call that
does moves the sequence on, and the next one repeats the chunk at a new sequence.
-/

import Kurogane.Net.TcpReassembly
import Kurogane.Net.TcpSessions

namespace Kurogane.Net.TcpClient

/-! ## One call of `send` -/

/-- A failure of `send` is not reported as if the call would block. -/
def Wait.Reported : Wait → Prop
  | .failed status => status ≠ .ok ∧ status ≠ .wouldBlock
  | _ => True

def Delivery.Reported : Delivery → Prop
  | .failed status => status ≠ .ok ∧ status ≠ .wouldBlock
  | _ => True

theorem awaitAck_reported (expectedAck : Sequence) (rounds : ℕ) (link : Link) :
    (awaitAck expectedAck rounds link).1.Reported := by
  induction rounds generalizing link with
  | zero => trivial
  | succ _ ih =>
    have herror : ∀ status, (takeOrPollOne link).1 = .error status → status ≠ .ok :=
      fun _ => takeOrPollOne_error
    rw [awaitAck]
    split
    next status taken heq =>
      rw [heq] at herror
      split
      · exact ih taken
      next hstat => exact ⟨herror status rfl, fun hblk => hstat (.inl hblk)⟩
    rename_i segment taken heq
    dsimp only
    split
    next hstat => exact ⟨hstat.1, processIncoming_status taken segment⟩
    split
    · trivial
    · exact ih _

theorem transmitChunk_reported (sequence expectedAck : Sequence) (payload : List UInt8)
    (transmissions : ℕ) (committed : Bool) (link : Link) :
    (transmitChunk sequence expectedAck payload transmissions committed link).1.Reported := by
  induction transmissions generalizing committed link with
  | zero => trivial
  | succ _ ih =>
    rw [transmitChunk]
    dsimp only
    split
    · exact ih _ _
    rename_i hblk
    split
    next hok => exact ⟨hok, hblk⟩
    split
    · trivial
    next status failed heq =>
      change (Wait.failed status, failed).1.Reported
      rw [← heq]
      exact awaitAck_reported _ _ _
    · exact ih _ _

/-- The segment carries a part of the buffer at its place behind the sequence. -/
def Carries (sequence : Sequence) (data : List UInt8) (outgoing : Outgoing) (offset : ℕ) : Prop :=
  outgoing.sequence = sequence + BitVec.ofNat 32 offset ∧ outgoing.payload <+: data.drop offset

/-- All data that went out in the meantime are parts of the buffer at their places. -/
def Slices (sequence : Sequence) (data : List UInt8) (before after : Link) : Prop :=
  ∃ fresh, dataSegments after.stack = fresh ++ dataSegments before.stack ∧
    ∀ outgoing ∈ fresh, ∃ offset, Carries sequence data outgoing offset

/-- Every byte of the buffer has been on the wire at its place. -/
def Covered (sequence : Sequence) (data : List UInt8) (link : Link) : Prop :=
  ∀ position < data.length, ∃ outgoing ∈ link.stack.wire, ∃ offset ≤ position,
    position < offset + outgoing.payload.length ∧ Carries sequence data outgoing offset

section

variable {sequence : Sequence} {data : List UInt8} {chunk : ℕ} {first second third : Link}

theorem Carries.shift {outgoing : Outgoing} {offset : ℕ}
    (hcarries : Carries (sequence + BitVec.ofNat 32 chunk) (data.drop chunk) outgoing offset) :
    Carries sequence data outgoing (chunk + offset) := by
  obtain ⟨hsequence, hpayload⟩ := hcarries
  rw [List.drop_drop] at hpayload
  refine ⟨?_, hpayload⟩
  rw [hsequence, BitVec.ofNat_add, BitVec.add_assoc]

theorem Slices.refl (sequence : Sequence) (data : List UInt8) (link : Link) :
    Slices sequence data link link :=
  ⟨[], rfl, by simp⟩

theorem Slices.trans (hsnd : Slices sequence data first second)
    (hthird : Slices sequence data second third) : Slices sequence data first third := by
  obtain ⟨fresh, hfresh, hparts⟩ := hsnd
  obtain ⟨fresher, hfresher, hparts'⟩ := hthird
  refine ⟨fresher ++ fresh, by rw [hfresher, hfresh, List.append_assoc], fun outgoing hout => ?_⟩
  rcases List.mem_append.mp hout with hout | hout
  · exact hparts' outgoing hout
  · exact hparts outgoing hout

theorem Slices.shift (hslices : Slices (sequence + BitVec.ofNat 32 chunk) (data.drop chunk)
    first second) : Slices sequence data first second := by
  obtain ⟨fresh, hfresh, hparts⟩ := hslices
  refine ⟨fresh, hfresh, fun outgoing hout => ?_⟩
  obtain ⟨offset, hcarries⟩ := hparts outgoing hout
  exact ⟨chunk + offset, hcarries.shift⟩

theorem Repeats.slices (hrepeats : Repeats sequence (data.take chunk) first second) :
    Slices sequence data first second := by
  obtain ⟨fresh, hfresh, hsame⟩ := hrepeats
  refine ⟨fresh, hfresh, fun outgoing hout => ⟨0, ?_, ?_⟩⟩
  · rw [(hsame outgoing hout).1, BitVec.add_zero]
  · rw [(hsame outgoing hout).2]
    exact List.take_prefix chunk data

theorem Waited.slices (hwaited : Waited first second) : Slices sequence data first second :=
  ⟨[], hwaited.data, by simp⟩

theorem Covered.append (hrepeats : Repeats sequence (data.take chunk) first second)
    (hgrown : (dataSegments first.stack).length < (dataSegments second.stack).length)
    (hwire : second.stack.wire <:+ third.stack.wire)
    (hrest : Covered (sequence + BitVec.ofNat 32 chunk) (data.drop chunk) third) :
    Covered sequence data third := by
  intro position hposition
  by_cases hbefore : position < chunk
  · obtain ⟨fresh, hfresh, hsame⟩ := hrepeats
    obtain ⟨outgoing, hout⟩ : ∃ outgoing, outgoing ∈ fresh := by
      refine List.exists_mem_of_ne_nil _ fun hnil => ?_
      rw [hfresh, hnil, List.nil_append] at hgrown
      exact hgrown.false
    have hsent : outgoing ∈ dataSegments second.stack := hfresh ▸ List.mem_append_left _ hout
    refine ⟨outgoing, hwire.subset (List.mem_of_mem_filter hsent), 0, Nat.zero_le _, ?_, ?_, ?_⟩
    · rw [(hsame outgoing hout).2, List.length_take]
      omega
    · rw [(hsame outgoing hout).1, BitVec.add_zero]
    · rw [(hsame outgoing hout).2]
      exact List.take_prefix chunk data
  · obtain ⟨outgoing, hout, offset, hle, hlt, hcarries⟩ := hrest (position - chunk) (by
      rw [List.length_drop]
      omega)
    exact ⟨outgoing, hout, chunk + offset, by omega, by omega, hcarries.shift⟩

end

/-- How much of the buffer `send` takes into its first chunk. -/
def firstChunk (data : List UInt8) (client : Client) : ℕ :=
  min (min data.length maxSegmentPayload) client.peerWindow.toNat

def FirstAcknowledged (data : List UInt8) (link : Link) : Prop :=
  link.client.peerWindow ≠ 0 ∧
    (transmitChunk link.client.sendNext
      (link.client.sendNext + BitVec.ofNat 32 (firstChunk data link.client))
      (data.take (firstChunk data link.client)) dataTransmissionLimit false link).1 = .acknowledged

instance (data : List UInt8) (link : Link) : Decidable (FirstAcknowledged data link) :=
  inferInstanceAs (Decidable (_ ∧ _))

/-- What a call of `send` has done, by what it reports. If it would block, some bytes at the
front of the buffer may have been acknowledged; there are none if it has not got beyond the
first chunk. -/
structure SentParts (data : List UInt8) (before : Link) (status : Status) (after : Link) :
    Prop where
  slices : Slices before.client.sendNext data before after
  blocked : status = .wouldBlock → Talking after.client ∧ ∃ done < data.length,
    after.client.sendNext = before.client.sendNext + BitVec.ofNat 32 done ∧
      (done = 0 ↔ ¬ FirstAcknowledged data before)
  sent : status = .ok →
    after.client.sendNext = before.client.sendNext + BitVec.ofNat 32 data.length ∧
      (data ≠ [] → after.client.sendUnacknowledged = after.client.sendNext) ∧
      Covered before.client.sendNext data after

variable {data : List UInt8} {link : Link}

theorem SentParts.nil (hdata : data.length = 0) : SentParts data link .ok link := by
  refine ⟨.refl _ _ _, nofun, fun _ => ⟨?_, fun hne => ?_, fun position hposition => ?_⟩⟩
  · rw [hdata, BitVec.add_zero]
  · exact absurd (List.length_eq_zero_iff.mp hdata) hne
  · omega

theorem sendChunks_nil (rounds : ℕ) (link : Link) : sendChunks rounds [] link = (.ok, link) := by
  cases rounds with
  | zero => rfl
  | succ => rfl

theorem sendChunks_parts (rounds : ℕ) (data : List UInt8) (hrounds : data.length ≤ rounds)
    (htalking : Talking link.client) (hflight : inFlight link.client < 2 ^ 16) :
    SentParts data link (sendChunks rounds data link).1 (sendChunks rounds data link).2 := by
  induction rounds generalizing data link with
  | zero => exact .nil (by omega)
  | succ rounds ih =>
    have hstill : link.client.sendNext = link.client.sendNext + BitVec.ofNat 32 0 := by
      rw [BitVec.add_zero]
    rw [sendChunks]
    split
    next hdata => exact .nil hdata
    next hdata =>
    split
    next hwindow =>
      refine ⟨.refl _ _ _, fun _ => ⟨htalking, 0, by omega, hstill, ?_⟩, by rintro ⟨⟩⟩
      exact iff_of_true rfl fun hfirst => hfirst.1 hwindow
    next hwindow =>
    have hpositive : 0 < firstChunk data link.client := by
      have hopen : link.client.peerWindow.toNat ≠ 0 := fun hzero =>
        hwindow (UInt16.toNat_inj.mp hzero)
      rw [firstChunk, maxSegmentPayload]
      omega
    have hwhole : firstChunk data link.client ≤ data.length := by
      rw [firstChunk]
      omega
    have hbound : firstChunk data link.client ≤ maxSegmentPayload := by
      rw [firstChunk]
      omega
    have hfirst : FirstAcknowledged data link ↔ _ := and_iff_right hwindow
    obtain ⟨hmoves, hrepeats, hends⟩ : Moves ⟨true, true, false⟩ _ _ ∧ _ :=
      transmitChunk_spec rfl rfl (data.take (firstChunk data link.client)) hbound hflight rfl
        dataTransmissionLimit false le_rfl ⟨htalking, rfl, le_rfl, by rintro ⟨⟩⟩
    have hreported := transmitChunk_reported link.client.sendNext
      (link.client.sendNext + BitVec.ofNat 32 (firstChunk data link.client))
      (data.take (firstChunk data link.client)) dataTransmissionLimit false link
    have hchunk : min (min data.length maxSegmentPayload) link.client.peerWindow.toNat =
        firstChunk data link.client := rfl
    dsimp only
    rw [hchunk]
    generalize transmitChunk link.client.sendNext
      (link.client.sendNext + BitVec.ofNat 32 (firstChunk data link.client))
      (data.take (firstChunk data link.client)) dataTransmissionLimit false link =
      transmitted at hmoves hrepeats hends hreported hfirst ⊢
    obtain ⟨_ | (_ | _) | _, after⟩ := transmitted
    · obtain ⟨hopen, hnext, hacked, hgrown⟩ := hends
      have hsettled : inFlight after.client < 2 ^ 16 := by
        rw [inFlight, hnext, hacked, BitVec.sub_self]
        decide
      have hlength := List.length_drop (i := firstChunk data link.client) (l := data)
      obtain ⟨hslices, hblocked, hsent⟩ :=
        ih (data.drop (firstChunk data link.client)) (by omega) hopen hsettled
      obtain ⟨hlater, -⟩ : Moves ⟨true, true, false⟩ _ _ ∧ _ :=
        sendChunks_spec rfl rfl rounds (data.drop (firstChunk data link.client)) hopen hsettled
      rw [hnext] at hslices hblocked hsent
      refine ⟨hrepeats.slices.trans hslices.shift, fun hblk => ?_, fun hok => ?_⟩
      · obtain ⟨hstays, done, hless, hdone, -⟩ := hblocked hblk
        refine ⟨hstays, firstChunk data link.client + done, by omega, ?_, ?_⟩
        · rw [hdone, BitVec.ofNat_add, BitVec.add_assoc]
        · exact iff_of_false (by omega) fun hnot => hnot (hfirst.mpr rfl)
      · obtain ⟨hdone, hall, hcovered⟩ := hsent hok
        refine ⟨?_, fun _ => ?_, .append hrepeats (hgrown ?_) hlater.wire hcovered⟩
        · rw [hdone, BitVec.add_assoc, ← BitVec.ofNat_add, hlength]
          congr 2
          omega
        · by_cases hrest : data.drop (firstChunk data link.client) = []
          · dsimp only
            rw [hrest, sendChunks_nil, hacked, hnext]
          · exact hall hrest
        · rw [← List.length_pos_iff, List.length_take]
          omega
    · refine ⟨hrepeats.slices, fun _ => ⟨hends.talking, 0, by omega, ?_, ?_⟩, by rintro ⟨⟩⟩
      · exact hends.sendNext.trans hstill
      · exact iff_of_true rfl fun hnot => by cases hfirst.mp hnot
    · dsimp only
      split
      · refine ⟨hrepeats.slices.trans ⟨[], rfl, by simp⟩, fun _ => ⟨hends.talking, 0, by omega,
          hstill, ?_⟩, by rintro ⟨⟩⟩
        exact iff_of_true rfl fun hnot => by cases hfirst.mp hnot
      · exact ⟨hrepeats.slices.trans ⟨[], rfl, by simp⟩, by rintro ⟨⟩, by rintro ⟨⟩⟩
    · exact ⟨hrepeats.slices, fun hblk => absurd hblk hreported.2,
        fun hok => absurd hok hreported.1⟩

theorem send_parts (hfits : Fits link.client) :
    SentParts data link (send link data).1 (send link data).2 := by
  rcases send_cases hfits data with ⟨_, hsend, hblk, hok⟩ | ⟨htalking, hflight, hsend⟩ <;>
    rw [hsend]
  · exact ⟨.refl _ _ _, fun hblocked => absurd hblocked hblk, fun hsent => absurd hsent hok⟩
  · exact sendChunks_parts _ _ le_rfl htalking hflight

/-! ## Progress between two calls -/

theorem progress_waited (halive : Talking link.client ∨ Lost link.client)
    (hflight : inFlight link.client < 2 ^ 31) :
    Waited link (progress link).2 ∧
      (Talking (progress link).2.client ∨ Lost (progress link).2.client) := by
  rw [progress]
  split
  · exact ⟨.refl link, halive⟩
  split
  · exact ⟨.refl link, halive⟩
  split
  · exact ⟨.refl link, halive⟩
  rename_i hdead
  have htalking : Talking link.client := halive.resolve_right fun hlost => hdead (Or.comm.mp hlost)
  have hsyn : link.client.state ≠ .synSent := by
    rcases htalking with hstate | hstate <;> simp [hstate]
  have hfin : link.client.state ≠ .finWait1 := by
    rcases htalking with hstate | hstate <;> simp [hstate]
  have hresend : resendSyn link = (none, link) := if_neg fun hresend => hsyn hresend.1
  rw [hresend]
  dsimp only
  have htake := Waited.take link
  have hclient := client_takeOrPollOne link
  split
  next taken heq =>
    rw [heq] at htake hclient
    split
    · exact ⟨htake, .inl (hclient ▸ htalking)⟩
    · exact ⟨htake.trans ⟨rfl, le_rfl, rfl⟩, .inr (.inl rfl)⟩
  rename_i segment taken heq
  have hwaited := Waited.process heq hflight
  obtain ⟨hsame, hfor⟩ := takeOrPollOne_ok heq
  have hheard : (processIncoming taken segment).2.client = (absorb link.client segment).2 := by
    rw [client_processIncoming (hsame ▸ hfor), hsame]
  have hend : Talking (processIncoming taken segment).2.client ∨
      Lost (processIncoming taken segment).2.client := by
    rw [hheard]
    by_cases hreset : segment.flags.rst = true
    · rw [absorb_reset hreset]
      exact .inr (.inr rfl)
    · exact .inl (absorb_talking (Bool.eq_false_iff.mpr hreset) htalking)
  rw [if_neg (hsame ▸ hsyn), progressConnection]
  dsimp only
  split
  · exact ⟨hwaited, hend⟩
  · rw [if_neg (hsame ▸ hfin)]
    exact ⟨hwaited, hend⟩

/-! ## Trying again -/

inductive Turn where
  | send
  | progress
  deriving DecidableEq

structure Attempt where
  turn : Turn
  inbox : Option TcpSegment := none
  arrivals : List Arrival := []
  transmits : List Status := []
  budgets : List ℕ := []

def Attempt.toRequest (attempt : Attempt) (data : List UInt8) : Request where
  call := if attempt.turn = .send then .send data else .progress
  inbox := attempt.inbox
  arrivals := attempt.arrivals
  transmits := attempt.transmits
  budgets := attempt.budgets

/-- The caller goes on while `send` would block, and ends with any other status. -/
def retry (data : List UInt8) : List Attempt → Link → Option Status × Link
  | [], link => (none, link)
  | attempt :: attempts, link =>
    let prepared := (attempt.toRequest data).prepare link
    match attempt.turn with
    | .progress => retry data attempts (progress prepared).2
    | .send =>
      if (send prepared data).1 = .wouldBlock then retry data attempts (send prepared data).2
      else (some (send prepared data).1, (send prepared data).2)

/-- Where the calls of `send` that would block start. -/
def blockedCalls (data : List UInt8) : List Attempt → Link → List Link
  | [], _ => []
  | attempt :: attempts, link =>
    let prepared := (attempt.toRequest data).prepare link
    match attempt.turn with
    | .progress => blockedCalls data attempts (progress prepared).2
    | .send =>
      if (send prepared data).1 = .wouldBlock then
        prepared :: blockedCalls data attempts (send prepared data).2
      else []

/-- What a caller has done that has tried several times. -/
structure Retried (data : List UInt8) (before : Link) (status : Option Status) (after : Link) :
    Prop where
  slices : Slices before.client.sendNext data before after
  blocked : status = none → after.client.sendNext = before.client.sendNext ∧
    sequenceAfter after.client.sendUnacknowledged before.client.sendNext = false
  sent : status = some .ok →
    after.client.sendNext = before.client.sendNext + BitVec.ofNat 32 data.length ∧
      (data ≠ [] → after.client.sendUnacknowledged = after.client.sendNext) ∧
      Covered before.client.sendNext data after

structure Trying (link : Link) : Prop where
  safe : Safe link
  fits : Fits link.client
  alive : Talking link.client ∨ Lost link.client

theorem Attempt.opening (attempt : Attempt) (data : List UInt8) :
    (attempt.toRequest data).call.opening = none := by
  change (if attempt.turn = .send then Call.send data else .progress).opening = none
  split
  · rfl
  · rfl

theorem prepare_slices {sequence : Sequence} (attempt : Attempt) (link : Link) :
    Slices sequence data link ((attempt.toRequest data).prepare link) := by
  refine ⟨[], ?_, by simp⟩
  simp [dataSegments, Request.prepare, attempt.opening data]

theorem Trying.prepare (htrying : Trying link) (attempt : Attempt)
    (data : List UInt8) : Trying ((attempt.toRequest data).prepare link) := by
  obtain ⟨hsafe, hfits⟩ := (attempt.toRequest data).begin_safe htrying.safe htrying.fits
  rw [Request.begin_other (attempt.opening data)] at hsafe hfits
  exact ⟨hsafe, hfits, htrying.alive⟩

theorem Trying.progress (htrying : Trying link) : Trying (TcpClient.progress link).2 := by
  have hmoves : Moves ⟨true, false, true⟩ link (TcpClient.progress link).2 :=
    progress_moves fun _ => rfl
  exact ⟨actsRun_safe hmoves.acts htrying.safe,
    actsRun_fits rfl hmoves.acts htrying.safe htrying.fits,
    (progress_waited htrying.alive htrying.safe.small).2⟩

theorem Trying.send (htrying : Trying link)
    (hblk : (TcpClient.send link data).1 = .wouldBlock) : Trying (TcpClient.send link data).2 := by
  obtain ⟨hmoves, hfits⟩ : Moves ⟨true, true, false⟩ _ _ ∧ _ :=
    send_spec rfl rfl link data htrying.fits
  exact ⟨actsRun_safe hmoves.acts htrying.safe, hfits,
    .inl ((send_parts htrying.fits).blocked hblk).1⟩

theorem Retried.cons {first second third : Link} {status : Option Status}
    (hslices : Slices first.client.sendNext data first second)
    (hnext : second.client.sendNext = first.client.sendNext)
    (hretried : Retried data second status third) : Retried data first status third := by
  obtain ⟨hslices', hblocked, hsent⟩ := hretried
  rw [hnext] at hslices' hblocked hsent
  exact ⟨hslices.trans hslices', hblocked, hsent⟩

theorem retry_spec (attempts : List Attempt) (htrying : Trying link)
    (hfirst : ∀ blocked ∈ blockedCalls data attempts link, ¬ FirstAcknowledged data blocked) :
    Retried data link (retry data attempts link).1 (retry data attempts link).2 := by
  induction attempts generalizing link with
  | nil =>
    exact ⟨.refl _ _ _, fun _ => ⟨rfl, sequenceBefore_eq_false.mpr htrying.safe.small⟩, nofun⟩
  | cons attempt attempts ih =>
    have hprep := htrying.prepare attempt data
    have hslices : Slices link.client.sendNext data link _ := prepare_slices attempt link
    rw [blockedCalls] at hfirst
    rw [retry]
    cases hturn : attempt.turn with
    | progress =>
      rw [hturn] at hfirst
      have hwaited := (progress_waited hprep.alive hprep.safe.small).1
      exact .cons (hslices.trans hwaited.slices) hwaited.sendNext (ih hprep.progress hfirst)
    | send =>
      rw [hturn] at hfirst
      have hparts : SentParts data _ _ _ := send_parts hprep.fits
      dsimp only at hfirst ⊢
      split
      next hblk =>
        rw [if_pos hblk, List.forall_mem_cons] at hfirst
        obtain ⟨_, done, -, hnext, hzero⟩ := hparts.blocked hblk
        rw [hzero.mpr hfirst.1, BitVec.add_zero] at hnext
        exact .cons (hslices.trans hparts.slices) hnext (ih (hprep.send hblk) hfirst.2)
      · exact ⟨hslices.trans hparts.slices, nofun, fun hok => hparts.sent (Option.some.inj hok)⟩

/-- A call that would block behind a chunk that was acknowledged has moved the sequence on. -/
theorem blockedCalls_moved (hlength : data.length < 2 ^ 32) (attempts : List Attempt)
    (htrying : Trying link) {blocked : Link} (hblocked : blocked ∈ blockedCalls data attempts link)
    (hfirst : FirstAcknowledged data blocked) :
    (send blocked data).2.client.sendNext ≠ blocked.client.sendNext := by
  induction attempts generalizing link with
  | nil => cases hblocked
  | cons attempt attempts ih =>
    have hprep := htrying.prepare attempt data
    rw [blockedCalls] at hblocked
    cases hturn : attempt.turn with
    | progress =>
      rw [hturn] at hblocked
      exact ih hprep.progress hblocked
    | send =>
      rw [hturn] at hblocked
      dsimp only at hblocked
      split at hblocked
      next hblk =>
        rcases List.mem_cons.mp hblocked with rfl | hlater
        · obtain ⟨-, done, hless, hnext, hzero⟩ := (send_parts hprep.fits).blocked hblk
          have hsome : done ≠ 0 := fun hdone => hzero.mp hdone hfirst
          rw [hnext]
          bv_omega
        · exact ih (hprep.send hblk) hlater
      · cases hblocked

def opened (window : UInt16) : List Request :=
  [{ call := .connect 1 2 80 7
     arrivals := [.segment
       ⟨1, 80, 2, 100, 8, { syn := true, ack := true }, window, [], nil_fits⟩]
     budgets := [1, 1] }]

def acknowledgement (number : Sequence) (window : UInt16) : Arrival :=
  .segment ⟨1, 80, 2, 101, number, { ack := true }, window, [], nil_fits⟩

/-- Two bytes go out one by one at the second attempt: the first one finds the driver busy. -/
def busyAttempts : List Attempt :=
  [{ turn := .send, transmits := [.queueFull], budgets := [1] },
    { turn := .send, arrivals := [acknowledgement 9 1, acknowledgement 10 1]
      budgets := [1, 1, 1, 1] }]

/-- The attempts of a caller whose peer takes one byte, closes the window and opens it. -/
def splitAttempts : List Attempt :=
  [{ turn := .send, arrivals := [acknowledgement 9 0], budgets := [1, 1] },
    { turn := .progress, arrivals := [acknowledgement 9 500] },
    { turn := .send, arrivals := [acknowledgement 11 500], budgets := [1, 1] }]

end Kurogane.Net.TcpClient
