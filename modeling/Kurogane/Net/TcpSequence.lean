/-
# The sequence numbers of a TCP client

The numbers of the send side stay in order through every session, whatever arrives and
however transmissions end. A connection sends one FIN at most, and nothing but
acknowledgements and an RST after it. A close that succeeds has seen the end of the
connection from both sides, or an RST.

An acknowledgement of what was never sent changes nothing, with one exception: while
`connect` waits for an answer to its SYN, it takes the answer also if no SYN could be queued.
-/

import Kurogane.Net.TcpSessions

namespace Kurogane.Net.TcpClient

open List

/-! ## What a call takes from the stack, and what it adds to the wire -/

/-- The segments that the client may find, in their order. -/
def incoming (stack : NetworkStack) : List TcpSegment :=
  stack.inbox.toList ++ stack.arrivals.filterMap fun arrival =>
    match arrival with
    | .segment segment => some segment
    | _ => none

theorem incoming_poll (stack : NetworkStack) :
    (incoming stack.poll.2).Sublist (incoming stack) := by
  obtain ⟨_, arrivals, _, _, _⟩ := stack
  cases arrivals with
  | nil => exact List.Sublist.refl _
  | cons arrival =>
    cases arrival with
    | segment => exact sublist_append_right _ _
    | _ => exact List.Sublist.refl _

theorem incoming_take (stack : NetworkStack) :
    incoming stack = stack.takeTcpSegment.1.toList ++ incoming stack.takeTcpSegment.2 := rfl

theorem incoming_takeOrPollOne (link : Link) :
    (incoming (takeOrPollOne link).2.stack).Sublist (incoming link.stack) ∧
      ∀ segment, (takeOrPollOne link).1 = .ok segment →
        (segment :: incoming (takeOrPollOne link).2.stack).Sublist (incoming link.stack) := by
  have hpoll := incoming_poll link.stack
  have hcases := takeOrPollOne_cases link
  generalize takeOrPollOne link = result at hcases ⊢
  cases hcases with
  | found _ hinbox =>
    rw [incoming_take link.stack]
    refine ⟨sublist_append_right _ _, fun segment hseg => ?_⟩
    dsimp only at hseg
    obtain ⟨hfound, _⟩ := ownSegment_ok hseg
    have htaken : link.stack.takeTcpSegment.1 = some segment := hinbox.trans hfound
    rw [htaken]
    exact List.Sublist.refl _
  | failed => exact ⟨hpoll, by rintro segment ⟨⟩⟩
  | polled =>
    rw [incoming_take link.stack.poll.2] at hpoll
    refine ⟨(sublist_append_right _ _).trans hpoll, fun segment hseg => ?_⟩
    have hfound : link.stack.poll.2.takeTcpSegment.1 = some segment := (ownSegment_ok hseg).1
    rw [hfound] at hpoll
    exact hpoll

theorem incoming_processIncoming (link : Link) (segment : TcpSegment) :
    incoming (processIncoming link segment).2.stack = incoming link.stack := by
  rw [processIncoming]
  split
  · rfl
  · split
    · rfl
    · rfl

variable {before after : Link} {mode : Mode}

theorem Move.incoming (hmove : Move mode before after) :
    (incoming after.stack).Sublist (TcpClient.incoming before.stack) := by
  cases hmove with
  | take => exact (incoming_takeOrPollOne before).1
  | wait => exact incoming_poll _
  | hear _ _ htaken =>
    have htake := (incoming_takeOrPollOne before).1
    rw [htaken] at htake
    exact htake
  | _ => exact List.Sublist.refl _

theorem Moves.incoming (hmoves : Moves mode before after) :
    (incoming after.stack).Sublist (TcpClient.incoming before.stack) := by
  induction hmoves with
  | refl => exact List.Sublist.refl _
  | tail _ hmove ih => exact hmove.incoming.trans ih

/-! ## Acknowledgements -/

def SameNumbers (before after : Client) : Prop :=
  after.sendUnacknowledged = before.sendUnacknowledged ∧ after.sendNext = before.sendNext

variable {client : Client} {segment : TcpSegment}

/-- An acknowledgement of what was never sent is ignored. -/
theorem absorb_beyond (hbeyond : sequenceAfter segment.acknowledgement client.sendNext) :
    SameNumbers client (absorb client segment).2 := by
  by_cases hreset : segment.flags.rst
  · rw [absorb_reset hreset]
    exact ⟨rfl, rfl⟩
  have hrecv := absorb_received client (Bool.eq_false_iff.mpr hreset)
  have hsame : heardAck client segment = { client with peerWindow := segment.window } := by
    rcases heardAck_cases client segment with hsame | ⟨hlast, _⟩
    · exact hsame
    · rw [hbeyond] at hlast
      cases hlast
  rw [hsame] at hrecv
  exact ⟨hrecv.sendUnacknowledged, hrecv.sendNext⟩

section

variable (link : Link) (hbeyond : sequenceAfter segment.acknowledgement link.client.sendNext)
include link hbeyond

theorem processIncoming_beyond :
    SameNumbers link.client (processIncoming link segment).2.client := by
  by_cases hfor : segmentForClient link.client segment
  · rw [client_processIncoming hfor]
    exact absorb_beyond hbeyond
  · rw [processIncoming, if_pos (Bool.eq_false_iff.mpr hfor)]
    exact ⟨rfl, rfl⟩

theorem progressHandshake_beyond :
    SameNumbers link.client (progressHandshake link segment).2.client := by
  have hother : segment.acknowledgement ≠ link.client.sendNext := by
    intro hack
    rw [hack, sequenceAfter, sequenceBefore_iff, BitVec.sub_self] at hbeyond
    exact absurd hbeyond (by decide)
  rw [progressHandshake]
  split
  · exact ⟨rfl, rfl⟩
  · rw [if_pos (.inr (.inr hother))]
    exact ⟨rfl, rfl⟩

end

variable {link : Link}

theorem peerWindow_establish (link : Link) (segment : TcpSegment) :
    (establish link segment).2.client.peerWindow = segment.window := by
  rw [establish]
  split
  next heq => rw [← (Prod.mk.inj heq).2]
  next heq =>
    rw [← (Prod.mk.inj heq).2]
    rfl

/-- While `connect` waits, only an answer to its SYN changes the numbers and the window. -/
theorem handshakeLoop_numbers (initialSequence : Sequence) (rounds : ℕ) :
    SameNumbers link.client (handshakeLoop initialSequence rounds link).2.client ∧
        (handshakeLoop initialSequence rounds link).2.client.peerWindow = link.client.peerWindow ∨
      ∃ segment ∈ incoming link.stack, segmentForClient link.client segment ∧
        (segment.flags.syn ∧ segment.flags.ack ∧
          segment.acknowledgement = initialSequence + 1) ∧
        (handshakeLoop initialSequence rounds link).2.client.peerWindow = segment.window := by
  induction rounds generalizing link with
  | zero => exact .inl ⟨⟨rfl, rfl⟩, rfl⟩
  | succ _ ih =>
    obtain ⟨hlater, hfound⟩ := incoming_takeOrPollOne link
    have hclient := client_takeOrPollOne link
    rw [handshakeLoop]
    split
    next status taken heq =>
      rw [heq] at hlater hclient
      rw [← hclient]
      split
      · refine ih.imp id fun hfound => ?_
        obtain ⟨segment, hmem, hanswer⟩ := hfound
        exact ⟨segment, hlater.mem hmem, hanswer⟩
      · exact .inl ⟨⟨rfl, rfl⟩, rfl⟩
    rename_i segment taken heq
    obtain ⟨hsame, hfor⟩ := takeOrPollOne_ok heq
    rw [heq] at hlater hfound
    split
    · rw [← hsame]
      exact .inl ⟨⟨rfl, rfl⟩, rfl⟩
    split
    next hanswer =>
      exact .inr ⟨segment, (hfound segment rfl).mem (mem_cons_self ..), hfor, hanswer,
        peerWindow_establish _ segment⟩
    rw [← hsame]
    refine ih.imp id fun hfound => ?_
    obtain ⟨segment, hmem, hanswer⟩ := hfound
    exact ⟨segment, hlater.mem hmem, hanswer⟩

/-! ## What the peer has said -/

theorem absorb_told (client : Client) (segment : TcpSegment) :
    (absorb client segment).2.peerWindow = segment.window ∧
      (HoldsFin (absorb client segment).2 → HoldsFin client ∨ segment.flags.fin) := by
  by_cases hreset : segment.flags.rst
  · rw [absorb_reset hreset]
    exact ⟨rfl, .inl⟩
  have hrecv := absorb_received client (Bool.eq_false_iff.mpr hreset)
  rw [hrecv.peerWindow]
  have hholds := hrecv.holdsFin
  rcases heardAck_cases client segment with hsame | ⟨_, _, hmoved⟩
  · rw [hsame] at hholds ⊢
    exact ⟨rfl, hholds⟩
  · rw [hmoved] at hholds ⊢
    exact ⟨rfl, hholds⟩

/-- What a client knows of its peer is as before, or a segment that it has taken brings it. -/
def Told (before after : Link) : Prop :=
  after.client.peerWindow = before.client.peerWindow ∧
      (HoldsFin after.client → HoldsFin before.client) ∨
    ∃ segment, (takeOrPollOne before).1 = .ok segment ∧
      after.client.peerWindow = segment.window ∧
      (HoldsFin after.client → HoldsFin before.client ∨ segment.flags.fin)

theorem Acts.told (hacts : Acts mode before after) :
    after.client = .initial ∨ before.client.state = .synSent ∨ Told before after := by
  rcases hacts with hmove | ⟨capacity, _, hdeliv⟩
  · cases hmove with
    | take =>
      rw [Told, client_takeOrPollOne]
      exact .inr (.inr (.inl ⟨rfl, id⟩))
    | hear _ segment htaken =>
      exact .inr (.inr (.inr ⟨segment, congrArg Prod.fst htaken,
        absorb_told before.client segment⟩))
    | establish _ _ hstate => exact .inr (.inl hstate)
    | free => exact .inl rfl
    | _ => exact .inr (.inr (.inl ⟨rfl, id⟩))
  · obtain ⟨_, rfl⟩ := deliverPending_some hdeliv
    obtain ⟨_, hclient⟩ := drainPending_fields before.client capacity
    rw [hclient]
    exact .inr (.inr (.inl ⟨rfl, id⟩))

/-! ## The window of the peer -/

theorem trySend_window (link : Link) (data : List UInt8) :
    (trySend link data).2.2.stack.wire = link.stack.wire ∨
      ∃ outgoing, (trySend link data).2.2.stack.wire = outgoing :: link.stack.wire ∧
        outgoing.sequence = link.client.sendNext ∧
        inFlight link.client + outgoing.payload.length ≤ link.client.peerWindow.toNat := by
  rcases trySend_cases link data with hsame | ⟨payload, _, _, hroom, ⟨hsent, hres⟩ |
    ⟨hrefused, _, _, hres⟩⟩
  · rw [hsame]
    exact .inl rfl
  · rw [hres]
    exact .inr ⟨dataSegment link.client payload, if_pos hsent, rfl, hroom⟩
  · rw [hres]
    exact .inl (if_neg hrefused)

/-! ## A FIN that could not be queued -/

def finSegments (stack : NetworkStack) : List Outgoing :=
  stack.wire.filter fun outgoing => outgoing.flags.fin

theorem finSegments_finish {stack after : NetworkStack} {earlier : List Outgoing}
    (hearlier : stack.wire <:+ earlier) (hwire : finSegment client :: earlier <:+ after.wire) :
    finSegments after ≠ finSegments stack := by
  obtain ⟨_, rfl⟩ := hearlier
  obtain ⟨_, hfresh⟩ := hwire
  intro hsame
  have hlen := congrArg List.length hsame
  rw [finSegments, finSegments, ← hfresh, filter_append, filter_cons_of_pos rfl,
    filter_append, length_append, length_cons, length_append] at hlen
  omega

theorem beginClose_transient (link : Link) (hstat : (beginClose link).1 = .wouldBlock)
    (hfins : finSegments (beginClose link).2.stack = finSegments link.stack) :
    (beginClose link).2.client = link.client := by
  rcases beginClose_cases link with hfree | hsame | ⟨_, hfin⟩
  · rw [hfree] at hstat
    cases hstat
  · rw [hsame]
  rw [hfin] at hstat hfins ⊢
  rcases sendFin_cases link with ⟨hsent, hres⟩ | ⟨_, hres | ⟨hfail, _⟩⟩
  · rw [hres] at hfins
    have hwire := wire_sent hsent
    have hlater : finSegment link.client :: link.stack.wire <:+
        (link.stack.sendTcp (finSegment link.client)).2.wire := by
      rw [hwire]
    exact absurd hfins (finSegments_finish suffix_rfl hlater)
  · rw [hres]
  · exact absurd hstat hfail

theorem close_transient (hconn : link.client.connected) (hatt : link.client.attached)
    (htalking : Talking link.client)
    (hfins : finSegments (close link).2.stack = finSegments link.stack) :
    (close link).2.client = link.client := by
  rcases close_cases link with ⟨hdetached, _⟩ | ⟨herror, _⟩ | ⟨hfin, _⟩ | ⟨_, hsame⟩ |
    ⟨hclosable, hqueue⟩
  · simp only [hconn, hatt, Bool.true_eq_false, false_or] at hdetached
    simp [Talking, hdetached] at htalking
  · simp [Talking, herror] at htalking
  · simp [Talking, hfin] at htalking
  · rw [hsame]
  rw [hqueue] at hfins ⊢
  rcases queueFin_cases ⟨true, false, true⟩ rfl rfl hclosable with ⟨_, hclient, _⟩ |
    ⟨queued, _, _, hearlier, hwire, hres⟩
  · exact hclient
  rw [hres] at hfins
  have hmoves : Moves ⟨true, false, true⟩ _ _ :=
    awaitClose_moves rfl rfl ⟨link.client, queued⟩ (link.client.sendNext + 1)
  have hlater : queued.wire <:+ _ := hmoves.wire
  rw [hwire] at hlater
  exact absurd hfins (finSegments_finish hearlier hlater)

/-! ## The end of a connection -/

def heard (client : Client) (segments : List TcpSegment) : Client :=
  segments.foldl (fun client segment => (absorb client segment).2) client

theorem HoldsFin.of_heard {segments : List TcpSegment} (hfin : HoldsFin (heard client segments)) :
    HoldsFin client ∨ ∃ segment ∈ segments, segment.flags.fin := by
  induction segments generalizing client with
  | nil => exact .inl hfin
  | cons segment _ ih =>
    rcases ih hfin with hfin | ⟨other, hother, hfin⟩
    · exact ((absorb_told client segment).2 hfin).imp_right fun hflag =>
        ⟨segment, mem_cons_self .., hflag⟩
    · exact .inr ⟨other, mem_cons_of_mem _ hother, hfin⟩

structure Finishing (expectedAck : Sequence) (client : Client) : Prop where
  state : client.state = .finWait1
  sendNext : client.sendNext = expectedAck
  inFlight : inFlight client ≤ 1

/-- The segments that have been received end the connection: one of them acknowledges the
FIN, and the FIN of the peer is there. -/
structure Ended (expectedAck : Sequence) (client : Client) (segments : List TcpSegment) : Prop where
  acknowledged : client.sendUnacknowledged = expectedAck ∨
    ∃ segment ∈ segments, segment.flags.ack ∧ segment.acknowledgement = expectedAck
  closed : (heard client segments).peerClosed

variable {expectedAck : Sequence}

theorem Ended.cons {segments : List TcpSegment}
    (hended : Ended expectedAck (absorb client segment).2 segments) :
    Ended expectedAck client (segment :: segments) := by
  refine ⟨?_, hended.closed⟩
  rcases hended.acknowledged with hacked | ⟨other, hother, hacked⟩
  · by_cases hreset : segment.flags.rst
    · rw [absorb_reset hreset] at hacked
      exact .inl hacked
    rw [(absorb_received client (Bool.eq_false_iff.mpr hreset)).sendUnacknowledged,
      heardAck, recordAck] at hacked
    split at hacked
    · exact .inl hacked
    rename_i hack
    split at hacked
    · exact .inl hacked
    split at hacked
    · exact .inr ⟨segment, mem_cons_self .., by simpa using hack, hacked⟩
    · exact .inl hacked
  · exact .inr ⟨other, mem_cons_of_mem _ hother, hacked⟩

theorem Finishing.absorb (hfinishing : Finishing expectedAck client)
    (hreset : segment.flags.rst = false) :
    Finishing expectedAck (TcpClient.absorb client segment).2 := by
  have hsmall : TcpClient.inFlight client < 2 ^ 31 := hfinishing.inFlight.trans_lt (by decide)
  obtain ⟨hnext, hless⟩ := absorb_sends segment hsmall
  exact ⟨absorb_finWait1 hreset hfinishing.state, hnext.trans hfinishing.sendNext,
    hless.trans hfinishing.inFlight⟩

theorem Finishing.acknowledged (hfinishing : Finishing expectedAck client)
    (hreached : sequenceBefore client.sendUnacknowledged expectedAck = false) :
    client.sendUnacknowledged = expectedAck := by
  have hflight := hfinishing.inFlight
  rw [sequenceBefore_eq_false] at hreached
  rw [TcpClient.inFlight, hfinishing.sendNext] at hflight
  bv_omega

/-- What `close` has received when its loop succeeds. -/
theorem closeLoop_ok (rounds : ℕ) (hfinishing : Finishing expectedAck link.client)
    (hok : (closeLoop expectedAck rounds link).1 = some .ok) :
    (∃ segments, segments.Sublist (incoming link.stack) ∧
      (∀ segment ∈ segments, segmentForClient link.client segment) ∧
      Ended expectedAck link.client segments) ∨
    ∃ segment ∈ incoming link.stack,
      segmentForClient link.client segment ∧ segment.flags.rst := by
  induction rounds generalizing link with
  | zero => cases hok
  | succ _ ih =>
    obtain ⟨hlater, hfound⟩ := incoming_takeOrPollOne link
    have hclient := client_takeOrPollOne link
    have herror : ∀ status, (takeOrPollOne link).1 = .error status → status ≠ .ok :=
      fun _ => takeOrPollOne_error
    rw [closeLoop] at hok
    split at hok
    next status taken heq =>
      rw [heq] at hlater hclient herror
      rw [← hclient] at hfinishing ⊢
      split at hok
      · rcases ih hfinishing hok with ⟨segments, hsub, hfor, hended⟩ | ⟨segment, hmem, hreset⟩
        · exact .inl ⟨segments, hsub.trans hlater, hfor, hended⟩
        · exact .inr ⟨segment, hlater.mem hmem, hreset⟩
      · exact absurd (Option.some.inj hok) (herror status rfl)
    rename_i segment taken heq
    have htaken := takeOrPollOne_ok heq
    rw [heq] at hfound
    have hsub := hfound segment rfl
    dsimp only at hsub hok
    have hproc : (processIncoming taken segment).2.client = (absorb link.client segment).2 := by
      rw [client_processIncoming (htaken.1 ▸ htaken.2), htaken.1]
    have hstack := incoming_processIncoming taken segment
    by_cases hreset : segment.flags.rst
    · exact .inr ⟨segment, hsub.mem (mem_cons_self ..), htaken.2, hreset⟩
    have hnext := hfinishing.absorb (Bool.eq_false_iff.mpr hreset)
    rw [← hproc] at hnext
    split at hok
    next hrst =>
      rw [hnext.state] at hrst
      cases hrst
    split at hok
    next hstat => exact absurd (Option.some.inj hok) hstat.1
    split at hok
    next hend =>
      refine .inl ⟨[segment], (List.Sublist.cons_cons segment (nil_sublist _)).trans hsub,
        forall_mem_singleton.mpr htaken.2, .cons ⟨.inl ?_, ?_⟩⟩
      · rw [← hproc]
        exact hnext.acknowledged hend.1
      · rw [← hproc]
        exact hend.2
    rcases ih hnext hok with ⟨segments, hrest, hfor, hended⟩ | ⟨other, hmem, hother⟩
    · rw [hstack] at hrest
      rw [hproc] at hfor hended
      refine .inl ⟨segment :: segments, (hrest.cons_cons segment).trans hsub, ?_, .cons hended⟩
      rw [forall_mem_cons]
      refine ⟨htaken.2, fun other hother => ?_⟩
      rw [← segmentForClient_absorb link.client segment]
      exact hfor other hother
    · rw [hstack] at hmem
      rw [hproc, segmentForClient_absorb] at hother
      exact .inr ⟨other, hsub.mem (mem_cons_of_mem _ hmem), hother⟩

theorem abortConnection_ok (hok : (abortConnection link).1 = .ok) :
    ∃ outgoing earlier, (abortConnection link).2.stack.wire = outgoing :: earlier ∧
      outgoing.flags.rst ∧ link.stack.wire <:+ earlier := by
  rw [abortConnection] at hok ⊢
  rcases queueSegment_cases (rfl : (⟨true, false, true⟩ : Mode).waits) link
      link.client.sendNext link.client.receiveNext { rst := true, ack := true } [] with
    ⟨hfail, _, _⟩ | ⟨waited, hmoves, hsent, hres⟩
  · split at hok
    next heq => exact absurd (congrArg Prod.fst heq) hfail
    next heq =>
      rw [heq] at hfail
      exact absurd hok hfail
  · rw [hres]
    exact ⟨_, waited.wire, if_pos hsent, rfl, hmoves.wire⟩

theorem awaitClose_ok {link closing : Link} (hclosing : closing = { link with client :=
      { link.client with state := .finWait1, sendNext := expectedAck } })
    (hok : (awaitClose link expectedAck).1 = .ok) :
    (closeLoop expectedAck (takeBudget closing).1 (takeBudget closing).2).1 = some .ok ∨
      ∃ looped, closing.stack.wire <:+ looped.stack.wire ∧ (abortConnection looped).1 = .ok ∧
        awaitClose link expectedAck = abortConnection looped := by
  have hstate : (takeBudget closing).2.client.state = .finWait1 := by
    rw [hclosing]
    rfl
  obtain ⟨hloop, _⟩ : Moves ⟨true, false, true⟩ _ _ ∧ _ :=
    closeLoop_moves rfl expectedAck (takeBudget closing).1 hstate
  rw [awaitClose] at hok ⊢
  dsimp only at hok ⊢
  rw [← hclosing] at hok ⊢
  generalize closeLoop expectedAck (takeBudget closing).1 (takeBudget closing).2 = ended
    at hok hloop ⊢
  obtain ⟨_ | status, looped⟩ := ended
  · refine .inr ⟨looped, hloop.wire, ?_⟩
    dsimp only at hok ⊢
    generalize abortConnection looped = aborted at hok ⊢
    obtain ⟨status, aborted⟩ := aborted
    cases status with
    | ok => exact ⟨rfl, rfl⟩
    | _ => cases hok
  · exact .inl (congrArg some hok)

/-- The reasons for which `close` may succeed. -/
inductive CloseReason (link : Link) : Prop where
  | ended (segments : List TcpSegment) (hsub : segments.Sublist (incoming link.stack))
      (hfor : ∀ segment ∈ segments, segmentForClient link.client segment)
      (hack : ∃ segment ∈ segments, segment.flags.ack ∧
        segment.acknowledgement = link.client.sendNext + 1)
      (hclosed : (heard { link.client with
        sendNext := link.client.sendNext + 1, state := .finWait1 } segments).peerClosed)
      (hfin : HoldsFin link.client ∨ ∃ segment ∈ segments, segment.flags.fin)
      (hqueued : finSegment link.client ∈ (close link).2.stack.wire)
  | wasReset (hreset : link.client.state = .reset)
  | peerReset (segment : TcpSegment) (hmem : segment ∈ incoming link.stack)
      (hfor : segmentForClient link.client segment) (hreset : segment.flags.rst)
  | aborted (outgoing : Outgoing) (earlier : List Outgoing)
      (hwire : (close link).2.stack.wire = outgoing :: earlier)
      (hreset : outgoing.flags.rst) (hearlier : link.stack.wire <:+ earlier)

theorem close_ok (hconn : link.client.connected) (hatt : link.client.attached)
    (hok : (close link).1 = .ok) : CloseReason link := by
  rcases close_cases link with ⟨hdetached, _⟩ | ⟨_, herror⟩ | ⟨_, habort⟩ | ⟨hfail, _⟩ |
    ⟨hclosable, hqueue⟩
  · simp only [hconn, hatt, Bool.true_eq_false, false_or] at hdetached
    exact .wasReset hdetached
  · rw [herror] at hok
    cases hok
  · rw [habort] at hok
    obtain ⟨outgoing, earlier, hwire, hreset, hearlier⟩ := abortConnection_ok hok
    exact .aborted outgoing earlier (habort ▸ hwire) hreset hearlier
  · exact absurd hok hfail
  rcases queueFin_cases ⟨true, false, true⟩ rfl rfl hclosable with ⟨hfail, _⟩ |
    ⟨queued, _, hmoves, hearlier, hwire, hres⟩
  · rw [hqueue] at hok
    exact absurd hok hfail
  rw [hqueue, hres] at hok
  generalize hclosing : (⟨{ link.client with
    sendNext := link.client.sendNext + 1, state := .finWait1 }, queued⟩ : Link) = closing at hmoves
  have hlater : queued.wire <:+ (close link).2.stack.wire := by
    have hwaited : Moves ⟨true, false, true⟩ _ _ :=
      awaitClose_moves rfl rfl ⟨link.client, queued⟩ (link.client.sendNext + 1)
    rw [hqueue, hres]
    exact hwaited.wire
  rcases awaitClose_ok hclosing.symm hok with hend | ⟨_, hlooped, haborted, hres'⟩
  · have hfinishing : Finishing (link.client.sendNext + 1) (takeBudget closing).2.client := by
      rw [← hclosing]
      refine ⟨rfl, rfl, ?_⟩
      simp only [inFlight, takeBudget, hclosable.settled]
      bv_omega
    have hfor : ∀ segment, segmentForClient (takeBudget closing).2.client segment =
        segmentForClient link.client segment := by
      intro segment
      rw [← hclosing]
      rfl
    have hincoming := hmoves.incoming
    rcases closeLoop_ok _ hfinishing hend with ⟨segments, hsub, hown, hended⟩ |
      ⟨segment, hmem, hown, hreset⟩
    · have hclosed := hended.closed
      rw [← hclosing] at hclosed
      have hfin : HoldsFin (heard { link.client with
        sendNext := link.client.sendNext + 1, state := .finWait1 } segments) := .inl hclosed
      refine .ended segments (hsub.trans hincoming) (fun segment hseg => ?_) ?_ hclosed
        hfin.of_heard ?_
      · rw [← hfor]
        exact hown segment hseg
      · refine hended.acknowledged.resolve_left fun hacked => ?_
        rw [← hclosing] at hacked
        change link.client.sendUnacknowledged = _ at hacked
        rw [hclosable.settled] at hacked
        bv_omega
      · refine hlater.subset ?_
        rw [hwire]
        exact mem_cons_self ..
    · exact .peerReset segment (hincoming.mem hmem) (hfor segment ▸ hown) hreset
  · obtain ⟨outgoing, earlier', hwire', hreset, hearlier'⟩ := abortConnection_ok haborted
    refine .aborted outgoing earlier' ?_ hreset ?_
    · rw [hqueue, hres, hres']
      exact hwire'
    have hqueued : closing.stack.wire = queued.wire := by rw [← hclosing]
    rw [hqueued] at hlooped
    have hfirst : link.stack.wire <:+ queued.wire := by
      rw [hwire]
      exact hearlier.trans (suffix_cons _ _)
    exact (hfirst.trans hlooped).trans hearlier'

/-! ## Every session -/

/-- One moment of a call: the oldest unacknowledged number does not move back or beyond the
next one, until the client is free. Once the SYN is answered, the window and the FIN of the peer
come from segments that the client takes. -/
def Moment (before after : Link) : Prop :=
  Acts ⟨true, true, true⟩ before after ∧
    (after.client = .initial ∨ Forward before.client after.client) ∧
    (after.client = .initial ∨ before.client.state = .synSent ∨ Told before after) ∧
    sequenceAfter after.client.sendUnacknowledged after.client.sendNext = false

/-- What holds of a client and the wire of its connection. -/
structure SequenceSafe (link : Link) : Prop where
  ordered : sequenceAfter link.client.sendUnacknowledged link.client.sendNext = false
  moments : ∀ request : Request,
    Relation.ReflTransGen Moment (request.begin link) (request.step link)
  beyond : ∀ stack segment,
    sequenceAfter segment.acknowledgement link.client.sendNext →
      SameNumbers link.client (processIncoming ⟨link.client, stack⟩ segment).2.client ∧
      SameNumbers link.client (progressHandshake ⟨link.client, stack⟩ segment).2.client
  answered : ∀ stack initialSequence rounds,
    SameNumbers link.client
          (handshakeLoop initialSequence rounds ⟨link.client, stack⟩).2.client ∧
        (handshakeLoop initialSequence rounds ⟨link.client, stack⟩).2.client.peerWindow =
          link.client.peerWindow ∨
      ∃ segment ∈ incoming stack, segmentForClient link.client segment ∧
        (segment.flags.syn ∧ segment.flags.ack ∧
          segment.acknowledgement = initialSequence + 1) ∧
        (handshakeLoop initialSequence rounds ⟨link.client, stack⟩).2.client.peerWindow =
          segment.window
  window : ∀ stack data,
    (trySend ⟨link.client, stack⟩ data).2.2.stack.wire = stack.wire ∨
      ∃ outgoing, (trySend ⟨link.client, stack⟩ data).2.2.stack.wire = outgoing :: stack.wire ∧
        outgoing.sequence = link.client.sendNext ∧
        inFlight link.client + outgoing.payload.length ≤ link.client.peerWindow.toNat
  orderly : Orderly link.stack.wire
  beginCloseTransient : ∀ stack, (beginClose ⟨link.client, stack⟩).1 = .wouldBlock →
    finSegments (beginClose ⟨link.client, stack⟩).2.stack = finSegments stack →
    (beginClose ⟨link.client, stack⟩).2.client = link.client
  closeTransient : ∀ stack, link.client.connected → Talking link.client →
    finSegments (close ⟨link.client, stack⟩).2.stack = finSegments stack →
    (close ⟨link.client, stack⟩).2.client = link.client
  closeOk : ∀ stack, link.client.connected →
    (close ⟨link.client, stack⟩).1 = .ok → CloseReason ⟨link.client, stack⟩

theorem Safe.ordered (hsafe : Safe link) :
    sequenceAfter link.client.sendUnacknowledged link.client.sendNext = false :=
  sequenceBefore_eq_false.mpr hsafe.small

theorem moments_of_acts (hsafe : Safe before)
    (hacts : Relation.ReflTransGen (Acts ⟨true, true, true⟩) before after) :
    Relation.ReflTransGen Moment before after := by
  induction hacts with
  | refl => exact .refl
  | tail hpre hact ih =>
    have hmid := actsRun_safe hpre hsafe
    exact ih.tail ⟨hact, hact.forward hmid, hact.told, (hact.safe hmid).ordered⟩

/-- A stack that lets no SYN out, and on which an answer to it arrives. -/
def answeredStack : NetworkStack where
  arrivals := [.nothing,
    .segment ⟨1, 80, 2, 100, 8, { syn := true, ack := true }, 500, [], nil_fits⟩]
  transmits := [.wouldBlock]
  budgets := [1, 1]

end Kurogane.Net.TcpClient
