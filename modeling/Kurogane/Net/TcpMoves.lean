/-
# What the calls of a TCP client do, move by move

A call polls, transmits and changes the client in small moves. There are few kinds of them,
and each has a guard that the code has checked when it makes the move. Every call is a chain
of such moves, so that what each move keeps is kept by every call.

Not every call makes every kind of move. A mode says whether a chain of moves may poll while
a transmission waits, commit sequence numbers the way `send` does, and open or close the
connection.
-/

import Kurogane.Net.TcpClient

namespace Kurogane.Net.TcpClient

/-! ## Sequence numbers -/

variable {before after : Link} {found : Option TcpSegment} {left right : Sequence} {status : Status}

theorem sequenceBefore_iff : sequenceBefore left right ↔ 2 ^ 31 ≤ (left - right).toNat := by
  rw [sequenceBefore, decide_eq_true_iff, BitVec.toInt_neg_iff]
  omega

theorem sequenceBefore_eq_false :
    sequenceBefore left right = false ↔ (left - right).toNat < 2 ^ 31 := by
  rw [← Bool.not_eq_true, sequenceBefore_iff, not_le]

theorem sequence_between {first between last : Sequence} (hspan : (last - first).toNat < 2 ^ 31)
    (hfirst : sequenceAfter between first) (hlast : sequenceAfter between last = false) :
    (between - first).toNat + (last - between).toNat = (last - first).toNat := by
  rw [sequenceAfter, sequenceBefore_iff] at hfirst
  rw [sequenceAfter, sequenceBefore_eq_false] at hlast
  bv_omega

/-! ## The receive side -/

/-- The FIN of the peer has come, also if data before it is still missing. -/
def HoldsFin (client : Client) : Prop :=
  client.peerClosed ∨ ∃ index buffered, client.outOfOrder index = some buffered ∧
    buffered.flags.fin

/-- Only the receive side of a client has changed. A FIN may have moved its state, if there was
one among the segments. -/
structure Received (fin : Prop) (before after : Client) : Prop where
  attached : after.attached = before.attached
  peer : after.peer = before.peer
  localPort : after.localPort = before.localPort
  remotePort : after.remotePort = before.remotePort
  sendUnacknowledged : after.sendUnacknowledged = before.sendUnacknowledged
  sendNext : after.sendNext = before.sendNext
  peerWindow : after.peerWindow = before.peerWindow
  connected : after.connected = before.connected
  state : after.state = before.state ∨ before.state ≠ .finWait1 ∧ after.state = .closeWait
  holdsFin : HoldsFin after → HoldsFin before ∨ fin

namespace Received

variable {first second third client : Client} {fin : Prop}

theorem refl (client : Client) : Received fin client client :=
  ⟨rfl, rfl, rfl, rfl, rfl, rfl, rfl, rfl, .inl rfl, .inl⟩

theorem trans (hsnd : Received fin first second) (hthird : Received fin second third) :
    Received fin first third where
  attached := hthird.attached.trans hsnd.attached
  peer := hthird.peer.trans hsnd.peer
  localPort := hthird.localPort.trans hsnd.localPort
  remotePort := hthird.remotePort.trans hsnd.remotePort
  sendUnacknowledged := hthird.sendUnacknowledged.trans hsnd.sendUnacknowledged
  sendNext := hthird.sendNext.trans hsnd.sendNext
  peerWindow := hthird.peerWindow.trans hsnd.peerWindow
  connected := hthird.connected.trans hsnd.connected
  state := by
    rcases hsnd.state with hsame | ⟨hopen, hclosed⟩
    · rw [← hsame]
      exact hthird.state
    refine .inr ⟨hopen, ?_⟩
    rcases hthird.state with hkept | ⟨_, hagain⟩
    · exact hkept.trans hclosed
    · exact hagain
  holdsFin hfin := (hthird.holdsFin hfin).elim hsnd.holdsFin .inr

section

variable (client)

/-- The stream and the queue change; what is new in the queue may carry the FIN. -/
theorem setStream (receiveNext : Sequence) (pending : Math.Sliding UInt8 streamReceiveCapacity)
    {queue : Fin outOfOrderQueueDepth → Option BufferedSegment}
    (hqueue : ∀ index buffered, queue index = some buffered →
      client.outOfOrder index = some buffered ∨ (buffered.flags.fin → fin)) :
    Received fin client { client with receiveNext, pending, outOfOrder := queue } := by
  refine ⟨rfl, rfl, rfl, rfl, rfl, rfl, rfl, rfl, .inl rfl, ?_⟩
  rintro (hclosed | ⟨index, buffered, hbuffered, hfin⟩)
  · exact .inl (.inl hclosed)
  · exact (hqueue index buffered hbuffered).imp (fun hold => .inr ⟨index, buffered, hold, hfin⟩)
      fun hnew => hnew hfin

theorem storeBufferedSegment (segment : TcpSegment) (index : Fin outOfOrderQueueDepth) :
    Received segment.flags.fin client (storeBufferedSegment client segment index) := by
  refine setStream client _ _ fun other buffered hbuffered => ?_
  rw [Function.update_apply] at hbuffered
  split at hbuffered
  · cases hbuffered
    exact .inr id
  · exact .inl hbuffered

theorem queueOutOfOrder (segment : TcpSegment) :
    Received segment.flags.fin client (queueOutOfOrder client segment).2 := by
  fun_cases TcpClient.queueOutOfOrder client segment with
  | case4 | case5 | case6 => exact storeBufferedSegment ..
  | _ => exact refl client

theorem ingestFin (sequence : Sequence) (flags : Flags) (payload : List UInt8) :
    Received flags.fin client (ingestFin client sequence flags payload) := by
  rw [TcpClient.ingestFin]
  split
  next hfin =>
    refine ⟨rfl, rfl, rfl, rfl, rfl, rfl, rfl, rfl, ?_, fun _ => .inr hfin.1⟩
    split
    next hopen => exact .inr ⟨hopen, rfl⟩
    · exact .inl rfl
  · exact refl client

theorem ingestContiguous (sequence : Sequence) (flags : Flags) (payload : List UInt8) :
    Received flags.fin client (ingestContiguous client sequence flags payload).2 := by
  have happended : ∀ data, Received flags.fin client (appendPending client data).2 := fun data =>
    setStream client _ _ fun _ _ => .inl
  fun_cases TcpClient.ingestContiguous client sequence flags payload with
  | case2 | case5 => exact ingestFin ..
  | case6 _ _ _ _ _ remaining _ _ hdata =>
    refine trans (hdata ▸ happended remaining) (trans ?_ (ingestFin ..))
    exact setStream _ _ _ fun _ _ => .inl
  | case7 _ _ _ _ _ remaining _ _ _ _ hdata => exact hdata ▸ happended remaining
  | _ => exact refl client

theorem ingestBuffered {index : Fin outOfOrderQueueDepth} {buffered : BufferedSegment}
    (hbuffered : client.outOfOrder index = some buffered) :
    Received fin client (TcpClient.ingestContiguous client buffered.sequence buffered.flags
      buffered.payload).2 where
  __ := ingestContiguous client buffered.sequence buffered.flags buffered.payload
  holdsFin hfin := .inl (((ingestContiguous client buffered.sequence buffered.flags
    buffered.payload).holdsFin hfin).elim id fun hflag => .inr ⟨index, buffered, hbuffered, hflag⟩)

theorem flushRound : Received fin client (flushRound client).2 := by
  fun_cases TcpClient.flushRound client with
  | case1 | case2 => exact refl client
  | case3 _ _ buffered hbuffered _ hres =>
    have hingested : Received fin client _ := ingestBuffered client hbuffered
    rw [hres] at hingested
    exact hingested.trans (setStream _ _ _ (by rintro _ _ ⟨⟩))
  | case4 index _ buffered hbuffered _ hres =>
    have hingested : Received fin client _ := ingestBuffered client hbuffered
    rw [hres] at hingested
    refine hingested.trans (setStream _ _ _ fun other found hfound => .inl ?_)
    rw [Function.update_apply] at hfound
    split at hfound
    · cases hfound
    · exact hfound
  | case5 _ _ buffered hbuffered _ _ _ hres =>
    have hingested : Received fin client _ := ingestBuffered client hbuffered
    rw [hres] at hingested
    exact hingested

theorem dropDuplicates : Received fin client (dropDuplicates client) :=
  setStream client _ _ fun _ _ hfound => .inl (Option.filter_eq_some_iff.mp hfound).1

end

theorem flushLoop (rounds : ℕ) (client : Client) :
    Received fin client (flushLoop rounds client).2 := by
  fun_induction TcpClient.flushLoop rounds client with
  | case1 client => exact refl client
  | case2 _ client _ _ hres =>
    have hround : Received fin client _ := (dropDuplicates client).trans (flushRound _)
    rw [hres] at hround
    exact hround
  | case3 _ client _ hres ih =>
    have hround : Received fin client _ := (dropDuplicates client).trans (flushRound _)
    rw [hres] at hround
    exact hround.trans ih

theorem ingestSegment (client : Client) (segment : TcpSegment) :
    Received segment.flags.fin client (ingestSegment client segment).2 := by
  have hingested := ingestContiguous client segment.sequence segment.flags segment.payload
  fun_cases TcpClient.ingestSegment client segment with
  | case1 _ hres | case5 _ _ _ _ hres =>
    rw [hres] at hingested
    exact hingested
  | case2 ingested hres _ hflush | case3 ingested hres _ hflush
  | case4 ingested hres _ _ _ _ hflush =>
    have hflushed : Received segment.flags.fin _ _ := flushLoop (outOfOrderQueueDepth + 1) ingested
    rw [flushOutOfOrder] at hflush
    rw [hres] at hingested
    rw [hflush] at hflushed
    exact hingested.trans hflushed

theorem acceptSegment (client : Client) (segment : TcpSegment) :
    Received segment.flags.fin client (acceptSegment client segment).2 := by
  have hqueued := queueOutOfOrder client segment
  fun_cases TcpClient.acceptSegment client segment with
  | case1 | case2 => exact refl client
  | case3 _ _ _ _ hres | case4 _ _ _ _ _ _ hres =>
    rw [hres] at hqueued
    exact hqueued
  | case5 => exact ingestSegment client segment

end Received

/-- The client that hears of an acknowledgement, before its receive side changes. -/
def heardAck (client : Client) (segment : TcpSegment) : Client :=
  recordAck { client with peerWindow := segment.window } segment

variable {client : Client} {mode : Mode} {segment : TcpSegment}

theorem absorb_reset (hreset : segment.flags.rst) :
    absorb client segment = (.done .interfaceError,
      { client with peerWindow := segment.window, connected := false, state := .reset }) :=
  if_pos hreset

section

variable (client)

theorem absorb_received (hreset : segment.flags.rst = false) :
    Received segment.flags.fin (heardAck client segment) (absorb client segment).2 := by
  rw [absorb]
  rw [if_neg (ne_true_of_eq_false hreset)]
  exact Received.acceptSegment ..

theorem heardAck_cases (segment : TcpSegment) :
    heardAck client segment = { client with peerWindow := segment.window } ∨
      sequenceAfter segment.acknowledgement client.sendNext = false ∧
      sequenceAfter segment.acknowledgement client.sendUnacknowledged ∧
      heardAck client segment = { client with
        peerWindow := segment.window, sendUnacknowledged := segment.acknowledgement } := by
  rw [heardAck]
  fun_cases recordAck _ segment with
  | case3 _ hbeyond hafter => exact .inr ⟨Bool.eq_false_iff.mpr hbeyond, hafter, rfl⟩
  | _ => exact .inl rfl

theorem heardAck_fields (segment : TcpSegment) :
    (heardAck client segment).sendNext = client.sendNext ∧
      (heardAck client segment).connected = client.connected ∧
      (heardAck client segment).state = client.state ∧
      (heardAck client segment).receiveNext = client.receiveNext ∧
      (heardAck client segment).pending = client.pending ∧
      (heardAck client segment).outOfOrder = client.outOfOrder ∧
      (heardAck client segment).peerClosed = client.peerClosed := by
  rcases heardAck_cases client segment with hsame | ⟨_, _, hmoved⟩
  · rw [hsame]
    exact ⟨rfl, rfl, rfl, rfl, rfl, rfl, rfl⟩
  · rw [hmoved]
    exact ⟨rfl, rfl, rfl, rfl, rfl, rfl, rfl⟩

theorem segmentForClient_absorb (segment other : TcpSegment) :
    segmentForClient (absorb client segment).2 other = segmentForClient client other := by
  by_cases hreset : segment.flags.rst
  · rw [absorb_reset hreset]
    rfl
  have hrecv := absorb_received client (Bool.eq_false_iff.mpr hreset)
  have hheard : segmentForClient (heardAck client segment) other =
      segmentForClient client other := by
    rcases heardAck_cases client segment with hsame | ⟨_, _, hmoved⟩
    · rw [hsame]
      rfl
    · rw [hmoved]
      rfl
  rw [← hheard, segmentForClient, segmentForClient, hrecv.peer, hrecv.localPort, hrecv.remotePort]

end

/-- The number of sequence numbers in use that are not acknowledged. -/
def inFlight (client : Client) : ℕ := (client.sendNext - client.sendUnacknowledged).toNat

/-- An acknowledgement moves the send side forward, and not beyond what was sent. -/
theorem heardAck_inFlight (segment : TcpSegment) (hflight : inFlight client < 2 ^ 31) :
    ((heardAck client segment).sendUnacknowledged - client.sendUnacknowledged).toNat +
      inFlight (heardAck client segment) = inFlight client := by
  rcases heardAck_cases client segment with hsame | ⟨hlast, hfirst, hmoved⟩
  · rw [hsame]
    simp [inFlight]
  · rw [hmoved]
    exact sequence_between hflight hfirst hlast

/-! ## Moves -/

structure Mode where
  waits : Bool := false
  commits : Bool := false
  turns : Bool := false

/-- The client takes segments of its connection in. -/
structure Hears (client : Client) : Prop where
  reset : client.state ≠ .reset
  error : client.state ≠ .error
  opened : client.connected ∨ client.state ≠ .closed ∧ client.state ≠ .synSent

def finSegment (client : Client) : Outgoing :=
  client.outgoing client.sendNext client.receiveNext { fin := true, ack := true } []

/-- A segment that the client may send and that changes nothing in it. -/
structure Permitted (client : Client) (outgoing : Outgoing) : Prop where
  fin : outgoing.flags.fin = false
  window : outgoing.window = advertisedWindow client
  acknowledgement : outgoing.flags.ack → outgoing.acknowledgement = client.receiveNext
  payload : outgoing.payload ≠ [] → client.state = .established ∨ client.state = .closeWait

inductive Move (mode : Mode) : Link → Link → Prop where
  | budget (link : Link) : Move mode link (takeBudget link).2
  | take (link : Link)
      (hkept : ∀ segment, (takeOrPollOne link).1 = .ok segment → link.client.state = .synSent) :
      Move mode link (takeOrPollOne link).2
  | wait (link : Link) (outgoing : Outgoing) (hwaits : mode.waits = true)
      (hretry : retryableTransmitStatus (link.stack.sendTcp outgoing).1 = true) :
      Move mode link { link with stack := (link.stack.sendTcp outgoing).2.poll.2 }
  | refuse (link : Link) (outgoing : Outgoing) (hrefused : (link.stack.sendTcp outgoing).1 ≠ .ok) :
      Move mode link { link with stack := (link.stack.sendTcp outgoing).2 }
  | transmit (link : Link) (outgoing : Outgoing) (hpermitted : Permitted link.client outgoing) :
      Move mode link { link with stack := (link.stack.sendTcp outgoing).2 }
  | finish (link : Link) (hturns : mode.turns = true)
      (hconnected : link.client.connected = true)
      (hstate : link.client.state = .established ∨ link.client.state = .closeWait)
      (hsettled : link.client.sendUnacknowledged = link.client.sendNext)
      (hsent : (link.stack.sendTcp (finSegment link.client)).1 = .ok) :
      Move mode link
        ⟨{ link.client with sendNext := link.client.sendNext + 1, state := .finWait1 },
          (link.stack.sendTcp (finSegment link.client)).2⟩
  | hear (link taken : Link) (segment : TcpSegment)
      (htaken : takeOrPollOne link = (.ok segment, taken)) (hhears : Hears link.client) :
      Move mode link { taken with client := (absorb link.client segment).2 }
  | synchronize (link : Link) (hturns : mode.turns = true)
      (hstate : link.client.state = .synSent) :
      Move mode link { link with
        client := { link.client with sendNext := link.client.sendUnacknowledged + 1 } }
  | establish (link : Link) (segment : TcpSegment) (hturns : mode.turns = true)
      (hstate : link.client.state = .synSent)
      (hack : segment.acknowledgement = link.client.sendNext) :
      Move mode link { link with
        client := { link.client with
          receiveNext := segment.sequence + 1
          sendUnacknowledged := segment.acknowledgement
          peerWindow := segment.window
          connected := true
          state := .established } }
  | fail (link : Link) (state : State) (connected : Bool)
      (hstate : state = .error ∨ state = .reset ∨ state = link.client.state)
      (hconnected : connected = true → link.client.connected = true) :
      Move mode link { link with client := { link.client with state, connected } }
  | free (link : Link) (hturns : mode.turns = true) :
      Move mode link { link with client := .initial }
  | advance (link : Link) (chunk : ℕ) (hstate : link.client.state = .established)
      (hroom : inFlight link.client + chunk ≤ link.client.peerWindow.toNat) :
      Move mode link { link with
        client := { link.client with
          sendNext := link.client.sendNext + BitVec.ofNat 32 chunk } }
  | commit (link : Link) (chunk : ℕ) (hcommits : mode.commits = true)
      (hchunk : chunk ≤ maxSegmentPayload) (hroom : inFlight link.client < 2 ^ 16) :
      Move mode link { link with
        client := { link.client with
          sendNext := link.client.sendNext + BitVec.ofNat 32 chunk } }
  | rewind (link : Link) (hcommits : mode.commits = true) :
      Move mode link { link with
        client := { link.client with sendNext := link.client.sendUnacknowledged } }

abbrev Moves (mode : Mode) : Link → Link → Prop := Relation.ReflTransGen (Move mode)

theorem Moves.move {first second : Link} (hmove : Move mode first second) :
    Moves mode first second :=
  .single hmove

theorem Moves.takeError {link taken : Link} (htaken : takeOrPollOne link = (.error status, taken)) :
    Moves mode link taken := by
  have hmove : Move mode link _ := .take link (by rw [htaken]; rintro _ ⟨⟩)
  rw [htaken] at hmove
  exact .move hmove

/-! ## Polls and transmissions -/

section

variable {mode : Mode} {link taken : Link} {segment : TcpSegment}

/-- What a client finds is in the inbox, or one poll brings it there. -/
inductive Polled (link : Link) : Except Status TcpSegment × Link → Prop where
  | found (segment : TcpSegment) (hinbox : link.stack.inbox = some segment) :
      Polled link (ownSegment link.client (some segment),
        { link with stack := link.stack.takeTcpSegment.2 })
  | failed (status : Status) (hinbox : link.stack.inbox = none) (hpoll : link.stack.poll.1 ≠ .ok)
      (hstatus : status ≠ .ok) :
      Polled link (.error status, { link with stack := link.stack.poll.2 })
  | polled (hinbox : link.stack.inbox = none) :
      Polled link (ownSegment link.client link.stack.poll.2.inbox,
        { link with stack := link.stack.poll.2.takeTcpSegment.2 })

theorem takeOrPollOne_cases (link : Link) : Polled link (takeOrPollOne link) := by
  rw [takeOrPollOne]
  split
  next heq =>
    obtain ⟨hinbox, rfl⟩ := Prod.mk.inj heq
    exact .found _ hinbox
  rename_i heq
  obtain ⟨hinbox, rfl⟩ := Prod.mk.inj heq
  have hstack : { link.stack with inbox := none } = link.stack := by rw [← hinbox]
  rw [hstack]
  dsimp only
  split
  next hbad =>
    have hfail : link.stack.poll.1 ≠ .ok := by
      intro hok
      rw [hok] at hbad
      cases hbad
    exact .failed _ hinbox hfail hfail
  split
  next hbusy =>
    refine .failed _ hinbox (fun hok => ?_) (nofun)
    rw [hok] at hbusy
    exact absurd hbusy (by decide)
  · exact .polled hinbox

theorem ownSegment_ok (hown : ownSegment client found = .ok segment) :
    found = some segment ∧ segmentForClient client segment := by
  cases found with
  | none => cases hown
  | some =>
    rw [ownSegment] at hown
    split at hown
    next hfor =>
      cases hown
      exact ⟨rfl, hfor⟩
    · cases hown

theorem ownSegment_error (hown : ownSegment client found = .error status) : status ≠ .ok := by
  cases found with
  | none =>
    cases hown
    rintro ⟨⟩
  | _ =>
    rw [ownSegment] at hown
    split at hown
    · cases hown
    · cases hown
      rintro ⟨⟩

theorem client_takeOrPollOne (link : Link) : (takeOrPollOne link).2.client = link.client := by
  have hcases := takeOrPollOne_cases link
  generalize takeOrPollOne link = result at hcases ⊢
  cases hcases <;> rfl

theorem takeOrPollOne_ok (htaken : takeOrPollOne link = (.ok segment, taken)) :
    taken.client = link.client ∧ segmentForClient link.client segment := by
  have hcases := takeOrPollOne_cases link
  rw [htaken] at hcases
  generalize hres : (Except.ok segment, taken) = result at hcases
  cases hcases with
  | failed => cases hres
  | _ =>
    obtain ⟨hown, rfl⟩ := Prod.mk.inj hres
    exact ⟨rfl, (ownSegment_ok hown.symm).2⟩

theorem takeOrPollOne_error (htaken : (takeOrPollOne link).1 = .error status) : status ≠ .ok := by
  have hcases := takeOrPollOne_cases link
  generalize takeOrPollOne link = result at htaken hcases
  cases hcases with
  | failed _ _ _ hstat =>
    cases htaken
    exact hstat
  | _ =>
    dsimp only at htaken
    exact ownSegment_error htaken

section

variable (client) (sequence)

theorem Permitted.acknowledge :
    Permitted client (client.outgoing sequence client.receiveNext { ack := true } []) :=
  ⟨rfl, rfl, fun _ => rfl, fun hload => absurd rfl hload⟩

theorem Permitted.syn : Permitted client (client.outgoing sequence 0 { syn := true } []) :=
  ⟨rfl, rfl, nofun, fun hload => absurd rfl hload⟩

theorem Permitted.rst :
    Permitted client
      (client.outgoing sequence client.receiveNext { rst := true, ack := true } []) :=
  ⟨rfl, rfl, fun _ => rfl, fun hload => absurd rfl hload⟩

end

theorem Permitted.data (sequence : Sequence) (payload : List UInt8)
    (hstate : client.state = .established ∨ client.state = .closeWait) :
    Permitted client
      (client.outgoing sequence client.receiveNext { psh := true, ack := true } payload) :=
  ⟨rfl, rfl, fun _ => rfl, fun _ => hstate⟩

theorem acknowledgeOrDefer_moves (link : Link) : Moves mode link (acknowledgeOrDefer link).2 :=
  .move (.transmit link _ (.acknowledge link.client _))

/-- A transmission with back pressure ends with the transmission, or without it. -/
theorem queueLoop_cases (hwaits : mode.waits) (client : Client) (outgoing : Outgoing)
    (rounds : ℕ) (stack : NetworkStack) :
    (queueLoop outgoing rounds stack).1 ≠ .ok ∧
        Moves mode ⟨client, stack⟩ ⟨client, (queueLoop outgoing rounds stack).2⟩ ∨
      ∃ waited, Moves mode ⟨client, stack⟩ ⟨client, waited⟩ ∧
        (waited.sendTcp outgoing).1 = .ok ∧
        queueLoop outgoing rounds stack = (.ok, (waited.sendTcp outgoing).2) := by
  have hwait : ∀ {stack status sent}, stack.sendTcp outgoing = (status, sent) →
      ¬ retryableTransmitStatus status = false →
      Moves mode ⟨client, stack⟩ ⟨client, sent.poll.2⟩ := by
    intro stack status sent hsent hretry
    have hmove := Move.wait ⟨client, stack⟩ outgoing hwaits
    rw [hsent] at hmove
    exact .move (hmove (by simpa using hretry))
  fun_induction queueLoop outgoing rounds stack with
  | case1 => exact .inl ⟨nofun, .refl⟩
  | case2 _ stack sent hsent =>
    exact .inr ⟨stack, .refl, congrArg Prod.fst hsent, by rw [hsent]⟩
  | case3 _ stack status sent hsent hok hretry =>
    have hrefused : (stack.sendTcp outgoing).1 ≠ .ok := by
      rw [hsent]
      exact hok
    have hmove : Moves mode ⟨client, stack⟩ _ := .move (.refuse ⟨client, stack⟩ outgoing hrefused)
    rw [hsent] at hmove
    exact .inl ⟨hok, hmove⟩
  | case4 _ stack _ _ hsent _ hretry _ _ hpoll hfail =>
    have hmove := hwait hsent hretry
    rw [hpoll] at hmove
    refine .inl ⟨?_, hmove⟩
    rintro rfl
    cases hfail
  | case5 _ stack _ _ hsent _ hretry _ _ hpoll _ ih =>
    have hmove := hwait hsent hretry
    rw [hpoll] at hmove
    rcases ih with ⟨hfail, hmoves⟩ | ⟨waited, hmoves, hqueued, hres⟩
    · exact .inl ⟨hfail, hmove.trans hmoves⟩
    · exact .inr ⟨waited, hmove.trans hmoves, hqueued, hres⟩

variable {sequence acknowledgement : Sequence} {flags : Flags} {payload : List UInt8}

/-- What `queue_segment_with_backpressure` does with a segment that changes the client only
after it has been queued. -/
theorem queueSegment_cases (hwaits : mode.waits) (link : Link)
    (sequence acknowledgement : Sequence) (flags : Flags) (payload : List UInt8) :
    ((queueSegmentWithBackpressure link sequence acknowledgement flags payload).1 ≠ .ok ∧
        (queueSegmentWithBackpressure link sequence acknowledgement flags payload).2.client =
          link.client ∧
        Moves mode link
          (queueSegmentWithBackpressure link sequence acknowledgement flags payload).2) ∨
      ∃ waited, Moves mode link ⟨link.client, waited⟩ ∧
        (waited.sendTcp (link.client.outgoing sequence acknowledgement flags payload)).1 = .ok ∧
        queueSegmentWithBackpressure link sequence acknowledgement flags payload =
          (.ok, ⟨link.client,
            (waited.sendTcp (link.client.outgoing sequence acknowledgement flags payload)).2⟩) := by
  have hbudget : Moves mode link ⟨link.client, link.stack.takeBudget.2⟩ := .move (.budget link)
  rcases queueLoop_cases hwaits link.client
      (link.client.outgoing sequence acknowledgement flags payload) link.stack.takeBudget.1
      link.stack.takeBudget.2 with ⟨hfail, hmoves⟩ | ⟨waited, hmoves, hsent, hres⟩
  · exact .inl ⟨hfail, rfl, hbudget.trans hmoves⟩
  refine .inr ⟨waited, hbudget.trans hmoves, hsent, ?_⟩
  rw [queueSegmentWithBackpressure]
  dsimp only
  rw [hres]

theorem queueSegment_moves (hwaits : mode.waits)
    (hperm : Permitted link.client (link.client.outgoing sequence acknowledgement flags payload)) :
    Moves mode link
        (queueSegmentWithBackpressure link sequence acknowledgement flags payload).2 ∧
      (queueSegmentWithBackpressure link sequence acknowledgement flags payload).2.client =
        link.client := by
  rcases queueSegment_cases hwaits link sequence acknowledgement flags payload with
    ⟨_, hclient, hmoves⟩ | ⟨waited, hmoves, _, hres⟩
  · exact ⟨hmoves, hclient⟩
  · rw [hres]
    exact ⟨hmoves.tail (.transmit ⟨link.client, waited⟩ _ hperm), rfl⟩

end

/-! ## The wire -/

theorem wire_poll (stack : NetworkStack) : stack.poll.2.wire = stack.wire := by
  rw [NetworkStack.poll]
  split <;> rfl

theorem wire_takeOrPollOne (link : Link) : (takeOrPollOne link).2.stack.wire = link.stack.wire := by
  have hcases := takeOrPollOne_cases link
  generalize takeOrPollOne link = result at hcases ⊢
  cases hcases with
  | found => rfl
  | _ => exact wire_poll link.stack

theorem wire_wait {link : Link} {outgoing : Outgoing}
    (hretry : retryableTransmitStatus (link.stack.sendTcp outgoing).1) :
    (link.stack.sendTcp outgoing).2.poll.2.wire = link.stack.wire := by
  rw [wire_poll]
  refine if_neg fun hsent => ?_
  have hok : (link.stack.sendTcp outgoing).1 = .ok := hsent
  rw [hok] at hretry
  cases hretry

theorem wire_sent {stack : NetworkStack} {outgoing : Outgoing}
    (hsent : (stack.sendTcp outgoing).1 = .ok) :
    (stack.sendTcp outgoing).2.wire = outgoing :: stack.wire := if_pos hsent

theorem wire_sendTcp (stack : NetworkStack) (outgoing : Outgoing) :
    stack.wire <:+ (stack.sendTcp outgoing).2.wire := by
  by_cases hsent : (stack.sendTcp outgoing).1 = .ok
  · rw [wire_sent hsent]
    exact List.suffix_cons _ _
  · have hwire : (stack.sendTcp outgoing).2.wire = stack.wire := if_neg hsent
    rw [hwire]

theorem Move.wire (hmove : Move mode before after) : before.stack.wire <:+ after.stack.wire := by
  cases hmove with
  | take => rw [wire_takeOrPollOne]
  | wait _ _ hretry =>
    rw [wire_wait hretry]
  | refuse => exact wire_sendTcp _ _
  | transmit => exact wire_sendTcp _ _
  | finish => exact wire_sendTcp _ _
  | hear _ _ htaken =>
    have htake := wire_takeOrPollOne before
    rw [htaken] at htake
    rw [← htake]
  | _ => exact List.suffix_rfl

theorem Moves.wire (hmoves : Moves mode before after) : before.stack.wire <:+ after.stack.wire := by
  induction hmoves with
  | refl => exact List.suffix_rfl
  | tail _ hmove ih => exact ih.trans hmove.wire

/-! ## Segments of a connection -/

section

variable {mode : Mode} {link taken : Link} {segment : TcpSegment}

theorem processIncoming_moves (htaken : takeOrPollOne link = (.ok segment, taken))
    (hhears : Hears link.client) : Moves mode link (processIncoming taken segment).2 := by
  obtain ⟨hclient, hfor⟩ := takeOrPollOne_ok htaken
  have hheard : Moves mode link { taken with client := (absorb link.client segment).2 } :=
    .move (.hear link taken segment htaken hhears)
  rw [← hclient] at hheard hfor
  rw [processIncoming, if_neg (by simp [hfor])]
  split
  next heq =>
    rw [heq] at hheard
    exact hheard.trans (acknowledgeOrDefer_moves _)
  next heq =>
    rw [heq] at hheard
    exact hheard

section

variable (hfor : segmentForClient link.client segment)
include hfor

theorem client_processIncoming :
    (processIncoming link segment).2.client = (absorb link.client segment).2 := by
  rw [processIncoming, if_neg (by simp [hfor])]
  split
  next heq =>
    rw [heq]
    rfl
  next heq => rw [heq]

theorem processIncoming_rst
    (hreset : segment.flags.rst) : (processIncoming link segment).1 = .interfaceError := by
  rw [processIncoming, if_neg (by simp [hfor]), absorb_reset hreset]

end

theorem absorb_hears (hreset : segment.flags.rst = false)
    (hhears : Hears client) : Hears (absorb client segment).2 := by
  have hrecv := absorb_received client hreset
  obtain ⟨_, hconn, hstate, _⟩ := heardAck_fields client segment
  have hsame := hrecv.state
  have hopened := hhears.opened
  rw [hstate] at hsame
  rcases hsame with hsame | ⟨_, hwait⟩
  · refine ⟨hsame ▸ hhears.reset, hsame ▸ hhears.error, ?_⟩
    rw [hsame, hrecv.connected, hconn]
    exact hopened
  · refine ⟨by rw [hwait]; rintro ⟨⟩, by rw [hwait]; rintro ⟨⟩, .inr ?_⟩
    rw [hwait]
    exact ⟨nofun, nofun⟩

theorem processIncoming_goesOn (htaken : takeOrPollOne link = (.ok segment, taken))
    (hstat : ¬ ((processIncoming taken segment).1 ≠ .ok ∧
      (processIncoming taken segment).1 ≠ .notForUs)) :
    segment.flags.rst = false ∧
      (processIncoming taken segment).2.client = (absorb link.client segment).2 := by
  obtain ⟨hclient, hfor⟩ := takeOrPollOne_ok htaken
  rw [← hclient] at hfor ⊢
  refine ⟨Bool.eq_false_iff.mpr fun hreset => hstat ?_, client_processIncoming hfor⟩
  rw [processIncoming_rst hfor hreset]
  exact ⟨nofun, nofun⟩

end

end Kurogane.Net.TcpClient
