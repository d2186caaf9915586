/-
# Delivery of a stream

An open connection whose peer sends slices of one stream. Calls that read, send and make
progress come in any order. What they hand out is at any time a beginning of the stream, and
a segment in order that fits a window which was advertised is taken in.
-/

import Kurogane.Net.TcpReceive

namespace Kurogane.Net.TcpClient

open Math List

/-! ## The invariant -/

/-- The position up to which a segment on the wire lets the peer send. -/
def Outgoing.edge (initial : Sequence) (outgoing : Outgoing) : ℕ :=
  (if outgoing.flags.ack then (outgoing.acknowledgement - streamSequence initial 0).toNat else 0) +
    outgoing.window

structure Unread (client : Client) : Prop where
  pending : client.pending.contents = []
  queue : ∀ index, client.outOfOrder index = none
  peerClosed : client.peerClosed = false

structure Fresh (initial : Sequence) (link : Link) : Prop where
  state : link.client.state = .established
  receiveNext : link.client.receiveNext = initial + 1
  unread : Unread link.client
  wire : ∀ outgoing ∈ link.stack.wire, Outgoing.edge initial outgoing ≤ streamReceiveCapacity

variable {mode : Mode} {stack : NetworkStack} {outgoing : Outgoing} {taken capacity : ℕ}

theorem mem_wire_sendTcp {other : Outgoing}
    (hother : other ∈ (stack.sendTcp outgoing).2.wire) : other = outgoing ∨ other ∈ stack.wire := by
  by_cases hsent : (stack.sendTcp outgoing).1 = .ok
  · rw [wire_sent hsent] at hother
    exact mem_cons.mp hother
  · have hwire : (stack.sendTcp outgoing).2.wire = stack.wire := if_neg hsent
    rw [hwire] at hother
    exact .inr hother

/-- A segment for the client is a slice of the stream. -/
def OfStream (stream : List UInt8) (initial : Sequence) (client : Client) (segment : TcpSegment) :
    Prop :=
  segmentForClient client segment = true → segment.flags.rst = false ∧
    ∃ offset, Slice stream initial segment.sequence segment.flags segment.payload offset

/-- A beginning of the stream has been taken in, and no segment on the wire promises more room
than there is. -/
structure Streaming (stream : List UInt8) (initial : Sequence) (own : Client) (delivered : ℕ)
    (link : Link) : Prop where
  taking : ∃ taken, Taking stream initial delivered taken link.client
  endpoint : ∀ segment, segmentForClient link.client segment = segmentForClient own segment
  wire : ∀ outgoing ∈ link.stack.wire,
    Outgoing.edge initial outgoing ≤ delivered + streamReceiveCapacity + closedCount link.client
  alive : Talking link.client ∨ Lost link.client

variable {client : Client}

section

variable {stream : List UInt8} {initial : Sequence} {own : Client} {delivered : ℕ} {link : Link}

section

variable (hstream : Streaming stream initial own delivered link)
include hstream

theorem Streaming.setStack (hwire : stack.wire = link.stack.wire) :
    Streaming stream initial own delivered { link with stack } := by
  refine { hstream with wire := fun outgoing houtgoing => ?_ }
  rw [hwire] at houtgoing
  exact hstream.wire outgoing houtgoing

theorem Streaming.setClient (hnext : client.receiveNext = link.client.receiveNext)
    (hclosed : client.peerClosed = link.client.peerClosed)
    (hpend : client.pending = link.client.pending)
    (hqueue : client.outOfOrder = link.client.outOfOrder)
    (hendpoint : ∀ segment, segmentForClient client segment = segmentForClient link.client segment)
    (halive : Talking client ∨ Lost client) :
    Streaming stream initial own delivered { link with client } := by
  obtain ⟨taken, htake⟩ := hstream.taking
  refine ⟨⟨taken, htake.congr hnext hclosed hpend hqueue⟩,
    fun segment => (hendpoint segment).trans (hstream.endpoint segment),
    fun outgoing houtgoing => ?_, halive⟩
  rw [closedCount, hclosed]
  exact hstream.wire outgoing houtgoing

end

/-- No segment promises more room than there is. -/
theorem Permitted.edge_le (hlen : stream.length < 2 ^ 31)
    (htake : Taking stream initial delivered taken client) (hperm : Permitted client outgoing) :
    Outgoing.edge initial outgoing ≤ delivered + streamReceiveCapacity + closedCount client := by
  have hin := htake.within
  have hbuffer := client.pending.within
  have hpend := htake.pending_length
  have hcount : closedCount client ≤ 1 := by
    rw [closedCount]
    split
    · exact le_rfl
    · exact Nat.zero_le _
  have hwindow : outgoing.window ≤ streamReceiveCapacity - client.pending.length := by
    rw [hperm.window, advertisedWindow]
    omega
  rw [Outgoing.edge]
  split
  next hack =>
    rw [hperm.acknowledgement hack, htake.receiveNext,
      streamSequence_sub (Nat.zero_le _) (by omega)]
    omega
  · omega

theorem Streaming.sendTcp (hlen : stream.length < 2 ^ 31)
    (hstream : Streaming stream initial own delivered link)
    (hperm : Permitted link.client outgoing) :
    Streaming stream initial own delivered
      { link with stack := (link.stack.sendTcp outgoing).2 } := by
  refine { hstream with wire := fun other hother => ?_ }
  rcases mem_wire_sendTcp hother with rfl | hother
  · obtain ⟨_, htake⟩ := hstream.taking
    exact hperm.edge_le hlen htake
  · exact hstream.wire other hother

theorem closedCount_mono {before after : Client} (hstill : before.peerClosed → after.peerClosed) :
    closedCount before ≤ closedCount after := by
  rw [closedCount, closedCount]
  split
  next hclosed => rw [if_pos (hstill hclosed)]
  · exact Nat.zero_le _

theorem Streaming.hear (hlen : stream.length < 2 ^ 31)
    (hstream : Streaming stream initial own delivered link) {segment : TcpSegment}
    (hseg : OfStream stream initial own segment)
    (hfor : segmentForClient link.client segment) (hhears : Hears link.client) :
    Streaming stream initial own delivered
      { link with client := (absorb link.client segment).2 } := by
  obtain ⟨_, htake⟩ := hstream.taking
  rw [hstream.endpoint] at hfor
  obtain ⟨hreset, _, hslice⟩ := hseg hfor
  obtain ⟨hstill, further, _, hfurther, _⟩ := htake.absorb hlen hreset hslice
  have htalking : Talking link.client := by
    refine hstream.alive.resolve_right fun hlost => ?_
    rcases hlost with herror | hrst
    · exact hhears.error herror
    · exact hhears.reset hrst
  refine ⟨⟨further, hfurther⟩, fun other => ?_, fun outgoing houtgoing => ?_,
    .inl (absorb_talking hreset htalking)⟩
  · rw [segmentForClient_absorb]
    exact hstream.endpoint other
  · exact (hstream.wire outgoing houtgoing).trans (Nat.add_le_add_left (closedCount_mono hstill) _)

end

/-! ## What the calls keep -/

section

variable {stream : List UInt8} {initial : Sequence} {own : Client} {delivered : ℕ}
  {before after : Link}

section

variable (hlen : stream.length < 2 ^ 31) (hturns : mode.turns = false)
include hlen hturns

theorem Move.streaming (hmove : Move mode before after)
    (hslices : ∀ segment ∈ TcpClient.incoming before.stack, OfStream stream initial own segment)
    (hstream : Streaming stream initial own delivered before) :
    Streaming stream initial own delivered after := by
  have hturn : mode.turns ≠ true := by simp [hturns]
  cases hmove with
  | budget => exact hstream.setStack rfl
  | take =>
    have hclient := client_takeOrPollOne before
    have htaken := hstream.setStack (wire_takeOrPollOne before)
    rw [← hclient] at htaken
    exact htaken
  | wait _ _ hretry => exact hstream.setStack (wire_wait hretry)
  | refuse _ hrefused => exact hstream.setStack (if_neg hrefused)
  | transmit _ hperm => exact hstream.sendTcp hlen hperm
  | finish hturn' => exact absurd hturn' hturn
  | hear _ segment htaken hhears =>
    have hfor := (takeOrPollOne_ok htaken).2
    have hfound := (incoming_takeOrPollOne before).2
    have hwire := wire_takeOrPollOne before
    rw [htaken] at hfound hwire
    have hmem := (hfound segment rfl).mem (mem_cons_self ..)
    exact (hstream.hear hlen (hslices segment hmem) hfor hhears).setStack hwire
  | synchronize hturn' => exact absurd hturn' hturn
  | establish _ hturn' => exact absurd hturn' hturn
  | fail _ _ hstate =>
    refine hstream.setClient rfl rfl rfl rfl (fun _ => rfl) ?_
    rcases hstate with rfl | rfl | rfl
    · exact .inr (.inl rfl)
    · exact .inr (.inr rfl)
    · exact hstream.alive
  | free hturn' => exact absurd hturn' hturn
  | advance => exact hstream.setClient rfl rfl rfl rfl (fun _ => rfl) hstream.alive
  | commit => exact hstream.setClient rfl rfl rfl rfl (fun _ => rfl) hstream.alive
  | rewind => exact hstream.setClient rfl rfl rfl rfl (fun _ => rfl) hstream.alive

theorem Moves.streaming (hmoves : Moves mode before after)
    (hslices : ∀ segment ∈ TcpClient.incoming before.stack, OfStream stream initial own segment)
    (hstream : Streaming stream initial own delivered before) :
    Streaming stream initial own delivered after := by
  induction hmoves with
  | refl => exact hstream
  | tail hpre hmove ih =>
    exact hmove.streaming hlen hturns
      (fun segment hseg => hslices segment ((Moves.incoming hpre).mem hseg)) ih

end

/-- Bytes that are drained come next in the stream. -/
theorem Taking.drain {bytes : List UInt8} (htake : Taking stream initial delivered taken client)
    (hdrained : (drainPending client capacity).1 = some bytes) :
    bytes = slice stream delivered (delivered + bytes.length) ∧
      Taking stream initial (delivered + bytes.length) taken (drainPending client capacity).2 := by
  rw [drainPending] at hdrained ⊢
  split at hdrained
  · cases hdrained
  rename_i hsome
  rw [if_neg hsome]
  have hcont : _ = client.pending.contents := Sliding.contents_drain capacity
  generalize client.pending.drain capacity = drained at hdrained hcont ⊢
  obtain ⟨_, rest⟩ := drained
  cases hdrained
  dsimp only at hcont ⊢
  rw [htake.pending] at hcont
  have hordered := htake.ordered
  have hfront : delivered + bytes.length ≤ taken := by
    have hlen := congrArg List.length hcont
    rw [length_append, length_slice htake.within] at hlen
    omega
  have hsplit : slice stream delivered (delivered + bytes.length) ++
      slice stream (delivered + bytes.length) taken = bytes ++ rest.contents := by
    rw [slice_append (Nat.le_add_right _ _) hfront, hcont]
  obtain ⟨hbytes, hrest⟩ := append_inj hsplit (by
    rw [length_slice (hfront.trans htake.within)]
    omega)
  exact ⟨hbytes.symm, { htake with ordered := hfront, pending := hrest.symm }⟩

theorem Delivered.streaming (hlen : stream.length < 2 ^ 31) {bytes : List UInt8}
    (hdeliv : Delivered capacity bytes before after)
    (hstream : Streaming stream initial own delivered before) :
    bytes = slice stream delivered (delivered + bytes.length) ∧
      Streaming stream initial own (delivered + bytes.length) after := by
  rcases hdeliv with ⟨rfl, rfl⟩ | hdeliv
  · exact ⟨(slice_of_le le_rfl).symm, hstream⟩
  obtain ⟨hdrained, rfl⟩ := deliverPending_some hdeliv
  obtain ⟨taken, htake⟩ := hstream.taking
  obtain ⟨hbytes, hdrain⟩ := htake.drain hdrained
  obtain ⟨_, hclient⟩ := drainPending_fields before.client capacity
  refine ⟨hbytes, Streaming.sendTcp hlen ?_ (.acknowledge _ _)⟩
  refine ⟨⟨taken, hdrain⟩, ?_, fun outgoing houtgoing => ?_, ?_⟩
  · rw [hclient]
    exact hstream.endpoint
  · have hedge := hstream.wire outgoing houtgoing
    rw [hclient]
    change _ ≤ _ + closedCount before.client
    omega
  · rw [hclient]
    exact hstream.alive

end

/-! ## Runs -/

def Call.reads : Call → Bool
  | .progress | .trySend _ | .tryReceive _ | .send _ | .receive _ => true
  | _ => false

def Call.bytes (link : Link) : Call → List UInt8
  | .tryReceive capacity => (TcpClient.tryReceive link capacity).2.1
  | .receive capacity => (TcpClient.receive link capacity).2.1
  | _ => []

/-- All bytes that the calls hand out, and the link after them. -/
def deliver : List Request → Link → List UInt8 × Link
  | [], link => ([], link)
  | request :: requests, link =>
    (request.call.bytes (request.prepare link) ++ (deliver requests (request.step link)).1,
      (deliver requests (request.step link)).2)

def Request.incoming (request : Request) : List TcpSegment :=
  TcpClient.incoming ⟨request.inbox, request.arrivals, request.transmits, request.budgets, []⟩

section

variable {stream : List UInt8} {initial : Sequence} {own : Client} {delivered : ℕ} {link : Link}
  {request : Request}

theorem Call.opening_reads {call : Call} (hreads : call.reads) : call.opening = none := by
  cases call with
  | beginConnect => cases hreads
  | connect => cases hreads
  | _ => rfl

theorem Streaming.prepare (hstream : Streaming stream initial own delivered link)
    (hreads : request.call.reads) :
    Streaming stream initial own delivered (request.prepare link) := by
  refine hstream.setStack ?_
  rw [Call.opening_reads hreads]
  rfl

theorem Request.streaming (hlen : stream.length < 2 ^ 31)
    (hstream : Streaming stream initial own delivered link) (hfits : Fits link.client)
    (hreads : request.call.reads)
    (hslices : ∀ segment ∈ request.incoming, OfStream stream initial own segment) :
    request.call.bytes (request.prepare link) = slice stream delivered
        (delivered + (request.call.bytes (request.prepare link)).length) ∧
      Streaming stream initial own
        (delivered + (request.call.bytes (request.prepare link)).length) (request.step link) := by
  have hprep := hstream.prepare hreads
  have hturns : (request.prepare link).client.state = .synSent ∨
      (request.prepare link).client.state = .finWait1 →
        (⟨true, true, false⟩ : Mode).turns := by
    intro hstate
    rcases hprep.alive with (halive | halive) | (halive | halive) <;> simp [halive] at hstate
  have hnothing : Streaming stream initial own delivered (request.step link) →
      [] = slice stream delivered (delivered + ([] : List UInt8).length) ∧
        Streaming stream initial own (delivered + ([] : List UInt8).length) (request.step link) :=
    fun hstep => ⟨(slice_of_le le_rfl).symm, hstep⟩
  rw [Request.step] at hnothing ⊢
  cases hcall : request.call with
  | progress =>
    rw [hcall] at hnothing
    exact hnothing ((progress_moves hturns).streaming hlen rfl hslices hprep)
  | trySend data =>
    rw [hcall] at hnothing
    have hmoves : Moves ⟨true, true, false⟩ _ _ := trySend_moves (request.prepare link) data
    exact hnothing (hmoves.streaming hlen rfl hslices hprep)
  | tryReceive capacity =>
    obtain ⟨moved, hmoves, hdeliv⟩ :=
      tryReceive_cases ⟨true, true, false⟩ (request.prepare link) capacity hturns
    exact hdeliv.streaming hlen (hmoves.streaming hlen rfl hslices hprep)
  | send data =>
    rw [hcall] at hnothing
    have hsent : Moves ⟨true, true, false⟩ _ _ ∧ _ :=
      send_spec rfl rfl (request.prepare link) data hfits
    exact hnothing (hsent.1.streaming hlen rfl hslices hprep)
  | receive capacity =>
    obtain ⟨_, hmoves, hdeliv⟩ := receive_cases ⟨true, true, false⟩ (request.prepare link) capacity
    exact hdeliv.streaming hlen (hmoves.streaming hlen rfl hslices hprep)
  | beginConnect => rw [hcall] at hreads; cases hreads
  | beginClose => rw [hcall] at hreads; cases hreads
  | connect => rw [hcall] at hreads; cases hreads
  | close => rw [hcall] at hreads; cases hreads

theorem deliver_streaming (hlen : stream.length < 2 ^ 31) (requests : List Request)
    (hstream : Streaming stream initial own delivered link) (hsafe : Safe link)
    (hfits : Fits link.client) (hreads : ∀ request ∈ requests, request.call.reads)
    (hslices : ∀ request ∈ requests, ∀ segment ∈ request.incoming,
      OfStream stream initial own segment) :
    (deliver requests link).1 =
        slice stream delivered (delivered + (deliver requests link).1.length) ∧
      Streaming stream initial own (delivered + (deliver requests link).1.length)
        (deliver requests link).2 := by
  induction requests generalizing link delivered with
  | nil => exact ⟨(slice_of_le le_rfl).symm, hstream⟩
  | cons request _ ih =>
    rw [forall_mem_cons] at hreads hslices
    obtain ⟨hbytes, hstep⟩ := Request.streaming hlen hstream hfits hreads.1 hslices.1
    obtain ⟨hsafe, hfits⟩ := request.step_safe hsafe hfits
    obtain ⟨hrest, hend⟩ := ih hstep hsafe hfits hreads.2 hslices.2
    rw [deliver, length_append, ← add_assoc]
    refine ⟨?_, hend⟩
    rw [← slice_append (Nat.le_add_right delivered _) (Nat.le_add_right _ _), ← hbytes, ← hrest]

end

/-! ## The stream -/

/-- The client has taken in a beginning of the stream: the bytes that have been handed out,
and those that wait. -/
structure TakenIn (stream : List UInt8) (initial : Sequence) (bytes : List UInt8) (taken : ℕ)
    (client : Client) : Prop where
  within : taken ≤ stream.length
  contents : bytes ++ client.pending.contents = stream.take taken
  receiveNext : client.receiveNext =
    initial + 1 + BitVec.ofNat 32 taken + if client.peerClosed then 1 else 0
  closed : client.peerClosed → taken = stream.length

/-- A segment that starts in order and ends within a window that was advertised is taken in
to its end. -/
def Accepts (stream : List UInt8) (initial : Sequence) (bytes : List UInt8) (taken : ℕ)
    (link : Link) : Prop :=
  ∀ segment offset outgoing, segmentForClient link.client segment →
    segment.flags.rst = false →
    Slice stream initial segment.sequence segment.flags segment.payload offset →
    offset ≤ taken → outgoing ∈ link.stack.wire →
    offset + segment.payload.length ≤ Outgoing.edge initial outgoing →
    ∃ further, offset + segment.payload.length ≤ further ∧
      TakenIn stream initial bytes further (processIncoming link segment).2.client ∧
      (segment.flags.fin → (processIncoming link segment).2.client.peerClosed)

variable {stream : List UInt8} {initial : Sequence} {link : Link}

theorem Fresh.streaming
    (hfresh : Fresh initial link) : Streaming stream initial link.client 0 link := by
  have hcount : closedCount link.client = 0 := if_neg (by simp [hfresh.unread.peerClosed])
  refine ⟨⟨0, le_rfl, Nat.zero_le _, ?_, ?_, ?_, ?_⟩, fun _ => rfl, fun outgoing houtgoing => ?_,
    .inl (.inl hfresh.state)⟩
  · rw [hcount, hfresh.receiveNext]
    exact (BitVec.add_zero _).symm
  · intro hclosed
    rw [hfresh.unread.peerClosed] at hclosed
    cases hclosed
  · rw [hfresh.unread.pending]
    exact (slice_of_le le_rfl).symm
  · intro index buffered hbuf
    rw [hfresh.unread.queue] at hbuf
    cases hbuf
  · have hedge := hfresh.wire outgoing houtgoing
    omega

theorem Taking.takenIn {bytes : List UInt8}
    (htake : Taking stream initial bytes.length taken client)
    (hbytes : bytes = slice stream 0 bytes.length) : TakenIn stream initial bytes taken client := by
  refine ⟨htake.within, ?_, ?_, htake.closed⟩
  · rw [htake.pending]
    nth_rewrite 1 [hbytes]
    rw [slice_append (Nat.zero_le _) htake.ordered, slice_zero]
  rw [htake.receiveNext, ← streamSequence_add, closedCount, streamSequence]
  split
  · rfl
  · rfl

theorem Streaming.accepts {own : Client} {bytes : List UInt8}
    (hlen : stream.length < 2 ^ 31) (hstream : Streaming stream initial own bytes.length link)
    (hbytes : bytes = slice stream 0 bytes.length)
    (htake : Taking stream initial bytes.length taken link.client) :
    Accepts stream initial bytes taken link := by
  intro segment offset outgoing hfor hreset hslice hstart houtgoing hedge
  obtain ⟨hstill, further, _, hfurther, hall⟩ := htake.absorb hlen hreset hslice
  rw [client_processIncoming hfor]
  have hin := hstream.wire outgoing houtgoing
  cases hpeer : link.client.peerClosed with
  | true =>
    have hend := htake.closed hpeer
    have hlast := hslice.within
    exact ⟨further, by omega, hfurther.takenIn hbytes, fun _ => hstill hpeer⟩
  | false =>
    have hroom : offset + segment.payload.length ≤ bytes.length + streamReceiveCapacity := by
      rw [closedCount, hpeer] at hin
      exact hedge.trans hin
    obtain ⟨hlast, hfin⟩ := hall hstart hroom
    exact ⟨further, hlast, hfurther.takenIn hbytes, hfin⟩

/-- Once a connection is open, whatever slices of the stream arrive and whatever calls come:
the bytes that are handed out are a beginning of the stream, the next sequence counts what
was taken in, the peer is closed only when all of the stream was, and no window that was
advertised is broken. -/
theorem stream_delivered (stream : List UInt8) (hlength : stream.length < 2 ^ 31)
    (initial : Sequence) (opening requests : List Request)
    (hfresh : Fresh initial (session opening))
    (hreads : ∀ request ∈ requests, request.call.reads = true)
    (hslices : ∀ request ∈ requests, ∀ segment ∈ request.incoming,
      OfStream stream initial (session opening).client segment) :
    (deliver requests (session opening)).1 <+: stream ∧
      ∃ taken,
        TakenIn stream initial (deliver requests (session opening)).1 taken
          (deliver requests (session opening)).2.client ∧
        Accepts stream initial (deliver requests (session opening)).1 taken
          (deliver requests (session opening)).2 := by
  obtain ⟨hsafe, hfits⟩ := session_safe opening
  obtain ⟨hbytes, hstreaming⟩ :=
    deliver_streaming hlength requests hfresh.streaming hsafe hfits hreads hslices
  rw [zero_add] at hbytes hstreaming
  obtain ⟨taken, htaking⟩ := hstreaming.taking
  refine ⟨?_, taken, htaking.takenIn hbytes, hstreaming.accepts hlength hbytes htaking⟩
  rw [hbytes, slice_zero]
  exact take_prefix _ _

/-- A peer answers at the last sequence before they wrap around. -/
def greeted : List Request :=
  [{ call := .connect 1 2 80 7
     arrivals := [.segment
       ⟨1, 80, 2, 0xFFFFFFFF, 8, { syn := true, ack := true }, 500, [], nil_fits⟩]
     budgets := [1, 1] }]

/-- The last byte comes first and with the FIN, and then two that overlap it. -/
def overlapping : List Request :=
  [{ call := .tryReceive 10
     arrivals := [.segment ⟨1, 80, 2, 2, 8, { ack := true, fin := true }, 500, [67], by decide⟩] },
    { call := .receive 2
      arrivals := [.segment ⟨1, 80, 2, 0, 8, { ack := true }, 500, [65, 66, 67], by decide⟩]
      budgets := [1] }]

theorem greeted_delivered :
    Fresh 0xFFFFFFFF (session greeted) ∧
      (deliver overlapping (session greeted)).1 = [65, 66] ∧
      (deliver overlapping (session greeted)).2.client.peerClosed = true ∧
      (deliver overlapping (session greeted)).1 <+: [65, 66, 67] ∧
      ∃ taken,
        TakenIn [65, 66, 67] 0xFFFFFFFF (deliver overlapping (session greeted)).1 taken
          (deliver overlapping (session greeted)).2.client ∧
        Accepts [65, 66, 67] 0xFFFFFFFF (deliver overlapping (session greeted)).1 taken
          (deliver overlapping (session greeted)).2 := by
  have hfresh : Fresh 0xFFFFFFFF (session greeted) := ⟨by decide +kernel, by decide +kernel,
      ⟨by decide +kernel, by decide +kernel, by decide +kernel⟩, by decide +kernel⟩
  refine ⟨hfresh, by decide +kernel, by decide +kernel,
    stream_delivered [65, 66, 67] (by decide) 0xFFFFFFFF greeted overlapping hfresh (by decide) ?_⟩
  intro request hrequest segment hsegment _
  rcases mem_pair.mp hrequest with rfl | rfl
  · cases mem_singleton.mp hsegment
    exact ⟨rfl, 2, by decide, by decide, by decide, by decide⟩
  · cases mem_singleton.mp hsegment
    exact ⟨rfl, 0, by decide, by decide, by decide, by decide⟩

end Kurogane.Net.TcpClient
