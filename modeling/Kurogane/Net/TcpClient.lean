/-
# TCP clients on a network stack

The calls of `src/kernel/net/tcp_client.cpp`. What the calls meet in their environment is
part of the state: the frames that the interface delivers, one for each poll, the outcome
of each transmission, and for each loop the number of rounds before its time is up. A
transmission that succeeds is on the wire.

The stack is initialized and configured, pointers are not null and timeouts not zero.
-/

import Kurogane.Net.TcpStream

namespace Kurogane.Net

/-- A segment that a client sends. -/
structure Outgoing where
  peer : IPv4Address
  localPort : ℕ
  remotePort : ℕ
  sequence : Sequence
  acknowledgement : Sequence
  flags : Flags
  window : ℕ
  payload : List UInt8
  deriving DecidableEq, Repr

/-- What one poll of the interface finds: nothing, a TCP segment for this host, or another
frame, which ends with some status. -/
inductive Arrival where
  | nothing
  | segment (segment : TcpSegment)
  | other (status : Status)

/-- The inbox for TCP segments, and the environment. -/
structure NetworkStack where
  inbox : Option TcpSegment := none
  arrivals : List Arrival := []
  transmits : List Status := []
  budgets : List ℕ := []
  wire : List Outgoing := []

namespace NetworkStack

variable (stack : NetworkStack)

/-- Poll for one frame. A TCP segment takes the place of the one in the inbox. -/
def poll : Status × NetworkStack :=
  match stack.arrivals with
  | [] => (.ok, stack)
  | .nothing :: arrivals => (.ok, { stack with arrivals })
  | .segment segment :: arrivals => (.ok, { stack with inbox := some segment, arrivals })
  | .other status :: arrivals => (status, { stack with arrivals })

def takeTcpSegment : Option TcpSegment × NetworkStack :=
  (stack.inbox, { stack with inbox := none })

def sendTcp (outgoing : Outgoing) : Status × NetworkStack :=
  let status := stack.transmits.headD .ok
  (status, { stack with
    transmits := stack.transmits.tail
    wire := if status = .ok then outgoing :: stack.wire else stack.wire })

/-- The rounds of the next loop. -/
def takeBudget : ℕ × NetworkStack :=
  (stack.budgets.headD 0, { stack with budgets := stack.budgets.tail })

end NetworkStack

namespace TcpClient

structure Link where
  client : Client
  stack : NetworkStack

def retryableTransmitStatus (status : Status) : Bool :=
  status = .neighborResolutionPending ∨ status = .wouldBlock ∨ status = .queueFull ∨
    status = .interfaceError

def acceptablePollStatus (status : Status) : Bool :=
  status = .ok ∨ status = .notForUs ∨ status = .unsupportedProtocol ∨ status = .wouldBlock ∨
    status = .interfaceError

/-! ## Segments -/

def Client.outgoing (client : Client) (sequence acknowledgement : Sequence) (flags : Flags)
    (payload : List UInt8) : Outgoing :=
  ⟨client.peer, client.localPort, client.remotePort, sequence, acknowledgement, flags,
    advertisedWindow client, payload⟩

variable (link : Link)

section

variable (peer : IPv4Address) (localPort remotePort : ℕ) (initialSequence : Sequence)
  (segment : TcpSegment)

def sendSegment (sequence acknowledgement : Sequence) (flags : Flags) (payload : List UInt8) :
    Status × Link :=
  let (status, stack) :=
    link.stack.sendTcp (link.client.outgoing sequence acknowledgement flags payload)
  (status, { link with stack })

def acknowledge : Status × Link :=
  sendSegment link link.client.sendNext link.client.receiveNext { ack := true } []

/-- A pure acknowledgement may be left to a later one. -/
def acknowledgeOrDefer : Status × Link :=
  let (status, link) := acknowledge link
  (if retryableTransmitStatus status then .ok else status, link)

def setError (client : Client) : Client := { client with connected := false, state := .error }

def processIncoming : Status × Link :=
  if segmentForClient link.client segment = false then (.notForUs, link)
  else
    match absorb link.client segment with
    | (.acknowledge, client) => acknowledgeOrDefer { link with client }
    | (.done status, client) => (status, { link with client })

/-- What was taken from the inbox, for the client that took it. -/
def ownSegment (client : Client) : Option TcpSegment → Except Status TcpSegment
  | none => .error .wouldBlock
  | some segment => if segmentForClient client segment then .ok segment else .error .notForUs

/-- Take the segment in the inbox, or poll once and take what that brings. A segment that is
not for this client has been taken all the same, and is lost. -/
def takeOrPollOne : Except Status TcpSegment × Link :=
  match link.stack.takeTcpSegment with
  | (some segment, stack) => (ownSegment link.client (some segment), { link with stack })
  | (none, stack) =>
    let (pollStatus, polled) := stack.poll
    if acceptablePollStatus pollStatus = false then
      (.error pollStatus, { link with stack := polled })
    else if pollStatus = .interfaceError ∨ pollStatus = .wouldBlock then
      (.error .wouldBlock, { link with stack := polled })
    else
      let (taken, stack) := polled.takeTcpSegment
      (ownSegment link.client taken, { link with stack })

def takeBudget : ℕ × Link :=
  let (budget, stack) := link.stack.takeBudget
  (budget, { link with stack })

/-- The rounds of `queue_segment_with_backpressure`. A poll between two attempts leaves
what it finds in the inbox. -/
def queueLoop (outgoing : Outgoing) : ℕ → NetworkStack → Status × NetworkStack
  | 0, stack => (.wouldBlock, stack)
  | rounds + 1, stack =>
    let (status, sent) := stack.sendTcp outgoing
    if status = .ok then (.ok, sent)
    else if retryableTransmitStatus status = false then (status, sent)
    else
      let (pollStatus, polled) := sent.poll
      if acceptablePollStatus pollStatus = false then (pollStatus, polled)
      else queueLoop outgoing rounds polled

def queueSegmentWithBackpressure (sequence acknowledgement : Sequence) (flags : Flags)
    (payload : List UInt8) : Status × Link :=
  let (budget, stack) := link.stack.takeBudget
  let (status, stack) :=
    queueLoop (link.client.outgoing sequence acknowledgement flags payload) budget stack
  (status, { link with stack })

/-! ## Connecting -/

/-- A client that is about to send its SYN. -/
def Client.opening :
    Client :=
  { attached := true, peer, localPort, remotePort, sendUnacknowledged := initialSequence
    sendNext := initialSequence, state := .synSent }

/-- Start a connection without waiting. A SYN that the interface cannot take yet leaves the
sequence where it is, and `progress` sends it later. -/
def beginConnect :
    Status × Link :=
  if peer = 0 ∨ localPort = 0 ∨ remotePort = 0 then (.invalidArgument, link)
  else
    let client := Client.opening peer localPort remotePort initialSequence
    let link : Link := ⟨client, link.stack.takeTcpSegment.2⟩
    match sendSegment link initialSequence 0 { syn := true } [] with
    | (.ok, link) =>
      (.wouldBlock, { link with client := { client with sendNext := initialSequence + 1 } })
    | (status, link) =>
      if retryableTransmitStatus status then (.wouldBlock, link)
      else (status, { link with client := { client with state := .error } })

/-- The answer to the SYN has come. -/
def establish : Status × Link :=
  let client := { link.client with
    receiveNext := segment.sequence + 1
    sendUnacknowledged := segment.acknowledgement
    peerWindow := segment.window
    connected := true
    state := .established }
  match acknowledgeOrDefer { link with client } with
  | (.ok, link) => (.ok, link)
  | (status, link) => (status, { link with client := setError link.client })

/-- The head of `progress`: a SYN that could not be sent before is sent. -/
def resendSyn : Option Status × Link :=
  if link.client.state = .synSent ∧ link.client.sendNext = link.client.sendUnacknowledged then
    let (status, link) := sendSegment link link.client.sendUnacknowledged 0 { syn := true } []
    if retryableTransmitStatus status then (some .wouldBlock, link)
    else if status ≠ .ok then
      (some status, { link with client := { link.client with state := .error } })
    else
      (none, { link with client := { link.client with
        sendNext := link.client.sendUnacknowledged + 1 } })
  else (none, link)

/-- `progress` of a segment while the SYN has not been answered. -/
def progressHandshake : Status × Link :=
  if segment.flags.rst then
    (.interfaceError, { link with client := { link.client with state := .reset } })
  else if segment.flags.syn = false ∨ segment.flags.ack = false ∨
      segment.acknowledgement ≠ link.client.sendNext then
    (.wouldBlock, link)
  else establish link segment

/-- `progress` of a segment on a connection; the last step of a close frees the client. -/
def progressConnection : Status × Link :=
  let before := link.client.state
  let (status, link) := processIncoming link segment
  if status ≠ .ok ∧ status ≠ .notForUs then (status, link)
  else if before = .finWait1 then
    if link.client.peerClosed ∧
        sequenceBefore link.client.sendUnacknowledged link.client.sendNext = false then
      (.ok, { link with client := .initial })
    else (.ok, { link with client := { link.client with state := .finWait1 } })
  else (.ok, link)

/-- One step of a connection without waiting: a SYN that is still due is sent, and then one
segment is taken in. What the segment means depends on whether the SYN was answered. -/
def progress : Status × Link :=
  if link.client.attached = false then (.invalidArgument, link)
  else if link.client.state = .closed then (.ok, link)
  else if link.client.state = .reset ∨ link.client.state = .error then (.interfaceError, link)
  else
    match resendSyn link with
    | (some status, link) => (status, link)
    | (none, link) =>
      match takeOrPollOne link with
      | (.error status, link) =>
        if status = .wouldBlock ∨ status = .notForUs then (.wouldBlock, link)
        else (status, { link with client := { link.client with state := .error } })
      | (.ok segment, link) =>
        if link.client.state = .synSent then progressHandshake link segment
        else progressConnection link segment

/-- The rounds in which `connect` waits for an answer to its SYN. -/
def handshakeLoop (initialSequence : Sequence) : ℕ → Link → Option Status × Link
  | 0, link => (none, link)
  | rounds + 1, link =>
    match takeOrPollOne link with
    | (.error status, link) =>
      if status = .wouldBlock ∨ status = .notForUs then
        handshakeLoop initialSequence rounds link
      else (some status, { link with client := { link.client with state := .error } })
    | (.ok segment, link) =>
      if segment.flags.rst then
        (some .interfaceError, { link with client := { link.client with state := .reset } })
      else if segment.flags.syn ∧ segment.flags.ack ∧
          segment.acknowledgement = initialSequence + 1 then
        let (status, link) := establish
          { link with client := { link.client with sendNext := initialSequence + 1 } } segment
        (some status, link)
      else handshakeLoop initialSequence rounds link

/-- The SYN and its retransmissions. -/
def connectLoop (initialSequence : Sequence) : ℕ → Link → Status × Link
  | 0, link => (.wouldBlock, { link with client := setError link.client })
  | transmissions + 1, link =>
    let (status, link) := queueSegmentWithBackpressure link initialSequence 0 { syn := true } []
    if status ≠ .ok ∧ status ≠ .wouldBlock then
      (status, { link with client := { link.client with state := .error } })
    else
      let link := if status = .ok then
        { link with client := { link.client with sendNext := initialSequence + 1 } } else link
      let (budget, link) := takeBudget link
      match handshakeLoop initialSequence budget link with
      | (some status, link) => (status, link)
      | (none, link) => connectLoop initialSequence transmissions link

/-- Open a connection and wait for it. The SYN is sent again, a limited number of times, when
the rounds of waiting for an answer are over. -/
def connect :
    Status × Link :=
  if peer = 0 ∨ localPort = 0 ∨ remotePort = 0 then (.invalidArgument, link)
  else
    connectLoop initialSequence dataTransmissionLimit
      ⟨Client.opening peer localPort remotePort initialSequence, link.stack.takeTcpSegment.2⟩

end

/-! ## Sending -/

/-- Hand as much of the data to the interface as fits into a segment and into the window of
the peer, less what is in flight. The number of bytes taken is returned with the status. -/
def trySend (data : List UInt8) : Status × ℕ × Link :=
  let client := link.client
  if client.attached = false then (.invalidArgument, 0, link)
  else if client.connected = false ∨ client.state ≠ .established ∨ client.peerClosed then
    (.interfaceError, 0, link)
  else if data.length = 0 then (.ok, 0, link)
  else
    let inFlight := (client.sendNext - client.sendUnacknowledged).toNat
    if inFlight ≥ client.peerWindow.toNat then (.wouldBlock, 0, link)
    else
      let chunk := min (min data.length maxSegmentPayload) (client.peerWindow.toNat - inFlight)
      if chunk = 0 then (.wouldBlock, 0, link)
      else
        match sendSegment link client.sendNext client.receiveNext { psh := true, ack := true }
            (data.take chunk) with
        | (.ok, link) =>
          (.ok, chunk, { link with client := { client with
            sendNext := client.sendNext + BitVec.ofNat 32 chunk } })
        | (status, link) =>
          if retryableTransmitStatus status then (.wouldBlock, 0, link)
          else (status, 0, { link with client := setError client })

/-- How the wait for an acknowledgement ends. -/
inductive Wait where
  | acknowledged
  | expired
  | failed (status : Status)

def failSend (client : Client) : Client :=
  { client with
    connected := false
    state := if client.state ≠ .reset then .error else client.state }

def awaitAck (expectedAck : Sequence) : ℕ → Link → Wait × Link
  | 0, link => (.expired, link)
  | rounds + 1, link =>
    match takeOrPollOne link with
    | (.error status, link) =>
      if status = .wouldBlock ∨ status = .notForUs then awaitAck expectedAck rounds link
      else (.failed status, { link with client := setError link.client })
    | (.ok segment, link) =>
      let (status, link) := processIncoming link segment
      if status ≠ .ok ∧ status ≠ .notForUs then
        (.failed status, { link with client := failSend link.client })
      else if sequenceBefore link.client.sendUnacknowledged expectedAck = false then
        (.acknowledged, link)
      else awaitAck expectedAck rounds link

/-- How the transmissions of a chunk end. -/
inductive Delivery where
  | acknowledged
  | expired (committed : Bool)
  | failed (status : Status)
  deriving DecidableEq

/-- A chunk and its retransmissions. The sequence is committed when the chunk has been
queued for the first time. -/
def transmitChunk (sequence expectedAck : Sequence) (payload : List UInt8) :
    ℕ → Bool → Link → Delivery × Link
  | 0, committed, link => (.expired committed, link)
  | transmissions + 1, committed, link =>
    let (status, link) := queueSegmentWithBackpressure link sequence link.client.receiveNext
      { psh := true, ack := true } payload
    if status = .wouldBlock then
      transmitChunk sequence expectedAck payload transmissions committed link
    else if status ≠ .ok then (.failed status, { link with client := setError link.client })
    else
      let link := if committed then link
        else { link with client := { link.client with sendNext := expectedAck } }
      let (budget, link) := takeBudget link
      match awaitAck expectedAck budget link with
      | (.acknowledged, link) => (.acknowledged, link)
      | (.failed status, link) => (.failed status, link)
      | (.expired, link) =>
        transmitChunk sequence expectedAck payload transmissions true link

/-- The chunks of a buffer. Each takes a byte at least, so that there are enough rounds. -/
def sendChunks : ℕ → List UInt8 → Link → Status × Link
  | 0, _, link => (.ok, link)
  | rounds + 1, data, link =>
    if data.length = 0 then (.ok, link)
    else if link.client.peerWindow = 0 then (.wouldBlock, link)
    else
      let chunk := min (min data.length maxSegmentPayload) link.client.peerWindow.toNat
      let sequence := link.client.sendNext
      match transmitChunk sequence (sequence + BitVec.ofNat 32 chunk) (data.take chunk)
          dataTransmissionLimit false link with
      | (.failed status, link) => (status, link)
      | (.expired false, link) => (.wouldBlock, link)
      | (.expired true, link) =>
        if link.client.sendUnacknowledged = sequence then
          (.wouldBlock, { link with client := { link.client with sendNext := sequence } })
        else (.interfaceError, { link with client := setError link.client })
      | (.acknowledged, link) => sendChunks rounds (data.drop chunk) link

/-- Send all of the data, chunk by chunk, and wait for each chunk to be acknowledged. The call
may end with a part of the data sent and acknowledged, without telling how much. -/
def send (data : List UInt8) : Status × Link :=
  if link.client.connected = false ∨ link.client.attached = false then (.invalidArgument, link)
  else if link.client.state ≠ .established ∨ link.client.peerClosed then (.interfaceError, link)
  else sendChunks data.length data link

/-! ## Receiving -/

/-- Hand bytes to the caller and tell the peer about the room. -/
def deliverPending (capacity : ℕ) : Option (List UInt8) × Link :=
  match drainPending link.client capacity with
  | (none, _) => (none, link)
  | (some bytes, client) => (some bytes, (acknowledgeOrDefer { link with client }).2)

/-- Bytes that are there are returned at once; otherwise the connection makes one step. The
end of the stream is a success without bytes. -/
def tryReceive (capacity : ℕ) : Status × List UInt8 × Link :=
  if link.client.attached = false ∨ capacity = 0 then (.invalidArgument, [], link)
  else
    match deliverPending link capacity with
    | (some bytes, link) => (.ok, bytes, link)
    | (none, link) =>
      if link.client.peerClosed then (.ok, [], link)
      else if link.client.connected = false then (.interfaceError, [], link)
      else
        let (status, link) := progress link
        if status ≠ .ok ∧ status ≠ .wouldBlock then (status, [], link)
        else
          match deliverPending link capacity with
          | (some bytes, link) => (.ok, bytes, link)
          | (none, link) =>
            (if link.client.peerClosed then .ok else .wouldBlock, [], link)

def receiveLoop (capacity : ℕ) : ℕ → Link → Status × List UInt8 × Link
  | 0, link => (.wouldBlock, [], link)
  | rounds + 1, link =>
    match takeOrPollOne link with
    | (.error status, link) =>
      if status = .wouldBlock ∨ status = .notForUs then receiveLoop capacity rounds link
      else (status, [], link)
    | (.ok segment, link) =>
      let (status, link) := processIncoming link segment
      if status ≠ .ok ∧ status ≠ .notForUs then (status, [], link)
      else
        match deliverPending link capacity with
        | (some bytes, link) => (.ok, bytes, link)
        | (none, link) =>
          if link.client.peerClosed then (.ok, [], link) else receiveLoop capacity rounds link

def receive (capacity : ℕ) : Status × List UInt8 × Link :=
  if link.client.attached = false ∨ capacity = 0 then (.invalidArgument, [], link)
  else if link.client.state = .reset ∨ link.client.state = .error then (.interfaceError, [], link)
  else
    match deliverPending link capacity with
    | (some bytes, link) => (.ok, bytes, link)
    | (none, link) =>
      if link.client.peerClosed then (.ok, [], link)
      else if link.client.connected = false then (.interfaceError, [], link)
      else
        let (budget, link) := takeBudget link
        receiveLoop capacity budget link

/-! ## Closing -/

/-- The end of `begin_close`: the FIN goes out if it can. -/
def sendFin : Status × Link :=
  let client := link.client
  match sendSegment link client.sendNext client.receiveNext { fin := true, ack := true } [] with
  | (.ok, link) =>
    (.wouldBlock, { link with client := { client with
      sendNext := client.sendNext + 1, state := .finWait1 } })
  | (status, link) =>
    if retryableTransmitStatus status then (.wouldBlock, link)
    else (status, { link with client := { client with state := .error } })

/-- Start to close without waiting. The FIN goes out when all data has been acknowledged;
until then, and until the connection has ended, the caller is told to come back. -/
def beginClose : Status × Link :=
  let client := link.client
  if client.connected = false ∨ client.attached = false then (.ok, { link with client := .initial })
  else if client.state = .reset then (.ok, { link with client := .initial })
  else if client.state = .error then (.interfaceError, link)
  else if client.state = .finWait1 then (.wouldBlock, link)
  else if client.state ≠ .established ∧ client.state ≠ .closeWait then (.interfaceError, link)
  else if client.sendUnacknowledged ≠ client.sendNext then (.wouldBlock, link)
  else sendFin link

/-- The connection is given up with an RST. -/
def abortConnection : Status × Link :=
  match queueSegmentWithBackpressure link link.client.sendNext link.client.receiveNext
      { rst := true, ack := true } [] with
  | (.ok, link) => (.ok, { link with client := .initial })
  | (status, link) => (status, link)

/-- The rounds in which `close` waits for the end of the connection. -/
def closeLoop (expectedAck : Sequence) : ℕ → Link → Option Status × Link
  | 0, link => (none, link)
  | rounds + 1, link =>
    match takeOrPollOne link with
    | (.error status, link) =>
      if status = .wouldBlock ∨ status = .notForUs then closeLoop expectedAck rounds link
      else (some status, { link with client := { link.client with state := .finWait1 } })
    | (.ok segment, link) =>
      let (status, link) := processIncoming link segment
      if link.client.state = .reset then (some .ok, { link with client := .initial })
      else if status ≠ .ok ∧ status ≠ .notForUs then
        (some status, { link with client := { link.client with state := .finWait1 } })
      else if sequenceBefore link.client.sendUnacknowledged expectedAck = false ∧
          link.client.peerClosed then
        (some .ok, { link with client := .initial })
      else closeLoop expectedAck rounds link

/-- The FIN has been queued. -/
def awaitClose (expectedAck : Sequence) : Status × Link :=
  let link := { link with client := { link.client with
    state := .finWait1, sendNext := expectedAck } }
  let (budget, link) := takeBudget link
  match closeLoop expectedAck budget link with
  | (some status, link) => (status, link)
  | (none, link) =>
    match abortConnection link with
    | (.ok, link) => (.ok, link)
    | (status, link) =>
      (status, { link with client := { link.client with state := .finWait1 } })

/-- The end of `close`: the FIN is queued, and the connection ends. -/
def queueFin : Status × Link :=
  let client := link.client
  match queueSegmentWithBackpressure link client.sendNext client.receiveNext
      { fin := true, ack := true } [] with
  | (.ok, link) => awaitClose link (client.sendNext + 1)
  | (status, link) => (status, link)

def close : Status × Link :=
  let client := link.client
  if client.connected = false ∨ client.attached = false then (.ok, { link with client := .initial })
  else if client.state = .reset then (.ok, { link with client := .initial })
  else if client.state = .error then (.interfaceError, { link with client := .initial })
  else if client.state = .finWait1 then abortConnection link
  else if client.state ≠ .established ∧ client.state ≠ .closeWait then (.interfaceError, link)
  else if client.sendUnacknowledged ≠ client.sendNext then (.wouldBlock, link)
  else queueFin link

end TcpClient

end Kurogane.Net
