/-
# The state of a TCP client

The part of `src/kernel/net/tcp_client.cpp` that only looks at the client itself: sequence
numbers, the stream buffer, the queue of segments that came too early, and what an arriving
segment does to them.

A slot of the queue that is not valid is `none` here, and so is the inbox of the stack. The
count of the queue, which only its own updates read, is left out.
-/

import Kurogane.Math.SlidingBuffer
import Mathlib.Data.BitVec

namespace Kurogane.Net

open Math (Sliding)

abbrev Sequence := BitVec 32

abbrev IPv4Address := BitVec 32

inductive Status where
  | ok
  | notInitialized
  | notConfigured
  | invalidArgument
  | invalidConfiguration
  | wouldBlock
  | queueFull
  | bufferTooSmall
  | frameTooShort
  | frameTooLarge
  | payloadTooLarge
  | malformedPacket
  | checksumMismatch
  | unsupportedProtocol
  | unsupportedFragment
  | notForUs
  | noRoute
  | neighborResolutionPending
  | iterationStopped
  | interfaceError
  | nameNotFound
  deriving DecidableEq, Repr

/-- The bits of the flags that are looked at. -/
structure Flags where
  fin : Bool := false
  syn : Bool := false
  rst : Bool := false
  psh : Bool := false
  ack : Bool := false
  deriving DecidableEq, Repr

abbrev transportInboxCapacity : ℕ := 1500

/-- A segment of the inbox, which has room for one frame. -/
structure TcpSegment where
  source : IPv4Address
  sourcePort : ℕ
  destinationPort : ℕ
  sequence : Sequence
  acknowledgement : Sequence
  flags : Flags
  window : UInt16
  payload : List UInt8
  fits : payload.length ≤ transportInboxCapacity

theorem nil_fits : ([] : List UInt8).length ≤ transportInboxCapacity := Nat.zero_le _

namespace TcpClient

def maxSegmentPayload : ℕ := 1400

abbrev streamReceiveCapacity : ℕ := 8192

abbrev outOfOrderQueueDepth : ℕ := 4

abbrev outOfOrderPayloadCapacity : ℕ := transportInboxCapacity

def maximumAdvertisedWindow : ℕ := 32768

def dataTransmissionLimit : ℕ := 4

inductive State where
  | closed
  | synSent
  | established
  | closeWait
  | finWait1
  | reset
  | error
  deriving DecidableEq, Repr

structure BufferedSegment where
  sequence : Sequence
  flags : Flags
  window : UInt16
  payload : List UInt8
  fits : payload.length ≤ outOfOrderPayloadCapacity

/-- `attached` says that the client has a stack. -/
structure Client where
  attached : Bool := false
  peer : IPv4Address := 0
  localPort : ℕ := 0
  remotePort : ℕ := 0
  sendUnacknowledged : Sequence := 0
  sendNext : Sequence := 0
  receiveNext : Sequence := 0
  peerWindow : UInt16 := 0
  pending : Sliding UInt8 streamReceiveCapacity := .empty 0
  outOfOrder : Fin outOfOrderQueueDepth → Option BufferedSegment := fun _ => none
  state : State := .closed
  connected : Bool := false
  peerClosed : Bool := false

/-- The client that `initialize` leaves. -/
def Client.initial : Client := {}

/-! ## Sequence numbers -/

/-- The difference of the words is negative as a signed one. -/
def sequenceBefore (left right : Sequence) : Bool := (left - right).toInt < 0

def sequenceAfter (left right : Sequence) : Bool := sequenceBefore right left

def endSequence (sequence : Sequence) (flags : Flags) (payload : List UInt8) : Sequence :=
  sequence + BitVec.ofNat 32 payload.length + if flags.fin then 1 else 0

namespace BufferedSegment

def endSequence (segment : BufferedSegment) : Sequence :=
  TcpClient.endSequence segment.sequence segment.flags segment.payload

end BufferedSegment

variable (client : Client) (segment : TcpSegment)

section

variable (index : Fin outOfOrderQueueDepth) (sequence : Sequence) (flags : Flags)
  (payload : List UInt8)

def segmentForClient : Bool :=
  segment.source = client.peer ∧ segment.sourcePort = client.remotePort ∧
    segment.destinationPort = client.localPort

/-! ## The receive side -/

def bufferedOutOfOrderBytes : ℕ :=
  ((List.finRange outOfOrderQueueDepth).map fun index =>
    ((client.outOfOrder index).map fun buffered => buffered.payload.length).getD 0).sum

def advertisedWindow : ℕ :=
  min (streamReceiveCapacity - (client.pending.length + bufferedOutOfOrderBytes client))
    maximumAdvertisedWindow

def appendPending (data : List UInt8) : Status × Client :=
  let (fits, pending) := client.pending.append data
  (if fits then .ok else .queueFull, { client with pending })

/-- An acknowledgement counts when it is new and for something that was sent. -/
def recordAck : Client :=
  if segment.flags.ack = false then client
  else if sequenceAfter segment.acknowledgement client.sendNext then client
  else if sequenceAfter segment.acknowledgement client.sendUnacknowledged then
    { client with sendUnacknowledged := segment.acknowledgement }
  else client

def storeBufferedSegment : Client :=
  { client with
    outOfOrder := Function.update client.outOfOrder index
      (some ⟨segment.sequence, segment.flags, segment.window, segment.payload, segment.fits⟩) }

/-- The slot whose segment is farthest from the front; the first of them on a tie. -/
def farthestSlot : Fin outOfOrderQueueDepth × Sequence :=
  (List.finRange outOfOrderQueueDepth).foldl (fun farthest index =>
    let distance := ((client.outOfOrder index).map BufferedSegment.sequence).getD 0 -
      client.receiveNext
    if index = 0 ∨ distance > farthest.2 then (index, distance) else farthest) (0, 0)

/-- Keep a segment that came too early. Of two with the same start the longer one is kept, and
a full queue gives up the segment farthest ahead for one that is nearer. -/
def queueOutOfOrder : Status × Client :=
  if segment.payload.length > outOfOrderPayloadCapacity then (.invalidArgument, client)
  else if segment.payload.length = 0 ∧ segment.flags.fin = false then (.ok, client)
  else
    let newEnd := endSequence segment.sequence segment.flags segment.payload
    match (List.finRange outOfOrderQueueDepth).find? fun index =>
        (client.outOfOrder index).any fun buffered => buffered.sequence = segment.sequence with
    | some index =>
      if (client.outOfOrder index).any fun buffered =>
          sequenceAfter newEnd buffered.endSequence = false then (.ok, client)
      else (.ok, storeBufferedSegment client segment index)
    | none =>
      match (List.finRange outOfOrderQueueDepth).find? fun index =>
          (client.outOfOrder index).isNone with
      | some index => (.ok, storeBufferedSegment client segment index)
      | none =>
        if segment.sequence - client.receiveNext < (farthestSlot client).2 then
          (.ok, storeBufferedSegment client segment (farthestSlot client).1)
        else (.ok, client)

/-- The number of leading bytes that were taken in before. -/
def skipLength : ℕ :=
  if sequenceBefore sequence client.receiveNext then
    if sequenceAfter (sequence + BitVec.ofNat 32 payload.length) client.receiveNext = false then
      payload.length
    else (client.receiveNext - sequence).toNat
  else 0

/-- The FIN is consumed if it comes next. -/
def ingestFin : Client :=
  if flags.fin ∧ sequence + BitVec.ofNat 32 payload.length = client.receiveNext then
    { client with
      receiveNext := client.receiveNext + 1
      peerClosed := true
      state := if client.state ≠ .finWait1 then .closeWait else client.state }
  else client

/-- Append what is new of a payload that starts in order. If it does not fit into the buffer,
nothing of it is taken, and the peer has to send it again. -/
def ingestContiguous :
    Status × Client :=
  if payload.length > outOfOrderPayloadCapacity then (.invalidArgument, client)
  else if payload.length = 0 then (.ok, ingestFin client sequence flags payload)
  else if sequenceAfter sequence client.receiveNext then (.wouldBlock, client)
  else
    let skip := skipLength client sequence payload
    if skip > payload.length then (.malformedPacket, client)
    else
      let remaining := payload.drop skip
      if remaining.length = 0 then (.ok, ingestFin client sequence flags payload)
      else
        match appendPending client remaining with
        | (.ok, appended) =>
          (.ok, ingestFin
            { appended with
              receiveNext := client.receiveNext + BitVec.ofNat 32 remaining.length }
            sequence flags payload)
        | (status, appended) => (status, appended)

/-- Drop the segments of the queue that hold nothing new. -/
def dropDuplicates : Client :=
  { client with
    outOfOrder := fun index => (client.outOfOrder index).filter fun buffered =>
      sequenceAfter buffered.endSequence client.receiveNext }

/-- The queued segment that starts first among those that do not leave a gap. -/
def flushCandidate : Option (Fin outOfOrderQueueDepth) :=
  (List.finRange outOfOrderQueueDepth).foldl (fun candidate index =>
    match client.outOfOrder index with
    | none => candidate
    | some buffered =>
      if sequenceAfter buffered.sequence client.receiveNext then candidate
      else
        match candidate with
        | none => some index
        | some other =>
          if sequenceBefore buffered.sequence
              (((client.outOfOrder other).map BufferedSegment.sequence).getD 0) then some index
          else candidate) none

def removeBuffered : Client :=
  { client with outOfOrder := Function.update client.outOfOrder index none }

end

/-- One round of the loop of `flush_out_of_order` after the duplicates are gone: the loop
returns a status, or it goes on. -/
def flushRound : Option Status × Client :=
  match flushCandidate client with
  | none => (some .ok, client)
  | some index =>
    match client.outOfOrder index with
    | none => (some .ok, client)
    | some buffered =>
      match ingestContiguous client buffered.sequence buffered.flags buffered.payload with
      | (.ok, ingested) =>
        if ingested.peerClosed then
          (some .ok, { ingested with outOfOrder := fun _ => none })
        else (none, removeBuffered ingested index)
      | (status, ingested) => (some status, ingested)

/-- The loop takes a segment from the queue whenever it goes on, so that the rounds are
enough. -/
def flushLoop : ℕ → Client → Status × Client
  | 0, client => (.ok, client)
  | rounds + 1, client =>
    match flushRound (dropDuplicates client) with
    | (some status, flushed) => (status, flushed)
    | (none, flushed) => flushLoop rounds flushed

def flushOutOfOrder : Status × Client := flushLoop (outOfOrderQueueDepth + 1) client

/-- What `process_incoming` does at its end: it acknowledges, or it returns a status. -/
inductive Answer where
  | acknowledge
  | done (status : Status)
  deriving DecidableEq

/-- A segment that starts in order, and what it was missing for. If the stream buffer is
full, the acknowledgement tells the peer so. -/
def ingestSegment : Answer × Client :=
  match ingestContiguous client segment.sequence segment.flags segment.payload with
  | (.queueFull, client) => (.acknowledge, client)
  | (.ok, client) =>
    match flushOutOfOrder client with
    | (.ok, client) => (.acknowledge, client)
    | (.queueFull, client) => (.acknowledge, client)
    | (status, client) => (.done status, client)
  | (status, client) => (.done status, client)

/-- The part of `process_incoming` for the payload and the FIN. -/
def acceptSegment : Answer × Client :=
  if segment.payload.length = 0 ∧ segment.flags.fin = false then (.done .ok, client)
  else if sequenceAfter (endSequence segment.sequence segment.flags segment.payload)
      client.receiveNext = false then
    (.acknowledge, client)
  else if sequenceAfter segment.sequence client.receiveNext then
    match queueOutOfOrder client segment with
    | (.ok, client) => (.acknowledge, client)
    | (status, client) => (.done status, client)
  else ingestSegment client segment

/-- The part of `process_incoming` that looks at the client only. -/
def absorb : Answer × Client :=
  let client := { client with peerWindow := segment.window }
  if segment.flags.rst then
    (.done .interfaceError, { client with connected := false, state := .reset })
  else acceptSegment (recordAck client segment) segment

/-- Take bytes from the stream. -/
def drainPending (capacity : ℕ) : Option (List UInt8) × Client :=
  if client.pending.length = 0 then (none, client)
  else
    let (bytes, pending) := client.pending.drain capacity
    (some bytes, { client with pending })

end TcpClient

end Kurogane.Net
