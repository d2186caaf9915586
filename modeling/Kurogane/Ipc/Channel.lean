/-
# Endpoints and channels

The two tables of `src/kernel/ipc/channel.cpp`. A server binds a service name to an
endpoint; a client that connects to the name gets a channel, which waits in the queue of
the endpoint until the server accepts it. Each direction of a channel is a ring of
messages. Every call holds the lock of the tables, so that calls are atomic.
-/

import Kurogane.Ipc.Handles
import Kurogane.Math.RingBuffer

namespace Kurogane.Ipc.Channel

open Math

inductive Status where
  | alreadyInitialized
  | notInitialized
  | invalidArgument
  | invalidName
  | nameTooLong
  | alreadyExists
  | notFound
  | staleHandle
  | accessDenied
  | capacityReached
  | wouldBlock
  | versionMismatch
  | peerClosed
  deriving DecidableEq, Repr

abbrev maxEndpoints : ℕ := 16

abbrev maxChannels : ℕ := 16

abbrev maxPendingConnections : ℕ := 8

abbrev maxMessagesPerDirection : ℕ := 4

def maxServiceName : ℕ := 31

def maxMessageSize : ℕ := 256

/-! ## Slots -/

structure Message where
  senderPid : ProcessId := invalidProcessId
  bytes : List UInt8 := []
  deriving DecidableEq

structure ServiceMetadata where
  serviceVersion : ℕ := 0
  minimumClientVersion : ℕ := 0
  capabilities : ℕ := 0

structure VersionRange where
  minimumVersion : ℕ
  maximumVersion : ℕ

structure ServiceNegotiation where
  selectedVersion : ℕ
  metadata : ServiceMetadata
  ownerPid : ProcessId

abbrev MessageQueue := Ring Message maxMessagesPerDirection

def emptyQueue : MessageQueue := .rewind (fun _ => {}) (by decide)

abbrev PendingQueue := Ring (Fin maxChannels) maxPendingConnections

structure EndpointSlot where
  generation : ℕ := 0
  ownerPid : ProcessId := invalidProcessId
  name : List UInt8 := []
  pending : PendingQueue := .rewind (fun _ => 0) (by decide)
  metadata : ServiceMetadata := {}
  versioned : Bool := false
  active : Bool := false

structure ChannelSlot where
  generation : ℕ := 0
  clientPid : ProcessId := invalidProcessId
  serverPid : ProcessId := invalidProcessId
  toServer : MessageQueue := emptyQueue
  toClient : MessageQueue := emptyQueue
  active : Bool := false
  clientOpen : Bool := false
  serverOpen : Bool := false
  accepted : Bool := false

structure World where
  initialized : Bool := false
  endpoints : Fin maxEndpoints → EndpointSlot := fun _ => {}
  channels : Fin maxChannels → ChannelSlot := fun _ => {}

/-! ## Names -/

def validNameCharacter (value : UInt8) : Bool :=
  ('a'.toUInt8 ≤ value ∧ value ≤ 'z'.toUInt8) ∨ ('A'.toUInt8 ≤ value ∧ value ≤ 'Z'.toUInt8) ∨
    ('0'.toUInt8 ≤ value ∧ value ≤ '9'.toUInt8) ∨ value = '.'.toUInt8 ∨ value = '_'.toUInt8 ∨
    value = '-'.toUInt8

def validateName (name : List UInt8) : Except Status Unit :=
  if name.length = 0 then .error .invalidArgument
  else if name.length > maxServiceName then .error .nameTooLong
  else if name.all fun value => value ≠ 0 ∧ validNameCharacter value then .ok ()
  else .error .invalidName

namespace World

variable (world : World)

def findEndpoint (name : List UInt8) : Option (Fin maxEndpoints) :=
  (List.finRange maxEndpoints).find? fun index =>
    (world.endpoints index).active ∧ (world.endpoints index).name = name

def freeEndpoint : Option (Fin maxEndpoints) :=
  (List.finRange maxEndpoints).find? fun index => !(world.endpoints index).active

def freeChannel : Option (Fin maxChannels) :=
  (List.finRange maxChannels).find? fun index => !(world.channels index).active

def setEndpoint (index : Fin maxEndpoints) (slot : EndpointSlot) : World :=
  { world with endpoints := Function.update world.endpoints index slot }

def setChannel (index : Fin maxChannels) (slot : ChannelSlot) : World :=
  { world with channels := Function.update world.channels index slot }

/-! ## Handles -/

def decodeEndpoint (ownerPid : ProcessId) (handle : Handle) :
    Except Status (Fin maxEndpoints) :=
  if kindField handle ≠ Kind.endpoint.code ∨ sideField handle = true then .error .staleHandle
  else
    match decodeIndex handle maxEndpoints with
    | none => .error .staleHandle
    | some index =>
      if (world.endpoints index).active = false ∨
          (world.endpoints index).generation ≠ generationField handle then .error .staleHandle
      else if (world.endpoints index).ownerPid ≠ ownerPid then .error .accessDenied
      else .ok index

end World

namespace ChannelSlot

variable (slot : ChannelSlot)

/-- The process at the client side (`false`) or at the server side (`true`). -/
def pidAt : Bool → ProcessId
  | false => slot.clientPid
  | true => slot.serverPid

def openAt : Bool → Bool
  | false => slot.clientOpen
  | true => slot.serverOpen

/-- The messages that a side has sent. -/
def queueFrom : Bool → MessageQueue
  | false => slot.toServer
  | true => slot.toClient

def setQueueFrom (queue : MessageQueue) : Bool → ChannelSlot
  | false => { slot with toServer := queue }
  | true => { slot with toClient := queue }

/-- A channel that is closed at both sides is cleared but for its generation. -/
def maybeFree : ChannelSlot :=
  if slot.clientOpen = false ∧ slot.serverOpen = false then { generation := slot.generation }
  else slot

/-- A client that closes a channel before it is accepted closes both sides. -/
def closeClient : ChannelSlot :=
  { slot with
    clientOpen := false
    serverOpen := if slot.accepted then slot.serverOpen else false }

def closeServer : ChannelSlot := { slot with serverOpen := false }

/-- Whether a queued connection can still be accepted by an endpoint of the process. -/
def pendingLive (ownerPid : ProcessId) : Bool :=
  slot.active ∧ slot.accepted = false ∧ slot.clientOpen ∧ slot.serverOpen ∧
    slot.serverPid = ownerPid

end ChannelSlot

namespace World

variable (world : World)

section

variable (ownerPid : ProcessId) (index : Fin maxEndpoints)

/-- The channel and the side that a handle stands for. -/
def decodeChannel (handle : Handle) :
    Except Status (Fin maxChannels × Bool) :=
  if kindField handle ≠ Kind.channel.code then .error .staleHandle
  else
    match decodeIndex handle maxChannels with
    | none => .error .staleHandle
    | some index =>
      let slot := world.channels index
      let side := sideField handle
      if slot.active = false ∨ slot.generation ≠ generationField handle then .error .staleHandle
      else if slot.pidAt side ≠ ownerPid then .error .accessDenied
      else if slot.openAt side = false then .error .staleHandle
      else .ok (index, side)

/-! ## Pending connections -/

/-- The queued connections that can still be accepted, in order. -/
def livePending : List (Fin maxChannels) :=
  (world.endpoints index).pending.contents.filter fun channel =>
    (world.channels channel).pendingLive (world.endpoints index).ownerPid

theorem length_livePending_le (index : Fin maxEndpoints) :
    (world.livePending index).length ≤ maxPendingConnections := by
  refine le_trans (List.length_filter_le _ _) ?_
  rw [Ring.length_contents]
  exact (world.endpoints index).pending.count_le

def compactPending : World :=
  world.setEndpoint index
    { world.endpoints index with
      pending := .ofList 0 (world.livePending index) (world.length_livePending_le index)
        (by decide) }

def cancelOne (world : World) (channel : Fin maxChannels) : World :=
  let slot := world.channels channel
  if slot.active = false ∨ slot.accepted = true ∨ slot.serverPid ≠ ownerPid then world
  else world.setChannel channel slot.closeServer.maybeFree

/-- The loop takes the queued connections one by one; the array keeps its values. -/
def cancelPending : World :=
  let compacted := world.compactPending index
  let endpoint := compacted.endpoints index
  (endpoint.pending.contents.foldl (cancelOne endpoint.ownerPid) compacted).setEndpoint index
    { endpoint with pending := .rewind endpoint.pending.slots (by decide) }

/-- The endpoint gives up its name and its queue. -/
def closeEndpoint : World :=
  let cancelled := world.cancelPending index
  cancelled.setEndpoint index
    { cancelled.endpoints index with
      active := false
      ownerPid := invalidProcessId
      name := [] }

end

/-- The loop of `accept`: take connections from the front of the queue until one is live. -/
def takePending (live : Fin maxChannels → Bool) :
    ℕ → PendingQueue → Option (Fin maxChannels) × PendingQueue
  | 0, pending => (none, .rewind pending.slots (by decide))
  | rounds + 1, pending =>
    if h : pending.count ≠ 0 then
      let channel := pending.slots pending.head
      let rest := pending.pop channel h
      if live channel then (some channel, rest) else takePending live rounds rest
    else (none, .rewind pending.slots (by decide))

end World

/-! ## Messages -/

def pushMessage (queue : MessageQueue) (message : Message) : Except Status MessageQueue :=
  if h : queue.count ≥ maxMessagesPerDirection then .error .wouldBlock
  else .ok (queue.push message (Nat.lt_of_not_ge h))

def popMessage (queue : MessageQueue) : Except Status (Message × MessageQueue) :=
  if h : queue.count = 0 then .error .wouldBlock
  else .ok (queue.slots queue.head, queue.pop {} h)

/-! ## Calls -/

variable (world : World)

section

variable (ownerPid : ProcessId) (clientPid : ProcessId) (pid : ProcessId)

def initializeChannels : Except Status Unit × World :=
  if world.initialized then (.error .alreadyInitialized, world)
  else (.ok (), { initialized := true })

def ServiceMetadata.acceptable (metadata : ServiceMetadata) : Bool :=
  metadata.serviceVersion ≠ 0 ∧ metadata.minimumClientVersion ≠ 0 ∧
    metadata.minimumClientVersion ≤ metadata.serviceVersion

def bind (name : List UInt8) (metadata : Option ServiceMetadata) :
    Except Status Handle × World :=
  if world.initialized = false then (.error .notInitialized, world)
  else if ownerPid = invalidProcessId then (.error .invalidArgument, world)
  else
    match validateName name with
    | .error status => (.error status, world)
    | .ok () =>
      if metadata.any fun metadata => !metadata.acceptable then (.error .invalidArgument, world)
      else if (world.findEndpoint name).isSome then (.error .alreadyExists, world)
      else
        match world.freeEndpoint with
        | none => (.error .capacityReached, world)
        | some index =>
          let generation := nextGeneration (world.endpoints index).generation
          (.ok (encode .endpoint false index generation),
            world.setEndpoint index
              { generation, ownerPid, name, metadata := metadata.getD {}
                versioned := metadata.isSome, active := true })

/-- The version to speak, if the client asks for one. -/
def negotiate (endpoint : EndpointSlot) :
    Option VersionRange → Except Status (Option ServiceNegotiation)
  | none => .ok none
  | some range =>
    if range.minimumVersion = 0 ∨ range.maximumVersion < range.minimumVersion then
      .error .invalidArgument
    else if endpoint.versioned = false then .error .versionMismatch
    else
      let lower := max range.minimumVersion endpoint.metadata.minimumClientVersion
      let upper := min range.maximumVersion endpoint.metadata.serviceVersion
      if lower > upper then .error .versionMismatch
      else .ok (some ⟨upper, endpoint.metadata, endpoint.ownerPid⟩)

/-- A new channel, and its slot in the queue of the endpoint. -/
def openChannel (endpoint : Fin maxEndpoints) (index : Fin maxChannels)
    (hroom : (world.endpoints endpoint).pending.count < maxPendingConnections) : World :=
  let slot := world.endpoints endpoint
  (world.setChannel index
      { generation := nextGeneration (world.channels index).generation
        clientPid, serverPid := slot.ownerPid, active := true, clientOpen := true
        serverOpen := true }).setEndpoint endpoint
    { slot with pending := slot.pending.push index hroom }

/-- Ask for a channel to the service of this name. The client can use its side at once; the
server finds the channel among the pending ones of the endpoint. -/
def connect (name : List UInt8) (range : Option VersionRange) :
    Except Status (Handle × Option ServiceNegotiation) × World :=
  if world.initialized = false then (.error .notInitialized, world)
  else if clientPid = invalidProcessId then (.error .invalidArgument, world)
  else
    match validateName name with
    | .error status => (.error status, world)
    | .ok () =>
      match world.findEndpoint name with
      | none => (.error .notFound, world)
      | some endpoint =>
        match negotiate (world.endpoints endpoint) range with
        | .error status => (.error status, world)
        | .ok negotiation =>
          let compacted := world.compactPending endpoint
          if h : (compacted.endpoints endpoint).pending.count ≥ maxPendingConnections then
            (.error .wouldBlock, compacted)
          else
            match compacted.freeChannel with
            | none => (.error .capacityReached, compacted)
            | some index =>
              let opened := openChannel compacted clientPid endpoint index (Nat.lt_of_not_ge h)
              (.ok (encode .channel false index (opened.channels index).generation,
                negotiation), opened)

/-- The server takes the oldest pending channel whose client is still there. Those whose
client has gone are passed over and dropped. -/
def accept (serverPid : ProcessId) (handle : Handle) : Except Status Handle × World :=
  if world.initialized = false then (.error .notInitialized, world)
  else if serverPid = invalidProcessId then (.error .invalidArgument, world)
  else
    match world.decodeEndpoint serverPid handle with
    | .error status => (.error status, world)
    | .ok endpoint =>
      let compacted := world.compactPending endpoint
      let slot := compacted.endpoints endpoint
      match World.takePending
          (fun index => (compacted.channels index).pendingLive slot.ownerPid)
          slot.pending.count slot.pending with
      | (none, pending) => (.error .wouldBlock,
          compacted.setEndpoint endpoint { slot with pending })
      | (some index, pending) =>
        (.ok (encode .channel true index (compacted.channels index).generation),
          (compacted.setEndpoint endpoint { slot with pending }).setChannel index
            { compacted.channels index with accepted := true })

def send (senderPid : ProcessId) (handle : Handle) (bytes : List UInt8) :
    Except Status Unit × World :=
  if world.initialized = false then (.error .notInitialized, world)
  else if senderPid = invalidProcessId ∨ bytes.length > maxMessageSize then
    (.error .invalidArgument, world)
  else
    match world.decodeChannel senderPid handle with
    | .error status => (.error status, world)
    | .ok (index, side) =>
      let slot := world.channels index
      if slot.openAt (!side) = false then (.error .peerClosed, world)
      else
        match pushMessage (slot.queueFrom side) ⟨senderPid, bytes⟩ with
        | .error status => (.error status, world)
        | .ok queue => (.ok (), world.setChannel index (slot.setQueueFrom queue side))

/-- The oldest message of the peer. What the peer sent before it closed can still be received,
so that `peerClosed` means there is nothing more to come. -/
def receive (receiverPid : ProcessId) (handle : Handle) : Except Status Message × World :=
  if world.initialized = false then (.error .notInitialized, world)
  else if receiverPid = invalidProcessId then (.error .invalidArgument, world)
  else
    match world.decodeChannel receiverPid handle with
    | .error status => (.error status, world)
    | .ok (index, side) =>
      let slot := world.channels index
      match popMessage (slot.queueFrom (!side)) with
      | .error _ =>
        if slot.openAt (!side) then (.error .wouldBlock, world) else (.error .peerClosed, world)
      | .ok (message, queue) =>
        (.ok message, world.setChannel index (slot.setQueueFrom queue (!side)))

def closeSide (index : Fin maxChannels) (side : Bool) : World :=
  let slot := world.channels index
  world.setChannel index (if side then slot.closeServer else slot.closeClient).maybeFree

def close (handle : Handle) : Except Status Unit × World :=
  if world.initialized = false then (.error .notInitialized, world)
  else if ownerPid = invalidProcessId ∨ handle = invalidHandle then
    (.error .invalidArgument, world)
  else if kindField handle = Kind.endpoint.code then
    match world.decodeEndpoint ownerPid handle with
    | .error status => (.error status, world)
    | .ok index => (.ok (), world.closeEndpoint index)
  else if kindField handle = Kind.channel.code then
    match world.decodeChannel ownerPid handle with
    | .error status => (.error status, world)
    | .ok (index, side) => (.ok (), closeSide world index side)
  else (.error .staleHandle, world)

/-- The turn of one endpoint in `release_process`. -/
def releaseEndpoint (world : World) (index : Fin maxEndpoints) : World :=
  if (world.endpoints index).active = false ∨ (world.endpoints index).ownerPid ≠ pid then world
  else world.closeEndpoint index

/-- The turn of one channel in `release_process`. -/
def ChannelSlot.release (slot : ChannelSlot) : ChannelSlot :=
  if slot.active = false then slot
  else
    let closed := if slot.clientPid = pid then slot.closeClient else slot
    (if closed.serverPid = pid then closed.closeServer else closed).maybeFree

def releaseProcess : World :=
  if world.initialized = false ∨ pid = invalidProcessId then world
  else
    let released := (List.finRange maxEndpoints).foldl (releaseEndpoint pid) world
    { released with channels := fun index => (released.channels index).release pid }

end

def World.initial : World := {}

end Kurogane.Ipc.Channel
