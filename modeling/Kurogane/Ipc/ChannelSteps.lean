/-
# Steps of the channel tables

What a call does to the tables of endpoints and channels, said once for all properties:
a step either leaves the slots as they are, up to dropping dead connections from a queue,
or changes them in the one way that the event of the call stands for.
-/

import Kurogane.Ipc.Channel

namespace Kurogane.Ipc.Channel

open Math Function List Option

/-! ## Histories -/

/-- The calls that succeeded. A slot stands for the endpoint or the channel that is in it at
that time; a side is `true` for the server. A connection is recorded with the name that the
client asked for, not with the endpoint that was found for it. -/
inductive Event where
  | bound (endpoint : Fin maxEndpoints) (owner : ProcessId) (name : List UInt8)
  | connected (channel : Fin maxChannels) (name : List UInt8) (client server : ProcessId)
      (handle : Handle)
  | accepted (channel : Fin maxChannels) (endpoint : Fin maxEndpoints) (server : ProcessId)
      (handle : Handle)
  | sent (channel : Fin maxChannels) (side : Bool) (message : Message)
  /-- The side is the one that sent the message. -/
  | received (channel : Fin maxChannels) (side : Bool) (message : Message)
  | closed (channel : Fin maxChannels) (side : Bool)
  | unbound (endpoint : Fin maxEndpoints)
  | exited (pid : ProcessId)

inductive Request where
  | initialized
  | bind (ownerPid : ProcessId) (name : List UInt8) (metadata : Option ServiceMetadata)
  | connect (clientPid : ProcessId) (name : List UInt8) (range : Option VersionRange)
  | accept (serverPid : ProcessId) (handle : Handle)
  | send (senderPid : ProcessId) (handle : Handle) (bytes : List UInt8)
  | receive (receiverPid : ProcessId) (handle : Handle)
  | close (ownerPid : ProcessId) (handle : Handle)
  | releaseProcess (pid : ProcessId)

def perform (world : World) : Request → World
  | .initialized => (initializeChannels world).2
  | .bind ownerPid name metadata => (bind world ownerPid name metadata).2
  | .connect clientPid name range => (connect world clientPid name range).2
  | .accept serverPid handle => (accept world serverPid handle).2
  | .send senderPid handle bytes => (send world senderPid handle bytes).2
  | .receive receiverPid handle => (receive world receiverPid handle).2
  | .close ownerPid handle => (close world ownerPid handle).2
  | .releaseProcess pid => releaseProcess world pid

def eventOf (world : World) : Request → Option Event
  | .initialized => none
  | .bind ownerPid name metadata => do
      let handle ← (bind world ownerPid name metadata).1.toOption
      let endpoint ← decodeIndex handle maxEndpoints
      return .bound endpoint ownerPid name
  | .connect clientPid name range => do
      let (handle, _) ← (connect world clientPid name range).1.toOption
      let endpoint ← world.findEndpoint name
      let channel ← decodeIndex handle maxChannels
      return .connected channel name clientPid (world.endpoints endpoint).ownerPid handle
  | .accept serverPid handle => do
      let channelHandle ← (accept world serverPid handle).1.toOption
      let endpoint ← decodeIndex handle maxEndpoints
      let channel ← decodeIndex channelHandle maxChannels
      return .accepted channel endpoint serverPid channelHandle
  | .send senderPid handle bytes => do
      let _ ← (send world senderPid handle bytes).1.toOption
      let channel ← decodeIndex handle maxChannels
      return .sent channel (sideField handle) ⟨senderPid, bytes⟩
  | .receive receiverPid handle => do
      let message ← (receive world receiverPid handle).1.toOption
      let channel ← decodeIndex handle maxChannels
      return .received channel (!sideField handle) message
  | .close ownerPid handle => do
      let _ ← (close world ownerPid handle).1.toOption
      if kindField handle = Kind.endpoint.code then
        return .unbound (← decodeIndex handle maxEndpoints)
      else return .closed (← decodeIndex handle maxChannels) (sideField handle)
  | .releaseProcess pid =>
    if world.initialized = false ∨ pid = invalidProcessId then none else some (.exited pid)

def serve (world : World) (history : List Event) (request : Request) : World × List Event :=
  (perform world request, (eventOf world request).toList ++ history)

/-- The tables and the history, newest first, after a sequence of calls. -/
def run (requests : List Request) : World × List Event :=
  requests.foldl (fun current request => serve current.1 current.2 request) (.initial, [])

/-! ## Closing -/

variable {world next : World} {pid : ProcessId} {endpoint : Fin maxEndpoints}
  {channel : Fin maxChannels} {handle : Handle} {side : Bool}

theorem mem_livePending (h : channel ∈ world.livePending endpoint) :
    channel ∈ (world.endpoints endpoint).pending.contents ∧
      (world.channels channel).active ∧ (world.channels channel).accepted = false ∧
      (world.channels channel).clientOpen ∧ (world.channels channel).serverOpen ∧
      (world.channels channel).serverPid = (world.endpoints endpoint).ownerPid := by
  rw [World.livePending, mem_filter, ChannelSlot.pendingLive, decide_eq_true_iff] at h
  exact h

@[simp]
theorem setEndpoint_channels (slot : EndpointSlot) :
    (world.setEndpoint endpoint slot).channels = world.channels := rfl

@[simp]
theorem setEndpoint_endpoints (slot : EndpointSlot) (other : Fin maxEndpoints) :
    (world.setEndpoint endpoint slot).endpoints other =
      if other = endpoint then slot else world.endpoints other :=
  update_apply _ _ _ _

section

variable (slot)

@[simp]
theorem setChannel_endpoints : (world.setChannel channel slot).endpoints = world.endpoints := rfl

@[simp]
theorem setChannel_channels (other : Fin maxChannels) :
    (world.setChannel channel slot).channels other =
      if other = channel then slot else world.channels other :=
  update_apply _ _ _ _

end

theorem cancel_spec (owner : ProcessId) (cancelled : List (Fin maxChannels)) (world : World)
    (h : ∀ channel ∈ cancelled, (world.channels channel).active ∧
      (world.channels channel).accepted = false ∧ (world.channels channel).clientOpen ∧
      (world.channels channel).serverPid = owner) :
    (cancelled.foldl (World.cancelOne owner) world).initialized = world.initialized ∧
      (cancelled.foldl (World.cancelOne owner) world).endpoints = world.endpoints ∧
      ∀ channel, (cancelled.foldl (World.cancelOne owner) world).channels channel =
        if channel ∈ cancelled then (world.channels channel).closeServer
        else world.channels channel := by
  induction cancelled generalizing world with
  | nil => exact ⟨rfl, rfl, fun channel => by rw [if_neg not_mem_nil, foldl_nil]⟩
  | cons first rest ih =>
    obtain ⟨hact, haccepted, hclient, hserver⟩ := h first mem_cons_self
    have hone : World.cancelOne owner world first =
        world.setChannel first (world.channels first).closeServer := by
      rw [World.cancelOne, if_neg (by simp [hact, haccepted, hserver]), ChannelSlot.maybeFree,
        if_neg (by simp [ChannelSlot.closeServer, hclient])]
    set next := world.setChannel first (world.channels first).closeServer with hnext
    have hrest : ∀ channel ∈ rest, (next.channels channel).active ∧
        (next.channels channel).accepted = false ∧ (next.channels channel).clientOpen ∧
        (next.channels channel).serverPid = owner := by
      intro channel hchan
      rw [hnext, setChannel_channels]
      split
      · exact ⟨hact, haccepted, hclient, hserver⟩
      · exact h channel (mem_cons_of_mem _ hchan)
    rw [foldl_cons, hone]
    obtain ⟨hinit, hends, hchans⟩ := ih _ hrest
    refine ⟨hinit, hends, fun channel => ?_⟩
    rw [hchans, hnext, setChannel_channels]
    by_cases hfirst : channel = first
    · subst hfirst
      rw [if_pos rfl, if_pos mem_cons_self]
      split <;> rfl
    · rw [if_neg hfirst]
      simp only [mem_cons, hfirst, false_or]

theorem contents_compactPending (world : World) (endpoint : Fin maxEndpoints) :
    ((world.compactPending endpoint).endpoints endpoint).pending.contents =
      world.livePending endpoint := by
  rw [World.compactPending, setEndpoint_endpoints, if_pos rfl]
  exact Ring.contents_ofList _ _ _ _

/-- Closing an endpoint closes the server sides of the connections that wait for it. -/
theorem closeEndpoint_spec (world : World) (endpoint : Fin maxEndpoints) :
    (world.closeEndpoint endpoint).initialized = world.initialized ∧
      (∀ other ≠ endpoint, (world.closeEndpoint endpoint).endpoints other = world.endpoints other) ∧
      ((world.closeEndpoint endpoint).endpoints endpoint).active = false ∧
      ∀ channel, (world.closeEndpoint endpoint).channels channel =
        if channel ∈ world.livePending endpoint then (world.channels channel).closeServer
        else world.channels channel := by
  have howner : ((world.compactPending endpoint).endpoints endpoint).ownerPid =
      (world.endpoints endpoint).ownerPid := by
    rw [World.compactPending, setEndpoint_endpoints, if_pos rfl]
  obtain ⟨hinit, hends, hchans⟩ := cancel_spec
    (world.endpoints endpoint).ownerPid (world.livePending endpoint)
    (world.compactPending endpoint) (by
      intro channel hchan
      obtain ⟨-, hact, haccepted, hclient, -, hserver⟩ := mem_livePending hchan
      exact ⟨hact, haccepted, hclient, hserver⟩)
  have hothers : ∀ other ≠ endpoint,
      (world.compactPending endpoint).endpoints other = world.endpoints other := by
    intro other hne
    rw [World.compactPending, setEndpoint_endpoints, if_neg hne]
  rw [World.closeEndpoint, World.cancelPending]
  simp only [contents_compactPending, howner]
  refine ⟨hinit, fun other hne => ?_, ?_, fun channel => ?_⟩
  · simp only [setEndpoint_endpoints, if_neg hne, hends, hothers other hne]
  · simp only [setEndpoint_endpoints, if_true]
  · simp only [setEndpoint_channels, hchans]
    rfl

def Cancelled (pid : ProcessId) (slot slot' : ChannelSlot) : Prop :=
  slot' = slot ∨ slot.active = true ∧ slot.serverPid = pid ∧ slot' = slot.closeServer

variable {slot slot' : ChannelSlot} {message : Message} {queue queue' : MessageQueue}

theorem Cancelled.trans {slot'' : ChannelSlot} (h : Cancelled pid slot slot')
    (h' : Cancelled pid slot' slot'') : Cancelled pid slot slot'' := by
  rcases h with rfl | ⟨hact, hserver, rfl⟩
  · exact h'
  · rcases h' with rfl | ⟨-, -, rfl⟩
    · exact .inr ⟨hact, hserver, rfl⟩
    · exact .inr ⟨hact, hserver, rfl⟩

theorem Cancelled.release (h : Cancelled pid slot slot') :
    slot'.release pid = slot.release pid := by
  rcases h with rfl | ⟨hact, rfl, rfl⟩
  · rfl
  · by_cases hclient : slot.clientPid = slot.serverPid <;>
      simp [ChannelSlot.release, ChannelSlot.closeServer, ChannelSlot.closeClient, hact, hclient]

theorem releaseEndpoints_spec (pid : ProcessId) (slots : List (Fin maxEndpoints)) (world : World) :
    (slots.foldl (releaseEndpoint pid) world).initialized = world.initialized ∧
      (∀ endpoint, (slots.foldl (releaseEndpoint pid) world).endpoints endpoint =
          world.endpoints endpoint ∧
          ((world.endpoints endpoint).active = false ∨
            (world.endpoints endpoint).ownerPid ≠ pid ∨ endpoint ∉ slots) ∨
        ((slots.foldl (releaseEndpoint pid) world).endpoints endpoint).active = false ∧
          (world.endpoints endpoint).active ∧
          (world.endpoints endpoint).ownerPid = pid) ∧
      ∀ channel, Cancelled pid (world.channels channel)
        ((slots.foldl (releaseEndpoint pid) world).channels channel) := by
  induction slots generalizing world with
  | nil => exact ⟨rfl, fun _ => .inl ⟨rfl, .inr (.inr not_mem_nil)⟩, fun _ => .inl rfl⟩
  | cons first _ ih =>
    rw [foldl_cons]
    obtain ⟨hinit, hends, hchans⟩ := ih (releaseEndpoint pid world first)
    by_cases hskip : (world.endpoints first).active = false ∨ (world.endpoints first).ownerPid ≠ pid
    · have hsame : releaseEndpoint pid world first = world := by
        rw [releaseEndpoint, if_pos hskip]
      rw [hsame] at hinit hends hchans ⊢
      refine ⟨hinit, fun endpoint => ?_, hchans⟩
      refine (hends endpoint).imp (fun h => ⟨h.1, ?_⟩) id
      rcases h.2 with hidle | howner | hnot
      · exact .inl hidle
      · exact .inr (.inl howner)
      by_cases hfirst : endpoint = first
      · subst hfirst
        exact hskip.imp id .inl
      · exact .inr (.inr (by simp [hfirst, hnot]))
    · have hclose : releaseEndpoint pid world first = world.closeEndpoint first := by
        rw [releaseEndpoint, if_neg hskip]
      rw [not_or, Bool.not_eq_false, not_not] at hskip
      rw [hclose] at hinit hends hchans ⊢
      obtain ⟨hinit', hothers, hclosed, hcancelled⟩ := closeEndpoint_spec world first
      refine ⟨hinit.trans hinit', fun endpoint => ?_, fun channel => ?_⟩
      · by_cases hfirst : endpoint = first
        · subst hfirst
          refine .inr ⟨?_, hskip⟩
          rcases hends endpoint with ⟨hkept, -⟩ | ⟨hidle, -⟩
          · rw [hkept]
            exact hclosed
          · exact hidle
        have hrest := hends endpoint
        rw [hothers endpoint hfirst] at hrest
        refine hrest.imp (fun h => ⟨h.1, ?_⟩) id
        exact h.2.imp id (Or.imp id fun hnot => by simp [hfirst, hnot])
      · refine Cancelled.trans ?_ (hchans channel)
        rw [hcancelled]
        split
        · next hlive =>
          obtain ⟨-, hact, -, -, -, hserver⟩ := mem_livePending hlive
          exact .inr ⟨hact, hserver.trans hskip.2, rfl⟩
        · exact .inl rfl

/-- When a process exits, its endpoints and its sides of channels are closed. -/
theorem releaseProcess_spec (hinit : world.initialized) (hpid : pid ≠ invalidProcessId) :
    (releaseProcess world pid).initialized ∧
      (∀ endpoint, (releaseProcess world pid).endpoints endpoint = world.endpoints endpoint ∧
          ((world.endpoints endpoint).active = false ∨ (world.endpoints endpoint).ownerPid ≠ pid) ∨
        ((releaseProcess world pid).endpoints endpoint).active = false ∧
          (world.endpoints endpoint).active ∧
          (world.endpoints endpoint).ownerPid = pid) ∧
      ∀ channel, (releaseProcess world pid).channels channel =
        (world.channels channel).release pid := by
  obtain ⟨hinit', hends, hchans⟩ := releaseEndpoints_spec pid (List.finRange maxEndpoints) world
  rw [releaseProcess, if_neg (by simp [hinit, hpid])]
  refine ⟨hinit'.trans hinit, fun endpoint => ?_, fun channel => ?_⟩
  · refine (hends endpoint).imp (fun h => ⟨h.1, ?_⟩) id
    exact h.2.imp id (Or.elim · id fun hnot => absurd (mem_finRange endpoint) hnot)
  · exact (hchans channel).release

/-! ## Steps -/

/-- What a call can do to the tables, with the event it is recorded as. -/
inductive Step (world : World) : Option Event → World → Prop where
  | same : Step world none world
  | started (h : world.initialized = false) : Step world none { initialized := true }
  | compacted (endpoint : Fin maxEndpoints) (pending : PendingQueue)
      (hinitialized : world.initialized = true)
      (hcontents : pending.contents = world.livePending endpoint) :
      Step world none (world.setEndpoint endpoint { world.endpoints endpoint with pending })
  | bound (endpoint : Fin maxEndpoints) (slot : EndpointSlot)
      (hinitialized : world.initialized = true)
      (hfree : (world.endpoints endpoint).active = false) (hactive : slot.active = true)
      (hunused : ∀ other, (world.endpoints other).active = true →
        (world.endpoints other).name ≠ slot.name) (hpending : slot.pending.contents = []) :
      Step world (some (.bound endpoint slot.ownerPid slot.name))
        (world.setEndpoint endpoint slot)
  | connected (channel : Fin maxChannels) (endpoint : Fin maxEndpoints) (client : ProcessId)
      (pending : PendingQueue) (hinitialized : world.initialized = true)
      (hendpoint : (world.endpoints endpoint).active = true)
      (hfree : (world.channels channel).active = false)
      (hpending : pending.contents = world.livePending endpoint ++ [channel]) :
      Step world
        (some (.connected channel (world.endpoints endpoint).name client
          (world.endpoints endpoint).ownerPid
          (encode .channel false channel (nextGeneration (world.channels channel).generation))))
        ((world.setChannel channel
            { generation := nextGeneration (world.channels channel).generation
              clientPid := client, serverPid := (world.endpoints endpoint).ownerPid
              active := true, clientOpen := true, serverOpen := true }).setEndpoint endpoint
          { world.endpoints endpoint with pending })
  | accepted (channel : Fin maxChannels) (endpoint : Fin maxEndpoints) (pending : PendingQueue)
      (hinitialized : world.initialized = true)
      (hendpoint : (world.endpoints endpoint).active = true)
      (hpending : world.livePending endpoint = channel :: pending.contents) :
      Step world
        (some (.accepted channel endpoint (world.endpoints endpoint).ownerPid
          (encode .channel true channel (world.channels channel).generation)))
        ((world.setEndpoint endpoint { world.endpoints endpoint with pending }).setChannel channel
          { world.channels channel with accepted := true })
  | sent (channel : Fin maxChannels) (side : Bool) (bytes : List UInt8) (queue : MessageQueue)
      (hinitialized : world.initialized = true)
      (hactive : (world.channels channel).active = true)
      (hopen : (world.channels channel).openAt side = true)
      (hqueue : queue.contents = ((world.channels channel).queueFrom side).contents ++
        [⟨(world.channels channel).pidAt side, bytes⟩]) :
      Step world (some (.sent channel side ⟨(world.channels channel).pidAt side, bytes⟩))
        (world.setChannel channel ((world.channels channel).setQueueFrom queue side))
  | received (channel : Fin maxChannels) (side : Bool) (message : Message) (queue : MessageQueue)
      (hinitialized : world.initialized = true)
      (hactive : (world.channels channel).active = true)
      (hopen : (world.channels channel).openAt (!side) = true)
      (hqueue : ((world.channels channel).queueFrom side).contents = message :: queue.contents) :
      Step world (some (.received channel side message))
        (world.setChannel channel ((world.channels channel).setQueueFrom queue side))
  | closed (channel : Fin maxChannels) (side : Bool) (hinitialized : world.initialized = true)
      (hactive : (world.channels channel).active = true)
      (hopen : (world.channels channel).openAt side = true) :
      Step world (some (.closed channel side)) (closeSide world channel side)
  | unbound (endpoint : Fin maxEndpoints) (hinitialized : world.initialized = true)
      (hactive : (world.endpoints endpoint).active = true) :
      Step world (some (.unbound endpoint)) (world.closeEndpoint endpoint)
  | exited (pid : ProcessId) (hinitialized : world.initialized = true)
      (hpid : pid ≠ invalidProcessId) :
      Step world (some (.exited pid)) (releaseProcess world pid)

theorem decodeEndpoint_eq_ok (h : world.decodeEndpoint pid handle = .ok endpoint) :
    decodeIndex handle maxEndpoints = some endpoint ∧
      (world.endpoints endpoint).active ∧ (world.endpoints endpoint).ownerPid = pid := by
  revert h
  fun_cases World.decodeEndpoint world pid handle with
  | case5 _ _ hidx hvalid howner =>
    rintro ⟨⟩
    rw [not_or, Bool.not_eq_false] at hvalid
    exact ⟨hidx, hvalid.1, not_not.mp howner⟩
  | _ => nofun

theorem decodeChannel_eq_ok (h : world.decodeChannel pid handle = .ok (channel, side)) :
    kindField handle = Kind.channel.code ∧ decodeIndex handle maxChannels = some channel ∧
      sideField handle = side ∧ (world.channels channel).active ∧
      (world.channels channel).generation = generationField handle ∧
      (world.channels channel).pidAt side = pid ∧
      (world.channels channel).openAt side := by
  revert h
  fun_cases World.decodeChannel world pid handle with
  | case6 hkind _ hidx _ _ hvalid hpid hopen =>
    rw [Except.ok.injEq, Prod.mk.injEq]
    rintro ⟨rfl, rfl⟩
    rw [not_or, Bool.not_eq_false, not_not] at hvalid
    exact ⟨not_not.mp hkind, hidx, rfl, hvalid.1, hvalid.2, not_not.mp hpid, by simpa using hopen⟩
  | _ => nofun

section

variable {taken : Option (Fin maxChannels)} {pending rest : PendingQueue}

/-- The loop of `accept` takes the front of a queue in which all connections are live. -/
theorem takePending_spec {live : Fin maxChannels → Bool}
    (hlive : ∀ channel ∈ pending.contents, live channel)
    (h : World.takePending live pending.count pending = (taken, rest)) :
    pending.contents = taken.toList ++ rest.contents ∧ (taken = none → rest.contents = []) := by
  cases hcount : pending.count with
  | zero =>
    rw [hcount] at h
    cases h
    rw [Ring.contents_eq_nil.mpr hcount, Ring.contents_rewind]
    exact ⟨rfl, fun _ => rfl⟩
  | succ =>
    have hne : pending.count ≠ 0 := by omega
    have hfront := Ring.contents_pop (pending.slots pending.head) hne
    rw [hcount, World.takePending, dif_pos hne, if_pos (hlive _ (hfront ▸ mem_cons_self))] at h
    cases h
    exact ⟨hfront, nofun⟩

theorem takePending_compactPending (h : World.takePending
      (fun index => ((world.compactPending endpoint).channels index).pendingLive
        ((world.compactPending endpoint).endpoints endpoint).ownerPid)
      ((world.compactPending endpoint).endpoints endpoint).pending.count
      ((world.compactPending endpoint).endpoints endpoint).pending = (taken, rest)) :
    world.livePending endpoint = taken.toList ++ rest.contents ∧
      (taken = none → rest.contents = []) := by
  have hcont := contents_compactPending world endpoint
  rw [← hcont]
  refine takePending_spec (fun channel hchan => ?_) h
  rw [hcont, World.livePending, mem_filter] at hchan
  rw [World.compactPending, setEndpoint_endpoints, if_pos rfl]
  exact hchan.2

end

theorem setEndpoint_compactPending (world : World) (endpoint : Fin maxEndpoints)
    (pending : PendingQueue) :
    (world.compactPending endpoint).setEndpoint endpoint
        { (world.compactPending endpoint).endpoints endpoint with pending } =
      world.setEndpoint endpoint { world.endpoints endpoint with pending } := by
  rw [World.compactPending, setEndpoint_endpoints, if_pos rfl]
  simp only [World.setEndpoint, update_idem]

theorem step_bind (ownerPid : ProcessId) (name : List UInt8) (metadata : Option ServiceMetadata) :
    Step world (eventOf world (.bind ownerPid name metadata))
      (perform world (.bind ownerPid name metadata)) := by
  rw [eventOf, perform]
  fun_cases bind world ownerPid name metadata with
  | case7 hinit _ _ _ hunused index hidx generation =>
    have hdec : decodeIndex (encode .endpoint false index generation) maxEndpoints = some index :=
      decodeIndex_encode index.isLt (by decide)
    rw [Except.toOption, bind_eq_bind, bind_some, hdec, bind_eq_bind,
      Option.bind_some, Option.pure_def]
    refine Step.bound index
      { generation, ownerPid, name, metadata := _, versioned := _, active := _ }
      (by simpa using hinit) (by simpa using find?_some hidx) rfl (fun other hact heq => ?_) rfl
    rw [Option.not_isSome_iff_eq_none, World.findEndpoint, find?_eq_none] at hunused
    exact hunused other (mem_finRange other) (decide_eq_true ⟨hact, heq⟩)
  | _ => exact .same

theorem step_connect (clientPid : ProcessId) (name : List UInt8) (range : Option VersionRange) :
    Step world (eventOf world (.connect clientPid name range))
      (perform world (.connect clientPid name range)) := by
  rw [eventOf, perform]
  fun_cases connect world clientPid name range with
  | case6 hinit _ _ endpoint | case7 hinit _ _ endpoint =>
    exact .compacted endpoint _ (by simpa using hinit) (Ring.contents_ofList _ _ _ _)
  | case8 hinit _ _ endpoint hend _ _ compacted hroom channel hidx opened =>
    have hact := find?_some hend
    rw [decide_eq_true_eq] at hact
    obtain ⟨hact, rfl⟩ := hact
    have hfree : (compacted.channels channel).active = false := by
      simpa using find?_some hidx
    have hopened : opened = (world.setChannel channel
        { generation := nextGeneration (world.channels channel).generation
          clientPid, serverPid := (world.endpoints endpoint).ownerPid
          active := true, clientOpen := true, serverOpen := true }).setEndpoint endpoint
        { world.endpoints endpoint with
          pending :=
            (compacted.endpoints endpoint).pending.push channel (Nat.lt_of_not_ge hroom) } := by
      simp only [opened, compacted, openChannel, World.compactPending, setEndpoint_endpoints,
        if_true]
      simp only [World.setEndpoint, World.setChannel, update_idem]
    have hgeneration : (opened.channels channel).generation =
        nextGeneration (world.channels channel).generation := by
      rw [hopened, setEndpoint_channels, setChannel_channels, if_pos rfl]
    obtain ⟨handle, hhandle⟩ : ∃ handle, encode .channel false channel
      (nextGeneration (world.channels channel).generation) = handle := ⟨_, rfl⟩
    have hdec : decodeIndex handle maxChannels = some channel :=
      hhandle ▸ decodeIndex_encode channel.isLt (by decide)
    -- the handle stays folded, as its value is too large a number to compute with
    rw [hgeneration, hhandle, hopened]
    simp only [Except.toOption, Option.bind_eq_bind, Option.bind_some, hend, hdec, Option.pure_def]
    rw [← hhandle]
    refine .connected channel endpoint clientPid _ (by simpa using hinit) hact hfree ?_
    rw [Ring.contents_push, contents_compactPending]
  | _ => exact .same

theorem step_accept (serverPid : ProcessId) (handle : Handle) :
    Step world (eventOf world (.accept serverPid handle))
      (perform world (.accept serverPid handle)) := by
  rw [eventOf, perform]
  fun_cases accept world serverPid handle with
  | case4 hinit _ endpoint hend compacted slot pending htake =>
    obtain ⟨hlive, -⟩ := takePending_compactPending htake
    rw [setEndpoint_compactPending]
    exact .compacted endpoint pending (by simpa using hinit) hlive.symm
  | case5 hinit _ endpoint hend compacted slot channel pending htake =>
    obtain ⟨hlive, -⟩ := takePending_compactPending htake
    obtain ⟨hidx, hact, rfl⟩ := decodeEndpoint_eq_ok hend
    have hdec : decodeIndex (encode .channel true channel (compacted.channels channel).generation)
        maxChannels = some channel := decodeIndex_encode channel.isLt (by decide)
    rw [setEndpoint_compactPending, Except.toOption, bind_eq_bind, bind_some, hidx,
      Option.bind_eq_bind, Option.bind_some, hdec, Option.bind_some, Option.pure_def]
    exact .accepted channel endpoint pending (by simpa using hinit) hact hlive
  | _ => exact .same

theorem pushMessage_eq_ok (h : pushMessage queue message = .ok queue') :
    queue'.contents = queue.contents ++ [message] := by
  rw [pushMessage] at h
  split at h
  · cases h
  · cases h
    exact Ring.contents_push message _

theorem popMessage_eq_ok (h : popMessage queue = .ok (message, queue')) :
    queue.contents = message :: queue'.contents := by
  rw [popMessage] at h
  split at h
  · cases h
  · cases h
    exact Ring.contents_pop _ _

theorem step_send (senderPid : ProcessId) (handle : Handle) (bytes : List UInt8) :
    Step world (eventOf world (.send senderPid handle bytes))
      (perform world (.send senderPid handle bytes)) := by
  rw [eventOf, perform]
  fun_cases send world senderPid handle bytes with
  | case6 hinit _ channel side hdec _ _ queue hpush =>
    obtain ⟨-, hidx, hside, hact, -, hpid, hopen⟩ := decodeChannel_eq_ok hdec
    simp only [Except.toOption, bind_eq_bind, bind_some, hidx, hside, Option.pure_def, ← hpid]
    refine .sent channel side bytes queue (by simpa using hinit) hact hopen ?_
    rw [hpid]
    exact pushMessage_eq_ok hpush
  | _ => exact .same

theorem step_receive (receiverPid : ProcessId) (handle : Handle) :
    Step world (eventOf world (.receive receiverPid handle))
      (perform world (.receive receiverPid handle)) := by
  rw [eventOf, perform]
  fun_cases receive world receiverPid handle with
  | case6 hinit _ channel side hdec _ message queue hpop =>
    obtain ⟨-, hidx, hside, hact, -, -, hopen⟩ := decodeChannel_eq_ok hdec
    simp only [Except.toOption, Option.bind_eq_bind, Option.bind_some, hidx, hside, Option.pure_def]
    refine .received channel (!side) message queue (by simpa using hinit) hact ?_
      (popMessage_eq_ok hpop)
    rw [Bool.not_not]
    exact hopen
  | _ => exact .same

theorem step_close (ownerPid : ProcessId) (handle : Handle) :
    Step world (eventOf world (.close ownerPid handle))
      (perform world (.close ownerPid handle)) := by
  rw [eventOf, perform]
  fun_cases close world ownerPid handle with
  | case4 hinit _ hkind endpoint hdec =>
    obtain ⟨hidx, hact, -⟩ := decodeEndpoint_eq_ok hdec
    simp only [Except.toOption, bind_eq_bind, bind_some, hidx, hkind, if_true, Option.pure_def]
    exact .unbound endpoint (by simpa using hinit) hact
  | case6 hinit _ hkind _ channel side hdec =>
    obtain ⟨-, hidx, hside, hact, -, -, hopen⟩ := decodeChannel_eq_ok hdec
    simp only [Except.toOption, bind_eq_bind, bind_some, hidx, hside, Option.pure_def, if_neg hkind]
    exact .closed channel side (by simpa using hinit) hact hopen
  | _ => exact .same

theorem perform_step (world : World) (request : Request) :
    Step world (eventOf world request) (perform world request) := by
  cases request with
  | initialized =>
    rw [eventOf, perform, initializeChannels]
    split
    · exact .same
    · next hblank => exact .started (by simpa using hblank)
  | bind ownerPid name metadata => exact step_bind ownerPid name metadata
  | connect clientPid name range => exact step_connect clientPid name range
  | accept serverPid handle => exact step_accept serverPid handle
  | send senderPid handle bytes => exact step_send senderPid handle bytes
  | receive receiverPid handle => exact step_receive receiverPid handle
  | close ownerPid handle => exact step_close ownerPid handle
  | releaseProcess pid =>
    rw [eventOf, perform]
    split
    · next hskip =>
      rw [releaseProcess, if_pos hskip]
      exact .same
    · next hvalid =>
      rw [not_or, Bool.not_eq_false] at hvalid
      exact .exited pid hvalid.1 hvalid.2

theorem run_induction {motive : World → List Event → Prop} (hstart : motive {} [])
    (hstep : ∀ world history event next, motive world history → Step world event next →
      motive next (event.toList ++ history)) (requests : List Request) :
    motive (run requests).1 (run requests).2 := by
  refine List.foldlRecOn (motive := fun current : World × List Event => motive current.1 current.2)
    requests _ hstart ?_
  exact fun current h request _ => hstep _ _ _ _ h (perform_step current.1 request)

end Kurogane.Ipc.Channel
