/-
# Connections reach the service that was asked for

A service, read from the history of calls: the process that bound the endpoint, the name it
was bound to, and the connections to that name since then that wait, in order. The queue in
the endpoint stores bare slots of channels and is cleaned late. It tells the same as long as
no connection takes a slot that still stands in the queue of another endpoint of the same
process, and no server closes a channel that it has not accepted.
-/

import Kurogane.Ipc.ChannelLinks

namespace Kurogane.Ipc.Channel

open Math List

/-! ## Services -/

/-- What the calls made of a slot for endpoints. -/
structure Service where
  owner : Option ProcessId := none
  name : Option (List UInt8) := none
  /-- The connections to the name that the owner has not accepted and that their clients have
  not closed, in the order in which they were made. -/
  waiting : List (Fin maxChannels) := []

/-- The service in a slot after a call. A connection is one to this service if it asked for its
name. All is gone when the endpoint is. -/
def Service.after (service : Service) (clientOf : Fin maxChannels → ProcessId)
    (endpoint : Fin maxEndpoints) : Event → Service
  | .bound slot owner name =>
    if slot = endpoint then { owner := some owner, name := some name } else service
  | .unbound slot => if slot = endpoint then {} else service
  | .connected channel name _ _ _ =>
    if service.name = some name then { service with waiting := service.waiting ++ [channel] }
    else service
  | .accepted channel slot _ _ =>
    if slot = endpoint then { service with waiting := service.waiting.erase channel } else service
  | .closed channel side =>
    if side then service else { service with waiting := service.waiting.erase channel }
  | .exited pid =>
    if service.owner = some pid then {}
    else { service with waiting := service.waiting.filter fun channel => clientOf channel ≠ pid }
  | .sent _ _ _ => service
  | .received _ _ _ => service

def serviceAt : List Event → Fin maxEndpoints → Service
  | [], _ => {}
  | event :: earlier, endpoint =>
    (serviceAt earlier endpoint).after (fun channel => (linkTo earlier channel).party false)
      endpoint event

/-- No name is bound twice, and no connection waits twice. -/
structure Separate (services : Fin maxEndpoints → Service) : Prop where
  names : ∀ {endpoint other name}, (services endpoint).name = some name →
    (services other).name = some name → endpoint = other
  nodup : ∀ endpoint, (services endpoint).waiting.Nodup
  apart : ∀ {endpoint other channel}, channel ∈ (services endpoint).waiting →
    channel ∈ (services other).waiting → endpoint = other

def Event.Fresh (services : Fin maxEndpoints → Service) : Event → Prop
  | .bound _ _ name => ∀ endpoint, (services endpoint).name ≠ some name
  | .connected channel _ _ _ _ => ∀ endpoint, channel ∉ (services endpoint).waiting
  | _ => True

def Event.arrival (name : Option (List UInt8)) : Event → List (Fin maxChannels)
  | .connected channel asked _ _ _ => if name = some asked then [channel] else []
  | _ => []

variable {services : Fin maxEndpoints → Service} {clientOf : Fin maxChannels → ProcessId}
  {event : Event}

namespace Service

variable {service : Service} {endpoint : Fin maxEndpoints} {name : List UInt8}

theorem name_after (h : (service.after clientOf endpoint event).name = some name) :
    service.name = some name ∨ ∃ owner, event = .bound endpoint owner name := by
  cases event with
  | bound slot owner =>
    rw [after] at h
    split at h
    · next heq =>
      cases h
      exact .inr ⟨owner, heq ▸ rfl⟩
    · exact .inl h
  | sent | received => exact .inl h
  | _ =>
    rw [after] at h
    split at h
    · first | exact .inl h | cases h
    · exact .inl h

/-- Connections only stop to wait, but for a new one to the name of the service. -/
theorem waiting_after : (service.after clientOf endpoint event).waiting <+
    service.waiting ++ event.arrival service.name := by
  cases event with
  | connected =>
    rw [after, Event.arrival]
    split
    · exact .refl _
    · exact (append_nil _).symm ▸ .refl _
  | sent | received => exact (append_nil _).symm ▸ .refl _
  | accepted | closed =>
    simp only [after, Event.arrival, append_nil]
    split <;> first | exact .refl _ | exact erase_sublist
  | bound | unbound =>
    simp only [after, Event.arrival, append_nil]
    split
    · exact nil_sublist _
    · exact .refl _
  | exited =>
    simp only [after, Event.arrival, append_nil]
    split
    · exact nil_sublist _
    · exact filter_sublist

end Service

theorem Separate.after (h : Separate services) (hfresh : event.Fresh services) :
    Separate fun endpoint => (services endpoint).after clientOf endpoint event := by
  have harrival : ∀ endpoint other, ∀ channel ∈ event.arrival (services endpoint).name,
      channel ∉ (services other).waiting := by
    intro endpoint other channel hnew
    cases event with
    | connected =>
      rw [Event.arrival] at hnew
      split at hnew
      · exact mem_singleton.mp hnew ▸ hfresh other
      · cases hnew
    | _ => cases hnew
  constructor
  · intro endpoint other name hname hname'
    rcases Service.name_after hname with hold | ⟨owner, rfl⟩
    · rcases Service.name_after hname' with hold' | ⟨owner, rfl⟩
      · exact h.names hold hold'
      · exact absurd hold (hfresh endpoint)
    · rcases Service.name_after hname' with hold' | ⟨owner', heq⟩
      · exact absurd hold' (hfresh other)
      · cases heq
        rfl
  · intro endpoint
    refine Nodup.sublist Service.waiting_after (nodup_append.mpr ⟨h.nodup endpoint, ?_, ?_⟩)
    · cases event with
      | connected =>
        rw [Event.arrival]
        split
        · exact nodup_singleton _
        · exact nodup_nil
      | _ => exact nodup_nil
    · rintro old hold _ hnew rfl
      exact harrival endpoint endpoint old hnew hold
  · intro endpoint other channel hmem hmem'
    rcases mem_append.mp (Service.waiting_after.subset hmem) with hold | hnew
    · rcases mem_append.mp (Service.waiting_after.subset hmem') with hold' | hnew'
      · exact h.apart hold hold'
      · exact absurd hold (harrival other endpoint channel hnew')
    · rcases mem_append.mp (Service.waiting_after.subset hmem') with hold' | hnew'
      · exact absurd hold' (harrival endpoint other channel hnew)
      -- the new connection is one to the service of the name it asked for
      cases event with
      | connected slot asked =>
        rw [Event.arrival] at hnew hnew'
        split at hnew
        · next hname =>
          split at hnew'
          · next hname' => exact h.names hname hname'
          · cases hnew'
        · cases hnew
      | _ => cases hnew

/-! ## The queues of the endpoints -/

def World.service (world : World) (endpoint : Fin maxEndpoints) : Service :=
  if (world.endpoints endpoint).active then
    { owner := (world.endpoints endpoint).ownerPid, name := (world.endpoints endpoint).name
      waiting := world.livePending endpoint }
  else {}

/-- A connection takes a slot that is not in the queue of another endpoint of the same owner,
and a process closes the server side of a channel only after it has accepted the channel. -/
def Event.orderly (world : World) : Event → Bool
  | .connected channel name _ server _ =>
    ∀ endpoint, (world.endpoints endpoint).active = true → (world.endpoints endpoint).name ≠ name →
      (world.endpoints endpoint).ownerPid = server →
      channel ∉ (world.endpoints endpoint).pending.contents
  | .closed channel true => (world.channels channel).accepted
  | _ => true

def orderlyFrom (world : World) : List Request → Bool
  | [] => true
  | request :: rest =>
    (eventOf world request).all (Event.orderly world) && orderlyFrom (perform world request) rest

variable {world next : World} {history : List Event} {endpoint : Fin maxEndpoints}
  {channel : Fin maxChannels} {pid : ProcessId} {handle : Handle} {slot : ChannelSlot}

theorem service_of_active (h : (world.endpoints endpoint).active) :
    world.service endpoint =
      { owner := (world.endpoints endpoint).ownerPid, name := (world.endpoints endpoint).name
        waiting := world.livePending endpoint } :=
  if_pos h

theorem service_of_idle (h : (world.endpoints endpoint).active = false) :
    world.service endpoint = {} :=
  if_neg (Bool.not_eq_true _ ▸ h)

theorem name_service {name : List UInt8} : (world.service endpoint).name = some name ↔
    (world.endpoints endpoint).active ∧ (world.endpoints endpoint).name = name := by
  rw [World.service]
  split
  · next hact => simp [hact]
  · next hidle => simp [hidle]

theorem mem_waiting_service : channel ∈ (world.service endpoint).waiting ↔
    (world.endpoints endpoint).active ∧ channel ∈ world.livePending endpoint := by
  rw [World.service]
  split
  · next hact => simp [hact]
  · next hidle => simp [hidle]

theorem pendingLive_iff : slot.pendingLive pid ↔
    slot.active ∧ slot.accepted = false ∧ slot.clientOpen ∧
      slot.serverOpen ∧ slot.serverPid = pid :=
  decide_eq_true_iff

theorem pendingLive_of_accepted (h : slot.accepted) : slot.pendingLive pid = false := by
  rw [ChannelSlot.pendingLive, decide_eq_false_iff_not]
  rintro ⟨-, haccepted, -⟩
  rw [h] at haccepted
  cases haccepted

theorem pendingLive_of_closed (h : slot.clientOpen = false) : slot.pendingLive pid = false := by
  rw [ChannelSlot.pendingLive, decide_eq_false_iff_not]
  rintro ⟨-, -, hopen, -⟩
  rw [h] at hopen
  cases hopen

theorem pendingLive_of_idle (h : slot.active = false) : slot.pendingLive pid = false := by
  rw [ChannelSlot.pendingLive, decide_eq_false_iff_not]
  rintro ⟨hact, -⟩
  rw [h] at hact
  cases hact

theorem pendingLive_maybeFree (slot : ChannelSlot) :
    slot.maybeFree.pendingLive pid = slot.pendingLive pid := by
  rw [ChannelSlot.maybeFree]
  split
  · next hclosed => rw [pendingLive_of_closed rfl, pendingLive_of_closed hclosed.1]
  · rfl

theorem pendingLive_release {owner : ProcessId} (howner : owner ≠ pid) :
    (slot.release pid).pendingLive owner =
      (slot.pendingLive owner && decide (slot.clientPid ≠ pid)) := by
  rw [ChannelSlot.release]
  split
  · next hidle => rw [pendingLive_of_idle hidle, Bool.false_and]
  rw [pendingLive_maybeFree]
  by_cases hclient : slot.clientPid = pid
  · rw [if_pos hclient, decide_eq_false (not_not.mpr hclient), Bool.and_false]
    split <;> exact pendingLive_of_closed rfl
  rw [if_neg hclient, decide_eq_true hclient, Bool.and_true]
  split
  · next hserver =>
    have hother : slot.serverPid ≠ owner := fun heq => howner (heq.symm.trans hserver)
    simp [ChannelSlot.pendingLive, ChannelSlot.closeServer, hother]
  · rfl

section

variable (hend : next.endpoints endpoint = world.endpoints endpoint)
include hend

/-- The connections that wait in the new state are those of the old one that satisfy a
condition. -/
theorem service_filter (keep : Fin maxChannels → Bool)
    (hlive : (world.endpoints endpoint).active →
      ∀ channel ∈ (world.endpoints endpoint).pending.contents,
      (next.channels channel).pendingLive (world.endpoints endpoint).ownerPid =
        ((world.channels channel).pendingLive (world.endpoints endpoint).ownerPid &&
          keep channel)) :
    next.service endpoint = { world.service endpoint with
      waiting := (world.service endpoint).waiting.filter keep } := by
  rw [World.service, World.service, hend]
  split
  · next hact =>
    congr 1
    rw [World.livePending, World.livePending, hend, filter_filter]
    refine filter_congr fun channel hmem => ?_
    rw [hlive hact channel hmem, Bool.and_comm]
  · rfl

theorem service_congr (hlive : (world.endpoints endpoint).active →
      ∀ channel ∈ (world.endpoints endpoint).pending.contents,
      (next.channels channel).pendingLive (world.endpoints endpoint).ownerPid =
        (world.channels channel).pendingLive (world.endpoints endpoint).ownerPid) :
    next.service endpoint = world.service endpoint := by
  have hsame := service_filter hend (fun _ => true) fun hact channel hmem => by
    rw [hlive hact channel hmem, Bool.and_true]
  rwa [filter_true] at hsame

end

theorem service_setPending (pending : PendingQueue) (hact : (world.endpoints endpoint).active)
    (hend : next.endpoints endpoint = { world.endpoints endpoint with pending })
    (hlive : ∀ channel ∈ pending.contents,
      (next.channels channel).pendingLive (world.endpoints endpoint).ownerPid) :
    next.service endpoint = { world.service endpoint with waiting := pending.contents } := by
  rw [World.service, World.livePending, hend, if_pos hact, service_of_active hact]
  exact congrArg (Service.mk _ _) (filter_eq_self.mpr hlive)

/-! ## What a call does to the services -/

section

variable (h : Separate world.service)
include h

theorem Separate.not_live (hmem : channel ∈ (world.service endpoint).waiting)
    {other : Fin maxEndpoints} (hother : other ≠ endpoint) (hact : (world.endpoints other).active)
    (hqueued : channel ∈ (world.endpoints other).pending.contents) :
    (world.channels channel).pendingLive (world.endpoints other).ownerPid = false := by
  by_contra hlive
  rw [Bool.not_eq_false] at hlive
  exact hother (h.apart (mem_waiting_service.mpr ⟨hact, mem_filter.mpr ⟨hqueued, hlive⟩⟩) hmem)

theorem service_connect {pending : PendingQueue} {client server : ProcessId}
    (hend : (world.endpoints endpoint).active) (hfree : (world.channels channel).active = false)
    (hserver : server = (world.endpoints endpoint).ownerPid)
    (hslot : slot.pendingLive server) (hserver' : slot.serverPid = server)
    (hpend : pending.contents = world.livePending endpoint ++ [channel])
    (horderly : (Event.connected channel (world.endpoints endpoint).name client server
      handle).orderly world) (other : Fin maxEndpoints) :
    ((world.setChannel channel slot).setEndpoint endpoint
        { world.endpoints endpoint with pending }).service other =
      (world.service other).after clientOf other
        (.connected channel (world.endpoints endpoint).name client server handle) := by
  have horderly := of_decide_eq_true horderly
  by_cases hother : other = endpoint
  · subst hother
    rw [Service.after, if_pos (name_service.mpr ⟨hend, rfl⟩), service_setPending pending hend,
      hpend, service_of_active hend]
    · rw [setEndpoint_endpoints, if_pos rfl]
    · intro queued hqueued
      rw [setEndpoint_channels, setChannel_channels]
      split
      · exact hserver ▸ hslot
      · next hne =>
        rw [hpend, mem_append, mem_singleton, or_iff_left hne] at hqueued
        exact (mem_filter.mp hqueued).2
  · rw [Service.after, if_neg]
    · refine service_congr ?_ fun hact queued hqueued => ?_
      · rw [setEndpoint_endpoints, if_neg hother]
        rfl
      rw [setEndpoint_channels, setChannel_channels]
      split
      · next heq =>
        -- the slot may be in the queue of another endpoint, but that has another owner
        have hname : (world.endpoints other).name ≠ (world.endpoints endpoint).name :=
          fun heq => hother (h.names (name_service.mpr ⟨hact, heq⟩) (name_service.mpr ⟨hend, rfl⟩))
        rw [heq, pendingLive_of_idle hfree, ChannelSlot.pendingLive, decide_eq_false_iff_not]
        rintro ⟨-, -, -, -, howner⟩
        exact horderly other hact hname (howner.symm.trans hserver') (heq ▸ hqueued)
      · rfl
    · exact fun hname => hother (h.names hname (name_service.mpr ⟨hend, rfl⟩))

theorem service_accept {pending : PendingQueue} (hend : (world.endpoints endpoint).active)
    (hpend : world.livePending endpoint = channel :: pending.contents)
    (other : Fin maxEndpoints) :
    ((world.setEndpoint endpoint { world.endpoints endpoint with pending }).setChannel
        channel { world.channels channel with accepted := true }).service other =
      (world.service other).after clientOf other (.accepted channel endpoint pid handle) := by
  have hwaiting : (world.service endpoint).waiting = channel :: pending.contents := by
    rw [service_of_active hend, hpend]
  rw [Service.after]
  split
  · next heq =>
    subst heq
    rw [service_setPending pending hend, hwaiting, erase_cons_head]
    · rw [setChannel_endpoints, setEndpoint_endpoints, if_pos rfl]
    · intro queued hqueued
      have hnodup := hwaiting ▸ h.nodup endpoint
      have hne : queued ≠ channel := fun heq => (nodup_cons.mp hnodup).1 (heq ▸ hqueued)
      rw [setChannel_channels, if_neg hne]
      have hmem : queued ∈ world.livePending endpoint := hpend ▸ mem_cons_of_mem _ hqueued
      exact (mem_filter.mp hmem).2
  · next hne =>
    refine service_congr ?_ fun hact queued hqueued => ?_
    · rw [setChannel_endpoints, setEndpoint_endpoints, if_neg (Ne.symm hne)]
    rw [setChannel_channels]
    split
    · next heq =>
      rw [pendingLive_of_accepted rfl]
      exact (h.not_live (hwaiting ▸ heq ▸ mem_cons_self) (Ne.symm hne) hact hqueued).symm
    · rfl

theorem service_closeSide {side : Bool} (horderly : (Event.closed channel side).orderly world)
    (endpoint : Fin maxEndpoints) :
    (closeSide world channel side).service endpoint =
      (world.service endpoint).after clientOf endpoint (.closed channel side) := by
  cases side with
  | false =>
    rw [Service.after, if_neg Bool.false_ne_true, (h.nodup endpoint).erase_eq_filter channel]
    have hsame : (closeSide world channel false).endpoints endpoint =
      world.endpoints endpoint := rfl
    refine service_filter hsame _ fun _ queued _ => ?_
    rw [closeSide, setChannel_channels]
    split
    · next heq =>
      rw [heq, bne_self_eq_false, Bool.and_false, pendingLive_maybeFree]
      exact pendingLive_of_closed rfl
    · next hne => rw [bne_iff_ne.mpr hne, Bool.and_true]
  | true =>
    refine service_congr rfl fun _ queued _ => ?_
    rw [closeSide, setChannel_channels]
    split
    · next heq =>
      rw [heq, pendingLive_maybeFree, pendingLive_of_accepted horderly]
      exact pendingLive_of_accepted horderly
    · rfl

theorem service_unbind (hact : (world.endpoints endpoint).active) (other : Fin maxEndpoints) :
    (world.closeEndpoint endpoint).service other =
      (world.service other).after clientOf other (.unbound endpoint) := by
  obtain ⟨-, hothers, hclosed, hchans⟩ := closeEndpoint_spec world endpoint
  rw [Service.after]
  split
  · next heq => exact heq ▸ service_of_idle hclosed
  · next hne =>
    refine service_congr (hothers other (Ne.symm hne)) fun hother queued hqueued => ?_
    rw [hchans]
    split
    · next hlive =>
      rw [h.not_live (mem_waiting_service.mpr ⟨hact, hlive⟩) (Ne.symm hne) hother hqueued,
        ChannelSlot.pendingLive, decide_eq_false_iff_not]
      rintro ⟨-, -, -, hopen, -⟩
      cases hopen
    · rfl

end

theorem service_exit (hlinked : Linked world history) (hinit : world.initialized)
    (hpid : pid ≠ invalidProcessId) (endpoint : Fin maxEndpoints) :
    (releaseProcess world pid).service endpoint =
      (world.service endpoint).after (fun channel => (linkTo history channel).party false)
        endpoint (.exited pid) := by
  obtain ⟨-, hends, hchans⟩ := releaseProcess_spec hinit hpid
  rcases hends endpoint with ⟨hsame, hkept⟩ | ⟨hclosed, hact, howner⟩
  · have howner : (world.service endpoint).owner ≠ some pid := by
      rcases hkept with hidle | hother
      · rw [service_of_idle hidle]
        nofun
      · rw [World.service]
        split
        · exact fun heq => hother (Option.some.inj heq)
        · nofun
    rw [Service.after, if_neg howner]
    refine service_filter hsame _ fun hact queued _ => ?_
    have hother := hkept.resolve_left (by simp [hact])
    rw [hchans, pendingLive_release hother]
    cases hlive : (world.channels queued).pendingLive (world.endpoints endpoint).ownerPid with
    | false => rfl
    | true =>
      rw [← (hlinked.slots queued).parties (pendingLive_iff.mp hlive).1 false]
      rfl
  · rw [Service.after, if_pos, service_of_idle hclosed]
    rw [service_of_active hact, howner]

theorem service_transfer {side : Bool} {queue : MessageQueue} (endpoint : Fin maxEndpoints) :
    (world.setChannel channel ((world.channels channel).setQueueFrom queue side)).service
      endpoint = world.service endpoint := by
  refine service_congr rfl fun _ queued _ => ?_
  rw [setChannel_channels]
  split
  · next heq =>
    rw [heq]
    cases side <;> rfl
  · rfl

theorem service_compact {pending : PendingQueue}
    (hpend : pending.contents = world.livePending endpoint) (other : Fin maxEndpoints) :
    (world.setEndpoint endpoint { world.endpoints endpoint with pending }).service other =
      world.service other := by
  have hself : (world.setEndpoint endpoint { world.endpoints endpoint with pending }).endpoints
      endpoint = { world.endpoints endpoint with pending } := by
    rw [setEndpoint_endpoints, if_pos rfl]
  by_cases hother : other = endpoint
  · subst hother
    cases hact : (world.endpoints other).active with
    | false =>
      rw [service_of_idle hact, service_of_idle ((congrArg EndpointSlot.active hself).trans hact)]
    | true =>
      rw [service_setPending pending hact hself, hpend, service_of_active hact]
      intro queued hqueued
      have hmem : queued ∈ world.livePending other := hpend ▸ hqueued
      exact (mem_filter.mp hmem).2
  · refine service_congr ?_ fun _ _ _ => rfl
    rw [setEndpoint_endpoints, if_neg hother]

theorem service_bind {slot : EndpointSlot} (hact : slot.active)
    (hpend : slot.pending.contents = []) (other : Fin maxEndpoints) :
    (world.setEndpoint endpoint slot).service other =
      (world.service other).after clientOf other (.bound endpoint slot.ownerPid slot.name) := by
  rw [Service.after]
  split
  · next heq =>
    have hself : (world.setEndpoint endpoint slot).endpoints other = slot := by
      rw [setEndpoint_endpoints, if_pos heq.symm]
    rw [World.service, World.livePending, hself, if_pos hact, hpend]
    rfl
  · next hne =>
    refine service_congr ?_ fun _ _ _ => rfl
    rw [setEndpoint_endpoints, if_neg (Ne.symm hne)]

/-! ## Orderly runs -/

/-- The tables offer the services that the history tells of. -/
structure Queued (world : World) (history : List Event) : Prop where
  service : ∀ endpoint, serviceAt history endpoint = world.service endpoint
  separate : Separate world.service

theorem Queued.quiet (h : Queued world history)
    (hservice : ∀ endpoint, next.service endpoint = world.service endpoint) :
    Queued next history := by
  refine ⟨fun endpoint => (h.service endpoint).trans (hservice endpoint).symm, ?_⟩
  rw [funext hservice]
  exact h.separate

theorem Queued.serve (h : Queued world history) (hfresh : event.Fresh world.service)
    (hservice : ∀ endpoint, next.service endpoint = (world.service endpoint).after
      (fun channel => (linkTo history channel).party false) endpoint event) :
    Queued next (event :: history) := by
  refine ⟨fun endpoint => ?_, ?_⟩
  · rw [hservice, serviceAt, h.service]
  · rw [funext hservice]
    exact h.separate.after hfresh

theorem Queued.step (h : Queued world history) (hlinked : Linked world history)
    {event : Option Event} (hstep : Step world event next)
    (horderly : event.all (Event.orderly world)) : Queued next (event.toList ++ history) := by
  cases hstep with
  | same => exact h
  | started hblank =>
    rw [hlinked.blank hblank] at h
    exact h.quiet fun _ => rfl
  | compacted _ _ _ hcont => exact h.quiet (service_compact hcont)
  | bound _ _ _ _ hact hunused hpend =>
    refine h.serve (fun other hname => ?_) (service_bind hact hpend)
    obtain ⟨hother, heq⟩ := name_service.mp hname
    exact hunused other hother heq
  | connected channel _ _ _ _ hend hfree hpend =>
    refine h.serve (fun other hmem => ?_) (service_connect h.separate hend hfree rfl
      (pendingLive_iff.mpr ⟨rfl, rfl, rfl, rfl, rfl⟩) rfl hpend horderly)
    rw [(mem_livePending (mem_waiting_service.mp hmem).2).2.1] at hfree
    cases hfree
  | accepted _ _ _ _ hend hpend => exact h.serve trivial (service_accept h.separate hend hpend)
  | sent => exact h.serve trivial service_transfer
  | received => exact h.serve trivial service_transfer
  | closed => exact h.serve trivial (service_closeSide h.separate horderly)
  | unbound _ _ hact => exact h.serve trivial (service_unbind h.separate hact)
  | exited pid hinit hpid => exact h.serve trivial (service_exit hlinked hinit hpid)

theorem run_queued (requests : List Request) (horderly : orderlyFrom {} requests) :
    Linked (run requests).1 (run requests).2 ∧ Queued (run requests).1 (run requests).2 := by
  have hrun : ∀ current final,
      requests.foldl (fun current request => serve current.1 current.2 request) current = final →
      orderlyFrom current.1 requests → Linked current.1 current.2 →
      Queued current.1 current.2 → Linked final.1 final.2 ∧ Queued final.1 final.2 := by
    clear horderly
    induction requests with
    | nil =>
      rintro current _ rfl - hlinked hqueued
      exact ⟨hlinked, hqueued⟩
    | cons request _ ih =>
      intro current final hfinal horderly hlinked hqueued
      obtain ⟨hfirst, hrest⟩ := Bool.and_eq_true_iff.mp horderly
      have hstep := perform_step current.1 request
      exact ih _ _ hfinal hrest (hlinked.step hstep) (hqueued.step hlinked hstep hfirst)
  refine hrun ({}, []) _ rfl horderly (run_linked []) ⟨fun _ => rfl, ?_⟩
  exact ⟨nofun, fun _ => nodup_nil, nofun⟩

theorem accept_eq (hinit : world.initialized) (hpid : pid ≠ invalidProcessId)
    (hdec : world.decodeEndpoint pid handle = .ok endpoint) :
    (accept world pid handle).1 =
      match world.livePending endpoint with
      | [] => .error .wouldBlock
      | channel :: _ => .ok (encode .channel true channel (world.channels channel).generation) := by
  fun_cases accept world pid handle with
  | case1 hblank => exact absurd (hinit.symm.trans hblank) (by simp)
  | case2 _ hinvalid => exact absurd hinvalid hpid
  | case3 _ _ _ hstale => cases hstale.symm.trans hdec
  | case4 _ _ _ hdec' _ _ _ htake =>
    cases hdec'.symm.trans hdec
    obtain ⟨hlive, hnone⟩ := takePending_compactPending htake
    rw [hlive, hnone rfl]
    rfl
  | case5 _ _ _ hdec' _ _ _ _ htake =>
    cases hdec'.symm.trans hdec
    rw [(takePending_compactPending htake).1]
    rfl

/-- An orderly server accepts the connections that asked for the name of its endpoint since it
was bound, each once and in the order in which they were made, and none is lost whose client
still has it open. -/
theorem accept_delivers (requests : List Request) (horderly : orderlyFrom {} requests = true)
    (pid : ProcessId) (handle : Handle) (endpoint : Fin maxEndpoints)
    (hpid : pid ≠ invalidProcessId)
    (hdecode : (run requests).1.decodeEndpoint pid handle = .ok endpoint) :
    (accept (run requests).1 pid handle).1 =
      match (serviceAt (run requests).2 endpoint).waiting with
      | [] => .error .wouldBlock
      | channel :: _ =>
        .ok (encode .channel true channel ((run requests).1.channels channel).generation) := by
  obtain ⟨hlinked, hqueued⟩ := run_queued requests horderly
  obtain ⟨-, hactive, -⟩ := decodeEndpoint_eq_ok hdecode
  have hinitialized : (run requests).1.initialized := by
    by_contra hblank
    rw [hlinked.blank (by simpa using hblank)] at hactive
    cases hactive
  rw [accept_eq hinitialized hpid hdecode, hqueued.service, service_of_active hactive]

/-- Process 1 offers two services. Processes 2 and 3 connect to the first, and process 3 to the
second as well; process 2 gives up. -/
def patientAndImpatient : List Request :=
  [.initialized, .bind 1 [97] none, .bind 1 [98] none, .connect 2 [97] none, .connect 3 [97] none,
    .connect 3 [98] none, .close 2 (encode .channel false 0 1)]

theorem patientAndImpatient_accept :
    orderlyFrom {} patientAndImpatient = true ∧
      (accept (run patientAndImpatient).1 1 (encode .endpoint false 0 1)).1 =
        .ok (encode .channel true 1 1) := by
  refine ⟨rfl, ?_⟩
  rw [accept_delivers patientAndImpatient rfl 1 (encode .endpoint false 0 1) 0 (by decide) rfl]
  rfl

/-- Process 1 offers two services. Process 2 connects to the first, closes the connection and
connects to the second: the new channel is in the slot of the old one. -/
def mixedUp : List Request :=
  [.initialized, .bind 1 [97] none, .bind 1 [98] none, .connect 2 [97] none,
    .close 2 (encode .channel false 0 1), .connect 2 [98] none]

/-- The first service accepts the connection to the second. -/
theorem mixedUp_accept :
    (serviceAt (run mixedUp).2 0).waiting = [] ∧ (serviceAt (run mixedUp).2 1).waiting = [0] ∧
      (run mixedUp).1.decodeEndpoint 1 (encode .endpoint false 0 1) = .ok 0 ∧
      (accept (run mixedUp).1 1 (encode .endpoint false 0 1)).1 =
        .ok (encode .channel true 0 2) := by
  refine ⟨by decide +kernel, by decide +kernel, rfl, rfl⟩

end Kurogane.Ipc.Channel
