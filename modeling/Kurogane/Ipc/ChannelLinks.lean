/-
# Channels as links

A channel carries messages in both directions. Against the history of calls: what was
received is an initial part of what was sent, a side stays open until it is closed or its
process exits, a handle works only for the process and the incarnation it was issued for,
and a slot is free once both sides are closed.
-/

import Kurogane.Ipc.ChannelSteps

namespace Kurogane.Ipc.Channel

open Math Function List

/-! ## What the history says of a channel -/

/-- What the calls made of a slot for channels: the latest channel in it, the processes at its
two sides, and what they did with it. Nothing of it is read from the tables. -/
structure Link where
  /-- How often the slot was used for a new channel. -/
  incarnation : ℕ := 0
  party : Bool → ProcessId := fun _ => invalidProcessId
  accepted : Bool := false
  /-- The messages that a side has sent, oldest first. -/
  sent : Bool → List Message := fun _ => []
  /-- The messages of a side that the other side has received. -/
  received : Bool → List Message := fun _ => []
  /-- The side was closed, or its process exited. -/
  shut : Bool → Bool := fun _ => false

namespace Link

variable (link : Link)

def undelivered (side : Bool) : List Message :=
  (link.sent side).drop (link.received side).length

def after : Event → Link
  | .connected _ _ client server _ =>
    { incarnation := link.incarnation + 1, party := fun side => if side then server else client }
  | .accepted _ _ _ _ => { link with accepted := true }
  | .sent _ side message =>
    { link with sent := update link.sent side (link.sent side ++ [message]) }
  | .received _ side message =>
    { link with received := update link.received side (link.received side ++ [message]) }
  | .closed _ side => { link with shut := update link.shut side true }
  | .exited pid => { link with shut := fun side => link.shut side || link.party side = pid }
  | .bound _ _ _ => link
  | .unbound _ => link

end Link

def Event.concerns (channel : Fin maxChannels) : Event → Bool
  | .connected slot _ _ _ _ => slot = channel
  | .accepted slot _ _ _ => slot = channel
  | .sent slot _ _ => slot = channel
  | .received slot _ _ => slot = channel
  | .closed slot _ => slot = channel
  | .exited _ => true
  | .bound _ _ _ => false
  | .unbound _ => false

def linkTo : List Event → Fin maxChannels → Link
  | [], _ => {}
  | event :: earlier, channel =>
    if event.concerns channel then (linkTo earlier channel).after event else linkTo earlier channel

variable {world next : World} {history : List Event} {channel : Fin maxChannels} {side : Bool}
  {slot slot' : ChannelSlot} {event : Event} {pid : ProcessId} {handle : Handle} {link : Link}

theorem linkTo_of_concerns (h : event.concerns channel) :
    linkTo (event :: history) channel = (linkTo history channel).after event :=
  if_pos h

theorem linkTo_of_not_concerns (h : event.concerns channel = false) :
    linkTo (event :: history) channel = linkTo history channel :=
  if_neg (Bool.not_eq_true _ ▸ h)

/-- A later state of a slot: unless it was used again, the channel is the same one. -/
structure Link.Continues (link link' : Link) : Prop where
  incarnation : link.incarnation ≤ link'.incarnation
  party : link'.incarnation = link.incarnation → link'.party = link.party
  accepted : link'.incarnation = link.incarnation → link.accepted = true → link'.accepted = true

theorem Link.continues_after (link : Link) (event : Event) : link.Continues (link.after event) := by
  cases event with
  | connected =>
    have hnew : link.incarnation + 1 ≠ link.incarnation := by omega
    exact ⟨Nat.le_succ _, fun heq => absurd heq hnew, fun heq => absurd heq hnew⟩
  | accepted => exact ⟨le_rfl, fun _ => rfl, fun _ _ => rfl⟩
  | _ => exact ⟨le_rfl, fun _ => rfl, fun _ => id⟩

theorem Link.Continues.trans {link' link'' : Link} (h : link.Continues link')
    (h' : link'.Continues link'') : link.Continues link'' := by
  have hsame : link''.incarnation = link.incarnation →
      link''.incarnation = link'.incarnation ∧ link'.incarnation = link.incarnation := by
    have := h.incarnation
    have := h'.incarnation
    omega
  refine ⟨h.incarnation.trans h'.incarnation, fun heq => ?_, fun heq haccepted => ?_⟩
  · rw [h'.party (hsame heq).1, h.party (hsame heq).2]
  · exact h'.accepted (hsame heq).1 (h.accepted (hsame heq).2 haccepted)

theorem linkTo_continues (later history : List Event) (channel : Fin maxChannels) :
    (linkTo history channel).Continues (linkTo (later ++ history) channel) := by
  induction later with
  | nil => exact ⟨le_rfl, fun _ => rfl, fun _ => id⟩
  | cons event rest ih =>
    refine ih.trans ?_
    rw [cons_append, linkTo]
    split
    · exact Link.continues_after _ event
    · exact ⟨le_rfl, fun _ => rfl, fun _ => id⟩

/-! ## One slot -/

/-- A slot for channels agrees with what the calls made of it. The server side of a channel
that was not accepted may also be closed because the client or the endpoint is gone. -/
structure Follows (link : Link) (slot : ChannelSlot) : Prop where
  conserved : slot.active = true → ∀ side,
    link.sent side = link.received side ++ (slot.queueFrom side).contents
  delivered : ∀ side, link.received side <+: link.sent side
  parties : slot.active = true → ∀ side, slot.pidAt side = link.party side
  accepted : slot.active = true → slot.accepted = link.accepted
  opens : ∀ side, slot.openAt side = true → slot.active = true ∧ link.shut side = false
  kept : ∀ side, side = false ∨ link.accepted = true → link.incarnation ≠ 0 →
    link.shut side = false → slot.openAt side = true
  used : slot.active = true → link.incarnation ≠ 0
  generation : link.incarnation ≤ maximumGeneration → slot.generation = link.incarnation

structure LinkSlot (link : Link) (slot : ChannelSlot) : Prop extends Follows link slot where
  someOpen : slot.active = true → ∃ side, slot.openAt side = true

structure Narrows (slot slot' : ChannelSlot) : Prop where
  active : slot'.active = slot.active
  queues : ∀ side, slot'.queueFrom side = slot.queueFrom side
  pids : ∀ side, slot'.pidAt side = slot.pidAt side
  accepted : slot'.accepted = slot.accepted
  generation : slot'.generation = slot.generation
  isOpen : ∀ side, slot'.openAt side → slot.openAt side

theorem Narrows.refl (slot : ChannelSlot) : Narrows slot slot :=
  ⟨rfl, fun _ => rfl, fun _ => rfl, rfl, rfl, fun _ => id⟩

theorem Narrows.closeServer (h : Narrows slot slot') : Narrows slot slot'.closeServer := by
  refine ⟨h.active, fun side => ?_, fun side => ?_, h.accepted, h.generation, fun side hopen => ?_⟩
  · rw [← h.queues]
    cases side <;> rfl
  · rw [← h.pids]
    cases side <;> rfl
  · cases side with
    | false => exact h.isOpen false hopen
    | true => cases hopen

theorem Narrows.closeClient (slot : ChannelSlot) : Narrows slot slot.closeClient := by
  refine ⟨rfl, fun side => ?_, fun side => ?_, rfl, rfl, fun side hopen => ?_⟩
  · cases side <;> rfl
  · cases side <;> rfl
  · cases side with
    | false => cases hopen
    | true =>
      change (if slot.accepted then slot.serverOpen else false) = true at hopen
      split at hopen
      · exact hopen
      · cases hopen

/-- Sides are closed: all that are shut now, and of the others at most the server side of a
channel that was not accepted. -/
theorem Follows.narrow (h : Follows link slot) (hnarrows : Narrows slot slot')
    {shut : Bool → Bool} (hmono : ∀ side, shut side = false → link.shut side = false)
    (hopens : ∀ side, slot.active → slot'.openAt side → link.shut side = false →
      shut side = false)
    (hkept : ∀ side, side = false ∨ slot.accepted → slot.active → slot.openAt side →
      shut side = false → slot'.openAt side) :
    Follows { link with shut } slot' where
  conserved := by
    intro hact' side
    rw [hnarrows.queues]
    exact h.conserved (hnarrows.active ▸ hact') side
  delivered := h.delivered
  parties := by
    intro hact' side
    rw [hnarrows.pids]
    exact h.parties (hnarrows.active ▸ hact') side
  accepted := by
    intro hact'
    rw [hnarrows.accepted]
    exact h.accepted (hnarrows.active ▸ hact')
  opens := by
    intro side hopen'
    obtain ⟨hact, hshut⟩ := h.opens side (hnarrows.isOpen side hopen')
    exact ⟨hnarrows.active ▸ hact, hopens side hact hopen' hshut⟩
  kept := by
    intro side haccepted hused hshut
    have hopen := h.kept side haccepted hused (hmono side hshut)
    have hact := (h.opens side hopen).1
    exact hkept side (h.accepted hact ▸ haccepted) hact hopen hshut
  used := fun hact' => h.used (hnarrows.active ▸ hact')
  generation := by
    rw [hnarrows.generation]
    exact h.generation

theorem Follows.maybeFree (h : Follows link slot) : LinkSlot link slot.maybeFree := by
  rw [ChannelSlot.maybeFree]
  split
  · next hclosed =>
    have hnone : ∀ side, slot.openAt side = false := fun side => by
      cases side with
      | false => exact hclosed.1
      | true => exact hclosed.2
    refine ⟨⟨by rintro ⟨⟩, h.delivered, by rintro ⟨⟩, by rintro ⟨⟩, fun side hopen => ?_, ?_,
      by rintro ⟨⟩, h.generation⟩, by rintro ⟨⟩⟩
    · cases side <;> cases hopen
    · intro side haccepted hused hshut
      rw [← h.kept side haccepted hused hshut, hnone side]
      cases side <;> rfl
  · next hsome =>
    rw [not_and_or, Bool.not_eq_false, Bool.not_eq_false] at hsome
    exact ⟨h, fun _ => hsome.elim (fun hclient => ⟨false, hclient⟩) fun hserver => ⟨true, hserver⟩⟩

theorem LinkSlot.connect (h : LinkSlot link slot) (channel : Fin maxChannels) (name : List UInt8)
    (client server : ProcessId) (handle : Handle) :
    LinkSlot (link.after (.connected channel name client server handle))
      { generation := nextGeneration slot.generation, clientPid := client, serverPid := server
        active := true, clientOpen := true, serverOpen := true } := by
  refine ⟨⟨fun _ side => ?_, fun side => prefix_rfl, fun _ side => ?_, fun _ => rfl,
    fun side _ => ⟨rfl, rfl⟩, fun side _ _ _ => ?_, fun _ => Nat.succ_ne_zero _, fun hle => ?_⟩,
    fun _ => ⟨false, rfl⟩⟩
  · cases side <;> rfl
  · cases side <;> rfl
  · cases side <;> rfl
  change link.incarnation + 1 ≤ _ at hle
  change nextGeneration slot.generation = link.incarnation + 1
  rw [nextGeneration, h.generation (by omega)]
  split <;> omega

theorem queueFrom_setQueueFrom (slot : ChannelSlot) (queue : MessageQueue) (side other : Bool) :
    (slot.setQueueFrom queue side).queueFrom other =
      if other = side then queue else slot.queueFrom other := by
  cases side <;> cases other <;> rfl

theorem setQueueFrom_frame (slot : ChannelSlot) (queue : MessageQueue) (side : Bool) :
    (slot.setQueueFrom queue side).active = slot.active ∧
      (slot.setQueueFrom queue side).generation = slot.generation ∧
      (slot.setQueueFrom queue side).accepted = slot.accepted ∧
      (∀ other, (slot.setQueueFrom queue side).pidAt other = slot.pidAt other) ∧
      ∀ other, (slot.setQueueFrom queue side).openAt other = slot.openAt other := by
  cases side <;> exact ⟨rfl, rfl, rfl, fun other => by cases other <;> rfl,
    fun other => by cases other <;> rfl⟩

variable {message : Message} {queue : MessageQueue}

section

variable (h : LinkSlot link slot)
include h

theorem LinkSlot.transfer {sent received : Bool → List Message} (hact : slot.active)
    (hconserved : ∀ other, sent other =
      received other ++ ((slot.setQueueFrom queue side).queueFrom other).contents) :
    LinkSlot { link with sent, received } (slot.setQueueFrom queue side) := by
  obtain ⟨hact', hgen, haccepted, hpids, hopen⟩ := setQueueFrom_frame slot queue side
  refine ⟨⟨fun _ => hconserved, fun other => ?_, fun _ other => ?_, fun _ => ?_,
    fun other hother => ?_, fun other hmark hused hshut => ?_, fun _ => h.used hact, ?_⟩,
    fun _ => ?_⟩
  · exact ⟨_, (hconserved other).symm⟩
  · rw [hpids]
    exact h.parties hact other
  · rw [haccepted]
    exact h.accepted hact
  · rw [hact']
    exact h.opens other (hopen other ▸ hother)
  · rw [hopen]
    exact h.kept other hmark hused hshut
  · rw [hgen]
    exact h.generation
  · obtain ⟨other, hother⟩ := h.someOpen hact
    exact ⟨other, (hopen other).trans hother⟩

theorem LinkSlot.send (hact : slot.active)
    (hqueue : queue.contents = (slot.queueFrom side).contents ++ [message]) :
    LinkSlot (link.after (.sent channel side message)) (slot.setQueueFrom queue side) := by
  refine h.transfer hact fun other => ?_
  rw [update_apply, queueFrom_setQueueFrom]
  split
  · rw [h.conserved hact side, hqueue, append_assoc]
    next heq => rw [heq]
  · exact h.conserved hact other

theorem LinkSlot.receive (hact : slot.active)
    (hqueue : (slot.queueFrom side).contents = message :: queue.contents) :
    LinkSlot (link.after (.received channel side message)) (slot.setQueueFrom queue side) := by
  refine h.transfer hact fun other => ?_
  rw [update_apply, queueFrom_setQueueFrom]
  split
  · next heq => rw [heq, h.conserved hact side, hqueue, append_assoc, singleton_append]
  · exact h.conserved hact other

theorem LinkSlot.accept (hact : slot.active) (hopen : ∀ side, slot.openAt side) :
    LinkSlot { link with accepted := true } { slot with accepted := true } := by
  refine ⟨⟨fun _ side => ?_, h.delivered, fun _ side => ?_, fun _ => rfl, fun side _ => ?_,
    fun side _ _ _ => ?_, h.used, h.generation⟩, fun _ => ⟨false, hopen false⟩⟩
  · rw [h.conserved hact side]
    cases side <;> rfl
  · rw [← h.parties hact side]
    cases side <;> rfl
  · exact ⟨hact, (h.opens side (hopen side)).2⟩
  · rw [← hopen side]
    cases side <;> rfl

theorem LinkSlot.closeSide (side : Bool) :
    LinkSlot (link.after (.closed channel side))
      (if side then slot.closeServer else slot.closeClient).maybeFree := by
  refine (h.narrow ?_ (fun other hshut => ?_) (fun other _ hopen hshut => ?_) ?_).maybeFree
  · cases side with
    | false => exact .closeClient slot
    | true => exact (Narrows.refl slot).closeServer
  · rw [update_apply] at hshut
    split at hshut
    · cases hshut
    · exact hshut
  · rw [update_of_ne _ _ _]
    · exact hshut
    · rintro rfl
      cases other <;> cases hopen
  · intro other hmark _ hopen hshut
    cases side <;> cases other
    · cases hshut
    · exact (if_pos (hmark.resolve_left nofun)).trans hopen
    · exact hopen
    · cases hshut

theorem LinkSlot.cancel (hclient : slot.clientOpen) (haccepted : slot.accepted = false) :
    LinkSlot link slot.closeServer := by
  refine ⟨h.narrow (Narrows.refl slot).closeServer (fun _ => id) (fun _ _ _ => id) ?_,
    fun _ => ⟨false, hclient⟩⟩
  rintro side (rfl | hmark) - hopen -
  · exact hopen
  · rw [haccepted] at hmark
    cases hmark

theorem LinkSlot.exit (pid : ProcessId) :
    LinkSlot (link.after (.exited pid)) (slot.release pid) := by
  have hmono : ∀ side, (link.shut side || decide (link.party side = pid)) = false →
      link.shut side = false := fun side hshut => (Bool.or_eq_false_iff.mp hshut).1
  rw [ChannelSlot.release]
  split
  · next hidle =>
    refine ⟨h.narrow (.refl slot) hmono (fun side hact => ?_) (fun _ _ _ hopen _ => hopen),
      h.someOpen⟩
    rw [hidle] at hact
    cases hact
  refine (h.narrow ?_ hmono (fun side hact hopen hshut => ?_) fun side hmark hact hopen hshut =>
    ?_).maybeFree
  · split <;> split
    · exact (Narrows.closeClient slot).closeServer
    · exact .closeClient slot
    · exact (Narrows.refl slot).closeServer
    · exact .refl slot
  · rw [hshut, Bool.false_or, ← h.parties hact, decide_eq_false_iff_not]
    intro hparty
    cases side with
    | false =>
      have hclient : slot.clientPid = pid := hparty
      rw [if_pos hclient] at hopen
      split at hopen <;> cases hopen
    | true =>
      have hserver : (if slot.clientPid = pid then slot.closeClient else slot).serverPid =
          pid := by
        split <;> exact hparty
      rw [if_pos hserver] at hopen
      cases hopen
  · have hother : slot.pidAt side ≠ pid := by
      rw [h.parties hact]
      exact of_decide_eq_false (Bool.or_eq_false_iff.mp hshut).2
    cases side with
    | false =>
      have hclient : slot.clientPid ≠ pid := hother
      rw [if_neg hclient]
      split <;> exact hopen
    | true =>
      have hserver : (if slot.clientPid = pid then slot.closeClient else slot).serverPid ≠
          pid := by
        split <;> exact hother
      rw [if_neg hserver]
      split
      · exact (if_pos (hmark.resolve_left Bool.noConfusion)).trans hopen
      · exact hopen

end

/-! ## All slots -/

def Event.Issues (handle : Handle) (channel : Fin maxChannels) (side : Bool) (pid : ProcessId) :
    Event → Prop
  | .connected slot _ client _ issued =>
    issued = handle ∧ slot = channel ∧ side = false ∧ client = pid
  | .accepted slot _ server issued =>
    issued = handle ∧ slot = channel ∧ side = true ∧ server = pid
  | _ => False

structure Names (link : Link) (handle : Handle) (channel : Fin maxChannels) (side : Bool) :
    Prop where
  kind : kindField handle = Kind.channel.code
  index : decodeIndex handle maxChannels = some channel
  isSide : sideField handle = side
  accepted : side = false ∨ link.accepted = true
  used : link.incarnation ≠ 0
  generation : link.incarnation ≤ maximumGeneration → generationField handle = link.incarnation

theorem names_encode (haccepted : side = false ∨ link.accepted = true)
    (hused : link.incarnation ≠ 0) {generation : ℕ}
    (hgen : link.incarnation ≤ maximumGeneration → generation = link.incarnation) :
    Names link (encode .channel side channel generation) channel side := by
  have hidx : (channel : ℕ) < 2 ^ 8 - 1 := lt_trans channel.isLt (by decide)
  refine ⟨kindField_encode hidx, decodeIndex_encode channel.isLt (by decide),
    sideField_encode hidx, haccepted, hused, fun hle => ?_⟩
  rw [hgen hle]
  exact generationField_encode hidx (lt_of_le_of_lt hle (by decide))

/-- A handle names the channel it was issued for, and the side of the process that got it. -/
def Faithful (history : List Event) : Prop :=
  ∀ later event earlier handle channel side pid, history = later ++ event :: earlier →
    event.Issues handle channel side pid →
    Names (linkTo (event :: earlier) channel) handle channel side ∧
      (linkTo (event :: earlier) channel).party side = pid

structure Linked (world : World) (history : List Event) : Prop where
  blank : world.initialized = false → world = {}
  slots : ∀ channel, LinkSlot (linkTo history channel) (world.channels channel)
  faithful : Faithful history

theorem Faithful.cons (h : Faithful history) (hevent : ∀ handle channel side pid,
    event.Issues handle channel side pid →
    Names (linkTo (event :: history) channel) handle channel side ∧
      (linkTo (event :: history) channel).party side = pid) : Faithful (event :: history) := by
  intro later event' earlier handle channel side pid heq hissues
  cases later with
  | nil =>
    cases heq
    exact hevent handle channel side pid hissues
  | cons _ rest =>
    cases heq
    exact h rest event' earlier handle channel side pid rfl hissues

theorem Faithful.skip (h : Faithful history)
    (hevent : ∀ handle channel side pid, ¬ event.Issues handle channel side pid) :
    Faithful (event :: history) :=
  h.cons fun handle channel side pid hissues => absurd hissues (hevent handle channel side pid)

theorem blank_of_initialized (h : next.initialized) :
    next.initialized = false → next = {} := fun hblank => by
  rw [h] at hblank
  cases hblank

theorem Linked.setChannel (h : Linked world history)
    (hslot : LinkSlot ((linkTo history channel).after event) slot)
    (hevent : ∀ other, event.concerns other = decide (channel = other)) (other : Fin maxChannels) :
    LinkSlot (linkTo (event :: history) other)
      ((world.setChannel channel slot).channels other) := by
  rw [setChannel_channels]
  split
  · next heq =>
    rw [heq, linkTo_of_concerns ((hevent channel).trans (decide_eq_true rfl))]
    exact hslot
  · next hne =>
    rw [linkTo_of_not_concerns ((hevent other).trans (decide_eq_false (Ne.symm hne)))]
    exact h.slots other

theorem Linked.step (h : Linked world history) {event : Option Event}
    (hstep : Step world event next) : Linked next (event.toList ++ history) := by
  cases hstep with
  | same => exact h
  | started hblank =>
    have hworld := h.blank hblank
    refine ⟨nofun, fun channel => ?_, h.faithful⟩
    have hslot := h.slots channel
    rw [hworld] at hslot
    exact hslot
  | compacted _ _ hinit => exact ⟨blank_of_initialized hinit, h.slots, h.faithful⟩
  | bound _ _ hinit =>
    exact ⟨blank_of_initialized hinit, h.slots, h.faithful.skip fun _ _ _ _ => id⟩
  | connected channel endpoint client _ hinit =>
    have hslot := (h.slots channel).connect channel (world.endpoints endpoint).name client
      (world.endpoints endpoint).ownerPid
      (encode .channel false channel (nextGeneration (world.channels channel).generation))
    refine ⟨blank_of_initialized hinit, h.setChannel hslot fun _ => rfl, h.faithful.cons ?_⟩
    rintro _ _ _ _ ⟨rfl, rfl, rfl, rfl⟩
    rw [linkTo_of_concerns (by exact decide_eq_true rfl)]
    exact ⟨names_encode (.inl rfl) (Nat.succ_ne_zero _) hslot.generation, rfl⟩
  | accepted channel endpoint _ hinit _ hpend =>
    obtain ⟨-, hact, -, hclient, hserver, howner⟩ := mem_livePending (hpend ▸ mem_cons_self)
    have hslot := (h.slots channel).accept hact fun side => by
      cases side with
      | false => exact hclient
      | true => exact hserver
    refine ⟨blank_of_initialized hinit, h.setChannel hslot fun _ => rfl, h.faithful.cons ?_⟩
    rintro _ _ _ _ ⟨rfl, rfl, rfl, rfl⟩
    rw [linkTo_of_concerns (by exact decide_eq_true rfl)]
    refine ⟨names_encode (.inr rfl) ?_ hslot.generation, ?_⟩
    · exact (h.slots channel).used hact
    · exact ((h.slots channel).parties hact true).symm.trans howner
  | sent channel _ _ _ hinit hact _ hqueue =>
    exact ⟨blank_of_initialized hinit,
      h.setChannel ((h.slots channel).send hact hqueue) fun _ => rfl,
      h.faithful.skip fun _ _ _ _ => id⟩
  | received channel _ _ _ hinit hact _ hqueue =>
    exact ⟨blank_of_initialized hinit,
      h.setChannel ((h.slots channel).receive hact hqueue) fun _ => rfl,
      h.faithful.skip fun _ _ _ _ => id⟩
  | closed channel side hinit =>
    exact ⟨blank_of_initialized hinit,
      h.setChannel ((h.slots channel).closeSide side) fun _ => rfl,
      h.faithful.skip fun _ _ _ _ => id⟩
  | unbound endpoint hinit =>
    obtain ⟨hinit', -, -, hchans⟩ := closeEndpoint_spec world endpoint
    refine ⟨blank_of_initialized (hinit'.trans hinit), fun channel => ?_,
      h.faithful.skip fun _ _ _ _ => id⟩
    rw [hchans]
    split
    · next hlive =>
      obtain ⟨-, -, haccepted, hclient, -⟩ := mem_livePending hlive
      exact (h.slots channel).cancel hclient haccepted
    · exact h.slots channel
  | exited pid hinit hpid =>
    obtain ⟨hinit', -, hchans⟩ := releaseProcess_spec hinit hpid
    refine ⟨blank_of_initialized hinit', fun channel => ?_, h.faithful.skip fun _ _ _ _ => id⟩
    rw [hchans]
    exact (h.slots channel).exit pid

theorem run_linked (requests : List Request) : Linked (run requests).1 (run requests).2 := by
  refine run_induction ⟨fun _ => rfl, fun channel => ?_, ?_⟩
    (fun world history event next h hstep => h.step hstep) requests
  · refine ⟨⟨nofun, fun _ => prefix_rfl, nofun, nofun, fun side hopen => ?_, ?_, nofun,
      fun _ => rfl⟩, nofun⟩
    · cases side <;> cases hopen
    · exact fun _ _ hused => absurd rfl hused
  · intro later event earlier handle channel side pid heq
    exact absurd heq (by simp)

/-! ## Calls on a channel -/

theorem LinkSlot.undelivered_eq (h : LinkSlot link slot) (hact : slot.active) (side : Bool) :
    link.undelivered side = (slot.queueFrom side).contents := by
  rw [Link.undelivered, h.conserved hact, drop_left]

theorem Linked.initialized_of_active (h : Linked world history)
    (hact : (world.channels channel).active) : world.initialized := by
  by_contra hblank
  rw [h.blank (by simpa using hblank)] at hact
  cases hact

section

variable (h : Linked world history) (hdec : world.decodeChannel pid handle = .ok (channel, side))
  (hpid : pid ≠ invalidProcessId)
include h hdec hpid

/-- Messages are received in order, also those of a side that has closed. -/
theorem Linked.receive_eq :
    (receive world pid handle).1 =
      match (linkTo history channel).undelivered (!side) with
      | message :: _ => .ok message
      | [] => .error (if (world.channels channel).openAt (!side) then .wouldBlock
          else .peerClosed) := by
  obtain ⟨-, -, -, hact, -⟩ := decodeChannel_eq_ok hdec
  rw [(h.slots channel).undelivered_eq hact, receive,
    if_neg (by simp [h.initialized_of_active hact]), if_neg hpid, hdec]
  dsimp only
  by_cases hcount : ((world.channels channel).queueFrom (!side)).count = 0
  · rw [popMessage, dif_pos hcount, Ring.contents_eq_nil.mpr hcount]
    dsimp only
    split <;> rfl
  · rw [popMessage, dif_neg hcount, Ring.contents_pop {} hcount]

/-- A full queue blocks the sender, unless the peer has closed. -/
theorem Linked.send_eq {bytes : List UInt8} (hbytes : bytes.length ≤ maxMessageSize) :
    (send world pid handle bytes).1 =
      if (world.channels channel).openAt (!side) = false then .error .peerClosed
      else if ((linkTo history channel).undelivered side).length = maxMessagesPerDirection then
        .error .wouldBlock
      else .ok () := by
  obtain ⟨-, -, -, hact, -⟩ := decodeChannel_eq_ok hdec
  rw [(h.slots channel).undelivered_eq hact, send,
    if_neg (by simp [h.initialized_of_active hact]), if_neg (by simp [hpid, hbytes]), hdec,
    Ring.length_contents]
  dsimp only
  split
  · rfl
  have hle := ((world.channels channel).queueFrom side).count_le
  rw [pushMessage]
  by_cases hfull : ((world.channels channel).queueFrom side).count ≥ maxMessagesPerDirection
  · rw [dif_pos hfull, if_pos (le_antisymm hle hfull)]
  · rw [dif_neg hfull, if_neg fun heq => hfull heq.ge]

end

def Operates (world : World) (pid : ProcessId) (handle : Handle) : Prop :=
  (∃ bytes, (send world pid handle bytes).1 = .ok ()) ∨
    (∃ message, (receive world pid handle).1 = .ok message) ∨
    (close world pid handle).1 = .ok () ∧ kindField handle = Kind.channel.code

theorem Operates.decodeChannel (h : Operates world pid handle) :
    ∃ channel side, world.decodeChannel pid handle = .ok (channel, side) := by
  cases hdec : world.decodeChannel pid handle with
  | ok found => exact ⟨found.1, found.2, rfl⟩
  | error =>
    rcases h with ⟨_, hsend⟩ | ⟨_, hreceive⟩ | ⟨hclose, hkind⟩
    · rw [send, hdec] at hsend
      split_ifs at hsend
    · rw [receive, hdec] at hreceive
      split_ifs at hreceive
    have hend : kindField handle ≠ Kind.endpoint.code := by
      rw [hkind]
      decide
    rw [close, if_neg hend, hdec] at hclose
    split_ifs at hclose

section

variable (h : Linked world history)
include h

theorem Linked.at_side (hdec : world.decodeChannel pid handle = .ok (channel, side)) :
    decodeIndex handle maxChannels = some channel ∧ sideField handle = side ∧
      (linkTo history channel).party side = pid ∧ (linkTo history channel).shut side = false ∧
      ((linkTo history channel).incarnation ≤ maximumGeneration →
        generationField handle = (linkTo history channel).incarnation) := by
  obtain ⟨-, hidx, hside, hact, hgen, hpid, hopen⟩ := decodeChannel_eq_ok hdec
  have hslot := h.slots channel
  refine ⟨hidx, hside, ?_, (hslot.opens side hopen).2, fun hle => ?_⟩
  · rw [← hslot.parties hact, hpid]
  · rw [← hgen, hslot.generation hle]

/-- A handle works for the process it was issued to, until that process closes the side or
exits. -/
theorem Linked.decodeChannel_iff {later earlier : List Event} {owner : ProcessId}
    (hhistory : history = later ++ event :: earlier)
    (hissues : event.Issues handle channel side owner)
    (hreused : (linkTo history channel).incarnation ≤ maximumGeneration) :
    world.decodeChannel pid handle = .ok (channel, side) ↔
      pid = owner ∧ (linkTo history channel).incarnation =
        (linkTo (event :: earlier) channel).incarnation ∧
      (linkTo history channel).shut side = false := by
  obtain ⟨hnames, rfl⟩ := h.faithful later event earlier handle channel side owner hhistory hissues
  have hlater := linkTo_continues later (event :: earlier) channel
  rw [← hhistory] at hlater
  have hslot := h.slots channel
  have hgen := hnames.generation (hlater.incarnation.trans hreused)
  constructor
  · intro hdec
    obtain ⟨-, -, hparty, hshut, hgen'⟩ := h.at_side hdec
    have hsame := (hgen' hreused).symm.trans hgen
    exact ⟨by rw [← hparty, hlater.party hsame], hsame, hshut⟩
  · rintro ⟨rfl, hsame, hshut⟩
    have hopen := hslot.kept side (hnames.accepted.imp id (hlater.accepted hsame))
      (hsame ▸ hnames.used) hshut
    have hact := (hslot.opens side hopen).1
    have hvalid : ¬((world.channels channel).active = false ∨
        (world.channels channel).generation ≠ generationField handle) := by
      rw [hslot.generation hreused, hgen, hsame, hact]
      simp
    rw [World.decodeChannel, if_neg (not_not.mpr hnames.kind), hnames.index]
    dsimp only
    rw [hnames.isSide, if_neg hvalid, if_neg, if_neg (by simp [hopen])]
    rw [not_not, hslot.parties hact, hlater.party hsame]

end

/-- Channels are reliable links, by what the history says of the calls made so far. -/
structure Reliable (world : World) (history : List Event) : Prop where
  /-- What a side has received is an initial part of what the other side has sent. -/
  received : ∀ channel side,
    (linkTo history channel).received side <+: (linkTo history channel).sent side
  /-- A client, and the server of an accepted channel, keep their sides open until they close
  them or exit; what the other side does makes no difference. -/
  isOpen : ∀ channel side, side = false ∨ (linkTo history channel).accepted = true →
    (linkTo history channel).incarnation ≠ 0 →
    ((world.channels channel).openAt side = true ↔ (linkTo history channel).shut side = false)
  /-- Messages are received in order, and all of them before the peer is reported as closed. -/
  receive : ∀ pid handle channel side,
    world.decodeChannel pid handle = .ok (channel, side) → pid ≠ invalidProcessId →
    (Channel.receive world pid handle).1 =
      match (linkTo history channel).undelivered (!side) with
      | message :: _ => .ok message
      | [] => .error (if (world.channels channel).openAt (!side) then .wouldBlock else .peerClosed)
  /-- A full queue blocks the sender, unless the peer has closed. -/
  send : ∀ pid handle channel side bytes,
    world.decodeChannel pid handle = .ok (channel, side) → pid ≠ invalidProcessId →
    bytes.length ≤ maxMessageSize →
    (Channel.send world pid handle bytes).1 =
      if (world.channels channel).openAt (!side) = false then .error .peerClosed
      else if ((linkTo history channel).undelivered side).length = maxMessagesPerDirection then
        .error .wouldBlock
      else .ok ()
  /-- A handle that was handed out stands for its side as long as the channel is the same one
  and the side is not shut, and only for the process that got it. -/
  issued : ∀ later event earlier handle channel side owner pid,
    history = later ++ event :: earlier → event.Issues handle channel side owner →
    (linkTo history channel).incarnation ≤ maximumGeneration →
    (world.decodeChannel pid handle = .ok (channel, side) ↔
      pid = owner ∧ (linkTo history channel).incarnation =
        (linkTo (event :: earlier) channel).incarnation ∧
      (linkTo history channel).shut side = false)
  /-- Whatever number is used as a handle, it works only for the process at the side it names,
  and only if it carries the incarnation of the channel. -/
  operates : ∀ pid handle, Operates world pid handle → ∃ channel side,
    decodeIndex handle maxChannels = some channel ∧ sideField handle = side ∧
      (linkTo history channel).party side = pid ∧ (linkTo history channel).shut side = false ∧
      ((linkTo history channel).incarnation ≤ maximumGeneration →
        generationField handle = (linkTo history channel).incarnation)
  /-- A slot is free once both sides are shut. -/
  free : ∀ channel, (∀ side, (linkTo history channel).shut side = true) →
    (world.channels channel).active = false

/-- Process 2 connects to a service of process 1, which accepts; process 2 sends four messages
and process 1 closes its side. -/
def filledThenClosed : List Request :=
  [.initialized, .bind 1 [97] none, .connect 2 [97] none, .accept 1 (encode .endpoint false 0 1)] ++
    List.replicate maxMessagesPerDirection (.send 2 (encode .channel false 0 1) []) ++
    [.close 1 (encode .channel true 0 1)]

end Kurogane.Ipc.Channel
