/-
# Clients that share a stack

Several clients of one stack take turns. All of them use the one inbox of the stack, and
each of them polls the interface for itself, so that a poll may find a segment of another
client. Such a segment is dropped, or it stays in the inbox until the next poll writes over
it. The clients do not disturb each other if each poll finds a segment of the client that
polls, and no poll is made while a transmission waits.
-/

import Kurogane.Net.TcpSequence

namespace Kurogane.Net.TcpClient

open List

inductive SharedCall where
  | progress
  | tryReceive (capacity : ℕ)
  | send (data : List UInt8)

def SharedCall.toCall : SharedCall → Call
  | .progress => .progress
  | .tryReceive capacity => .tryReceive capacity
  | .send data => .send data

/-- A call on one of the clients, with what its polls find, how its transmissions end and
how long its loops last. -/
structure SharedRequest (ι : Type) where
  who : ι
  call : SharedCall
  polls : List Arrival := []
  transmits : List Status := []
  budgets : List ℕ := []

structure Shared (ι : Type) where
  clients : ι → Client
  inbox : Option TcpSegment := none

variable {ι : Type}

def SharedRequest.toRequest (request : SharedRequest ι) (inbox : Option TcpSegment) : Request :=
  ⟨request.call.toCall, inbox, request.polls, request.transmits, request.budgets⟩

def SharedRequest.perform (request : SharedRequest ι) (client : Client)
    (inbox : Option TcpSegment) : Link :=
  (request.toRequest inbox).step ⟨client, {}⟩

section

variable [DecidableEq ι]

def Shared.step (system : Shared ι) (request : SharedRequest ι) : Shared ι :=
  let link := request.perform (system.clients request.who) system.inbox
  ⟨Function.update system.clients request.who link.client, link.stack.inbox⟩

def Shared.run (system : Shared ι) (requests : List (SharedRequest ι)) : Shared ι :=
  requests.foldl Shared.step system

def framesFor (client : Client) (frames : List Arrival) : List Arrival :=
  frames.filter fun frame =>
    match frame with
    | .segment segment => segmentForClient client segment
    | _ => false

/-- The requests of one client if no other client polls: the frames for it that the others
would have polled are still there at its next call. -/
def alone (who : ι) (client : Client) :
    List Arrival → List (SharedRequest ι) → List (SharedRequest ι)
  | _, [] => []
  | waiting, request :: requests =>
    if request.who = who then
      { request with polls := waiting ++ request.polls } :: alone who client [] requests
    else alone who client (waiting ++ framesFor client request.polls) requests

end

/-! ## What the calls take from the inbox -/

/-- The inbox is empty, and no transmission is put off by a call that would poll meanwhile. -/
structure Quiet (mode : Mode) (stack : NetworkStack) : Prop where
  inbox : stack.inbox = none
  transmits : mode.waits → ∀ status ∈ stack.transmits, retryableTransmitStatus status = false

variable {stack : NetworkStack} {mode : Mode} {before after link : Link}

theorem poll_failed (hstat : stack.poll.1 ≠ .ok) :
    stack.poll.2.inbox = stack.inbox ∧ incoming stack.poll.2 = incoming stack := by
  obtain ⟨_, arrivals, _, _, _⟩ := stack
  cases arrivals with
  | nil => exact ⟨rfl, rfl⟩
  | cons arrival =>
    cases arrival with
    | segment => exact absurd rfl hstat
    | _ => exact ⟨rfl, rfl⟩

theorem transmits_poll (stack : NetworkStack) : stack.poll.2.transmits = stack.transmits := by
  rw [NetworkStack.poll]
  split <;> rfl

theorem Quiet.take (hquiet : Quiet mode link.stack) : Quiet mode (takeOrPollOne link).2.stack := by
  have hcases := takeOrPollOne_cases link
  generalize takeOrPollOne link = result at hcases ⊢
  cases hcases with
  | found => exact ⟨rfl, hquiet.transmits⟩
  | failed _ hinbox hpoll =>
    refine ⟨(poll_failed hpoll).1.trans hinbox, ?_⟩
    rw [transmits_poll]
    exact hquiet.transmits
  | polled =>
    refine ⟨rfl, ?_⟩
    change mode.waits → ∀ status ∈ link.stack.poll.2.transmits, _
    rw [transmits_poll]
    exact hquiet.transmits

theorem Quiet.sendTcp (hquiet : Quiet mode stack) (outgoing : Outgoing) :
    Quiet mode (stack.sendTcp outgoing).2 :=
  ⟨hquiet.inbox, fun hwaits status hstat =>
    hquiet.transmits hwaits status (mem_of_mem_tail hstat)⟩

theorem Quiet.sent (hquiet : Quiet mode stack) (hwaits : mode.waits) (outgoing : Outgoing) :
    retryableTransmitStatus (stack.sendTcp outgoing).1 = false := by
  have htransmits := hquiet.transmits hwaits
  change retryableTransmitStatus (stack.transmits.headD .ok) = false
  generalize stack.transmits = transmits at htransmits
  cases transmits with
  | nil => rfl
  | cons status => exact htransmits status (mem_cons_self ..)

theorem Acts.quiet (hacts : Acts mode before after) (hquiet : Quiet mode before.stack) :
    Quiet mode after.stack := by
  rcases hacts with hmove | ⟨_, _, hdeliv⟩
  · cases hmove with
    | take => exact hquiet.take
    | wait _ hwaits hretry =>
      rw [hquiet.sent hwaits] at hretry
      cases hretry
    | refuse => exact hquiet.sendTcp _
    | transmit => exact hquiet.sendTcp _
    | finish => exact hquiet.sendTcp _
    | hear _ _ htaken =>
      have htake := hquiet.take
      rw [htaken] at htake
      exact htake
    | budget => exact ⟨hquiet.inbox, hquiet.transmits⟩
    | _ => exact hquiet
  · rw [(deliverPending_some hdeliv).2]
    exact hquiet.sendTcp _

/-- With an empty inbox, the client looks at the first segment among the frames, or at none. -/
theorem takeOrPollOne_first (hinbox : link.stack.inbox = none) :
    incoming (takeOrPollOne link).2.stack = incoming link.stack ∧
        (∀ segment, (takeOrPollOne link).1 ≠ .ok segment) ∨
      ∃ segment, incoming link.stack = segment :: incoming (takeOrPollOne link).2.stack ∧
        (takeOrPollOne link).1 = ownSegment link.client (some segment) := by
  have hcases := takeOrPollOne_cases link
  generalize takeOrPollOne link = result at hcases ⊢
  cases hcases with
  | found _ hfound =>
    rw [hinbox] at hfound
    cases hfound
  | failed _ _ hpoll => exact .inl ⟨(poll_failed hpoll).2, by rintro _ ⟨⟩⟩
  | polled =>
    obtain ⟨client, _, arrivals, _, _, _⟩ := link
    cases hinbox
    cases arrivals with
    | nil => exact .inl ⟨rfl, by rintro _ ⟨⟩⟩
    | cons arrival =>
      cases arrival with
      | segment segment => exact .inr ⟨segment, rfl, rfl⟩
      | _ => exact .inl ⟨rfl, by rintro _ ⟨⟩⟩

/-- One moment of a call that throws no segment of the client away. The frames that are still to
come lose their first segment at most, and if that is for the client, the client has processed it
at this moment. Only a client that waits for an answer to its SYN may look at it first. -/
def Heeds (mode : Mode) (before after : Link) : Prop :=
  Acts mode before after ∧
    (incoming after.stack = incoming before.stack ∨
      ∃ segment, incoming before.stack = segment :: incoming after.stack ∧
        (segmentForClient before.client segment →
          after.client = (absorb before.client segment).2 ∨ before.client.state = .synSent))

theorem Acts.heeds (hacts : Acts mode before after) (hquiet : Quiet mode before.stack) :
    Heeds mode before after := by
  refine ⟨hacts, ?_⟩
  have hfirst := takeOrPollOne_first hquiet.inbox
  rcases hacts with hmove | ⟨_, _, hdeliv⟩
  · cases hmove with
    | take hkept =>
      refine hfirst.imp And.left fun ⟨segment, hleft, hown⟩ => ⟨segment, hleft, fun hfor => ?_⟩
      exact .inr (hkept segment (hown.trans (if_pos hfor)))
    | wait _ hwaits hretry =>
      rw [hquiet.sent hwaits] at hretry
      cases hretry
    | hear _ segment htaken =>
      rw [htaken] at hfirst
      rcases hfirst with ⟨_, hnone⟩ | ⟨first, hleft, hown⟩
      · exact absurd rfl (hnone segment)
      · cases (ownSegment_ok hown.symm).1
        exact .inr ⟨segment, hleft, fun _ => .inl rfl⟩
    | _ => exact .inl rfl
  · rw [(deliverPending_some hdeliv).2]
    exact .inl rfl

theorem heeds_of_acts (hacts : Relation.ReflTransGen (Acts mode) before after)
    (hquiet : Quiet mode before.stack) :
    Relation.ReflTransGen (Heeds mode) before after ∧ Quiet mode after.stack := by
  induction hacts with
  | refl => exact ⟨.refl, hquiet⟩
  | tail _ hact ih => exact ⟨ih.1.tail (hact.heeds ih.2), hact.quiet ih.2⟩

/-! ## Clients that do not disturb each other -/

/-- A request whose polls find segments of its own client only, and whose data is queued at
the first attempt. -/
structure SharedRequest.Undisturbing (clients : ι → Client) (request : SharedRequest ι) : Prop where
  own : ∀ segment, .segment segment ∈ request.polls →
    segmentForClient (clients request.who) segment = true
  queued : ∀ data, request.call = .send data →
    ∀ status ∈ request.transmits, retryableTransmitStatus status = false

def Reached (client : Client) : Prop := ∃ requests, (session requests).client = client

/-- What a call of a client keeps, whatever went over the wire before. -/
structure SafeClient (client : Client) : Prop where
  safe : Safe ⟨client, {}⟩
  fits : Fits client

variable {client : Client}

theorem Reached.safe (hreached : Reached client) : SafeClient client := by
  obtain ⟨requests, rfl⟩ := hreached
  obtain ⟨hsafe, hfits⟩ := session_safe requests
  exact ⟨hsafe.fresh, hfits⟩

theorem SafeClient.perform (hclient : SafeClient client) (request : SharedRequest ι)
    (inbox : Option TcpSegment) : SafeClient (request.perform client inbox).client := by
  obtain ⟨hsafe, hfits⟩ := (request.toRequest inbox).step_safe hclient.safe hclient.fits
  exact ⟨hsafe.fresh, hfits⟩

variable {clients : ι → Client} {request : SharedRequest ι}

/-- Every segment for the client that a call takes is processed by the client. -/
def SharedRequest.Heeded (request : SharedRequest ι) (client : Client) : Prop :=
  ∃ mode, Relation.ReflTransGen (Heeds mode) ((request.toRequest none).prepare ⟨client, {}⟩)
    (request.perform client none)

theorem perform_heeded (hreq : request.Undisturbing clients) (hclient : SafeClient client) :
    request.Heeded client ∧ (request.perform client none).stack.inbox = none := by
  obtain ⟨mode, hacts, hquiet⟩ : ∃ mode, Relation.ReflTransGen (Acts mode)
      ((request.toRequest none).prepare ⟨client, {}⟩) (request.perform client none) ∧
      Quiet mode ((request.toRequest none).prepare ⟨client, {}⟩).stack := by
    obtain ⟨_, call, polls, transmits, budgets⟩ := request
    cases call with
    | progress =>
      exact ⟨⟨false, false, true⟩, (progress_moves fun _ => rfl).acts, rfl, by rintro ⟨⟩⟩
    | tryReceive capacity =>
      obtain ⟨_, hmoves, hdeliv⟩ := tryReceive_cases ⟨false, false, true⟩
        ⟨client, ⟨none, polls, transmits, budgets, []⟩⟩ capacity fun _ => rfl
      exact ⟨_, hmoves.acts.trans hdeliv.acts, rfl, by rintro ⟨⟩⟩
    | send data =>
      have hsent : Moves ⟨true, true, false⟩ _ _ ∧ _ :=
        send_spec rfl rfl ⟨client, ⟨none, polls, transmits, budgets, []⟩⟩ data hclient.fits
      exact ⟨_, hsent.1.acts, rfl, fun _ => hreq.queued data rfl⟩
  obtain ⟨hheeds, hquiet⟩ := heeds_of_acts hacts hquiet
  exact ⟨⟨mode, hheeds⟩, hquiet.inbox⟩

variable {system : Shared ι} {who : ι} {requests : List (SharedRequest ι)}

/-! ## Runs -/

section

variable [DecidableEq ι]

theorem clients_step_self (system : Shared ι) (request : SharedRequest ι) :
    (system.step request).clients request.who =
      (request.perform (system.clients request.who) system.inbox).client :=
  Function.update_self ..

theorem clients_step_other
    (hother : request.who ≠ who) : (system.step request).clients who = system.clients who :=
  Function.update_of_ne hother.symm ..

/-- The calls find the inbox empty, and leave it so. -/
structure Shared.Clear (system : Shared ι) : Prop where
  inbox : system.inbox = none
  clients : ∀ who, SafeClient (system.clients who)

theorem Shared.Clear.step (hclear : system.Clear) (hreq : request.Undisturbing clients) :
    (system.step request).Clear := by
  refine ⟨?_, fun who => ?_⟩
  · change (request.perform (system.clients request.who) system.inbox).stack.inbox = none
    rw [hclear.inbox]
    exact (perform_heeded hreq (hclear.clients request.who)).2
  by_cases hwho : request.who = who
  · rw [← hwho, clients_step_self]
    exact (hclear.clients request.who).perform request system.inbox
  · rw [clients_step_other hwho]
    exact hclear.clients who

theorem Shared.Clear.run (hclear : system.Clear)
    (hreqs : ∀ request ∈ requests, request.Undisturbing clients) : (system.run requests).Clear := by
  induction requests generalizing system with
  | nil => exact hclear
  | cons _ _ ih =>
    rw [forall_mem_cons] at hreqs
    exact ih (hclear.step hreqs.1) hreqs.2

section

variable (hports : Pairwise fun first second =>
  ((clients first).localPort, (clients first).remotePort) ≠
    ((clients second).localPort, (clients second).remotePort))
include hports

omit [DecidableEq ι] in
theorem framesFor_other (hreq : request.Undisturbing clients) (hother : request.who ≠ who) :
    framesFor (clients who) request.polls = [] := by
  refine filter_eq_nil_iff.mpr fun frame hframe => ?_
  cases frame with
  | nothing => exact Bool.false_ne_true
  | other => exact Bool.false_ne_true
  | segment segment =>
    intro hfor
    have hown := hreq.own segment hframe
    simp only [segmentForClient, decide_eq_true_eq] at hown hfor
    refine hports hother ?_
    rw [← hown.2.1, ← hown.2.2, hfor.2.1, hfor.2.2]

/-- A client whose frames only its own calls poll is alone with its own requests. -/
theorem alone_eq_filter (hreqs : ∀ request ∈ requests, request.Undisturbing clients) :
    alone who (clients who) [] requests = requests.filter fun request => request.who = who := by
  induction requests with
  | nil => rfl
  | cons _ _ ih =>
    rw [forall_mem_cons] at hreqs
    have hrest := ih hreqs.2
    rw [alone]
    split
    next hwho =>
      rw [filter_cons_of_pos (by simpa using hwho), hrest]
      rfl
    rename_i hwho
    rw [filter_cons_of_neg (by simpa using hwho), framesFor_other hports hreqs.1 hwho, ← hrest]
    rfl

end

/-- Two systems that agree on a client keep agreeing if one of them skips the requests of
the others. -/
theorem run_filter {first second : Shared ι} (hfirst : first.Clear) (hsnd : second.Clear)
    (hsame : first.clients who = second.clients who)
    (hreqs : ∀ request ∈ requests, request.Undisturbing clients) :
    (first.run requests).clients who =
      (second.run (requests.filter fun request => request.who = who)).clients who := by
  induction requests generalizing first second with
  | nil => exact hsame
  | cons request _ ih =>
    rw [forall_mem_cons] at hreqs
    by_cases hwho : request.who = who
    · rw [filter_cons_of_pos (by simpa using hwho)]
      refine ih (hfirst.step hreqs.1) (hsnd.step hreqs.1) ?_ hreqs.2
      subst hwho
      rw [clients_step_self, clients_step_self, hsame, hfirst.inbox, hsnd.inbox]
    · rw [filter_cons_of_neg (by simpa using hwho)]
      exact ih (hfirst.step hreqs.1) hsnd ((clients_step_other hwho).trans hsame) hreqs.2

/-- Clients with different ports on one stack do not lose segments to each other, if the
inbox is empty, each poll of a client finds a segment of that client, and `send` queues its
data at the first attempt: each call processes the segments that it takes, and each client
reaches the state that it reaches alone. -/
theorem clients_independent (system : Shared ι) (hinbox : system.inbox = none)
    (hclients : ∀ who, Reached (system.clients who))
    (hports : Pairwise fun first second =>
      ((system.clients first).localPort, (system.clients first).remotePort) ≠
        ((system.clients second).localPort, (system.clients second).remotePort))
    (requests : List (SharedRequest ι))
    (hrequests : ∀ request ∈ requests, request.Undisturbing system.clients) :
    (∀ earlier request, earlier ++ [request] <+: requests →
        (system.run earlier).inbox = none ∧
          request.Heeded ((system.run earlier).clients request.who)) ∧
      (system.run requests).inbox = none ∧
      ∀ who, (system.run requests).clients who =
        (system.run (alone who (system.clients who) [] requests)).clients who := by
  have hclear : system.Clear := ⟨hinbox, fun who => (hclients who).safe⟩
  refine ⟨fun earlier request hfirst => ?_, (hclear.run hrequests).inbox, fun who => ?_⟩
  · have hpolled := fun other hother => hrequests other (hfirst.subset hother)
    rw [forall_mem_append, forall_mem_singleton] at hpolled
    have hthen := hclear.run hpolled.1
    exact ⟨hthen.inbox, (perform_heeded hpolled.2 (hthen.clients request.who)).1⟩
  · rw [alone_eq_filter hports hrequests]
    exact run_filter hclear hclear rfl hrequests

end

def dialing (localPort : ℕ) : Request where
  call := .connect 1 localPort 80 7
  arrivals := [.segment
    ⟨1, 80, localPort, 100, 8, { syn := true, ack := true }, 500, [], nil_fits⟩]
  budgets := [1, 1]

/-- Two clients that were connected one after the other. -/
def dialed : Shared Bool where
  clients who := (session [dialing (if who then 2 else 3)]).client

def byteForSecond : Arrival :=
  .segment ⟨1, 80, 3, 101, 8, { psh := true, ack := true }, 500, [65], by decide⟩

theorem dialed_ports : Pairwise fun first second =>
    ((dialed.clients first).localPort, (dialed.clients first).remotePort) ≠
      ((dialed.clients second).localPort, (dialed.clients second).remotePort) := by
  intro first second hother
  cases first <;> cases second
  · exact absurd rfl hother
  · decide +kernel
  · decide +kernel
  · exact absurd rfl hother

def secondPolls : List (SharedRequest Bool) :=
  [⟨true, .progress, [], [], []⟩, ⟨false, .tryReceive 10, [byteForSecond], [], []⟩]

def firstPolls : List (SharedRequest Bool) :=
  [⟨true, .progress, [byteForSecond], [], []⟩, ⟨false, .tryReceive 10, [], [], []⟩]

theorem dialed_independent :
    (∀ earlier request, earlier ++ [request] <+: secondPolls →
        (dialed.run earlier).inbox = none ∧
          request.Heeded ((dialed.run earlier).clients request.who)) ∧
      (dialed.run secondPolls).inbox = none ∧
      ∀ who, (dialed.run secondPolls).clients who =
        (dialed.run (alone who (dialed.clients who) [] secondPolls)).clients who := by
  refine clients_independent dialed rfl (fun who => ⟨_, rfl⟩) dialed_ports _ ?_
  rw [secondPolls, forall_mem_cons, forall_mem_singleton]
  refine ⟨⟨?_, ?_⟩, ?_, ?_⟩
  · simp
  · rintro data ⟨⟩
  · intro segment hsegment
    rw [mem_singleton] at hsegment
    cases hsegment
    decide +kernel
  · rintro _ ⟨⟩

/-- If the first client polls at the wrong time, the byte is lost. -/
theorem dialed_loses :
    (dialed.run firstPolls).inbox = none ∧
      ((dialed.run firstPolls).clients false).receiveNext = 101 ∧
      ((dialed.run (alone false (dialed.clients false) [] firstPolls)).clients false).receiveNext =
        102 := by
  refine ⟨rfl, ?_, ?_⟩
  · decide +kernel
  · decide +kernel

end Kurogane.Net.TcpClient
