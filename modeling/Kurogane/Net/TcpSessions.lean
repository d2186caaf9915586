/-
# Sessions of a TCP client

A session is any sequence of calls on one client. Between two calls everything around the
client may change: what is in the inbox, which frames arrive, how transmissions end and how
long the loops last.

The wire of a connection begins when it is opened. What holds of a client and its wire after
every session follows from what each move keeps.
-/

import Kurogane.Net.TcpSend

namespace Kurogane.Net.TcpClient

inductive Call where
  | beginConnect (peer : IPv4Address) (localPort remotePort : ℕ) (initialSequence : Sequence)
  | progress
  | trySend (data : List UInt8)
  | tryReceive (capacity : ℕ)
  | beginClose
  | connect (peer : IPv4Address) (localPort remotePort : ℕ) (initialSequence : Sequence)
  | send (data : List UInt8)
  | receive (capacity : ℕ)
  | close

def Call.perform (link : Link) : Call → Link
  | .beginConnect peer localPort remotePort initialSequence =>
    (TcpClient.beginConnect link peer localPort remotePort initialSequence).2
  | .progress => (TcpClient.progress link).2
  | .trySend data => (TcpClient.trySend link data).2.2
  | .tryReceive capacity => (TcpClient.tryReceive link capacity).2.2
  | .beginClose => (TcpClient.beginClose link).2
  | .connect peer localPort remotePort initialSequence =>
    (TcpClient.connect link peer localPort remotePort initialSequence).2
  | .send data => (TcpClient.send link data).2
  | .receive capacity => (TcpClient.receive link capacity).2.2
  | .close => (TcpClient.close link).2

def Call.opening : Call → Option Client
  | .beginConnect peer localPort remotePort initialSequence
  | .connect peer localPort remotePort initialSequence =>
    if peer = 0 ∨ localPort = 0 ∨ remotePort = 0 then none
    else some (Client.opening peer localPort remotePort initialSequence)
  | _ => none

/-- A call and what it meets. -/
structure Request where
  call : Call
  inbox : Option TcpSegment := none
  arrivals : List Arrival := []
  transmits : List Status := []
  budgets : List ℕ := []

def Request.prepare (request : Request) (link : Link) : Link :=
  ⟨link.client, ⟨request.inbox, request.arrivals, request.transmits, request.budgets,
    if request.call.opening.isSome then [] else link.stack.wire⟩⟩

def Request.step (link : Link) (request : Request) : Link :=
  request.call.perform (request.prepare link)

def Link.initial : Link := ⟨.initial, {}⟩

def session (requests : List Request) : Link := requests.foldl Request.step .initial

theorem session_append (requests : List Request) (request : Request) :
    session (requests ++ [request]) = request.step (session requests) :=
  List.foldl_concat ..

/-- Where a call begins, for a call that opens a connection after it has set the client up. -/
def Request.begin (request : Request) (link : Link) : Link :=
  match request.call.opening with
  | none => request.prepare link
  | some client => ⟨client, (request.prepare link).stack.takeTcpSegment.2⟩

/-! ## What every move keeps -/

/-- After a FIN the client is here until the connection is gone. -/
def Closing (client : Client) : Prop :=
  client.state = .finWait1 ∨ client.state = .error ∨ client.state = .reset ∨
    client.state = .closed

/-- After a FIN there is neither another one nor data. The newest segment is the first. -/
def Orderly : List Outgoing → Prop
  | [] => True
  | outgoing :: wire =>
    ((∃ earlier ∈ wire, earlier.flags.fin = true) →
      outgoing.flags.fin = false ∧ outgoing.payload = []) ∧ Orderly wire

structure Safe (link : Link) : Prop where
  connected : link.client.connected →
    link.client.attached ∧ link.client.state ≠ .closed ∧ link.client.state ≠ .synSent
  attached : link.client.state = .synSent → link.client.attached
  inFlight : inFlight link.client < 2 ^ 16 + maxSegmentPayload
  closing : (∃ outgoing ∈ link.stack.wire, outgoing.flags.fin) → Closing link.client
  orderly : Orderly link.stack.wire

variable {client : Client}

theorem Talking.not_closing (htalking : Talking client) : ¬ Closing client := by
  rcases htalking with hstate | hstate <;> simp [Closing, hstate]

namespace Safe

variable {link : Link}

section

variable (hsafe : Safe link)
include hsafe

theorem setStack {stack : NetworkStack} (hwire : stack.wire = link.stack.wire) :
    Safe { link with stack } := by
  refine { hsafe with closing := ?_, orderly := ?_ }
  · rw [hwire]
    exact hsafe.closing
  · rw [hwire]
    exact hsafe.orderly

theorem fresh : Safe ⟨link.client, {}⟩ :=
  { hsafe with closing := by simp, orderly := trivial }

theorem sendTcp {outgoing : Outgoing} (hfin : outgoing.flags.fin = false)
    (hload : outgoing.payload ≠ [] → Talking link.client) :
    Safe { link with stack := (link.stack.sendTcp outgoing).2 } := by
  by_cases hsent : (link.stack.sendTcp outgoing).1 = .ok
  · have hwire := wire_sent hsent
    refine { hsafe with closing := ?_, orderly := ?_ }
    · rintro ⟨earlier, hearlier, hearlierfin⟩
      rw [hwire] at hearlier
      rcases List.mem_cons.mp hearlier with rfl | hearlier
      · rw [hfin] at hearlierfin
        cases hearlierfin
      · exact hsafe.closing ⟨earlier, hearlier, hearlierfin⟩
    rw [hwire]
    refine ⟨fun hearlier => ⟨hfin, ?_⟩, hsafe.orderly⟩
    -- Data is sent while the client talks, and it does not after a FIN.
    by_contra hdata
    exact (hload hdata).not_closing (hsafe.closing hearlier)
  · exact hsafe.setStack (if_neg hsent)

theorem noFin (htalking : Talking link.client) :
    ¬ ∃ outgoing ∈ link.stack.wire, outgoing.flags.fin :=
  fun hfin => htalking.not_closing (hsafe.closing hfin)

theorem finish (hconn : link.client.connected) (htalking : Talking link.client)
    (hsettled : link.client.sendUnacknowledged = link.client.sendNext)
    (hsent : (link.stack.sendTcp (finSegment link.client)).1 = .ok) :
    Safe ⟨{ link.client with sendNext := link.client.sendNext + 1, state := .finWait1 },
      (link.stack.sendTcp (finSegment link.client)).2⟩ := by
  have hwire := wire_sent hsent
  refine ⟨fun _ => ⟨(hsafe.connected hconn).1, nofun, nofun⟩, nofun, ?_, fun _ => .inl rfl, ?_⟩
  · simp only [TcpClient.inFlight, hsettled]
    bv_omega
  · rw [hwire]
    exact ⟨fun hearlier => absurd hearlier (hsafe.noFin htalking), hsafe.orderly⟩

theorem setClient
    (hconn : client.connected → client.attached ∧ client.state ≠ .closed ∧ client.state ≠ .synSent)
    (hatt : client.state = .synSent → client.attached)
    (hflight : TcpClient.inFlight client < 2 ^ 16 + maxSegmentPayload)
    (hclosing : Closing link.client → Closing client) : Safe { link with client } :=
  ⟨hconn, hatt, hflight, fun hfin => hclosing (hsafe.closing hfin), hsafe.orderly⟩

theorem setNumbers (sendNext : Sequence)
    (hflight : TcpClient.inFlight { link.client with sendNext } < 2 ^ 16 + maxSegmentPayload) :
    Safe { link with client := { link.client with sendNext } } :=
  hsafe.setClient hsafe.connected hsafe.attached hflight id

theorem free : Safe { link with client := .initial } :=
  hsafe.setClient (nofun) (nofun) (by decide) fun _ => .inr (.inr (.inr rfl))

theorem small : TcpClient.inFlight link.client < 2 ^ 31 := by
  have hflight := hsafe.inFlight
  rw [maxSegmentPayload] at hflight
  omega

theorem hear (hhears : Hears link.client) (segment : TcpSegment) :
    Safe { link with client := (absorb link.client segment).2 } := by
  obtain ⟨_, hless⟩ := absorb_sends segment hsafe.small
  have hflight := hless.trans_lt hsafe.inFlight
  by_cases hreset : segment.flags.rst
  · rw [absorb_reset hreset] at hflight ⊢
    exact hsafe.setClient (by rintro ⟨⟩) (by rintro ⟨⟩) hflight fun _ => .inr (.inr (.inl rfl))
  have hreset' := Bool.eq_false_iff.mpr hreset
  have hrecv := absorb_received link.client hreset'
  obtain ⟨_, hconn, hstate, _⟩ := heardAck_fields link.client segment
  have hatt : (absorb link.client segment).2.attached = link.client.attached := by
    rw [hrecv.attached]
    rcases heardAck_cases link.client segment with hsame | ⟨_, _, hmoved⟩
    · rw [hsame]
    · rw [hmoved]
  have hmoved := hrecv.state
  rw [hstate] at hmoved
  refine hsafe.setClient (fun hopen => ?_) (fun hsyn => ?_) hflight fun hclosing => ?_
  · rw [hrecv.connected, hconn] at hopen
    obtain ⟨hstack, hclosed, hsyn⟩ := hsafe.connected hopen
    rw [hatt]
    rcases hmoved with hsame | ⟨_, hwait⟩
    · rw [hsame]
      exact ⟨hstack, hclosed, hsyn⟩
    · rw [hwait]
      exact ⟨hstack, by rintro ⟨⟩, by rintro ⟨⟩⟩
  · rw [hatt]
    rcases hmoved with hsame | ⟨_, hwait⟩
    · exact hsafe.attached (hsame ▸ hsyn)
    · rw [hwait] at hsyn
      cases hsyn
  -- A client that listens and is closing is in `FinWait1`, and stays there.
  have hfin : link.client.state = .finWait1 := by
    rcases hclosing with hfin | herror | hrst | hclosed
    · exact hfin
    · exact absurd herror hhears.error
    · exact absurd hrst hhears.reset
    · rcases hhears.opened with hopen | hopen
      · exact absurd hclosed (hsafe.connected hopen).2.1
      · exact absurd hclosed hopen.1
  exact .inl (absorb_finWait1 hreset' hfin)

end

end Safe

variable {before after : Link} {mode : Mode}

theorem Move.safe (hmove : Move mode before after) (hsafe : Safe before) : Safe after := by
  cases hmove with
  | budget => exact hsafe.setStack rfl
  | take =>
    have hclient := client_takeOrPollOne before
    have htaken := hsafe.setStack (wire_takeOrPollOne before)
    rw [← hclient] at htaken
    exact htaken
  | wait _ _ hretry => exact hsafe.setStack (wire_wait hretry)
  | refuse _ hrefused => exact hsafe.setStack (if_neg hrefused)
  | transmit _ hperm => exact hsafe.sendTcp hperm.fin hperm.payload
  | finish _ hconn hstate hsettled hsent => exact hsafe.finish hconn hstate hsettled hsent
  | hear _ segment htaken hhears =>
    have hwire := wire_takeOrPollOne before
    rw [htaken] at hwire
    exact (hsafe.hear hhears segment).setStack hwire
  | synchronize =>
    refine hsafe.setNumbers _ ?_
    simp only [inFlight, maxSegmentPayload]
    bv_omega
  | establish _ _ hstate hack =>
    refine hsafe.setClient (fun _ => ⟨hsafe.attached hstate, by rintro ⟨⟩, by rintro ⟨⟩⟩)
      (by rintro ⟨⟩) ?_ fun hclosing => ?_
    · simp [inFlight, hack, maxSegmentPayload]
    · simp [Closing, hstate] at hclosing
  | fail _ _ hstate hconn =>
    refine hsafe.setClient (fun hopen => ?_) (fun hsyn => ?_) hsafe.inFlight fun hclosing => ?_
    · obtain ⟨hatt, hclosed, hsyn⟩ := hsafe.connected (hconn hopen)
      refine ⟨hatt, ?_⟩
      rcases hstate with rfl | rfl | rfl
      · exact ⟨by rintro ⟨⟩, by rintro ⟨⟩⟩
      · exact ⟨by rintro ⟨⟩, by rintro ⟨⟩⟩
      · exact ⟨hclosed, hsyn⟩
    · rcases hstate with rfl | rfl | rfl
      · cases hsyn
      · cases hsyn
      · exact hsafe.attached hsyn
    rcases hstate with rfl | rfl | rfl
    · exact .inr (.inl rfl)
    · exact .inr (.inr (.inl rfl))
    · exact hclosing
  | free => exact hsafe.free
  | advance =>
    have hwindow := before.client.peerWindow.toNat_lt
    refine hsafe.setNumbers _ ?_
    rw [inFlight_advance (by omega), maxSegmentPayload]
    omega
  | commit _ _ hchunk =>
    refine hsafe.setNumbers _ ?_
    rw [maxSegmentPayload] at hchunk ⊢
    rw [inFlight_advance (by omega)]
    omega
  | rewind =>
    refine hsafe.setNumbers _ ?_
    simp [inFlight, maxSegmentPayload]

/-- Only `send` has more in flight for a while than fits into a window. -/
theorem Move.fits (hcommits : mode.commits = false) (hmove : Move mode before after)
    (hsafe : Safe before) (hfits : Fits before.client) : Fits after.client := by
  cases hmove with
  | take =>
    rw [client_takeOrPollOne]
    exact hfits
  | finish _ _ _ hsettled =>
    refine .inr ?_
    simp only [inFlight, hsettled]
    bv_omega
  | hear _ segment _ hhears =>
    have halive : ¬ Lost before.client := by
      simp [Lost, hhears.reset, hhears.error]
    exact .inr ((absorb_sends segment hsafe.small).2.trans_lt (hfits.resolve_left halive))
  | synchronize =>
    refine .inr ?_
    simp only [inFlight]
    bv_omega
  | establish _ _ _ hack =>
    refine .inr ?_
    simp [inFlight, hack]
  | fail _ _ hstate =>
    rcases hstate with rfl | rfl | rfl
    · exact .inl (.inl rfl)
    · exact .inl (.inr rfl)
    · exact hfits
  | free =>
    have hinitial : inFlight Client.initial < 2 ^ 16 := by decide
    exact .inr hinitial
  | advance =>
    have hwindow := before.client.peerWindow.toNat_lt
    refine .inr ?_
    rw [inFlight_advance (by omega)]
    omega
  | commit _ hcommit =>
    rw [hcommits] at hcommit
    cases hcommit
  | rewind hcommit =>
    rw [hcommits] at hcommit
    cases hcommit
  | _ => exact hfits

/-- The oldest unacknowledged number moves forward, and not beyond what was sent. -/
def Forward (before after : Client) : Prop :=
  (after.sendUnacknowledged - before.sendUnacknowledged).toNat ≤ inFlight before

theorem Forward.of_eq {before after : Client}
    (hsame : after.sendUnacknowledged = before.sendUnacknowledged) : Forward before after := by
  rw [Forward, hsame, BitVec.sub_self]
  exact Nat.zero_le _

theorem Move.forward (hmove : Move mode before after)
    (hsafe : Safe before) : after.client = .initial ∨ Forward before.client after.client := by
  cases hmove with
  | take => exact .inr (.of_eq (by rw [client_takeOrPollOne]))
  | hear _ segment =>
    by_cases hreset : segment.flags.rst
    · rw [absorb_reset hreset]
      exact .inr (.of_eq rfl)
    have hrecv := absorb_received before.client (Bool.eq_false_iff.mpr hreset)
    have hacked := heardAck_inFlight segment hsafe.small
    refine .inr ?_
    rw [Forward, hrecv.sendUnacknowledged]
    omega
  | establish _ _ _ hack =>
    refine .inr ?_
    rw [hack]
    exact le_rfl
  | free => exact .inl rfl
  | _ => exact .inr (.of_eq rfl)

/-! ## What every call keeps -/

/-- One moment of a call: a move, or bytes are handed out. -/
def Acts (mode : Mode) (before after : Link) : Prop :=
  Move mode before after ∨ ∃ capacity bytes, deliverPending before capacity = (some bytes, after)

section

variable {mode : Mode} {before after : Link}

theorem Moves.acts (hmoves : Moves mode before after) :
    Relation.ReflTransGen (Acts mode) before after := by
  induction hmoves with
  | refl => exact .refl
  | tail _ hmove ih => exact ih.tail (.inl hmove)

theorem Delivered.acts {capacity : ℕ} {bytes : List UInt8}
    (hdeliv : Delivered capacity bytes before after) :
    Relation.ReflTransGen (Acts mode) before after := by
  rcases hdeliv with ⟨_, rfl⟩ | hdeliv
  · exact .refl
  · exact .single (.inr ⟨capacity, bytes, hdeliv⟩)

theorem drainPending_fields (client : Client) (capacity : ℕ) :
    ∃ pending, (drainPending client capacity).2 = { client with pending } := by
  rw [drainPending]
  split
  · exact ⟨client.pending, rfl⟩
  · exact ⟨_, rfl⟩

theorem Acts.safe (hacts : Acts mode before after) (hsafe : Safe before) : Safe after := by
  rcases hacts with hmove | ⟨capacity, _, hdeliv⟩
  · exact hmove.safe hsafe
  obtain ⟨_, rfl⟩ := deliverPending_some hdeliv
  obtain ⟨pending, hclient⟩ := drainPending_fields before.client capacity
  rw [hclient]
  have hdrained : Safe { before with client := { before.client with pending } } :=
    hsafe.setClient hsafe.connected hsafe.attached hsafe.inFlight id
  exact hdrained.sendTcp rfl fun hload => absurd rfl hload

theorem Acts.fits (hcommits : mode.commits = false) (hacts : Acts mode before after)
    (hsafe : Safe before) (hfits : Fits before.client) : Fits after.client := by
  rcases hacts with hmove | ⟨capacity, _, hdeliv⟩
  · exact hmove.fits hcommits hsafe hfits
  obtain ⟨_, rfl⟩ := deliverPending_some hdeliv
  obtain ⟨_, hclient⟩ := drainPending_fields before.client capacity
  rw [hclient]
  exact hfits

theorem Acts.forward (hacts : Acts mode before after) (hsafe : Safe before) :
    after.client = .initial ∨ Forward before.client after.client := by
  rcases hacts with hmove | ⟨capacity, _, hdeliv⟩
  · exact hmove.forward hsafe
  obtain ⟨_, rfl⟩ := deliverPending_some hdeliv
  obtain ⟨_, hclient⟩ := drainPending_fields before.client capacity
  rw [hclient]
  exact .inr (.of_eq rfl)

theorem actsRun_safe (hacts : Relation.ReflTransGen (Acts mode) before after)
    (hsafe : Safe before) : Safe after := by
  induction hacts with
  | refl => exact hsafe
  | tail _ hact ih => exact hact.safe ih

theorem actsRun_fits (hcommits : mode.commits = false)
    (hacts : Relation.ReflTransGen (Acts mode) before after) (hsafe : Safe before)
    (hfits : Fits before.client) : Fits after.client := by
  induction hacts with
  | refl => exact hfits
  | tail hpre hact ih => exact hact.fits hcommits (actsRun_safe hpre hsafe) ih

end

/-! ## Sessions -/

section

variable {mode : Mode} {link : Link} {request : Request}

theorem Request.begin_opening (hopening : request.call.opening = some client) :
    request.begin link = ⟨client, (request.prepare link).stack.takeTcpSegment.2⟩ := by
  rw [Request.begin, hopening]

theorem Request.begin_other (hopening : request.call.opening = none) :
    request.begin link = request.prepare link := by
  rw [Request.begin, hopening]

/-- Every call but `send` is a sequence of acts. -/
theorem Request.acts (hwaits : mode.waits) (hturns : mode.turns)
    (hcall : ∀ data, request.call ≠ .send data) (link : Link) :
    Relation.ReflTransGen (Acts mode) (request.begin link) (request.step link) := by
  rw [Request.step, Request.begin]
  cases hperform : request.call with
  | beginConnect peer localPort remotePort initialSequence =>
    by_cases hvalid : peer = 0 ∨ localPort = 0 ∨ remotePort = 0
    · rw [Call.opening, Call.perform, if_pos hvalid, beginConnect, if_pos hvalid]
    · rw [Call.opening, if_neg hvalid]
      exact (beginConnect_moves hturns _ peer localPort remotePort initialSequence hvalid).acts
  | connect peer localPort remotePort initialSequence =>
    by_cases hvalid : peer = 0 ∨ localPort = 0 ∨ remotePort = 0
    · rw [Call.opening, Call.perform, if_pos hvalid, connect, if_pos hvalid]
    · rw [Call.opening, if_neg hvalid]
      exact (connect_moves hwaits hturns _ peer localPort remotePort initialSequence hvalid).acts
  | progress => exact (progress_moves fun _ => hturns).acts
  | trySend data => exact (trySend_moves _ data).acts
  | tryReceive capacity =>
    obtain ⟨moved, hmoves, hdeliv⟩ :=
      tryReceive_cases mode (request.prepare link) capacity fun _ => hturns
    exact hmoves.acts.trans hdeliv.acts
  | beginClose => exact (beginClose_moves hturns _).acts
  | send data => exact absurd hperform (hcall data)
  | receive capacity =>
    obtain ⟨_, hmoves, hdeliv⟩ := receive_cases mode (request.prepare link) capacity
    exact hmoves.acts.trans hdeliv.acts
  | close => exact (close_moves hwaits hturns _).acts

theorem Request.begin_safe (request : Request) (hsafe : Safe link) (hfits : Fits link.client) :
    Safe (request.begin link) ∧ Fits (request.begin link).client := by
  cases hopening : request.call.opening with
  | none =>
    rw [Request.begin_other hopening]
    refine ⟨hsafe.setStack ?_, hfits⟩
    rw [hopening]
    rfl
  | some client =>
    rw [Request.begin_opening hopening]
    have hclient : ∃ peer localPort remotePort initialSequence,
        client = Client.opening peer localPort remotePort initialSequence := by
      cases hperform : request.call with
      | beginConnect peer localPort remotePort initialSequence
      | connect peer localPort remotePort initialSequence =>
        rw [hperform, Call.opening] at hopening
        split at hopening
        · cases hopening
        · exact ⟨peer, localPort, remotePort, initialSequence, (Option.some.inj hopening).symm⟩
      | _ =>
        rw [hperform] at hopening
        cases hopening
    have hwire : (request.prepare link).stack.takeTcpSegment.2.wire = [] := by
      change (if request.call.opening.isSome then [] else link.stack.wire) = []
      rw [hopening]
      rfl
    obtain ⟨peer, localPort, remotePort, initialSequence, rfl⟩ := hclient
    have hflight : inFlight (Client.opening peer localPort remotePort initialSequence) = 0 := by
      simp [inFlight, Client.opening]
    refine ⟨⟨by rintro ⟨⟩, fun _ => rfl, ?_, ?_, ?_⟩, .inr ?_⟩
    · rw [hflight, maxSegmentPayload]
      decide
    · rw [hwire]
      simp
    · rw [hwire]
      trivial
    · rw [hflight]
      decide

theorem Request.acts_all (hwaits : mode.waits) (hcommits : mode.commits)
    (hturns : mode.turns) (request : Request) (hfits : Fits link.client) :
    Relation.ReflTransGen (Acts mode) (request.begin link) (request.step link) := by
  by_cases hcall : ∃ data, request.call = .send data
  · obtain ⟨data, hdata⟩ := hcall
    rw [Request.begin_other (by rw [hdata]; rfl), Request.step, hdata]
    exact (send_spec hwaits hcommits (request.prepare link) data hfits).1.acts
  · exact request.acts hwaits hturns (fun data hdata => hcall ⟨data, hdata⟩) link

theorem Request.step_safe (request : Request) (hsafe : Safe link) (hfits : Fits link.client) :
    Safe (request.step link) ∧ Fits (request.step link).client := by
  obtain ⟨hbegin, hbeginfits⟩ := request.begin_safe hsafe hfits
  have hacts : Relation.ReflTransGen (Acts ⟨true, true, true⟩) _ _ :=
    request.acts_all rfl rfl rfl hfits
  refine ⟨actsRun_safe hacts hbegin, ?_⟩
  by_cases hcall : ∃ data, request.call = .send data
  · obtain ⟨data, hdata⟩ := hcall
    rw [Request.step, hdata]
    have hsent : Moves ⟨true, true, false⟩ _ _ ∧ _ :=
      send_spec rfl rfl (request.prepare link) data hfits
    exact hsent.2
  · have hacts : Relation.ReflTransGen (Acts ⟨true, false, true⟩) _ _ :=
      request.acts rfl rfl (fun data hdata => hcall ⟨data, hdata⟩) link
    exact actsRun_fits rfl hacts hbegin hbeginfits

end

theorem Safe.initial : Safe .initial where
  connected := nofun
  attached := nofun
  inFlight := by decide
  closing := by rintro ⟨_, hmem, _⟩; cases hmem
  orderly := trivial

theorem session_safe (requests : List Request) :
    Safe (session requests) ∧ Fits (session requests).client := by
  induction requests using List.reverseRecOn with
  | nil => exact ⟨.initial, .inr (by decide)⟩
  | append_singleton _ request ih =>
    rw [session_append]
    exact request.step_safe ih.1 ih.2

end Kurogane.Net.TcpClient
