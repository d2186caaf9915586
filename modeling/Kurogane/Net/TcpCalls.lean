/-
# The calls of a TCP client are chains of moves

Every call but `send`, which has a module of its own, with the moves it makes.
-/

import Kurogane.Net.TcpMoves

namespace Kurogane.Net.TcpClient

open Prod

/-! ## Progress -/

variable {client : Client} {after : Link} {initialSequence : Sequence} {segment : TcpSegment}
  {capacity : ℕ} {link : Link}

section

variable {mode : Mode} {link : Link}

theorem fail_moves (link : Link) (state : State) (connected : Bool)
    (hstate : state = .error ∨ state = .reset ∨ state = link.client.state)
    (hconn : connected → link.client.connected) :
    Moves mode link { link with client := { link.client with state, connected } } :=
  .move (.fail link state connected hstate hconn)

theorem setError_moves (link : Link) :
    Moves mode link { link with client := setError link.client } :=
  fail_moves link .error false (.inl rfl) (nofun)

theorem errorState_moves (link : Link) :
    Moves mode link { link with client := { link.client with state := .error } } :=
  fail_moves link .error link.client.connected (.inl rfl) id

theorem resetState_moves (link : Link) :
    Moves mode link { link with client := { link.client with state := .reset } } :=
  fail_moves link .reset link.client.connected (.inr (.inl rfl)) id

theorem establish_moves (hturns : mode.turns) (hstate : link.client.state = .synSent)
    (hack : segment.acknowledgement = link.client.sendNext) :
    Moves mode link (establish link segment).2 := by
  have hestablished := Moves.move (Move.establish link segment hturns hstate hack : Move mode _ _)
  have hacknowledged := hestablished.trans (acknowledgeOrDefer_moves _)
  rw [establish]
  split
  next heq =>
    rw [heq] at hacknowledged
    exact hacknowledged
  next heq =>
    rw [heq] at hacknowledged
    exact hacknowledged.trans (setError_moves _)

theorem resendSyn_moves (hturns : link.client.state = .synSent → mode.turns) :
    Moves mode link (resendSyn link).2 := by
  rw [resendSyn]
  split
  next hsyn =>
    have hsent : Moves mode link
        (sendSegment link link.client.sendUnacknowledged 0 { syn := true } []).2 :=
      .move (.transmit link _ (.syn link.client _))
    dsimp only
    split
    · exact hsent
    split
    · exact hsent.trans (errorState_moves _)
    · exact hsent.tail (.synchronize _ (hturns hsyn.1) hsyn.1)
  · exact .refl

theorem resendSyn_state (hresent : (resendSyn link).1 = none) :
    (resendSyn link).2.client.state = link.client.state := by
  revert hresent
  fun_cases resendSyn link with
  | case3 _ _ _ hsent =>
    rw [← (mk.inj hsent).2]
    exact fun _ => rfl
  | case4 => exact fun _ => rfl
  | _ => nofun

theorem progressHandshake_moves (hturns : mode.turns) (hstate : link.client.state = .synSent) :
    Moves mode link (progressHandshake link segment).2 := by
  rw [progressHandshake]
  split
  · exact resetState_moves link
  split
  · exact .refl
  next hanswer =>
    rw [not_or, not_or, not_ne_iff] at hanswer
    exact establish_moves hturns hstate hanswer.2.2

theorem absorb_finWait1 (hreset : segment.flags.rst = false) (hstate : client.state = .finWait1) :
    (absorb client segment).2.state = .finWait1 := by
  have hsame := (absorb_received client hreset).state
  rw [(heardAck_fields client segment).2.2.1, hstate] at hsame
  exact hsame.resolve_right fun hmoved => hmoved.1 rfl

theorem progressConnection_moves {taken : Link}
    (hturns : link.client.state = .finWait1 → mode.turns)
    (htaken : takeOrPollOne link = (.ok segment, taken)) (hhears : Hears link.client) :
    Moves mode link (progressConnection taken segment).2 := by
  have hproc : Moves mode link (processIncoming taken segment).2 :=
    processIncoming_moves htaken hhears
  rw [progressConnection]
  dsimp only
  split
  · exact hproc
  rename_i hstat
  obtain ⟨hreset, hclient⟩ := processIncoming_goesOn htaken hstat
  split
  next hclosing =>
    rw [(takeOrPollOne_ok htaken).1] at hclosing
    split
    · exact hproc.tail (.free _ (hturns hclosing))
    rw [← absorb_finWait1 hreset hclosing, ← hclient]
    exact hproc
  · exact hproc

/-- Only a client that waits for an answer to its SYN or its FIN opens or closes by progress. -/
theorem progress_moves
    (hturns : link.client.state = .synSent ∨ link.client.state = .finWait1 → mode.turns) :
    Moves mode link (progress link).2 := by
  rw [progress]
  split
  · exact .refl
  split
  · exact .refl
  rename_i hclosed
  split
  · exact .refl
  rename_i hdead
  have hresent : Moves mode link (resendSyn link).2 :=
    resendSyn_moves fun hsyn => hturns (.inl hsyn)
  have hsame : (resendSyn link).1 = none → (resendSyn link).2.client.state = link.client.state :=
    resendSyn_state
  generalize resendSyn link = resent at hresent hsame ⊢
  obtain ⟨_ | _, resent⟩ := resent
  · have hstate := hsame rfl
    dsimp only at hstate hresent ⊢
    have hclient := client_takeOrPollOne resent
    split
    next heq =>
      have htake := hresent.trans (Moves.takeError heq)
      split
      · exact htake
      · exact htake.trans (errorState_moves _)
    rename_i segment taken heq
    rw [heq] at hclient
    split
    next hsyn =>
      have htake := hresent.tail (.take resent fun _ _ => hclient ▸ hsyn)
      rw [heq] at htake
      refine htake.trans (progressHandshake_moves (hturns (.inl ?_)) hsyn)
      rwa [hclient, hstate] at hsyn
    rename_i hsyn
    rw [hclient, hstate] at hsyn
    refine hresent.trans (progressConnection_moves (fun hfin => hturns (.inr (hstate ▸ hfin)))
      heq ⟨?_, ?_, .inr ⟨?_, ?_⟩⟩)
    · exact hstate ▸ fun hreset => hdead (.inl hreset)
    · exact hstate ▸ fun herror => hdead (.inr herror)
    · exact hstate ▸ hclosed
    · exact hstate ▸ hsyn
  · exact hresent

/-! ## Receiving -/

theorem deliverPending_none
    (hnone : deliverPending link capacity = (none, after)) : after = link := by
  revert hnone
  fun_cases deliverPending link capacity with
  | case1 => exact fun hnone => (mk.inj hnone).2.symm
  | case2 => nofun

theorem deliverPending_some {bytes : List UInt8}
    (hdeliv : deliverPending link capacity = (some bytes, after)) :
    (drainPending link.client capacity).1 = some bytes ∧
      after = (acknowledgeOrDefer
        { link with client := (drainPending link.client capacity).2 }).2 := by
  revert hdeliv
  fun_cases deliverPending link capacity with
  | case1 => nofun
  | case2 _ _ hdrained =>
    rintro ⟨⟩
    rw [hdrained]
    exact ⟨rfl, rfl⟩

/-- Either nothing is handed out, or the bytes are the ones that are delivered last. -/
def Delivered (capacity : ℕ) (bytes : List UInt8) (before after : Link) : Prop :=
  bytes = [] ∧ after = before ∨ deliverPending before capacity = (some bytes, after)

theorem Delivered.nothing (capacity : ℕ) (link : Link) : Delivered capacity [] link link :=
  .inl ⟨rfl, rfl⟩

theorem tryReceive_cases (mode : Mode) (link : Link) (capacity : ℕ)
    (hturns : link.client.state = .synSent ∨ link.client.state = .finWait1 → mode.turns) :
    ∃ moved, Moves mode link moved ∧
      Delivered capacity (tryReceive link capacity).2.1 moved (tryReceive link capacity).2.2 := by
  have hprogress : Moves mode link (progress link).2 := progress_moves hturns
  fun_cases tryReceive link capacity with
  | case1 => exact ⟨link, .refl, .nothing capacity link⟩
  | case2 _ _ _ hsome => exact ⟨link, .refl, .inr hsome⟩
  | case3 _ _ hnone | case4 _ _ hnone =>
    rw [deliverPending_none hnone]
    exact ⟨link, .refl, .nothing capacity link⟩
  | case5 _ _ hnone _ _ _ _ hres =>
    rw [deliverPending_none hnone] at hres
    rw [hres] at hprogress
    exact ⟨_, hprogress, .nothing capacity _⟩
  | case6 _ _ hnone _ _ _ _ hres _ _ _ hsome =>
    rw [deliverPending_none hnone] at hres
    rw [hres] at hprogress
    exact ⟨_, hprogress, .inr hsome⟩
  | case7 _ _ hnone _ _ _ _ hres _ _ hnone' =>
    rw [deliverPending_none hnone] at hres
    rw [hres] at hprogress
    rw [deliverPending_none hnone']
    exact ⟨_, hprogress, .nothing capacity _⟩

theorem receiveLoop_cases (capacity rounds : ℕ) (hhears : Hears link.client) :
    ∃ moved, Moves mode link moved ∧
      Delivered capacity (receiveLoop capacity rounds link).2.1 moved
        (receiveLoop capacity rounds link).2.2 := by
  induction rounds generalizing link with
  | zero => exact ⟨link, .refl, .nothing capacity link⟩
  | succ _ ih =>
    have hclient := client_takeOrPollOne link
    rw [receiveLoop]
    split
    next taken heq =>
      have htake : Moves mode link taken := .takeError heq
      rw [heq] at hclient
      split
      · obtain ⟨moved, hmoved, hdeliv⟩ := ih (hclient ▸ hhears)
        exact ⟨moved, htake.trans hmoved, hdeliv⟩
      · exact ⟨_, htake, .nothing capacity _⟩
    rename_i segment taken heq
    have hproc : Moves mode link (processIncoming taken segment).2 :=
      processIncoming_moves heq hhears
    dsimp only
    split
    · exact ⟨_, hproc, .nothing capacity _⟩
    rename_i hstat
    obtain ⟨hreset, hheard⟩ := processIncoming_goesOn heq hstat
    split
    next hsome => exact ⟨_, hproc, .inr hsome⟩
    rename_i hnone
    rw [deliverPending_none hnone]
    split
    · exact ⟨_, hproc, .nothing capacity _⟩
    · obtain ⟨moved, hmoved, hdeliv⟩ := ih (hheard ▸ absorb_hears hreset hhears)
      exact ⟨moved, hproc.trans hmoved, hdeliv⟩

theorem receive_cases (mode : Mode) (link : Link) (capacity : ℕ) :
    ∃ moved, Moves mode link moved ∧
      Delivered capacity (receive link capacity).2.1 moved (receive link capacity).2.2 := by
  fun_cases receive link capacity with
  | case1 | case2 => exact ⟨link, .refl, .nothing capacity link⟩
  | case3 _ _ _ _ hsome => exact ⟨link, .refl, .inr hsome⟩
  | case4 _ _ _ hnone | case5 _ _ _ hnone =>
    rw [deliverPending_none hnone]
    exact ⟨link, .refl, .nothing capacity link⟩
  | case6 _ hdead _ hnone _ hconn budget waiting hbudget =>
    rw [deliverPending_none hnone] at hconn hbudget
    have hmove : Moves mode link waiting := (mk.inj hbudget).2 ▸ .move (.budget link)
    have hhears : Hears waiting.client := (mk.inj hbudget).2 ▸
      ⟨fun hreset => hdead (.inl hreset), fun herror => hdead (.inr herror),
        .inl (Bool.not_eq_false _ ▸ hconn)⟩
    obtain ⟨moved, hmoved, hdeliv⟩ := receiveLoop_cases capacity budget hhears
    exact ⟨moved, hmove.trans hmoved, hdeliv⟩

/-! ## Sending without waiting -/

def dataSegment (client : Client) (payload : List UInt8) : Outgoing :=
  client.outgoing client.sendNext client.receiveNext { psh := true, ack := true } payload

/-- `try_send` does nothing, or it hands as much to the interface as the window takes. -/
theorem trySend_cases (link : Link) (data : List UInt8) :
    (trySend link data).2.2 = link ∨
      ∃ payload, payload ≠ [] ∧ link.client.state = .established ∧
        inFlight link.client + payload.length ≤ link.client.peerWindow.toNat ∧
        ((link.stack.sendTcp (dataSegment link.client payload)).1 = .ok ∧
            (trySend link data).2.2 = ⟨{ link.client with
              sendNext := link.client.sendNext + BitVec.ofNat 32 payload.length },
              (link.stack.sendTcp (dataSegment link.client payload)).2⟩ ∨
          (link.stack.sendTcp (dataSegment link.client payload)).1 ≠ .ok ∧
            ∃ client, (client = link.client ∨ client = setError link.client) ∧
              (trySend link data).2.2 =
                ⟨client, (link.stack.sendTcp (dataSegment link.client payload)).2⟩) := by
  rw [trySend]
  dsimp only
  split
  · exact .inl rfl
  split
  · exact .inl rfl
  rename_i hopen
  rw [not_or, not_or, not_ne_iff] at hopen
  split
  · exact .inl rfl
  split
  · exact .inl rfl
  rename_i hroom
  change ¬ inFlight link.client ≥ _ at hroom
  split
  · exact .inl rfl
  rename_i hchunk
  generalize hlen : min (min data.length maxSegmentPayload)
    (link.client.peerWindow.toNat - (link.client.sendNext - link.client.sendUnacknowledged).toNat) =
      chunk at hchunk ⊢
  change min _ (_ - inFlight link.client) = chunk at hlen
  have htaken : (data.take chunk).length = chunk := by
    rw [List.length_take]
    omega
  refine .inr ⟨data.take chunk, fun hnil => hchunk ?_, hopen.2.1, by omega, ?_⟩
  · rw [← htaken, hnil]
    rfl
  have hsent : sendSegment link link.client.sendNext link.client.receiveNext
      { psh := true, ack := true } (data.take chunk) =
        ((link.stack.sendTcp (dataSegment link.client (data.take chunk))).1,
          ⟨link.client, (link.stack.sendTcp (dataSegment link.client (data.take chunk))).2⟩) := rfl
  rw [hsent, htaken]
  generalize link.stack.sendTcp (dataSegment link.client (data.take chunk)) = sent
  obtain ⟨_, _⟩ := sent
  split
  next heq =>
    obtain ⟨hstat, hlink⟩ := mk.inj heq
    exact .inl ⟨hstat, by rw [← hlink]⟩
  rename_i hok heq
  obtain ⟨hstat, hlink⟩ := mk.inj heq
  refine .inr ⟨hstat ▸ hok, ?_⟩
  rw [← hlink]
  split
  · exact ⟨_, .inl rfl, rfl⟩
  · exact ⟨_, .inr rfl, rfl⟩

theorem trySend_moves (link : Link) (data : List UInt8) :
    Moves mode link (trySend link data).2.2 := by
  rcases trySend_cases link data with hsame | ⟨payload, _, hstate, hroom, hsent⟩
  · rw [hsame]
  have hmove : Moves mode link _ :=
    .move (.transmit link (dataSegment link.client payload) (.data _ _ (.inl hstate)))
  rcases hsent with ⟨_, hres⟩ | ⟨_, _, rfl | rfl, hres⟩
  · rw [hres]
    exact hmove.tail (.advance ⟨link.client, _⟩ _ hstate hroom)
  · rw [hres]
    exact hmove
  · rw [hres]
    exact hmove.trans (setError_moves _)

/-! ## Closing -/

structure Closable (client : Client) : Prop where
  connected : client.connected = true
  state : client.state = .established ∨ client.state = .closeWait
  settled : client.sendUnacknowledged = client.sendNext

theorem Closable.of_guards (hatt : ¬ (client.connected = false ∨ client.attached = false))
    (hstate : ¬ (client.state ≠ .established ∧ client.state ≠ .closeWait))
    (hsettled : ¬ client.sendUnacknowledged ≠ client.sendNext) : Closable client where
  connected := by simpa using fun hconn => hatt (.inl hconn)
  state := by
    rw [← not_or, not_not] at hstate
    exact hstate
  settled := not_not.mp hsettled

theorem beginClose_cases (link : Link) :
    beginClose link = (.ok, { link with client := .initial }) ∨ (beginClose link).2 = link ∨
      Closable link.client ∧ beginClose link = sendFin link := by
  fun_cases beginClose link with
  | case1 | case2 => exact .inl rfl
  | case7 _ hatt _ _ _ hstate hsettled =>
    exact .inr (.inr ⟨.of_guards hatt hstate hsettled, rfl⟩)
  | _ => exact .inr (.inl rfl)

theorem sendFin_cases (link : Link) :
    ((link.stack.sendTcp (finSegment link.client)).1 = .ok ∧
        sendFin link = (.wouldBlock,
          ⟨{ link.client with sendNext := link.client.sendNext + 1, state := .finWait1 },
            (link.stack.sendTcp (finSegment link.client)).2⟩)) ∨
      ((link.stack.sendTcp (finSegment link.client)).1 ≠ .ok ∧
        ((sendFin link).2 = { link with stack := (link.stack.sendTcp (finSegment link.client)).2 } ∨
          (sendFin link).1 ≠ .wouldBlock ∧ (sendFin link).2 =
            ⟨{ link.client with state := .error },
              (link.stack.sendTcp (finSegment link.client)).2⟩)) := by
  have hsent : sendSegment link link.client.sendNext link.client.receiveNext
      { fin := true, ack := true } [] = ((link.stack.sendTcp (finSegment link.client)).1,
        { link with stack := (link.stack.sendTcp (finSegment link.client)).2 }) := rfl
  rw [sendFin]
  rw [hsent]
  generalize link.stack.sendTcp (finSegment link.client) = sent
  obtain ⟨status, _⟩ := sent
  split
  next heq =>
    obtain ⟨hstat, hlink⟩ := mk.inj heq
    exact .inl ⟨hstat, by rw [← hlink]⟩
  rename_i hok heq
  obtain ⟨hstat, hlink⟩ := mk.inj heq
  refine .inr ⟨hstat ▸ hok, ?_⟩
  rw [← hlink, ← hstat]
  split
  · exact .inl rfl
  rename_i hretry
  refine .inr ⟨fun hblk => hretry ?_, rfl⟩
  rw [show status = .wouldBlock from hblk]
  rfl

theorem beginClose_moves (hturns : mode.turns) (link : Link) :
    Moves mode link (beginClose link).2 := by
  rcases beginClose_cases link with hfree | hsame | ⟨hclosable, hfin⟩
  · rw [hfree]
    exact .move (.free link hturns)
  · rw [hsame]
  rw [hfin]
  rcases sendFin_cases link with ⟨hsent, hres⟩ | ⟨hrefused, hres⟩
  · rw [hres]
    exact .move (.finish link hturns hclosable.connected hclosable.state hclosable.settled hsent)
  have hmove : Moves mode link _ := .move (.refuse link (finSegment link.client) hrefused)
  rcases hres with hres | ⟨_, hres⟩
  · rw [hres]
    exact hmove
  · rw [hres]
    exact hmove.trans (errorState_moves _)

theorem abortConnection_moves (hwaits : mode.waits) (hturns : mode.turns)
    (link : Link) : Moves mode link (abortConnection link).2 := by
  have hqueued := (queueSegment_moves hwaits (Permitted.rst link.client link.client.sendNext)).1
  rw [abortConnection]
  split
  next heq =>
    rw [heq] at hqueued
    exact hqueued.tail (.free _ hturns)
  next heq =>
    rw [heq] at hqueued
    exact hqueued

theorem hears_finWait1 (hstate : client.state = .finWait1) : Hears client :=
  ⟨by simp [hstate], by simp [hstate], .inr (by simp [hstate])⟩

theorem closeLoop_moves (hturns : mode.turns) (expectedAck : Sequence) (rounds : ℕ)
    (hstate : link.client.state = .finWait1) :
    Moves mode link (closeLoop expectedAck rounds link).2 ∧
      ((closeLoop expectedAck rounds link).1 = none →
        (closeLoop expectedAck rounds link).2.client.state = .finWait1) := by
  induction rounds generalizing link with
  | zero => exact ⟨.refl, fun _ => hstate⟩
  | succ _ ih =>
    have hclient := client_takeOrPollOne link
    rw [closeLoop]
    split
    next taken heq =>
      have htake : Moves mode link taken := .takeError heq
      rw [heq] at hclient
      split
      · obtain ⟨hmoves, hend⟩ := ih (hclient ▸ hstate)
        exact ⟨htake.trans hmoves, hend⟩
      refine ⟨?_, nofun⟩
      have hsame : taken.client.state = .finWait1 := hclient ▸ hstate
      rw [← hsame]
      exact htake
    next segment taken heq =>
      have hproc : Moves mode link (processIncoming taken segment).2 :=
        processIncoming_moves heq (hears_finWait1 hstate)
      obtain ⟨hsame, hfor⟩ := takeOrPollOne_ok heq
      rw [← hsame] at hfor hstate
      have hheard := client_processIncoming hfor
      dsimp only
      split
      · exact ⟨hproc.tail (.free _ hturns), nofun⟩
      rename_i halive
      have hreset : segment.flags.rst = false := by
        by_contra hrst
        rw [hheard, absorb_reset (by simpa using hrst)] at halive
        exact halive rfl
      have hopen : (processIncoming taken segment).2.client.state = .finWait1 := by
        rw [hheard]
        exact absorb_finWait1 hreset hstate
      split
      · refine ⟨?_, nofun⟩
        rw [← hopen]
        exact hproc
      split
      · exact ⟨hproc.tail (.free _ hturns), nofun⟩
      · obtain ⟨hmoves, hend⟩ := ih hopen
        exact ⟨hproc.trans hmoves, hend⟩

theorem client_abortConnection (hfail : (abortConnection link).1 ≠ .ok) :
    (abortConnection link).2.client = link.client := by
  rw [abortConnection] at hfail ⊢
  split at hfail
  · exact absurd rfl hfail
  next heq => exact congrArg (fun result => result.2.client) heq.symm

theorem awaitClose_moves (hwaits : mode.waits) (hturns : mode.turns) (link : Link)
    (expectedAck : Sequence) :
    Moves mode
      { link with client := { link.client with state := .finWait1, sendNext := expectedAck } }
      (awaitClose link expectedAck).2 := by
  rw [awaitClose]
  dsimp only
  generalize hclosing : ({ link with client :=
    { link.client with state := .finWait1, sendNext := expectedAck } } : Link) = closing
  have hstate : (takeBudget closing).2.client.state = .finWait1 := by
    rw [← hclosing]
    rfl
  have hbudget : Moves mode closing (takeBudget closing).2 := .move (.budget closing)
  obtain ⟨hloop, hend⟩ : Moves mode _ _ ∧ _ :=
    closeLoop_moves hturns expectedAck (takeBudget closing).1 hstate
  split
  next heq =>
    rw [heq] at hloop
    exact hbudget.trans hloop
  rename_i looped heq
  rw [heq] at hloop hend
  have hfinal := hend rfl
  have habort : Moves mode looped (abortConnection looped).2 :=
    abortConnection_moves hwaits hturns looped
  have hsame : (abortConnection looped).1 ≠ .ok → _ := client_abortConnection
  split
  next hok =>
    rw [hok] at habort
    exact (hbudget.trans hloop).trans habort
  rename_i status aborted hok hres
  rw [hres] at habort hsame
  have hclient : aborted.client.state = .finWait1 := by
    rw [hsame fun hsent => hok hsent]
    exact hfinal
  rw [← hclient]
  exact (hbudget.trans hloop).trans habort

theorem close_cases (link : Link) :
    (link.client.connected = false ∨ link.client.attached = false ∨ link.client.state = .reset) ∧
        close link = (.ok, { link with client := .initial }) ∨
      link.client.state = .error ∧
        close link = (.interfaceError, { link with client := .initial }) ∨
      link.client.state = .finWait1 ∧ close link = abortConnection link ∨
      (close link).1 ≠ .ok ∧ (close link).2 = link ∨
      Closable link.client ∧ close link = queueFin link := by
  fun_cases close link with
  | case1 _ hdetached => exact .inl ⟨hdetached.imp_right .inl, rfl⟩
  | case2 _ _ hreset => exact .inl ⟨.inr (.inr hreset), rfl⟩
  | case3 _ _ _ herror => exact .inr (.inl ⟨herror, rfl⟩)
  | case4 _ _ _ _ hfin => exact .inr (.inr (.inl ⟨hfin, rfl⟩))
  | case7 _ hatt _ _ _ hstate hsettled =>
    exact .inr (.inr (.inr (.inr ⟨.of_guards hatt hstate hsettled, rfl⟩)))
  | _ => exact .inr (.inr (.inr (.inl ⟨nofun, rfl⟩)))

theorem queueFin_cases (mode : Mode) (hwaits : mode.waits) (hturns : mode.turns)
    (hclosable : Closable link.client) :
    ((queueFin link).1 ≠ .ok ∧ (queueFin link).2.client = link.client ∧
        Moves mode link (queueFin link).2 ∧
        (queueFin link).2 = (queueSegmentWithBackpressure link link.client.sendNext
          link.client.receiveNext { fin := true, ack := true } []).2) ∨
      ∃ queued earlier, Moves mode link
          ⟨{ link.client with sendNext := link.client.sendNext + 1, state := .finWait1 }, queued⟩ ∧
        link.stack.wire <:+ earlier ∧ queued.wire = finSegment link.client :: earlier ∧
        queueFin link = awaitClose ⟨link.client, queued⟩ (link.client.sendNext + 1) := by
  rw [queueFin]
  rcases queueSegment_cases hwaits link link.client.sendNext link.client.receiveNext
      { fin := true, ack := true } [] with
    ⟨hfail, hclient, hmoves⟩ | ⟨waited, hmoves, hsent, hres⟩
  · split
    next heq => exact absurd (congrArg fst heq) hfail
    next heq =>
      rw [heq] at hfail hclient hmoves
      exact .inl ⟨hfail, hclient, hmoves, congrArg snd heq.symm⟩
  · rw [hres]
    exact .inr ⟨_, waited.wire, hmoves.tail (.finish ⟨link.client, waited⟩ hturns
      hclosable.connected hclosable.state hclosable.settled hsent), hmoves.wire, if_pos hsent, rfl⟩

theorem close_moves (hwaits : mode.waits) (hturns : mode.turns) (link : Link) :
    Moves mode link (close link).2 := by
  rcases close_cases link with ⟨_, hfree⟩ | ⟨_, herror⟩ | ⟨_, habort⟩ | ⟨_, hsame⟩ |
    ⟨hclosable, hfin⟩
  · rw [hfree]
    exact .move (.free link hturns)
  · rw [herror]
    exact .move (.free link hturns)
  · rw [habort]
    exact abortConnection_moves hwaits hturns link
  · rw [hsame]
  rw [hfin]
  rcases queueFin_cases mode hwaits hturns hclosable with ⟨_, _, hmoves, _⟩ |
    ⟨queued, _, hmoves, _, _, hres⟩
  · exact hmoves
  · rw [hres]
    exact hmoves.trans (awaitClose_moves hwaits hturns ⟨link.client, queued⟩ _)

/-! ## Connecting -/

theorem beginConnect_moves (hturns : mode.turns) (link : Link) (peer : IPv4Address)
    (localPort remotePort : ℕ) (initialSequence : Sequence)
    (hvalid : ¬ (peer = 0 ∨ localPort = 0 ∨ remotePort = 0)) :
    Moves mode
      ⟨Client.opening peer localPort remotePort initialSequence, link.stack.takeTcpSegment.2⟩
      (beginConnect link peer localPort remotePort initialSequence).2 := by
  rw [beginConnect, if_neg hvalid]
  dsimp only
  generalize hopening : (⟨Client.opening peer localPort remotePort initialSequence,
    link.stack.takeTcpSegment.2⟩ : Link) = opening
  have hclient : opening.client = Client.opening peer localPort remotePort initialSequence := by
    rw [← hopening]
  have hsent : Moves mode opening (sendSegment opening initialSequence 0 { syn := true } []).2 :=
    .move (.transmit opening _ (.syn opening.client _))
  rw [← hclient]
  split
  next heq =>
    rw [← (mk.inj heq).2]
    have hseq : initialSequence = opening.client.sendUnacknowledged := by
      rw [hclient]
      rfl
    have hstate : opening.client.state = .synSent := by
      rw [hclient]
      rfl
    have hsync := hsent.tail
      (.synchronize (sendSegment opening initialSequence 0 { syn := true } []).2 hturns hstate)
    rw [hseq] at hsync ⊢
    exact hsync
  next heq =>
    rw [← (mk.inj heq).2]
    split
    · exact hsent
    · exact hsent.trans (errorState_moves _)

structure Calling (initialSequence : Sequence) (client : Client) : Prop where
  state : client.state = .synSent
  sendUnacknowledged : client.sendUnacknowledged = initialSequence

theorem handshakeLoop_moves (hturns : mode.turns) (rounds : ℕ)
    (hcalling : Calling initialSequence link.client) :
    Moves mode link (handshakeLoop initialSequence rounds link).2 ∧
      ((handshakeLoop initialSequence rounds link).1 = none →
        Calling initialSequence (handshakeLoop initialSequence rounds link).2.client) := by
  induction rounds generalizing link with
  | zero => exact ⟨.refl, fun _ => hcalling⟩
  | succ _ ih =>
    have htake : Moves mode link (takeOrPollOne link).2 :=
      .move (.take link fun _ _ => hcalling.state)
    have hclient := client_takeOrPollOne link
    rw [handshakeLoop]
    split
    next taken heq =>
      rw [heq] at htake hclient
      split
      · obtain ⟨hmoves, hend⟩ := ih (hclient ▸ hcalling)
        exact ⟨htake.trans hmoves, hend⟩
      · exact ⟨htake.trans (errorState_moves _), nofun⟩
    rename_i segment taken heq
    rw [heq] at htake hclient
    rw [← hclient] at hcalling
    split
    · exact ⟨htake.trans (resetState_moves _), nofun⟩
    split
    next hanswer =>
      refine ⟨?_, nofun⟩
      have hsync := htake.tail (.synchronize taken hturns hcalling.state)
      rw [hcalling.sendUnacknowledged] at hsync
      exact hsync.trans (establish_moves hturns hcalling.state hanswer.2.2)
    · obtain ⟨hmoves, hend⟩ := ih hcalling
      exact ⟨htake.trans hmoves, hend⟩

theorem connectLoop_moves (hwaits : mode.waits) (hturns : mode.turns)
    (transmissions : ℕ) (hcalling : Calling initialSequence link.client) :
    Moves mode link (connectLoop initialSequence transmissions link).2 := by
  induction transmissions generalizing link with
  | zero => exact setError_moves link
  | succ _ ih =>
    obtain ⟨hqueued, hclient⟩ := queueSegment_moves hwaits
      (Permitted.syn link.client initialSequence)
    rw [connectLoop]
    generalize queueSegmentWithBackpressure link initialSequence 0 { syn := true } [] =
      queued at hqueued hclient ⊢
    obtain ⟨status, queued⟩ := queued
    dsimp only at hqueued hclient ⊢
    rw [← hclient] at hcalling
    split
    · exact hqueued.trans (errorState_moves _)
    obtain ⟨synchronized, hsync, hsent, hcalling⟩ : ∃ synchronized, (if status = .ok then
          { queued with client := { queued.client with sendNext := initialSequence + 1 } }
        else queued) = synchronized ∧ Moves mode link synchronized ∧
        Calling initialSequence synchronized.client := by
      split
      · refine ⟨_, rfl, ?_, hcalling.state, hcalling.sendUnacknowledged⟩
        rw [← hcalling.sendUnacknowledged]
        exact hqueued.tail (.synchronize queued hturns hcalling.state)
      · exact ⟨_, rfl, hqueued, hcalling⟩
    rw [hsync]
    have hbudget := hsent.tail (.budget synchronized)
    have hcalling' : Calling initialSequence (takeBudget synchronized).2.client := hcalling
    obtain ⟨hloop, hend⟩ : Moves mode _ _ ∧ _ :=
      handshakeLoop_moves hturns (takeBudget synchronized).1 hcalling'
    split
    next heq =>
      rw [heq] at hloop
      exact hbudget.trans hloop
    next heq =>
      rw [heq] at hloop hend
      exact (hbudget.trans hloop).trans (ih (hend rfl))

theorem connect_moves (hwaits : mode.waits) (hturns : mode.turns) (link : Link)
    (peer : IPv4Address) (localPort remotePort : ℕ) (initialSequence : Sequence)
    (hvalid : ¬ (peer = 0 ∨ localPort = 0 ∨ remotePort = 0)) :
    Moves mode
      ⟨Client.opening peer localPort remotePort initialSequence, link.stack.takeTcpSegment.2⟩
      (connect link peer localPort remotePort initialSequence).2 := by
  rw [connect, if_neg hvalid]
  exact connectLoop_moves hwaits hturns _ ⟨rfl, rfl⟩

end

end Kurogane.Net.TcpClient
