/-
# The FIN and the data before it

The FIN of a connection has the sequence number behind its data. `begin_close` and `close`
send it when the oldest unacknowledged number is the next one, so that all data has been
acknowledged, as long as `send` takes no sequence back. If it does, a chunk is on the wire
whose numbers are not in use any more: the FIN gets the number of its first byte, and the
acknowledgement of the chunk is taken for that of the FIN.
-/

import Kurogane.Net.TcpRetries
import Kurogane.Net.TcpSequence

namespace Kurogane.Net.TcpClient

open List

/-- Data, the newest first, lays out so many bytes of a stream that begins at `first`. Each
segment begins within what was laid out before, or right behind it, and reaches its end. -/
inductive LaidOut (first : Sequence) : List Outgoing → ℕ → Prop where
  | nil : LaidOut first [] 0
  | cons {outgoing : Outgoing} {earlier : List Outgoing} {before start : ℕ}
      (hearlier : LaidOut first earlier before)
      (hsequence : outgoing.sequence = first + BitVec.ofNat 32 start) (hstart : start ≤ before)
      (hend : before ≤ start + outgoing.payload.length) :
      LaidOut first (outgoing :: earlier) (start + outgoing.payload.length)

/-- The newest data is at the next sequence: a chunk went out, and its sequence was taken
back. -/
def Rewound (link : Link) : Prop :=
  (dataSegments link.stack).head?.map Outgoing.sequence = some link.client.sendNext

instance (link : Link) : Decidable (Rewound link) := inferInstanceAs (Decidable (_ = _))

/-- The connection is open, and no sequence was taken back. -/
structure Intact (link : Link) : Prop where
  talking : Talking link.client
  kept : ¬ Rewound link

/-- The data on the wire is a stream that ends at the next sequence. -/
def Laid (link : Link) : Prop :=
  ∃ first sent, LaidOut first (dataSegments link.stack) sent ∧
    link.client.sendNext = first + BitVec.ofNat 32 sent

section

variable {first : Sequence} {data : List Outgoing} {sent : ℕ}

theorem LaidOut.repeats {payload : List UInt8} (hlaid : LaidOut first data sent)
    (fresh : List Outgoing) (hsame : ∀ outgoing ∈ fresh,
      outgoing.sequence = first + BitVec.ofNat 32 sent ∧ outgoing.payload = payload) :
    LaidOut first (fresh ++ data) (if fresh = [] then sent else sent + payload.length) := by
  induction fresh with
  | nil => exact hlaid
  | cons outgoing _ ih =>
    obtain ⟨hseq, rfl⟩ := hsame outgoing mem_cons_self
    have hearlier := ih fun other hother => hsame other (mem_cons_of_mem _ hother)
    rw [if_neg (cons_ne_nil _ _)]
    refine .cons hearlier hseq ?_ ?_
    · split <;> omega
    · split <;> omega

/-- Every data segment is a piece of the stream. -/
theorem LaidOut.piece (hlaid : LaidOut first data sent) {outgoing : Outgoing}
    (hmem : outgoing ∈ data) :
    ∃ start, outgoing.sequence = first + BitVec.ofNat 32 start ∧
      start + outgoing.payload.length ≤ sent := by
  induction hlaid with
  | nil => cases hmem
  | @cons _ _ _ start _ hseq _ hend ih =>
    rcases mem_cons.mp hmem with rfl | hmem
    · exact ⟨start, hseq, le_rfl⟩
    · obtain ⟨other, hother, hle⟩ := ih hmem
      exact ⟨other, hother, hle.trans hend⟩

end

/-! ## The calls of an open connection -/

variable {link before after : Link} {payload : List UInt8}

theorem Laid.of_same (hlaid : Laid before)
    (hnext : after.client.sendNext = before.client.sendNext)
    (hdata : dataSegments after.stack = dataSegments before.stack) : Laid after := by
  rw [Laid, hnext, hdata]
  exact hlaid

theorem Laid.repeats (hlaid : Laid before)
    (hrepeats : Repeats before.client.sendNext payload before after)
    (hnext : after.client.sendNext = before.client.sendNext +
      if dataSegments after.stack = dataSegments before.stack then 0
      else BitVec.ofNat 32 payload.length) : Laid after := by
  obtain ⟨first, _, hstream, hfirst⟩ := hlaid
  obtain ⟨fresh, hfresh, hsame⟩ := hrepeats
  rw [hfirst] at hsame
  refine ⟨first, _, hfresh ▸ hstream.repeats fresh hsame, ?_⟩
  rw [hnext, hfresh, hfirst]
  simp only [append_left_eq_self]
  split
  · exact BitVec.add_zero _
  · rw [BitVec.ofNat_add, BitVec.add_assoc]

theorem Repeats.rewound (hrepeats : Repeats after.client.sendNext payload before after)
    (hkept : ¬ Rewound after) : dataSegments after.stack = dataSegments before.stack := by
  obtain ⟨fresh, hfresh, hsame⟩ := hrepeats
  cases fresh with
  | nil => exact hfresh
  | cons outgoing =>
    refine absurd ?_ hkept
    rw [Rewound, hfresh]
    exact congrArg some (hsame outgoing mem_cons_self).1

variable {sequence : Sequence}

theorem Lost.not_talking {client : Client} (hlost : Lost client) : ¬ Talking client := by
  rcases hlost with hstate | hstate <;> simp [Talking, hstate]

theorem sendChunks_laid (rounds : ℕ) (data : List UInt8) (htalking : Talking link.client)
    (hflight : inFlight link.client < 2 ^ 16) (hlaid : Laid link) :
    Intact (sendChunks rounds data link).2 → Laid (sendChunks rounds data link).2 := by
  induction rounds generalizing link data with
  | zero => exact fun _ => hlaid
  | succ _ ih =>
    rw [sendChunks]
    split
    · exact fun _ => hlaid
    rename_i hdata
    split
    · exact fun _ => hlaid
    rename_i hwindow
    dsimp only
    generalize hchunk : min (min data.length maxSegmentPayload) link.client.peerWindow.toNat = chunk
    have hopen : link.client.peerWindow.toNat ≠ 0 := fun hzero =>
      hwindow (UInt16.toNat_inj.mp hzero)
    have hbound : chunk ≤ maxSegmentPayload := by omega
    have htaken : (data.take chunk).length = chunk := by
      rw [length_take]
      omega
    have hload : data.take chunk ≠ [] := by
      rw [← length_pos_iff, htaken]
      rw [maxSegmentPayload] at hchunk
      omega
    obtain ⟨_, hrepeats, hends⟩ : Moves ⟨true, true, false⟩ _ _ ∧ _ :=
      transmitChunk_spec rfl rfl (data.take chunk) hbound hflight rfl dataTransmissionLimit false
        le_rfl ⟨htalking, rfl, le_rfl, by rintro ⟨⟩⟩
    generalize transmitChunk link.client.sendNext
      (link.client.sendNext + BitVec.ofNat 32 chunk) (data.take chunk) dataTransmissionLimit false
      link = transmitted at hrepeats hends ⊢
    obtain ⟨_ | (_ | _) | _, after⟩ := transmitted
    · obtain ⟨htalks, hnext, hacked, hgrows⟩ := hends
      have hflight' : inFlight after.client < 2 ^ 16 := by
        rw [inFlight, hnext, hacked, BitVec.sub_self]
        decide
      refine ih _ htalks hflight' (hlaid.repeats hrepeats ?_)
      rw [hnext, htaken, if_neg fun hsame => by rw [hsame] at hgrows; exact (hgrows hload).false]
    · -- nothing was queued
      have hnext : after.client.sendNext = link.client.sendNext := hends.sendNext
      rw [← hnext] at hrepeats
      exact fun hintact => hlaid.of_same hnext (hrepeats.rewound hintact.kept)
    · dsimp only
      split
      · -- the sequence is taken back
        have hback : Repeats _ _ link
          ⟨{ after.client with sendNext := link.client.sendNext }, after.stack⟩ := hrepeats
        exact fun hintact => hlaid.of_same rfl (hback.rewound hintact.kept)
      · exact fun hintact => absurd hintact.talking (Lost.not_talking (.inl rfl))
    · exact fun hintact => absurd hintact.talking hends.1.not_talking

theorem send_laid (data : List UInt8) (hfits : Fits link.client) (hlaid : Laid link) :
    Intact (send link data).2 → Laid (send link data).2 := by
  rcases send_cases hfits data with ⟨_, hsend, -⟩ | ⟨htalking, hflight, hsend⟩ <;> rw [hsend]
  · exact fun _ => hlaid
  · exact sendChunks_laid _ _ htalking hflight hlaid

theorem trySend_laid (data : List UInt8) (hlaid : Laid link) : Laid (trySend link data).2.2 := by
  rcases trySend_cases link data with hsame | ⟨payload, hload, _, _, hsent⟩
  · rwa [hsame]
  have hdata := dataSegments_sendTcp link.stack (dataSegment link.client payload)
  rcases hsent with ⟨hok, hres⟩ | ⟨hrefused, _, hclient, hres⟩
  · rw [if_pos ⟨hok, hload⟩] at hdata
    rw [hres]
    have hrepeats : Repeats link.client.sendNext payload link
        ⟨{ link.client with sendNext := link.client.sendNext + BitVec.ofNat 32 payload.length },
          (link.stack.sendTcp (dataSegment link.client payload)).2⟩ :=
      ⟨[_], hdata, by simp [dataSegment, Client.outgoing]⟩
    refine hlaid.repeats hrepeats ?_
    rw [hdata, if_neg (cons_ne_self _ _)]
  rw [if_neg fun hboth => hrefused hboth.1] at hdata
  rw [hres]
  refine hlaid.of_same ?_ hdata
  rcases hclient with rfl | rfl <;> rfl

/-! ## Closing -/

theorem Repeats.control (hrepeats : Repeats sequence [] before after) :
    dataSegments after.stack = dataSegments before.stack := by
  obtain ⟨_, hfresh, hsame⟩ := hrepeats
  rw [hfresh, append_left_eq_self, eq_nil_iff_forall_not_mem]
  intro outgoing hmem
  have hdata : outgoing ∈ dataSegments after.stack := hfresh ▸ mem_append_left _ hmem
  simp [dataSegments, (hsame outgoing hmem).2] at hdata

/-- What `begin_close` and `close` do with an open connection: they leave it as it is, they end
it and send nothing, or they send the FIN. -/
inductive Closes (before after : Link) : Prop where
  | stays (hclient : after.client = before.client)
      (hdata : dataSegments after.stack = dataSegments before.stack)
  | ends (hclient : ¬ Talking after.client) (hwire : after.stack.wire = before.stack.wire)
  | finishes (hclosable : Closable before.client)
      (hfin : finSegment before.client ∈ after.stack.wire)

theorem beginClose_closes (link : Link) : Closes link (beginClose link).2 := by
  rcases beginClose_cases link with hfree | hsame | ⟨hclosable, hfin⟩
  · rw [hfree]
    exact .ends (by simp [Talking, Client.initial]) rfl
  · rw [hsame]
    exact .stays rfl rfl
  rw [hfin]
  rcases sendFin_cases link with ⟨hsent, hres⟩ | ⟨hrefused, hres | ⟨_, hres⟩⟩
  · rw [hres]
    have hwire := wire_sent hsent
    exact .finishes hclosable (hwire ▸ mem_cons_self)
  · rw [hres]
    exact .stays rfl (dataSegments_sendTcp_control _ rfl)
  · rw [hres]
    exact .ends (Lost.not_talking (.inl rfl)) (if_neg hrefused)

theorem close_closes (htalking : Talking link.client) : Closes link (close link).2 := by
  rcases close_cases link with ⟨_, hfree⟩ | ⟨_, hfree⟩ | ⟨hstate, _⟩ | ⟨_, hsame⟩ |
    ⟨hclosable, hfin⟩
  · rw [hfree]
    exact .ends (by simp [Talking, Client.initial]) rfl
  · rw [hfree]
    exact .ends (by simp [Talking, Client.initial]) rfl
  · simp [Talking, hstate] at htalking
  · rw [hsame]
    exact .stays rfl rfl
  rw [hfin]
  rcases queueFin_cases ⟨true, false, true⟩ rfl rfl hclosable with ⟨_, hclient, _, hqueue⟩ |
    ⟨queued, _, _, _, hwire, hres⟩
  · refine .stays hclient ?_
    rw [hqueue]
    exact (queueSegment_repeats ..).control
  have hwaited : Moves ⟨true, false, true⟩ _ _ :=
    awaitClose_moves rfl rfl ⟨link.client, queued⟩ (link.client.sendNext + 1)
  rw [hres]
  refine .finishes hclosable (hwaited.wire.subset ?_)
  change _ ∈ queued.wire
  rw [hwire]
  exact mem_cons_self

theorem Closes.laid (hcloses : Closes before after) (hsafe : Safe after) (hlaid : Laid before)
    (htalks : Talking after.client) : Laid after := by
  cases hcloses with
  | stays hclient hdata => exact hlaid.of_same (by rw [hclient]) hdata
  | ends hclient => exact absurd htalks hclient
  | finishes _ hfin =>
    exact absurd (hsafe.closing ⟨_, hfin, rfl⟩) htalks.not_closing

/-! ## Sessions -/

def Call.sends : Call → Bool
  | .progress | .trySend _ | .send _ | .beginClose | .close => true
  | _ => false

variable {request : Request}

theorem Request.wire_prepare (hcall : request.call.sends) (link : Link) :
    (request.prepare link).stack.wire = link.stack.wire := by
  rw [Request.prepare]
  cases hperform : request.call <;> rw [hperform] at hcall <;> first | rfl | cases hcall

theorem Request.step_laid (hcall : request.call.sends) (hsafe : Safe link)
    (hfits : Fits link.client) (htalking : Talking link.client) (hlaid : Laid link)
    (hintact : Intact (request.step link)) : Laid (request.step link) := by
  have hprep : Laid (request.prepare link) :=
    hlaid.of_same rfl (congrArg (List.filter _) (request.wire_prepare hcall link))
  have hafter := (request.step_safe hsafe hfits).1
  rw [Request.step] at hintact hafter ⊢
  cases hperform : request.call with
  | progress =>
    have hwaited := (@progress_waited (request.prepare link) (.inl htalking) hsafe.small).1
    exact hprep.of_same hwaited.sendNext hwaited.data
  | trySend data => exact trySend_laid data hprep
  | send data =>
    rw [hperform] at hintact
    exact send_laid data hfits hprep hintact
  | beginClose =>
    rw [hperform] at hintact hafter
    exact (beginClose_closes _).laid hafter hprep hintact.talking
  | close =>
    rw [hperform] at hintact hafter
    exact (@close_closes (request.prepare link) htalking).laid hafter hprep hintact.talking
  | _ =>
    rw [hperform] at hcall
    cases hcall

theorem session_laid (opening requests : List Request)
    (hfresh : dataSegments (session opening).stack = [])
    (hcalls : ∀ request ∈ requests, request.call.sends)
    (hintact : ∀ earlier, earlier <+: requests → Intact (session (opening ++ earlier))) :
    Laid (session (opening ++ requests)) := by
  induction requests using List.reverseRecOn with
  | nil =>
    rw [append_nil]
    exact ⟨_, 0, hfresh ▸ .nil, (BitVec.add_zero _).symm⟩
  | append_singleton requests request ih =>
    obtain ⟨hsafe, hfits⟩ := session_safe (opening ++ requests)
    have hstep := hintact _ prefix_rfl
    have hprefix := prefix_append requests [request]
    rw [← append_assoc, session_append] at hstep ⊢
    refine request.step_laid (hcalls request (by simp)) hsafe hfits
      (hintact _ hprefix).talking (ih ?_ ?_) hstep
    · exact fun other hmem => hcalls other (mem_append_left _ hmem)
    · exact fun earlier hearlier => hintact earlier (hearlier.trans hprefix)

/-- The FIN of a client behind a stream of data, all of which is acknowledged when it is sent.
As long as the numbers have not been used up, it shares its number with no byte of the data,
and no acknowledgement of data passes for its own. -/
structure FinBehind (first : Sequence) (sent : ℕ) (link : Link) : Prop where
  laidOut : LaidOut first (dataSegments link.stack) sent
  acknowledged : link.client.sendUnacknowledged = first + BitVec.ofNat 32 sent
  sequence : (finSegment link.client).sequence = first + BitVec.ofNat 32 sent
  distinct : sent < 2 ^ 32 → ∀ outgoing ∈ dataSegments link.stack,
    ∀ index < outgoing.payload.length,
      outgoing.sequence + BitVec.ofNat 32 index ≠ (finSegment link.client).sequence
  unmistaken : ∀ position ≤ sent, sent - position < 2 ^ 31 →
    sequenceBefore (first + BitVec.ofNat 32 position) ((finSegment link.client).sequence + 1) = true

def politeRequests : List Request :=
  [{ call := .send [65], arrivals := [acknowledgement 9 500], budgets := [1, 1] }]

/-- A byte goes out, and nothing is heard of it for too long. The connection is closed, and
then the byte is acknowledged. -/
def hastyRequests : List Request :=
  [{ call := .send [65], budgets := [1] }, { call := .beginClose },
    { call := .progress, arrivals := [acknowledgement 9 500] }]

end Kurogane.Net.TcpClient
