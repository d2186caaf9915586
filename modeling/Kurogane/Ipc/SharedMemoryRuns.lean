/-
# The life of shared-memory objects

Histories of calls on the object table. A history lists the calls that succeeded; it
tells which process has which right to which object. The
table agrees with its history after every sequence of calls, while the rest of the
kernel goes on using the frame allocator.
-/

import Kurogane.Ipc.SharedAccess
import Kurogane.Ipc.SharedFrames
import Mathlib.Data.Fintype.Card

namespace Kurogane.Ipc.SharedMemory

open Math Memory Function Finset

variable {region : Region} {world next : World region}

/-! ## Histories -/

/-- The calls that succeeded. The slot stands for the object that is in it at that time. -/
inductive Event where
  | created (slot : Fin maxObjects) (owner : ProcessId)
  | granted (slot : Fin maxObjects) (granter target : ProcessId)
  | acquired (slot : Fin maxObjects) (pid : ProcessId)
  | released (slot : Fin maxObjects) (pid : ProcessId)
  | closed (slot : Fin maxObjects) (pid : ProcessId)
  | exited (pid : ProcessId)

/-- How a call changes the rights to the object in a slot. Access granted by anyone but the owner
is no access, and a process that exits gives up the object and all its mappings. -/
def Rights.after (rights : Rights) (index : Fin maxObjects) : Event → Rights
  | .created slot owner =>
    if slot = index then ({ owner := some owner } : Rights).set owner true 0 else rights
  | .granted slot granter target =>
    if slot = index ∧ rights.owner = some granter then
      rights.set target true (rights.mapped target)
    else rights
  | .acquired slot pid =>
    if slot = index then rights.set pid (rights.opened pid) (rights.mapped pid + 1) else rights
  | .released slot pid =>
    if slot = index then rights.set pid (rights.opened pid) (rights.mapped pid - 1) else rights
  | .closed slot pid =>
    if slot = index then rights.set pid false (rights.mapped pid) else rights
  | .exited pid => rights.set pid false 0

/-- The rights to the objects after a history, which is read newest first. -/
def rightsTo : List Event → Fin maxObjects → Rights
  | [], _ => {}
  | event :: rest, index => (rightsTo rest index).after index event

inductive Request (region : Region) where
  | initialized
  | create (ownerPid : ProcessId) (size : ℕ)
  | grant (ownerPid : ProcessId) (handle : Handle) (targetPid : ProcessId)
  | acquire (pid : ProcessId) (handle : Handle)
  | release (pid : ProcessId) (handle : Handle)
  | close (pid : ProcessId) (handle : Handle)
  | releaseProcess (pid : ProcessId)
  /-- The rest of the kernel takes and frees frames. -/
  | foreign (memory : Frames region)

def logged {α : Type} (result : Except Status α) (slot : Option (Fin maxObjects))
    (event : Fin maxObjects → Event) (history : List Event) : List Event :=
  match result, slot with
  | .ok _, some slot => event slot :: history
  | _, _ => history

def serve (world : World region) (history : List Event) :
    Request region → World region × List Event
  | .initialized => ((initializeSharedMemory world).2, history)
  | .create ownerPid size =>
    ((create world ownerPid size).2,
      logged (create world ownerPid size).1 world.freeObject (.created · ownerPid) history)
  | .grant ownerPid handle targetPid =>
    ((grant world ownerPid handle targetPid).2,
      logged (grant world ownerPid handle targetPid).1 (decodeIndex handle maxObjects)
        (.granted · ownerPid targetPid) history)
  | .acquire pid handle =>
    ((acquire world pid handle).2,
      logged (acquire world pid handle).1 (decodeIndex handle maxObjects) (.acquired · pid)
        history)
  | .release pid handle =>
    ((release world pid handle).2,
      logged (release world pid handle).1 (decodeIndex handle maxObjects) (.released · pid)
        history)
  | .close pid handle =>
    ((close world pid handle).2,
      logged (close world pid handle).1 (decodeIndex handle maxObjects) (.closed · pid) history)
  | .releaseProcess pid =>
    (releaseProcess world pid,
      if world.initialized = false ∨ pid = invalidProcessId then history
      else .exited pid :: history)
  | .foreign memory =>
    -- The frames of the objects are not for others to free.
    if ∀ index, (world.objects index).active = true →
        ∀ frame ∈ (world.objects index).frames, Held memory frame then
      ({ world with memory }, history)
    else (world, history)

def run (memory : Frames region) (requests : List (Request region)) :
    World region × List Event :=
  requests.foldl (fun current request => serve current.1 current.2 request)
    (⟨false, fun _ => {}, memory, []⟩, [])

/-! ## The table agrees with the history -/

def ObjectSlot.held (slot : ObjectSlot) : Multiset Word := if slot.active then slot.frames else 0

variable {rights rights' : Fin maxObjects → Rights} {index : Fin maxObjects} {slot' : ObjectSlot}
  {pid : ProcessId} {handle : Handle} {status : Status} {history : List Event}

structure Consistent (rights : Fin maxObjects → Rights) (world : World region) : Prop where
  blank : world.initialized = false → ∀ index, (world.objects index).active = false
  agrees : ∀ index, (world.objects index).active → Agrees (world.objects index) (rights index)
  live : ∀ index, (world.objects index).active →
    ∃ holder, (world.objects index).Live holder
  idle : ∀ index, (world.objects index).active = false → ∀ pid, ¬ (rights index).Holds pid
  pages : ∀ index, (world.objects index).active →
    (world.objects index).frames.length = (world.objects index).pageCount
  outstanding_eq : outstanding world.events = ∑ index, (world.objects index).held
  accounted : Accounted world.memory world.events

abbrev Recorded (history : List Event) (world : World region) : Prop :=
  Consistent (rightsTo history) world

section

variable (h : Consistent rights world)
include h

theorem Consistent.held_le (index : Fin maxObjects) :
    (world.objects index).held ≤ outstanding world.events := by
  rw [h.outstanding_eq, ← sum_erase_add _ _ (mem_univ index)]
  exact Multiset.le_add_left _ _

/-- One slot changes, and with it the rights to the object in that slot. -/
theorem Consistent.put (hinit : world.initialized) (hinit' : next.initialized = world.initialized)
    (hobjects : next.objects = update world.objects index slot')
    (hact : slot'.active → Agrees slot' (rights' index) ∧
      (∃ holder, slot'.Live holder) ∧ slot'.frames.length = slot'.pageCount)
    (hidle : slot'.active = false → ∀ pid, ¬ (rights' index).Holds pid)
    (hothers : ∀ other ≠ index, rights' other = rights other)
    (hevs : outstanding next.events + (world.objects index).held =
      outstanding world.events + slot'.held) (hacct : Accounted next.memory next.events) :
    Consistent rights' next := by
  have hself : next.objects index = slot' := by
    rw [hobjects, update_self]
  have hslots : ∀ other, ((next.objects other).active →
      Agrees (next.objects other) (rights' other) ∧
        (∃ holder, (next.objects other).Live holder) ∧
        (next.objects other).frames.length = (next.objects other).pageCount) ∧
      ((next.objects other).active = false → ∀ pid, ¬ (rights' other).Holds pid) := by
    intro other
    by_cases hne : other = index
    · rw [hne, hself]
      exact ⟨hact, hidle⟩
    · rw [hobjects, update_of_ne hne, hothers other hne]
      exact ⟨fun hact => ⟨h.agrees other hact, h.live other hact, h.pages other hact⟩, h.idle other⟩
  refine ⟨?_, fun other hact => ((hslots other).1 hact).1,
    fun other hact => ((hslots other).1 hact).2.1, fun other => (hslots other).2,
    fun other hact => ((hslots other).1 hact).2.2, ?_, hacct⟩
  · intro hblank
    rw [hinit', hinit] at hblank
    cases hblank
  have hsum := sum_update_add ObjectSlot.held world.objects index slot'
  rw [← h.outstanding_eq, ← hevs] at hsum
  rw [hobjects]
  exact (add_right_cancel hsum).symm

/-- The records of an object change, and the object goes if nobody is left. -/
theorem Consistent.replace (hact : (world.objects index).active)
    (hslot : slot'.active ∧ slot'.frames = (world.objects index).frames ∧
      slot'.pageCount = (world.objects index).pageCount)
    (hagrees : Agrees slot' (rights' index))
    (hothers : ∀ other ≠ index, rights' other = rights other) :
    Consistent rights' ((world.setObject index slot').maybeReclaim index) := by
  obtain ⟨hslot, hframes, hcount⟩ := hslot
  have hheld : slot'.held = (world.objects index).held := by
    rw [ObjectSlot.held, ObjectSlot.held, hslot, hact, hframes]
  have hself : (world.setObject index slot').objects index = slot' := update_self _ _ _
  have hinit : world.initialized := by
    by_contra hblank
    rw [h.blank (by simpa using hblank) index] at hact
    cases hact
  rw [World.maybeReclaim, hself]
  split
  · next hdead =>
    have hnobody : ¬ ∃ holder, slot'.Live holder := by
      rw [← hasLiveAccess_eq_true, hdead.2]
      exact Bool.false_ne_true
    obtain ⟨hinit', hobjects, hevs⟩ := freeFrames_frame (world.setObject index slot') slot'.frames
    have hle : (slot'.frames : Multiset Word) ≤
        outstanding (world.setObject index slot').events := by
      have hle := h.held_le index
      rw [ObjectSlot.held, if_pos hact, ← hframes] at hle
      exact hle
    have hacct : Accounted (world.setObject index slot').memory
      (world.setObject index slot').events := h.accounted
    have hclear : ((world.setObject index slot').reclaim index).objects =
        update world.objects index { generation := slot'.generation } := by
      rw [World.reclaim, World.setObject, hself, hobjects]
      exact update_idem _ _ _
    rw [World.reclaim, hself] at hclear ⊢
    refine h.put hinit hinit' hclear (by simp)
      (fun _ pid => hagrees.silent pid fun holder hlive => absurd ⟨holder, hlive⟩ hnobody) hothers
      ?_ (hacct.freeFrames hle).1
    change outstanding ((world.setObject index slot').freeFrames slot'.frames).events + _ = _ + 0
    rw [hevs, outstanding_returnAll, ← hheld, ObjectSlot.held, if_pos hslot, add_zero]
    exact tsub_add_cancel_of_le hle
  · next hlive =>
    have hsomebody : ∃ holder, slot'.Live holder := by
      rw [← hasLiveAccess_eq_true]
      by_contra hnot
      exact hlive ⟨hslot, by simpa using hnot⟩
    refine h.put hinit rfl rfl (fun _ => ⟨hagrees, hsomebody, ?_⟩)
      (fun hidle => absurd (hslot.symm.trans hidle) (by simp)) hothers ?_ h.accounted
    · rw [hframes, hcount]
      exact h.pages index hact
    · rw [hheld]
      rfl

end

variable {holder : Holder}

theorem maybeReclaim_of_live (hlive : slot'.Live holder) :
    (world.setObject index slot').maybeReclaim index = world.setObject index slot' := by
  have hself : (world.setObject index slot').objects index = slot' := update_self _ _ _
  rw [World.maybeReclaim, hself, if_neg]
  rintro ⟨-, hdead⟩
  rw [hasLiveAccess_eq_true.mpr ⟨holder, hlive⟩] at hdead
  cases hdead

/-! ## Calls -/

theorem decode_eq_ok (h : world.decode handle = .ok index) :
    decodeIndex handle maxObjects = some index ∧ (world.objects index).active := by
  revert h
  fun_cases World.decode world handle with
  | case4 _ _ hidx hvalid =>
    rintro ⟨⟩
    rw [not_or, Bool.not_eq_false] at hvalid
    exact ⟨hidx, hvalid.1⟩
  | _ => nofun

variable {slot : ObjectSlot} {targetPid : ProcessId}

theorem grantTo_eq_ok (h : slot.grantTo targetPid = .ok slot') :
    (∃ record, slot.findGrant targetPid = some record ∧
      slot' = slot.setAccess true (slot.grants record).mappings (.grant record)) ∨
    slot.findGrant targetPid = none ∧ ∃ record, (slot.grants record).pid = invalidProcessId ∧
      (slot.grants record).mappings = 0 ∧
      slot' = slot.setGrant record
        { slot.grants record with pid := targetPid, isOpen := true } := by
  revert h
  fun_cases ObjectSlot.grantTo slot targetPid with
  | case2 record hrec =>
    rintro ⟨⟩
    exact .inl ⟨record, hrec, rfl⟩
  | case3 hnone record hrec =>
    rintro ⟨⟩
    have hunused := List.find?_some hrec
    simp only [decide_eq_true_eq] at hunused
    exact .inr ⟨hnone, record, hunused.1, hunused.2, rfl⟩
  | _ => nofun

/-- An object is created in a free slot with frames of its own, or nothing changes but the
generation of the slot. -/
inductive Creation (world : World region) (ownerPid : ProcessId) (size : ℕ) :
    Except Status Handle × World region → Prop where
  | refused (status : Status) : Creation world ownerPid size (.error status, world)
  | failed (status : Status) (index : Fin maxObjects) (next : World region) (generation : ℕ)
      (hinitialized : world.initialized = true) (hfree : (world.objects index).active = false)
      (htaken : Taken world [] ((size + pageSize - 1) / pageSize) (none, next)) :
      Creation world ownerPid size (.error status, next.setObject index { generation })
  | created (handle : Handle) (index : Fin maxObjects) (next : World region) (generation : ℕ)
      (frames : List Word) (hinitialized : world.initialized = true)
      (hindex : world.freeObject = some index) (hfree : (world.objects index).active = false)
      (htaken : Taken world [] ((size + pageSize - 1) / pageSize) (some frames, next)) :
      Creation world ownerPid size (.ok handle, next.setObject index
        { generation, ownerPid, frames, pageCount := (size + pageSize - 1) / pageSize, size
          active := true, ownerOpen := true })

theorem create_cases (h : Accounted world.memory world.events) (ownerPid : ProcessId)
    (size : ℕ) : Creation world ownerPid size (create world ownerPid size) := by
  rw [create]
  split
  · exact .refused _
  next hinit =>
  rw [Bool.not_eq_false] at hinit
  split
  · exact .refused _
  split
  · exact .refused _
  split
  · exact .refused _
  next index hidx =>
  have hfree : (world.objects index).active = false := by
    simpa using List.find?_some hidx
  have htaken := takeFrames_spec world [] ((size + pageSize - 1) / pageSize) h (Multiset.zero_le _)
  dsimp only
  split
  · next next hnone =>
    rw [hnone] at htaken
    exact .failed _ index next _ hinit hfree htaken
  · next frames next hsome =>
    rw [hsome] at htaken
    exact .created _ index next _ frames hinit hidx hfree htaken

/-! ## Calls keep the table consistent -/

theorem setAccess_frame (slot : ObjectSlot) (isOpen : Bool) (mappings : ℕ) (holder : Holder) :
    (slot.setAccess isOpen mappings holder).active = slot.active ∧
      (slot.setAccess isOpen mappings holder).frames = slot.frames ∧
      (slot.setAccess isOpen mappings holder).pageCount = slot.pageCount := by
  cases holder <;> exact ⟨rfl, rfl, rfl⟩

theorem live_setAccess (slot : ObjectSlot) {isOpen : Bool} {mappings : ℕ} (holder : Holder)
    (hlive : isOpen = true ∨ mappings ≠ 0) :
    (slot.setAccess isOpen mappings holder).Live holder := by
  cases holder <;> simpa [ObjectSlot.Live, ObjectSlot.setAccess, ObjectSlot.setGrant,
    ObjectSlot.openOf, ObjectSlot.mappingsOf] using hlive

section

variable (h : Recorded history world) (hact : (world.objects index).active)
include h hact

theorem Recorded.access {event : Event} {isOpen : Bool} {mappings : ℕ}
    (hlive : (world.objects index).Live holder)
    (hself : rightsTo (event :: history) index =
      (rightsTo history index).set ((world.objects index).pidOf holder) isOpen mappings)
    (hothers : ∀ other ≠ index, rightsTo (event :: history) other = rightsTo history other) :
    Recorded (event :: history) ((world.setObject index
      ((world.objects index).setAccess isOpen mappings holder)).maybeReclaim index) := by
  refine h.replace hact (hact ▸ setAccess_frame ..) ?_ hothers
  rw [hself]
  exact (h.agrees index hact).setAccess hlive isOpen mappings

theorem Recorded.grant {ownerPid : ProcessId} (htarget : targetPid ≠ invalidProcessId)
    (howner : (world.objects index).ownerPid = ownerPid) (hother : ownerPid ≠ targetPid)
    (hgrant : (world.objects index).grantTo targetPid = .ok slot') :
    Recorded (.granted index ownerPid targetPid :: history) (world.setObject index slot') := by
  have hagrees := h.agrees index hact
  have hself : rightsTo (.granted index ownerPid targetPid :: history) index =
      (rightsTo history index).set targetPid true ((rightsTo history index).mapped targetPid) :=
    if_pos ⟨rfl, howner ▸ hagrees.owner⟩
  have hothers : ∀ other ≠ index, rightsTo (.granted index ownerPid targetPid :: history) other =
      rightsTo history other := fun other hne => if_neg fun hand => hne hand.1.symm
  rcases grantTo_eq_ok hgrant with ⟨record, hfound, rfl⟩ | ⟨hnone, record, hunused, hzero, rfl⟩
  · obtain ⟨rfl, hlive⟩ := findGrant_eq_some hfound
    rw [← maybeReclaim_of_live (live_setAccess _ _ (.inl rfl))]
    refine h.access hact hlive ?_ hothers
    rw [hself, (hagrees.agree _ hlive).2]
    rfl
  have hlive : ((world.objects index).setGrant record
      { (world.objects index).grants record with pid := targetPid, isOpen := true }).Live
      (.grant record) := by
    refine .inl ?_
    simp [ObjectSlot.openOf, ObjectSlot.setGrant]
  rw [← maybeReclaim_of_live hlive]
  refine h.replace hact ⟨hact, rfl, rfl⟩ ?_ hothers
  rw [hself]
  exact hagrees.enroll hunused (howner ▸ hother) htarget hnone hzero

end

theorem Consistent.releaseSlot (h : Consistent rights world) (pid : ProcessId)
    (index : Fin maxObjects) :
    Consistent (update rights index ((rights index).set pid false 0))
      (releaseSlot pid world index) := by
  rw [SharedMemory.releaseSlot]
  split
  · next hidle =>
    -- Nobody had access to an object that is not there.
    obtain ⟨hopened, hmapped⟩ := ((rights index).not_holds pid).mp (h.idle index hidle pid)
    rw [← hopened, ← hmapped, Rights.set_self, update_eq_self]
    exact h
  · next hact =>
    rw [Bool.not_eq_false] at hact
    refine h.replace hact ⟨hact, rfl, rfl⟩ ?_ fun other hne => update_of_ne hne ..
    rw [update_self]
    exact (h.agrees index hact).dismiss

theorem Consistent.releaseSlots (h : Consistent rights world) (pid : ProcessId)
    (slots : List (Fin maxObjects)) :
    Consistent (fun index => if index ∈ slots then (rights index).set pid false 0 else rights index)
      (slots.foldl (SharedMemory.releaseSlot pid) world) := by
  induction slots generalizing rights world with
  | nil =>
    exact h
  | cons index _ ih =>
    rw [List.foldl_cons]
    convert ih (h.releaseSlot pid index) using 1
    funext other
    by_cases hidx : other = index
    · rw [hidx, update_self]
      simp [Rights.set]
    · simp [hidx]

variable {ownerPid : ProcessId} {size : ℕ}

section

variable (h : Recorded history world)
include h

theorem Recorded.releaseProcess (pid : ProcessId) :
    Recorded (.exited pid :: history)
      ((List.finRange maxObjects).foldl (SharedMemory.releaseSlot pid) world) := by
  have hslots := h.releaseSlots pid (List.finRange maxObjects)
  simp only [List.mem_finRange, if_true] at hslots
  exact hslots

theorem Recorded.create
    {result : Except Status Handle × World region} (hcreate : Creation world ownerPid size result) :
    Recorded (logged result.1 world.freeObject (.created · ownerPid) history) result.2 := by
  cases hcreate with
  | refused => exact h
  | failed _ index next generation hinit hfree htaken =>
    cases htaken with
    | none _ hevs hacct _ hinit' hobjects =>
    have hput : (next.setObject index { generation }).objects =
        update world.objects index { generation } := by
      rw [World.setObject, hobjects]
    refine h.put hinit hinit' hput (by simp) (fun _ => h.idle index hfree) (fun _ _ => rfl) ?_ hacct
    change outstanding next.events + _ = _
    rw [hevs, Multiset.coe_nil, tsub_zero, ObjectSlot.held, hfree]
    rfl
  | created _ index next generation frames hinit hidx hfree htaken =>
    cases htaken with
    | all _ new _ hframes hcount hevs hacct hinit' hobjects =>
    subst hframes
    set slot : ObjectSlot := { generation, ownerPid, frames
                               pageCount := (size + pageSize - 1) / pageSize, size
                               active := true, ownerOpen := true } with hslot
    have hput : (next.setObject index slot).objects = update world.objects index slot := by
      rw [World.setObject, hobjects]
    have hlive : ∀ holder, slot.Live holder → holder = .owner := by
      intro holder hholder
      cases holder with
      | owner => rfl
      | grant =>
        rcases hholder with hopen | hmapped
        · cases hopen
        · exact absurd rfl hmapped
    rw [hidx]
    change Recorded (.created index ownerPid :: history) (next.setObject index slot)
    have hself : rightsTo (.created index ownerPid :: history) index =
        ({ owner := some ownerPid } : Rights).set ownerPid true 0 := if_pos rfl
    refine h.put hinit hinit' hput (fun _ => ⟨?_, ⟨.owner, .inl rfl⟩, hcount⟩)
      (by simp [slot]) (fun other hne => if_neg (Ne.symm hne)) ?_ hacct
    · rw [hself]
      refine ⟨rfl, ?_, ?_, ?_, ?_⟩
      · intro first second hfirst hsnd _
        rw [hlive first hfirst, hlive second hsnd]
      · intro record hrec
        cases hlive _ hrec
      · intro holder hholder
        rw [hlive holder hholder]
        exact ⟨update_self .., update_self ..⟩
      · intro pid hnobody
        have hne : pid ≠ ownerPid := fun heq => hnobody .owner (.inl rfl) heq.symm
        simp [Rights.not_holds, Rights.set, hne]
    · change outstanding next.events + _ = _ + (frames : Multiset Word)
      rw [hevs, ObjectSlot.held, hfree, add_comm (outstanding world.events)]
      exact add_zero _

theorem Recorded.serve (request : Request region) :
    Recorded (serve world history request).2 (serve world history request).1 := by
  cases request with
  | initialized =>
    rw [SharedMemory.serve, initializeSharedMemory]
    split
    · exact h
    next hblank =>
    have hidle := h.blank (by simpa using hblank)
    refine ⟨fun _ _ => rfl, nofun, nofun, fun index _ => h.idle index (hidle index), nofun,
      h.outstanding_eq.trans (sum_congr rfl fun index _ => ?_), h.accounted⟩
    rw [ObjectSlot.held, hidle index]
    rfl
  | create ownerPid size => exact h.create (create_cases h.accounted ownerPid size)
  | grant ownerPid handle targetPid =>
    rw [SharedMemory.serve]
    fun_cases SharedMemory.grant world ownerPid handle targetPid with
    | case6 _ hvalid index hdec howner slot' hslot =>
      obtain ⟨hidx, hact⟩ := decode_eq_ok hdec
      rw [not_or, not_or] at hvalid
      rw [not_or, not_not] at howner
      rw [hidx]
      exact h.grant hact hvalid.2.1 howner.1 hvalid.2.2 hslot
    | _ => exact h
  | acquire pid handle =>
    rw [SharedMemory.serve]
    fun_cases SharedMemory.acquire world pid handle with
    | case7 _ _ index hdec _ holder haccess =>
      obtain ⟨hidx, hact⟩ := decode_eq_ok hdec
      obtain ⟨hlive, rfl⟩ := accessSlot_eq_ok haccess
      obtain ⟨hopened, hmapped⟩ := (h.agrees index hact).agree holder hlive
      rw [hidx, ← maybeReclaim_of_live (live_setAccess _ _ (.inr (Nat.succ_ne_zero _)))]
      refine h.access hact hlive ?_ fun other hne => if_neg (Ne.symm hne)
      exact (if_pos rfl).trans (by rw [hopened, hmapped]; rfl)
    | _ => exact h
  | release pid handle =>
    rw [SharedMemory.serve]
    fun_cases SharedMemory.release world pid handle with
    | case6 _ _ index hdec _ holder haccess hmappings =>
      obtain ⟨hidx, hact⟩ := decode_eq_ok hdec
      obtain ⟨hlive, rfl⟩ := accessSlot_eq_ok haccess
      obtain ⟨hopened, hmapped⟩ := (h.agrees index hact).agree holder hlive
      rw [hidx]
      refine h.access hact hlive ?_ fun other hne => if_neg (Ne.symm hne)
      refine (if_pos rfl).trans ?_
      rw [hopened, hmapped]
      exact congrArg _ (Int.ofNat_sub (Nat.pos_of_ne_zero hmappings)).symm
    | _ => exact h
  | close pid handle =>
    rw [SharedMemory.serve]
    fun_cases SharedMemory.close world pid handle with
    | case6 _ _ index hdec _ holder haccess =>
      obtain ⟨hidx, hact⟩ := decode_eq_ok hdec
      obtain ⟨hlive, rfl⟩ := accessSlot_eq_ok haccess
      rw [hidx]
      refine h.access hact hlive ?_ fun other hne => if_neg (Ne.symm hne)
      exact (if_pos rfl).trans (by rw [((h.agrees index hact).agree holder hlive).2])
    | _ => exact h
  | releaseProcess pid =>
    rw [SharedMemory.serve, SharedMemory.releaseProcess]
    split
    · exact h
    · exact h.releaseProcess pid
  | foreign =>
    rw [SharedMemory.serve]
    split
    · next hkept =>
      refine { h with accounted := { h.accounted with held := fun frame hframe => ?_ } }
      rw [h.outstanding_eq] at hframe
      obtain ⟨index, -, hheld⟩ := Multiset.mem_sum.mp hframe
      rw [ObjectSlot.held] at hheld
      split at hheld
      · next hact => exact hkept index hact frame (Multiset.mem_coe.mp hheld)
      · cases hheld
    · exact h

end

theorem run_consistent (memory : Frames region) (requests : List (Request region)) :
    Recorded (run memory requests).2 (run memory requests).1 := by
  have hstart : Recorded [] (⟨false, fun _ => {}, memory, []⟩ : World region) := by
    refine ⟨fun _ _ => rfl, nofun, nofun, fun _ _ _ => by simp [Rights.Holds, rightsTo], nofun, ?_,
      trivial,
      Multiset.nodup_zero, nofun⟩
    exact (Finset.sum_eq_zero fun _ _ => rfl).symm
  exact List.foldlRecOn (motive := fun current : World region × List Event =>
    Recorded current.2 current.1) requests _ hstart
    fun _ h request _ => h.serve request

/-! ## The life of an object -/

def ObjectSlot.countFor (slot : ObjectSlot) (pid : ProcessId) : ℕ :=
  match slot.accessSlot pid with
  | .ok holder => slot.mappingsOf holder
  | .error _ => 0

def ObjectSlot.Tidy (slot : ObjectSlot) : Prop :=
  ∀ record, (slot.grants record).pid ≠ invalidProcessId → slot.Live (.grant record)

/-- What holds between the table, the frame allocator and the history of calls. -/
structure Lifecycle (history : List Event) (world : World region) : Prop where
  /-- An object has as many frames as pages, all different and in use. -/
  pages : ∀ index, (world.objects index).active →
    (world.objects index).frames.length = (world.objects index).pageCount ∧
      (world.objects index).frames.Nodup ∧
      ∀ frame ∈ (world.objects index).frames, Held world.memory frame
  /-- Objects have no frame in common. -/
  disjoint : ∀ index other, index ≠ other → (world.objects index).active →
    (world.objects other).active →
    (world.objects index).frames.Disjoint (world.objects other).frames
  /-- The frames taken and not yet freed are those of the objects. -/
  outstanding_eq : outstanding world.events = ∑ index, (world.objects index).held
  /-- No frame is freed twice. -/
  once : ReturnedOnce world.events
  /-- An object is there as long as a process has it open or mapped. -/
  live : ∀ index, (world.objects index).active ↔ ∃ pid, (rightsTo history index).Holds pid
  /-- What an object counts for a process is its acquires less its releases. -/
  mappings : ∀ index pid, (world.objects index).active →
    (world.objects index).countFor pid = (rightsTo history index).mapped pid

theorem Agrees.countFor {rights : Rights} (h : Agrees slot rights) (pid : ProcessId) :
    (slot.countFor pid : ℤ) = rights.mapped pid := by
  rw [ObjectSlot.countFor]
  split
  · next holder haccess =>
    obtain ⟨hlive, hpid⟩ := accessSlot_eq_ok haccess
    rw [← hpid, (h.agree holder hlive).2]
  · next haccess =>
    exact ((rights.not_holds pid).mp (h.silent pid (h.accessSlot_eq_error haccess))).2.symm

theorem Recorded.lifecycle (h : Recorded history world) :
    Lifecycle history world where
  pages := by
    intro index hact
    have hle := h.held_le index
    rw [ObjectSlot.held, if_pos hact] at hle
    refine ⟨h.pages index hact, Multiset.coe_nodup.mp (Multiset.nodup_of_le hle
      h.accounted.nodup), fun frame hframe => ?_⟩
    exact h.accounted.held frame (Multiset.mem_of_le hle (Multiset.mem_coe.mpr hframe))
  disjoint := by
    intro index other hne hact hact' frame hframe hframe'
    have hnodup := h.accounted.nodup
    rw [h.outstanding_eq, ← sum_erase_add _ _ (mem_univ index)] at hnodup
    have hdisj := (Multiset.nodup_add.mp hnodup).2.2
    have hmem : frame ∈ ∑ other ∈ Finset.univ.erase index, (world.objects other).held := by
      refine Multiset.mem_sum.mpr ⟨other, mem_erase.mpr ⟨hne.symm, mem_univ _⟩, ?_⟩
      rw [ObjectSlot.held, if_pos hact']
      exact Multiset.mem_coe.mpr hframe'
    refine Multiset.disjoint_left.mp hdisj hmem ?_
    rw [ObjectSlot.held, if_pos hact]
    exact Multiset.mem_coe.mpr hframe
  outstanding_eq := h.outstanding_eq
  once := h.accounted.once
  live := by
    intro index
    constructor
    · intro hact
      exact (h.agrees index hact).holds_iff.mpr (h.live index hact)
    rintro ⟨pid, hholds⟩
    by_contra hidle
    exact h.idle index (by simpa using hidle) pid hholds
  mappings := fun index pid hact => (h.agrees index hact).countFor pid

theorem create_error (h : Accounted world.memory world.events)
    (herror : (create world ownerPid size).1 = .error status) :
    (create world ownerPid size).2.memory.inUse = world.memory.inUse ∧
      outstanding (create world ownerPid size).2.events = outstanding world.events := by
  have hcases := create_cases h ownerPid size
  generalize create world ownerPid size = result at herror hcases
  cases hcases with
  | refused => exact ⟨rfl, rfl⟩
  | failed _ _ next _ _ _ htaken =>
    cases htaken with
    | none _ hevs _ hinUse =>
    refine ⟨?_, ?_⟩
    · change next.memory.inUse = _
      rw [hinUse]
      simp
    · change outstanding next.events = _
      rw [hevs, Multiset.coe_nil, tsub_zero]
  | created => cases herror

theorem acquire_ok (h : Recorded history world) {view : View}
    (hok : (acquire world pid handle).1 = .ok view) :
    ∃ index, world.decode handle = .ok index ∧ (rightsTo history index).opened pid := by
  revert hok
  fun_cases acquire world pid handle with
  | case7 _ _ index hdec _ holder haccess hopen =>
    intro
    obtain ⟨hlive, hpid⟩ := accessSlot_eq_ok haccess
    refine ⟨index, hdec, ?_⟩
    rw [← hpid, ((h.agrees index (decode_eq_ok hdec).2).agree holder hlive).1]
    simpa using hopen
  | _ => nofun

theorem grantTo_eq_capacityReached (h : slot.grantTo targetPid = .error .capacityReached) :
    slot.findGrant targetPid = none ∧ ∀ record, (slot.grants record).pid = invalidProcessId →
      (slot.grants record).mappings ≠ 0 := by
  revert h
  fun_cases ObjectSlot.grantTo slot targetPid with
  | case4 hnone hfull =>
    intro
    refine ⟨hnone, fun record hpid hzero => ?_⟩
    have hnot := List.find?_eq_none.mp hfull record (List.mem_finRange record)
    simp only [decide_eq_true_eq] at hnot
    exact hnot ⟨hpid, hzero⟩
  | _ => nofun

/-- Access is refused for lack of room only if every record is taken. -/
theorem grant_capacityReached (h : Recorded history world)
    {targetPid : ProcessId}
    (hfull : (grant world ownerPid handle targetPid).1 = .error .capacityReached) :
    ∃ index, world.decode handle = .ok index ∧ ((world.objects index).Tidy →
      ∃ holders : Finset ProcessId, holders.card = maxGrantsPerObject ∧ targetPid ∉ holders ∧
        ∀ pid ∈ holders, (rightsTo history index).Holds pid) := by
  revert hfull
  fun_cases grant world ownerPid handle targetPid with
  | case3 _ _ _ hdec =>
    revert hdec
    fun_cases World.decode world handle <;> rintro ⟨⟩ <;> nofun
  | case5 _ _ index hdec _ _ hgrant =>
    rintro ⟨⟩
    refine ⟨index, hdec, fun htidy => ?_⟩
    obtain ⟨hnone, htaken⟩ := grantTo_eq_capacityReached hgrant
    have hagrees := h.agrees index (decode_eq_ok hdec).2
    have hlive : ∀ record, (world.objects index).Live (.grant record) := by
      intro record
      by_cases hpid : ((world.objects index).grants record).pid = invalidProcessId
      · exact .inr (htaken record hpid)
      · exact htidy record hpid
    refine ⟨Finset.univ.map ⟨fun record => (world.objects index).pidOf (.grant record), ?_⟩,
      ?_, ?_, ?_⟩
    · intro first second heq
      cases hagrees.distinct _ _ (hlive first) (hlive second) heq
      rfl
    · rw [card_map, card_univ, Fintype.card_fin]
    · intro hmem
      obtain ⟨record, -, hrec⟩ := mem_map.mp hmem
      exact findGrant_eq_none hnone record (hlive record) hrec
    intro pid hmem
    obtain ⟨record, -, hrec⟩ := mem_map.mp hmem
    exact hrec ▸ hagrees.holds_pidOf (hlive record)
  | _ => nofun

def oneFrame : Frames ⟨pageSize, 1, fun _ => false, by decide, by decide, by decide⟩ where
  bitmap := fun _ => false
  usedFrames := 0
  reservedUsed := fun _ h => h

/-- Process 1 grants access to its object to eight other processes, which keep it. -/
def granting : List (Request ⟨pageSize, 1, fun _ => false, by decide, by decide, by decide⟩) :=
  .initialized :: .create 1 100 :: (List.range maxGrantsPerObject).map fun pid =>
    .grant 1 (encode .sharedMemory false 0 1) (pid + 2)

/-- Process 2 is granted access to an object of process 1 and closes it again, eight times. -/
def regranting : List (Request ⟨pageSize, 1, fun _ => false, by decide, by decide, by decide⟩) :=
  .initialized :: .create 1 100 :: (List.replicate maxGrantsPerObject
    [.grant 1 (encode .sharedMemory false 0 1) 2,
      .close 2 (encode .sharedMemory false 0 1)]).flatten

end Kurogane.Ipc.SharedMemory
