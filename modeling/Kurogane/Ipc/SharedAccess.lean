/-
# Access to a shared-memory object

The rights that the processes have to an object, and the records of the object that
express them. The records keep expressing the rights when the calls change both: a
holder is adjusted, a process is admitted, a process is dismissed.
-/

import Kurogane.Ipc.SharedMemory

namespace Kurogane.Ipc.SharedMemory

open Math Memory Function

/-! ## Rights -/

/-- What an object is for: who owns it, who has it open, and how often each process maps it. -/
structure Rights where
  owner : Option ProcessId := none
  opened : ProcessId → Bool := fun _ => false
  mapped : ProcessId → ℤ := fun _ => 0

namespace Rights

variable (rights : Rights) (pid : ProcessId)

def set (isOpen : Bool) (count : ℤ) : Rights :=
  { rights with
    opened := update rights.opened pid isOpen
    mapped := update rights.mapped pid count }

def Holds : Prop := rights.opened pid ∨ rights.mapped pid ≠ 0

theorem not_holds : ¬ rights.Holds pid ↔ rights.opened pid = false ∧ rights.mapped pid = 0 := by
  rw [Holds, not_or, Bool.not_eq_true, not_not]

@[simp]
theorem set_self : rights.set pid (rights.opened pid) (rights.mapped pid) = rights := by
  rw [set, update_eq_self, update_eq_self]

end Rights

variable {slot slot' : ObjectSlot} {rights : Rights} {holder other : Holder} {pid : ProcessId}
  {status : Status}

def ObjectSlot.Live (slot : ObjectSlot) (holder : Holder) : Prop :=
  slot.openOf holder = true ∨ slot.mappingsOf holder ≠ 0

theorem hasLiveAccess_eq_true : slot.hasLiveAccess ↔ ∃ holder, slot.Live holder := by
  rw [ObjectSlot.hasLiveAccess, decide_eq_true_iff]
  constructor
  · rintro (hopen | hmapped | ⟨record, hlive⟩)
    · exact ⟨.owner, .inl hopen⟩
    · exact ⟨.owner, .inr hmapped⟩
    · exact ⟨.grant record, hlive⟩
  rintro ⟨holder, hlive⟩
  cases holder with
  | owner => exact hlive.elim .inl fun h => .inr (.inl h)
  | grant record => exact .inr (.inr ⟨record, hlive⟩)

variable {record : Fin maxGrantsPerObject}

theorem findGrant_eq_some (h : slot.findGrant pid = some record) :
    slot.pidOf (.grant record) = pid ∧ slot.Live (.grant record) := by
  have hfound := List.find?_some h
  simp only [decide_eq_true_eq] at hfound
  exact hfound

theorem findGrant_eq_none (h : slot.findGrant pid = none) (record : Fin maxGrantsPerObject)
    (hlive : slot.Live (.grant record)) : slot.pidOf (.grant record) ≠ pid := by
  intro hpid
  have hnot := List.find?_eq_none.mp h record (List.mem_finRange record)
  simp only [decide_eq_true_eq] at hnot
  exact hnot ⟨hpid, hlive⟩

/-! ## What the records say -/

/-- The records of the object express the rights: a live record for each process that holds
the object, and none for any other. -/
structure Agrees (slot : ObjectSlot) (rights : Rights) : Prop where
  owner : rights.owner = some slot.ownerPid
  distinct : ∀ holder other, slot.Live holder → slot.Live other →
    slot.pidOf holder = slot.pidOf other → holder = other
  stranger : ∀ record, slot.Live (.grant record) → slot.pidOf (.grant record) ≠ slot.ownerPid ∧
    slot.pidOf (.grant record) ≠ invalidProcessId
  agree : ∀ holder, slot.Live holder → rights.opened (slot.pidOf holder) = slot.openOf holder ∧
    rights.mapped (slot.pidOf holder) = slot.mappingsOf holder
  silent : ∀ pid, (∀ holder, slot.Live holder → slot.pidOf holder ≠ pid) → ¬ rights.Holds pid

theorem accessSlot_eq_ok (h : slot.accessSlot pid = .ok holder) :
    slot.Live holder ∧ slot.pidOf holder = pid := by
  rw [ObjectSlot.accessSlot] at h
  split at h
  · next howner =>
    split at h
    · next hlive =>
      cases h
      exact ⟨hlive, howner.symm⟩
    · cases h
  split at h
  · next record hfound =>
    cases h
    exact (findGrant_eq_some hfound).symm
  · cases h

theorem Agrees.accessSlot_eq_error (h : Agrees slot rights)
    (herror : slot.accessSlot pid = .error status) (holder : Holder)
    (hlive : slot.Live holder) : slot.pidOf holder ≠ pid := by
  rw [ObjectSlot.accessSlot] at herror
  split at herror
  · next howner =>
    split at herror
    · cases herror
    next hidle =>
    cases holder with
    | owner => exact absurd hlive hidle
    | grant record => exact howner ▸ (h.stranger record hlive).1
  next hstranger =>
  split at herror
  · cases herror
  next hnone =>
  cases holder with
  | owner => exact fun heq => hstranger heq.symm
  | grant record => exact findGrant_eq_none hnone record hlive

theorem Agrees.holds_pidOf (h : Agrees slot rights) (hlive : slot.Live holder) :
    rights.Holds (slot.pidOf holder) := by
  obtain ⟨hopen, hmapped⟩ := h.agree holder hlive
  rw [Rights.Holds, hopen, hmapped]
  exact hlive.imp id fun hne => by exact_mod_cast hne

theorem Agrees.holds_iff (h : Agrees slot rights) :
    (∃ pid, rights.Holds pid) ↔ ∃ holder, slot.Live holder := by
  constructor
  · rintro ⟨pid, hholds⟩
    by_contra hnone
    exact h.silent pid (fun holder hlive => absurd ⟨holder, hlive⟩ hnone) hholds
  · rintro ⟨holder, hlive⟩
    exact ⟨slot.pidOf holder, h.holds_pidOf hlive⟩

/-! ## Changes -/

structure ChangedAt (slot slot' : ObjectSlot) (holder : Holder) : Prop where
  owner : slot'.ownerPid = slot.ownerPid
  pid : ∀ other ≠ holder, slot'.pidOf other = slot.pidOf other
  isOpen : ∀ other ≠ holder, slot'.openOf other = slot.openOf other
  mappings : ∀ other ≠ holder, slot'.mappingsOf other = slot.mappingsOf other

theorem ChangedAt.live_iff (h : ChangedAt slot slot' holder) (hne : other ≠ holder) :
    slot'.Live other ↔ slot.Live other := by
  rw [ObjectSlot.Live, ObjectSlot.Live, h.isOpen other hne, h.mappings other hne]

theorem changedAt_setGrant (entry : AccessSlot) :
    ChangedAt slot (slot.setGrant record entry) (.grant record) := by
  refine ⟨rfl, fun other hne => ?_, fun other hne => ?_, fun other hne => ?_⟩
  all_goals
    cases other with
    | owner => rfl
    | grant other =>
      have hother : other ≠ record := fun heq => hne (heq ▸ rfl)
      simp [ObjectSlot.setGrant, ObjectSlot.pidOf, ObjectSlot.openOf, ObjectSlot.mappingsOf,
        update_of_ne hother]

/-- A change of one record, and with it of the rights of the process it belongs to. The record
belonged to that process or was dead, and no other live record belongs to it. -/
theorem Agrees.change (h : Agrees slot rights) (hslot : ChangedAt slot slot' holder)
    (hpid : slot'.pidOf holder = pid) (hself : slot.Live holder → slot.pidOf holder = pid)
    (hothers : ∀ other ≠ holder, slot.Live other → slot.pidOf other ≠ pid)
    (hgrant : ∀ record, holder = .grant record → pid ≠ slot.ownerPid ∧ pid ≠ invalidProcessId) :
    Agrees slot' (rights.set pid (slot'.openOf holder) (slot'.mappingsOf holder)) := by
  have hnew : ∀ other ≠ holder, slot'.Live other → slot'.pidOf other ≠ pid := by
    intro other hne hother
    rw [hslot.pid other hne]
    exact hothers other hne ((hslot.live_iff hne).mp hother)
  refine ⟨h.owner.trans (congrArg some hslot.owner.symm), ?_, ?_, ?_, ?_⟩
  · intro first second hfirst hsnd heq
    by_cases hfirst' : first = holder <;> by_cases hsnd' : second = holder
    · rw [hfirst', hsnd']
    · rw [hfirst', hpid] at heq
      exact absurd heq.symm (hnew second hsnd' hsnd)
    · rw [hsnd', hpid] at heq
      exact absurd heq (hnew first hfirst' hfirst)
    · rw [hslot.pid first hfirst', hslot.pid second hsnd'] at heq
      exact h.distinct first second ((hslot.live_iff hfirst').mp hfirst)
        ((hslot.live_iff hsnd').mp hsnd) heq
  · intro record hrec
    rw [hslot.owner]
    by_cases hne : (.grant record) = holder
    · rw [hne, hpid]
      exact hgrant record hne.symm
    · rw [hslot.pid _ hne]
      exact h.stranger record ((hslot.live_iff hne).mp hrec)
  · intro other hother
    simp only [Rights.set]
    by_cases hne : other = holder
    · rw [hne, hpid, update_self, update_self]
      exact ⟨rfl, rfl⟩
    have hpid' := hnew other hne hother
    rw [update_of_ne hpid', update_of_ne hpid', hslot.pid other hne, hslot.isOpen other hne,
      hslot.mappings other hne]
    exact h.agree other ((hslot.live_iff hne).mp hother)
  · intro pid' hnobody
    simp only [Rights.not_holds, Rights.set]
    by_cases hpid' : pid' = pid
    · have hdead : ¬ slot'.Live holder := fun hlive =>
        hnobody holder hlive (hpid.trans hpid'.symm)
      rw [ObjectSlot.Live, not_or, Bool.not_eq_true, not_not] at hdead
      rw [hpid', update_self, update_self, hdead.1, hdead.2]
      exact ⟨rfl, rfl⟩
    rw [update_of_ne hpid', update_of_ne hpid', ← Rights.not_holds]
    refine h.silent pid' fun other hother heq => ?_
    by_cases hne : other = holder
    · subst hne
      exact hpid' (heq.symm.trans (hself hother))
    · exact hnobody other ((hslot.live_iff hne).mpr hother) ((hslot.pid other hne).trans heq)

theorem Agrees.setAccess (h : Agrees slot rights) (hlive : slot.Live holder) (isOpen : Bool)
    (mappings : ℕ) : Agrees (slot.setAccess isOpen mappings holder)
      (rights.set (slot.pidOf holder) isOpen mappings) := by
  have hslot : ChangedAt slot (slot.setAccess isOpen mappings holder) holder := by
    cases holder with
    | owner =>
      refine ⟨rfl, ?_, ?_, ?_⟩ <;> rintro (_ | _) hne <;> first | rfl | exact absurd rfl hne
    | grant => exact changedAt_setGrant _
  obtain ⟨hpid, hopen, hmappings⟩ :
      (slot.setAccess isOpen mappings holder).pidOf holder = slot.pidOf holder ∧
      (slot.setAccess isOpen mappings holder).openOf holder = isOpen ∧
      (slot.setAccess isOpen mappings holder).mappingsOf holder = mappings := by
    cases holder <;> simp [ObjectSlot.setAccess, ObjectSlot.setGrant, ObjectSlot.pidOf,
      ObjectSlot.openOf, ObjectSlot.mappingsOf]
  have hnew := h.change hslot hpid (fun _ => rfl) (fun other hne hother heq =>
    hne (h.distinct other holder hother hlive heq)) (by
      rintro record rfl
      exact h.stranger record hlive)
  rwa [hopen, hmappings] at hnew

theorem Agrees.enroll (h : Agrees slot rights)
    (hunused : (slot.grants record).pid = invalidProcessId) (howner : slot.ownerPid ≠ pid)
    (hpid : pid ≠ invalidProcessId) (hnobody : slot.findGrant pid = none)
    (hmappings : (slot.grants record).mappings = 0) :
    Agrees (slot.setGrant record { slot.grants record with pid, isOpen := true })
      (rights.set pid true (rights.mapped pid)) := by
  have hdead : ¬ slot.Live (.grant record) := fun hrec => (h.stranger record hrec).2 hunused
  have hfree : ∀ other, slot.Live other → slot.pidOf other ≠ pid := by
    intro other hother
    cases other with
    | owner => exact howner
    | grant record' => exact findGrant_eq_none hnobody record' hother
  have hnew := @Agrees.change slot _ rights (.grant record) pid h
    (changedAt_setGrant { slot.grants record with pid, isOpen := true })
    (by simp [ObjectSlot.pidOf, ObjectSlot.setGrant]) (fun hrec => absurd hrec hdead)
    (fun other _ => hfree other) fun _ _ => ⟨howner.symm, hpid⟩
  rw [((rights.not_holds pid).mp (h.silent pid hfree)).2]
  simpa [ObjectSlot.openOf, ObjectSlot.mappingsOf, ObjectSlot.setGrant, hmappings] using hnew

theorem live_dismiss :
    (slot.dismiss pid).Live holder ↔ slot.Live holder ∧ slot.pidOf holder ≠ pid := by
  cases holder with
  | owner =>
    by_cases heq : slot.ownerPid = pid <;>
      simp [ObjectSlot.Live, ObjectSlot.dismiss, ObjectSlot.openOf, ObjectSlot.mappingsOf,
        ObjectSlot.pidOf, heq]
  | grant record =>
    by_cases heq : (slot.grants record).pid = pid <;>
      simp [ObjectSlot.Live, ObjectSlot.dismiss, ObjectSlot.openOf, ObjectSlot.mappingsOf,
        ObjectSlot.pidOf, heq]

theorem pidOf_dismiss : (slot.dismiss pid).pidOf holder = slot.pidOf holder := by
  cases holder with
  | owner => rfl
  | grant =>
    rw [ObjectSlot.pidOf, ObjectSlot.dismiss]
    dsimp only
    split <;> rfl

theorem access_dismiss (hne : slot.pidOf holder ≠ pid) :
    (slot.dismiss pid).openOf holder = slot.openOf holder ∧
      (slot.dismiss pid).mappingsOf holder = slot.mappingsOf holder := by
  cases holder <;>
    simp_all [ObjectSlot.dismiss, ObjectSlot.openOf, ObjectSlot.mappingsOf, ObjectSlot.pidOf]

theorem Agrees.dismiss (h : Agrees slot rights) :
    Agrees (slot.dismiss pid) (rights.set pid false 0) := by
  refine ⟨h.owner, ?_, ?_, ?_, ?_⟩
  · intro first second hfirst hsnd heq
    rw [pidOf_dismiss, pidOf_dismiss] at heq
    exact h.distinct first second (live_dismiss.mp hfirst).1 (live_dismiss.mp hsnd).1 heq
  · intro record hrec
    rw [pidOf_dismiss]
    exact h.stranger record (live_dismiss.mp hrec).1
  · intro other hother
    obtain ⟨hlive, hne⟩ := live_dismiss.mp hother
    simp only [Rights.set]
    rw [pidOf_dismiss, (access_dismiss hne).1, (access_dismiss hne).2, update_of_ne hne,
      update_of_ne hne]
    exact h.agree other hlive
  · intro other hnobody
    simp only [Rights.not_holds, Rights.set]
    by_cases hne : other = pid
    · rw [hne, update_self, update_self]
      exact ⟨rfl, rfl⟩
    rw [update_of_ne hne, update_of_ne hne, ← Rights.not_holds]
    refine h.silent other fun holder hlive heq => ?_
    exact hnobody holder (live_dismiss.mpr ⟨hlive, fun h => hne (heq ▸ h)⟩)
      (pidOf_dismiss.trans heq)

end Kurogane.Ipc.SharedMemory
