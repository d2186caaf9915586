/-
# The run queues over whole runs

`Wellformed` says how thread slots and run queues fit together. Every call keeps
it: a call changes the statistics of one thread, moves a thread from one queue to
another, or adds or removes one. What `pick_next` returns is described against
the state before the call.
-/

import Kurogane.Task.Scheduler2
import Mathlib.Data.List.GetD

namespace Kurogane.Task

open Math Function List Scheduler

variable {s s' : Scheduler} {index other : SlotIndex} {cpu id : ℕ} {affinity : CpuMask}

/-! ## The invariant -/

/-- The cursor is below the number of queued identifiers, or 0 in an empty queue. -/
def RunQueue.CursorValid (queue : RunQueue) : Prop :=
  queue.cursor < queue.ids.length ∨ (queue.cursor = 0 ∧ queue.ids = [])

/-- An affinity within the online processors that contains a given one. -/
structure AffinityValid (s : Scheduler) (affinity : CpuMask) (home : ℕ) : Prop where
  home : affinity.getLsbD home
  online : ∀ cpu, affinity.getLsbD cpu → cpu < s.cpuCount

structure Wellformed (s : Scheduler) : Prop where
  initialized : s.initialized
  cpuCount_pos : 0 < s.cpuCount
  cpuCount_le : s.cpuCount ≤ maxCpus
  id_ne : ∀ index, (s.threads index).used →
    (s.threads index).stat.id ≠ invalidThreadId
  id_injective : ∀ index other, (s.threads index).used → (s.threads other).used →
    (s.threads index).stat.id = (s.threads other).stat.id → index = other
  mem_home : ∀ index, (s.threads index).used →
    (s.threads index).stat.id ∈ (s.queues (s.threads index).stat.homeCpu).ids
  of_mem : ∀ cpu, ∀ id ∈ (s.queues cpu).ids, ∃ index, (s.threads index).used ∧
    (s.threads index).stat.id = id ∧ (s.threads index).stat.homeCpu = cpu
  nodup : ∀ cpu, (s.queues cpu).ids.Nodup
  cursor : ∀ cpu, (s.queues cpu).CursorValid
  affinity : ∀ index, (s.threads index).used →
    AffinityValid s (s.threads index).stat.affinity (s.threads index).stat.homeCpu

theorem Wellformed.home_lt (h : Wellformed s) (hused : (s.threads index).used) :
    (s.threads index).stat.homeCpu < s.cpuCount :=
  (h.affinity index hused).online _ (h.affinity index hused).home

/-! ## Masks -/

theorem and_maskForCpu_ne_zero_iff (affinity : CpuMask) (hcpu : cpu < maxCpus) :
    affinity &&& maskForCpu cpu ≠ 0 ↔ affinity.getLsbD cpu := by
  have hlt : cpu < 64 := hcpu
  rw [maskForCpu, if_pos hcpu, ← BitVec.twoPow_eq]
  refine BitVec.zero_iff_eq_false.not.trans ?_
  simp [BitVec.getLsbD_twoPow, hlt]

theorem cpuAllowed_iff (hle : s.cpuCount ≤ maxCpus) :
    cpuAllowed s affinity cpu ↔ cpu < s.cpuCount ∧ affinity.getLsbD cpu := by
  rw [cpuAllowed, Bool.and_eq_true, decide_eq_true_iff, decide_eq_true_iff]
  constructor
  · rintro ⟨hlt, hne⟩
    exact ⟨hlt, (and_maskForCpu_ne_zero_iff affinity (hlt.trans_le hle)).mp hne⟩
  · rintro ⟨hlt, hbit⟩
    exact ⟨hlt, (and_maskForCpu_ne_zero_iff affinity (hlt.trans_le hle)).mpr hbit⟩

theorem getLsbD_onlineMaskUnlocked (h : Wellformed s) (cpu : ℕ) :
    (onlineMaskUnlocked s).getLsbD cpu = decide (cpu < s.cpuCount) := by
  have hpos := h.cpuCount_pos
  have hle : s.cpuCount ≤ 64 := h.cpuCount_le
  have hcondition : ¬ ((!s.initialized) ∨ s.cpuCount = 0) := by
    rw [h.initialized]
    simp
    omega
  rw [onlineMaskUnlocked, if_neg hcondition]
  split
  next hfull =>
    rw [BitVec.getLsbD_allOnes, hfull]
    rfl
  rename_i hpartial
  have hlt : s.cpuCount < 64 := lt_of_le_of_ne hle hpartial
  have hvalue : ((1#64 <<< s.cpuCount) - 1#64).toNat = 2 ^ s.cpuCount - 1 := by
    have hpow : 2 ^ s.cpuCount < 2 ^ 64 := Nat.pow_lt_pow_right (by omega) hlt
    have hpow' := Nat.two_pow_pos s.cpuCount
    have hshift : (1#64 <<< s.cpuCount).toNat = 2 ^ s.cpuCount := by
      rw [BitVec.toNat_shiftLeft, Nat.shiftLeft_eq]
      simpa using Nat.mod_eq_of_lt hpow
    rw [BitVec.toNat_sub_of_le, hshift]
    · rfl
    · rw [BitVec.le_def, hshift]
      exact hpow'
  rw [BitVec.getLsbD, hvalue, Nat.testBit_two_pow_sub_one]

theorem affinity_of_check (h : Wellformed s) (hcheck : ¬ (affinity &&& onlineMaskUnlocked s = 0 ∨
      affinity &&& onlineMaskUnlocked s ≠ affinity)) :
    (∃ cpu, affinity.getLsbD cpu) ∧ ∀ cpu, affinity.getLsbD cpu → cpu < s.cpuCount := by
  obtain ⟨hne, heq⟩ := not_or.mp hcheck
  rw [ne_eq, not_not] at heq
  rw [heq] at hne
  constructor
  · by_contra hnone
    exact hne (BitVec.zero_iff_eq_false.mpr fun cpu =>
      Bool.eq_false_iff.mpr fun hbit => hnone ⟨cpu, hbit⟩)
  intro cpu hbit
  rw [← heq, BitVec.getLsbD_and, getLsbD_onlineMaskUnlocked h] at hbit
  simp only [Bool.and_eq_true, decide_eq_true_iff] at hbit
  exact hbit.2

/-! ## Lookups -/

theorem findThread_eq_some (hfind : findThread s id = some index) :
    (s.threads index).used ∧ (s.threads index).stat.id = id := by
  rw [findThread] at hfind
  split at hfind
  · cases hfind
  · have hfound := find?_some hfind
    rw [Bool.and_eq_true, beq_iff_eq] at hfound
    exact hfound

theorem Wellformed.findThread_eq (h : Wellformed s) (hused : (s.threads index).used) :
    findThread s (s.threads index).stat.id = some index := by
  cases hfind : findThread s (s.threads index).stat.id with
  | some found =>
    obtain ⟨hfound, hid⟩ := findThread_eq_some hfind
    rw [h.id_injective found index hfound hused hid]
  | none =>
    rw [findThread, if_neg (h.id_ne index hused), find?_eq_none] at hfind
    exact absurd (by simp [hused]) (hfind index (mem_finRange index))

theorem findThread_eq_none (hfind : findThread s id = none) (hid : id ≠ invalidThreadId)
    (index : SlotIndex) (hused : (s.threads index).used) : (s.threads index).stat.id ≠ id := by
  rw [findThread, if_neg hid, find?_eq_none] at hfind
  intro heq
  exact hfind index (mem_finRange index) (by simp [hused, heq])

theorem findFreeSlot_eq_some (hfind : findFreeSlot s = some index) :
    (s.threads index).used = false := by
  have hfound := find?_some hfind
  simpa using hfound

/-- The threads in a queue come from different slots. -/
theorem Wellformed.length_le_card (h : Wellformed s) (cpu : ℕ) (slots : Finset SlotIndex)
    (hslots : ∀ index, (s.threads index).used →
      (s.threads index).stat.id ∈ (s.queues cpu).ids → index ∈ slots) :
    (s.queues cpu).ids.length ≤ slots.card := by
  rw [← toFinset_card_of_nodup (h.nodup cpu)]
  apply Finset.card_le_card_of_surjOn fun index => (s.threads index).stat.id
  intro id hid
  have hmem := mem_toFinset.mp (Finset.mem_coe.mp hid)
  obtain ⟨index, hused, rfl, -⟩ := h.of_mem cpu id hmem
  exact ⟨index, hslots index hused hmem, rfl⟩

theorem Wellformed.length_lt (h : Wellformed s) (cpu : ℕ) (index : SlotIndex)
    (hmissing : (s.threads index).used → (s.threads index).stat.id ∉ (s.queues cpu).ids) :
    (s.queues cpu).ids.length < maxSchedulableThreads := by
  refine (h.length_le_card cpu {index}ᶜ fun other hused hmem => ?_).trans_lt ?_
  · rw [Finset.mem_compl, Finset.mem_singleton]
    rintro rfl
    exact hmissing hused hmem
  · rw [Finset.card_compl, Fintype.card_fin, Finset.card_singleton]
    decide

theorem Wellformed.length_le (h : Wellformed s) (cpu : ℕ) :
    (s.queues cpu).ids.length ≤ maxSchedulableThreads :=
  (h.length_le_card cpu .univ fun index _ _ => Finset.mem_univ index).trans_eq
    (Finset.card_fin _)

/-! ## Choosing a processor -/

/-- The scan for the shortest queue: what it has chosen is allowed, and as long as
it has chosen nothing its bound is above every queue. -/
theorem chooseLeastLoaded_fold (cpus : List ℕ) (best : Option ℕ × ℕ)
    (hchosen : ∀ chosen, best.1 = some chosen → cpuAllowed s affinity chosen)
    (hbound : best.1 = none → ∀ cpu, (s.queues cpu).ids.length < best.2) :
    let result := cpus.foldl (fun (best : Option ℕ × ℕ) cpu =>
      if !cpuAllowed s affinity cpu then best
      else if (s.queues cpu).ids.length < best.2 then (some cpu, (s.queues cpu).ids.length)
      else best) best
    (∀ chosen, result.1 = some chosen → cpuAllowed s affinity chosen) ∧
      (result.1 = none → best.1 = none ∧ ∀ cpu ∈ cpus, cpuAllowed s affinity cpu = false) := by
  induction cpus generalizing best with
  | nil => exact ⟨hchosen, fun hnone => ⟨hnone, nofun⟩⟩
  | cons cpu _ ih =>
    simp only [foldl_cons]
    by_cases hallowed : cpuAllowed s affinity cpu
    · rw [if_neg (by simp [hallowed])]
      by_cases hshorter : (s.queues cpu).ids.length < best.2
      · rw [if_pos hshorter]
        obtain ⟨hall, hnone⟩ := ih (some cpu, (s.queues cpu).ids.length)
          (fun chosen heq => Option.some.inj heq ▸ hallowed) nofun
        exact ⟨hall, fun heq => absurd (hnone heq).1 nofun⟩
      rw [if_neg hshorter]
      obtain ⟨hall, hnone⟩ := ih best hchosen hbound
      refine ⟨hall, fun heq => ?_⟩
      exact absurd (hbound (hnone heq).1 cpu) hshorter
    · rw [if_pos (by simp [hallowed])]
      obtain ⟨hall, hnone⟩ := ih best hchosen hbound
      refine ⟨hall, fun heq => ⟨(hnone heq).1, fun other hother => ?_⟩⟩
      rcases mem_cons.mp hother with rfl | hother
      · exact Bool.eq_false_iff.mpr hallowed
      · exact (hnone heq).2 other hother

/-- Some allowed processor is chosen if there is one. -/
theorem chooseHome_spec (hlen : ∀ cpu, (s.queues cpu).ids.length ≤ maxSchedulableThreads)
    (hle : s.cpuCount ≤ maxCpus) (hsome : ∃ cpu, affinity.getLsbD cpu)
    (honline : ∀ cpu, affinity.getLsbD cpu → cpu < s.cpuCount) (preferredCpu : ℕ) :
    ∃ home, chooseHome s affinity preferredCpu = some home ∧ home < s.cpuCount ∧
      affinity.getLsbD home := by
  rw [chooseHome]
  split
  next hpreferred => exact ⟨preferredCpu, rfl, (cpuAllowed_iff hle).mp hpreferred.2⟩
  obtain ⟨hall, hnone⟩ := @chooseLeastLoaded_fold s affinity
    (range s.cpuCount) (none, maxSchedulableThreads + 1) nofun
    fun _ cpu => Nat.lt_succ_of_le (hlen cpu)
  cases hchosen : chooseLeastLoaded s affinity with
  | some home => exact ⟨home, rfl, (cpuAllowed_iff hle).mp (hall home hchosen)⟩
  | none =>
    obtain ⟨cpu, hbit⟩ := hsome
    have hlt := honline cpu hbit
    have hrefused := (hnone hchosen).2 cpu (mem_range.mpr hlt)
    rw [(cpuAllowed_iff hle).mpr ⟨hlt, hbit⟩] at hrefused
    cases hrefused

/-! ## What one call can change -/

section Frames

variable (s) (index) (cpu) (stat : ThreadStat) (slot : ThreadSlot) (queue : RunQueue)

@[simp]
theorem Scheduler.setSlot_self : (s.setSlot index slot).threads index = slot :=
  update_self ..

@[simp]
theorem Scheduler.setSlot_queues : (s.setSlot index slot).queues = s.queues := rfl

@[simp]
theorem Scheduler.setStat_queues : (s.setStat index stat).queues = s.queues := rfl

@[simp]
theorem Scheduler.setQueue_self : (s.setQueue cpu queue).queues cpu = queue :=
  update_self ..

@[simp]
theorem Scheduler.setStat_self :
    (s.setStat index stat).threads index = { s.threads index with stat := stat } :=
  update_self ..

theorem Scheduler.setSlot_of_ne (hne : other ≠ index) :
    (s.setSlot index slot).threads other = s.threads other :=
  update_of_ne hne ..

theorem Scheduler.setStat_of_ne (hne : other ≠ index) :
    (s.setStat index stat).threads other = s.threads other :=
  update_of_ne hne ..

theorem Scheduler.setQueue_apply (other : ℕ) :
    (s.setQueue cpu queue).queues other = if other = cpu then queue else s.queues other :=
  update_apply ..

theorem Scheduler.setQueue_of_ne {cpu' : ℕ} (hne : cpu' ≠ cpu) :
    (s.setQueue cpu queue).queues cpu' = s.queues cpu' :=
  update_of_ne hne ..

end Frames

variable {queue : RunQueue}

theorem RunQueue.CursorValid.add (h : queue.CursorValid) (id : ℕ) : (queue.add id).CursorValid := by
  left
  simp only [RunQueue.add, length_append, length_singleton]
  rcases h with h | ⟨-, h⟩
  · split <;> omega
  · simp [h]

theorem RunQueue.CursorValid.remove (id : ℕ) : (queue.remove id).CursorValid := by
  simp only [RunQueue.CursorValid, RunQueue.remove]
  split
  next hempty => exact .inr ⟨rfl, length_eq_zero_iff.mp hempty⟩
  rename_i hne
  split
  · exact .inl (Nat.mod_lt _ (Nat.pos_of_ne_zero hne))
  next hlt => exact .inl (Nat.not_le.mp hlt)

def RunQueue.Valid (queue : RunQueue) : Prop := queue.ids.Nodup ∧ queue.CursorValid

theorem RunQueue.Valid.add (h : queue.Valid) (hid : id ∉ queue.ids) : (queue.add id).Valid :=
  ⟨nodup_append.mpr ⟨h.1, nodup_singleton _, fun _ hx _ hy heq =>
    hid (mem_singleton.mp hy ▸ heq ▸ hx)⟩, h.2.add id⟩

theorem RunQueue.Valid.remove (h : queue.Valid) (id : ℕ) : (queue.remove id).Valid :=
  ⟨h.1.erase _, CursorValid.remove id⟩

theorem Wellformed.queue_valid (h : Wellformed s) (cpu : ℕ) : (s.queues cpu).Valid :=
  ⟨h.nodup cpu, h.cursor cpu⟩

theorem Scheduler.setQueue_valid (h : ∀ other, (s.queues other).Valid) (hqueue : queue.Valid)
    (other : ℕ) : ((s.setQueue cpu queue).queues other).Valid := by
  rw [setQueue_apply]
  split
  · exact hqueue
  · exact h other

theorem Scheduler.mem_setQueue {other : ℕ} :
    id ∈ ((s.setQueue cpu queue).queues other).ids ↔
      if other = cpu then id ∈ queue.ids else id ∈ (s.queues other).ids := by
  rw [setQueue_apply]
  split <;> rfl

def Scheduler.dequeue (s : Scheduler) (index : SlotIndex) : Scheduler :=
  s.setQueue (s.threads index).stat.homeCpu
    ((s.queues (s.threads index).stat.homeCpu).remove (s.threads index).stat.id)

variable {onlineCpus : ℕ}

section

variable (h : Wellformed s)
include h

theorem Wellformed.mem_iff (index : SlotIndex) :
    id ∈ (s.queues cpu).ids ↔
      (id ∈ (s.queues cpu).ids ∧ ((s.threads index).used → id ≠ (s.threads index).stat.id)) ∨
      ((s.threads index).used ∧ (s.threads index).stat.id = id ∧
        (s.threads index).stat.homeCpu = cpu) := by
  constructor
  · intro hmem
    obtain ⟨found, hused, hid, hhome⟩ := h.of_mem cpu id hmem
    by_cases heq : found = index
    · subst heq
      exact .inr ⟨hused, hid, hhome⟩
    · refine .inl ⟨hmem, fun hused' hid' => heq ?_⟩
      exact h.id_injective found index hused hused' (hid.trans hid')
  · rintro (⟨hmem, -⟩ | ⟨hused, rfl, rfl⟩)
    · exact hmem
    · exact h.mem_home index hused

/-- One slot changes: it is enough to look at the new thread there and at the queues. -/
theorem Wellformed.change (index : SlotIndex)
    (hframe : ∀ other ≠ index, s'.threads other = s.threads other) (hinit : s'.initialized)
    (hcount : s'.cpuCount = s.cpuCount) (hslot : (s'.threads index).used →
      (s'.threads index).stat.id ≠ invalidThreadId ∧
      AffinityValid s (s'.threads index).stat.affinity (s'.threads index).stat.homeCpu ∧
      ∀ other ≠ index, (s.threads other).used →
        (s.threads other).stat.id ≠ (s'.threads index).stat.id)
    (hmem : ∀ cpu id, id ∈ (s'.queues cpu).ids ↔
      (id ∈ (s.queues cpu).ids ∧
        ((s.threads index).used → id ≠ (s.threads index).stat.id)) ∨
      ((s'.threads index).used ∧ (s'.threads index).stat.id = id ∧
        (s'.threads index).stat.homeCpu = cpu)) (hqueue : ∀ cpu, (s'.queues cpu).Valid) :
    Wellformed s' where
  initialized := hinit
  cpuCount_pos := hcount ▸ h.cpuCount_pos
  cpuCount_le := hcount ▸ h.cpuCount_le
  id_ne other hused := by
    by_cases heq : other = index
    · subst heq
      exact (hslot hused).1
    · rw [hframe other heq] at hused ⊢
      exact h.id_ne other hused
  id_injective left right hleft hright hid := by
    by_contra hne
    by_cases heq : left = index
    · subst heq
      rw [hframe right (Ne.symm hne)] at hright hid
      exact (hslot hleft).2.2 right (Ne.symm hne) hright hid.symm
    rw [hframe left heq] at hleft hid
    by_cases heq' : right = index
    · subst heq'
      exact (hslot hright).2.2 left heq hleft hid
    · rw [hframe right heq'] at hright hid
      exact hne (h.id_injective left right hleft hright hid)
  mem_home other hused := by
    by_cases heq : other = index
    · subst heq
      exact (hmem _ _).mpr (.inr ⟨hused, rfl, rfl⟩)
    · rw [hframe other heq] at hused ⊢
      exact (hmem _ _).mpr (.inl ⟨h.mem_home other hused, fun hidx hid =>
        heq (h.id_injective other index hused hidx hid)⟩)
  of_mem cpu id hid := by
    obtain ⟨hold, hne⟩ | hnew := (hmem cpu id).mp hid
    · obtain ⟨other, hused, hother, hhome⟩ := h.of_mem cpu id hold
      have heq : other ≠ index := by
        rintro rfl
        exact hne hused hother.symm
      exact ⟨other, by rw [hframe other heq]; exact ⟨hused, hother, hhome⟩⟩
    · exact ⟨index, hnew⟩
  nodup cpu := (hqueue cpu).1
  cursor cpu := (hqueue cpu).2
  affinity other hused := by
    have hvalid : AffinityValid s (s'.threads other).stat.affinity
        (s'.threads other).stat.homeCpu := by
      by_cases heq : other = index
      · subst heq
        exact (hslot hused).2.1
      · rw [hframe other heq] at hused ⊢
        exact h.affinity other hused
    exact ⟨hvalid.home, hcount ▸ hvalid.online⟩

theorem Wellformed.setStat (stat : ThreadStat) (hid : stat.id = (s.threads index).stat.id)
    (hhome : stat.homeCpu = (s.threads index).stat.homeCpu)
    (haffinity : (s.threads index).used → AffinityValid s stat.affinity stat.homeCpu) :
    Wellformed (s.setStat index stat) := by
  refine h.change index (fun other => setStat_of_ne _ _ _) h.initialized rfl ?_ ?_ h.queue_valid
  · rw [setStat_self]
    intro hused
    rw [hid]
    exact ⟨h.id_ne index hused, haffinity hused, fun other hne hother heq =>
      hne (h.id_injective other index hother hused heq)⟩
  intro cpu id
  rw [setStat_self]
  rw [hid, hhome]
  exact h.mem_iff index

theorem Wellformed.requeue (hthreads : s'.threads = s.threads) (hinit : s'.initialized)
    (hge : s.cpuCount ≤ s'.cpuCount) (hle : s'.cpuCount ≤ maxCpus)
    (hids : ∀ cpu, (s'.queues cpu).ids = (s.queues cpu).ids)
    (hcursor : ∀ cpu, (s'.queues cpu).CursorValid) : Wellformed s' where
  initialized := hinit
  cpuCount_pos := h.cpuCount_pos.trans_le hge
  cpuCount_le := hle
  id_ne := hthreads ▸ h.id_ne
  id_injective := hthreads ▸ h.id_injective
  mem_home index hused := by
    rw [hids, hthreads]
    exact h.mem_home index (hthreads ▸ hused)
  of_mem cpu id hid := by
    rw [hthreads]
    exact h.of_mem cpu id (hids cpu ▸ hid)
  nodup cpu := hids cpu ▸ h.nodup cpu
  cursor := hcursor
  affinity index hused := by
    rw [hthreads] at hused ⊢
    exact ⟨(h.affinity index hused).home, fun cpu hbit =>
      ((h.affinity index hused).online cpu hbit).trans_le hge⟩

theorem Wellformed.setQueue (queue : RunQueue) (hids : queue.ids = (s.queues cpu).ids)
    (hcursor : queue.CursorValid) : Wellformed (s.setQueue cpu queue) := by
  refine h.requeue rfl h.initialized le_rfl h.cpuCount_le (fun other => ?_) fun other =>
    (setQueue_valid h.queue_valid ⟨hids ▸ h.nodup cpu, hcursor⟩ other).2
  rw [setQueue_apply]
  split
  next heq => rw [hids, heq]
  · rfl

theorem Wellformed.expand (hle : onlineCpus ≤ maxCpus) (hge : s.cpuCount ≤ onlineCpus) :
    Wellformed { s with
      queues := fun cpu => if s.cpuCount ≤ cpu ∧ cpu < onlineCpus then {} else s.queues cpu
      cpuCount := onlineCpus } := by
  have hempty : ∀ cpu, s.cpuCount ≤ cpu → (s.queues cpu).ids = [] := by
    intro cpu hcpu
    apply eq_nil_iff_forall_not_mem.mpr
    intro id hid
    obtain ⟨_, hused, -, _⟩ := h.of_mem cpu id hid
    have hlt := h.home_lt hused
    omega
  refine h.requeue rfl h.initialized hge hle (fun cpu => ?_) fun cpu => ?_
  · dsimp only
    split
    next hnew => exact (hempty cpu hnew.1).symm
    · rfl
  dsimp only
  split
  · exact .inr ⟨rfl, rfl⟩
  · exact h.cursor cpu

theorem Wellformed.not_mem (hused : (s.threads index).used)
    (hne : cpu ≠ (s.threads index).stat.homeCpu) :
    (s.threads index).stat.id ∉ (s.queues cpu).ids := by
  intro hmem
  obtain ⟨found, hfound, hid, hhome⟩ := h.of_mem cpu _ hmem
  rw [h.id_injective found index hfound hused hid] at hhome
  exact hne hhome.symm

theorem Wellformed.mem_remove (hused : (s.threads index).used) :
    id ∈ ((s.dequeue index).queues cpu).ids ↔
      id ∈ (s.queues cpu).ids ∧
        ((s.threads index).used → id ≠ (s.threads index).stat.id) := by
  rw [Scheduler.dequeue, mem_setQueue]
  split
  next heq =>
    rw [RunQueue.remove, (h.nodup _).mem_erase_iff, heq]
    simp [hused, and_comm]
  next hne => exact ⟨fun hmem => ⟨hmem, fun _ heq => h.not_mem hused hne (heq ▸ hmem)⟩, And.left⟩

end

def Scheduler.migrate (s : Scheduler) (index : SlotIndex) (destination : ℕ)
    (stat : ThreadStat) : Scheduler :=
  ((s.setQueue (s.threads index).stat.homeCpu
      ((s.queues (s.threads index).stat.homeCpu).remove (s.threads index).stat.id)).setQueue
    destination ((s.queues destination).add (s.threads index).stat.id)).setStat index stat

section Migrate

variable {destination : ℕ} {stat : ThreadStat}

theorem Scheduler.migrate_self :
    (s.migrate index destination stat).threads index =
      { s.threads index with stat := stat } := setStat_self ..

theorem Scheduler.migrate_of_ne (hne : other ≠ index) :
    (s.migrate index destination stat).threads other = s.threads other :=
  setStat_of_ne _ _ _ hne

theorem Wellformed.migrate (h : Wellformed s) (stat : ThreadStat)
    (hused : (s.threads index).used) (hne : destination ≠ (s.threads index).stat.homeCpu)
    (hid : stat.id = (s.threads index).stat.id) (hhome : stat.homeCpu = destination)
    (haffinity : AffinityValid s stat.affinity destination) :
    Wellformed (s.migrate index destination stat) := by
  have hmissing := h.not_mem hused hne
  refine h.change index (fun other => migrate_of_ne) h.initialized rfl ?_ ?_ ?_
  · rw [migrate_self]
    rw [hid, hhome]
    exact fun _ => ⟨h.id_ne index hused, haffinity, fun other hne hother heq =>
      hne (h.id_injective other index hother hused heq)⟩
  · intro cpu id
    rw [migrate_self, ← h.mem_remove hused, Scheduler.migrate,
      ← Scheduler.dequeue, setStat_queues, mem_setQueue]
    rw [hid, hhome]
    split
    next heq =>
      rw [heq, Scheduler.dequeue, setQueue_of_ne _ _ _ hne, RunQueue.add, mem_append, mem_singleton]
      simp [hused, eq_comm]
    next heq => simp [Ne.symm heq]
  · exact setQueue_valid (setQueue_valid h.queue_valid
      ((h.queue_valid _).remove _)) ((h.queue_valid destination).add hmissing)

end Migrate

theorem queueAdd_eq (hlt : cpu < s.cpuCount) (hmem : id ∉ (s.queues cpu).ids)
    (hlen : (s.queues cpu).ids.length < maxSchedulableThreads) :
    queueAdd s cpu id = .ok (s.setQueue cpu ((s.queues cpu).add id)) := by
  rw [queueAdd, if_neg (not_le.mpr hlt)]
  simp only [hmem, if_false, ge_iff_le, not_le.mpr hlen]

theorem queueRemove_eq (hlt : cpu < s.cpuCount) (hmem : id ∈ (s.queues cpu).ids) :
    queueRemove s cpu id = s.setQueue cpu ((s.queues cpu).remove id) := by
  rw [queueRemove, if_neg (not_le.mpr hlt)]
  simp only [hmem, if_true]

variable {destination : ℕ} {middle after : List (Request × Response)} {requests : List Request}
  {pick : Request} {result : Status × Scheduler} {change : ThreadStat → ThreadStat}
  {home queueIndex offset : ℕ}

theorem queueAdd_queueRemove (hhome : home < s.cpuCount)
    (hmem : id ∈ (s.queues home).ids) (hlt : destination < s.cpuCount) (hne : destination ≠ home)
    (hmissing : id ∉ (s.queues destination).ids)
    (hlen : (s.queues destination).ids.length < maxSchedulableThreads) :
    queueAdd (queueRemove s home id) destination id =
      .ok ((s.setQueue home ((s.queues home).remove id)).setQueue destination
        ((s.queues destination).add id)) := by
  have hqueue := s.setQueue_of_ne home ((s.queues home).remove id) hne
  rw [queueRemove_eq hhome hmem, queueAdd_eq, hqueue]
  · exact hlt
  · rwa [hqueue]
  · rwa [hqueue]

theorem Wellformed.not_mem_of_fresh (h : Wellformed s)
    (hfresh : ∀ other, (s.threads other).used → (s.threads other).stat.id ≠ id) (cpu : ℕ) :
    id ∉ (s.queues cpu).ids := by
  intro hmem
  obtain ⟨found, hfound, heq, -⟩ := h.of_mem cpu id hmem
  exact hfresh found hfound heq

def Scheduler.register (s : Scheduler) (index : SlotIndex) (id priority : ℕ) (affinity : CpuMask)
    (home : ℕ) : Scheduler :=
  (s.setQueue home ((s.queues home).add id)).setSlot index
    (registeredSlot id priority affinity home)

theorem Wellformed.register (h : Wellformed s) {priority : ℕ}
    (hfree : (s.threads index).used = false) (hid : id ≠ invalidThreadId)
    (hfresh : ∀ other, (s.threads other).used → (s.threads other).stat.id ≠ id)
    (haffinity : AffinityValid s affinity home) :
    Wellformed (s.register index id priority affinity home) := by
  have hmissing := h.not_mem_of_fresh hfresh home
  refine h.change index (fun other => setSlot_of_ne _ _ _) h.initialized rfl ?_ ?_
    (setQueue_valid h.queue_valid ((h.queue_valid home).add hmissing))
  · rw [Scheduler.register, setSlot_self]
    exact fun _ => ⟨hid, haffinity, fun other _ => hfresh other⟩
  intro cpu found
  rw [Scheduler.register, setSlot_self, setSlot_queues, mem_setQueue]
  split
  next heq =>
    rw [heq, RunQueue.add, mem_append, mem_singleton]
    simp [hfree, registeredSlot, eq_comm]
  next heq => simp [hfree, registeredSlot, Ne.symm heq]

theorem Wellformed.unregister (h : Wellformed s) (hused : (s.threads index).used) :
    Wellformed ((s.dequeue index).setSlot index {}) := by
  refine h.change index (fun other => setSlot_of_ne _ _ _) h.initialized rfl ?_ ?_
    (setQueue_valid h.queue_valid ((h.queue_valid _).remove _))
  · rw [setSlot_self]
    exact fun hnone => absurd hnone (by decide)
  · intro cpu id
    rw [setSlot_self, setSlot_queues, h.mem_remove hused]
    simp

/-! ## Selection -/

/-- The threads a processor may be given: ready, allowed there and not excluded. -/
@[mk_iff]
structure Eligible (s : Scheduler) (cpu excluded : ℕ) (index : SlotIndex) : Prop where
  used : (s.threads index).used
  ready : (s.threads index).stat.state = .ready
  allowed : (s.threads index).stat.affinity.getLsbD cpu
  not_excluded : (s.threads index).stat.id ≠ excluded

def MaximalAmong (s : Scheduler) (threads : Set SlotIndex) (index : SlotIndex) : Prop :=
  index ∈ threads ∧ ∀ other ∈ threads,
    (s.threads other).stat.priority ≤ (s.threads index).stat.priority

def localThreads (s : Scheduler) (cpu excluded : ℕ) : Set SlotIndex :=
  {index | Eligible s cpu excluded index ∧ (s.threads index).stat.homeCpu = cpu}

def remoteThreads (s : Scheduler) (cpu excluded : ℕ) : Set SlotIndex :=
  {index | Eligible s cpu excluded index ∧ (s.threads index).stat.homeCpu ≠ cpu}

theorem exists_offset {cursor length : ℕ} (hcursor : cursor < length) (hidx : queueIndex < length) :
    ∃ offset < length, (cursor + offset) % length = queueIndex := by
  refine ⟨(queueIndex + length - cursor) % length, Nat.mod_lt _ (by omega), ?_⟩
  rw [Nat.add_mod_mod, Nat.add_sub_cancel' (by omega), Nat.add_mod_right, Nat.mod_eq_of_lt hidx]

variable {excluded : ℕ} {candidate : Candidate}

/-- A candidate stands for an eligible thread of the queue it was found in. -/
structure Candidate.Valid (s : Scheduler) (destination excluded cpu : ℕ) (candidate : Candidate) :
    Prop where
  eligible : Eligible s destination excluded candidate.thread
  home : (s.threads candidate.thread).stat.homeCpu = cpu
  priority : candidate.priority = (s.threads candidate.thread).stat.priority
  queueIndex : candidate.queueIndex < (s.queues cpu).ids.length

section

variable (h : Wellformed s)
include h

theorem Wellformed.findThread_getD (hlt : queueIndex < (s.queues cpu).ids.length) :
    ∃ index, findThread s ((s.queues cpu).ids.getD queueIndex 0) = some index ∧
      (s.threads index).used ∧ (s.threads index).stat.homeCpu = cpu ∧
      (s.queues cpu).ids.getD queueIndex 0 = (s.threads index).stat.id := by
  have hmem : (s.queues cpu).ids.getD queueIndex 0 ∈ (s.queues cpu).ids := by
    rw [getD_eq_getElem _ _ hlt]
    exact getElem_mem hlt
  obtain ⟨index, hused, hid, hhome⟩ := h.of_mem cpu _ hmem
  exact ⟨index, hid ▸ h.findThread_eq hused, hused, hhome, hid.symm⟩

theorem Wellformed.exists_place (hused : (s.threads index).used)
    (hhome : (s.threads index).stat.homeCpu = cpu) :
    ∃ offset < (s.queues cpu).ids.length, (s.queues cpu).ids.getD
      (((s.queues cpu).cursor + offset) % (s.queues cpu).ids.length) 0 =
        (s.threads index).stat.id := by
  have hmem := h.mem_home index hused
  rw [hhome] at hmem
  obtain ⟨_, hlt, hget⟩ := getElem_of_mem hmem
  have hcursor : (s.queues cpu).cursor < (s.queues cpu).ids.length := by
    rcases h.cursor cpu with hcursor | ⟨-, hempty⟩
    · exact hcursor
    · rw [hempty] at hmem
      cases hmem
  obtain ⟨offset, hoff, hround⟩ := exists_offset hcursor hlt
  refine ⟨offset, hoff, ?_⟩
  rw [hround, getD_eq_getElem _ _ hlt, hget]

theorem Wellformed.stealCandidate_valid {destination : ℕ}
    (hoff : offset < (s.queues cpu).ids.length)
    (hcand : stealCandidate s destination excluded cpu offset = some candidate) :
    candidate.Valid s destination excluded cpu := by
  have hlt := Nat.mod_lt ((s.queues cpu).cursor + offset) (Nat.zero_lt_of_lt hoff)
  obtain ⟨_, hfind, hused, hhome, _⟩ := h.findThread_getD hlt
  rw [stealCandidate] at hcand
  simp only [hfind] at hcand
  split at hcand
  · cases hcand
  rename_i hrefused
  cases hcand
  rw [not_or, not_or, not_not] at hrefused
  have hallowed := (cpuAllowed_iff h.cpuCount_le).mp (by simpa using hrefused.2.2)
  exact ⟨⟨hused, hrefused.2.1, hallowed.2, hrefused.1⟩, hhome, rfl, hlt⟩

/-- The local queue is looked through as another processor's queue would be. -/
theorem Wellformed.localCandidate_eq (hoff : offset < (s.queues cpu).ids.length) :
    localCandidate s cpu excluded offset = stealCandidate s cpu excluded cpu offset := by
  have hlt := Nat.mod_lt ((s.queues cpu).cursor + offset) (Nat.zero_lt_of_lt hoff)
  obtain ⟨_, _, -, -, _⟩ := h.findThread_getD hlt
  rw [localCandidate, stealCandidate]
  split_ifs <;> simp_all

theorem Wellformed.exists_stealCandidate (hdest : destination < s.cpuCount)
    (helig : Eligible s destination excluded index) (hhome : (s.threads index).stat.homeCpu = cpu) :
    ∃ offset < (s.queues cpu).ids.length, ∃ candidate,
      stealCandidate s destination excluded cpu offset = some candidate ∧
        candidate.thread = index := by
  obtain ⟨offset, hoff, hget⟩ := h.exists_place helig.used hhome
  refine ⟨offset, hoff, ⟨index, ((s.queues cpu).cursor + offset) % (s.queues cpu).ids.length,
    (s.threads index).stat.priority⟩, ?_, rfl⟩
  rw [stealCandidate]
  simp only [hget, h.findThread_eq helig.used]
  have hallowed : cpuAllowed s (s.threads index).stat.affinity destination :=
    (cpuAllowed_iff h.cpuCount_le).mpr ⟨hdest, helig.allowed⟩
  rw [if_neg (by simp [helig.ready, hallowed, helig.not_excluded])]

end

theorem maximalAmong_of_isBest (s : Scheduler) (threads : Set SlotIndex) {seen : Set Candidate}
    {best : Option Candidate} (hbest : IsBest Candidate.priority seen best)
    (hsound : ∀ candidate ∈ seen, candidate.thread ∈ threads ∧
      candidate.priority = (s.threads candidate.thread).stat.priority)
    (hcomplete : ∀ index ∈ threads, ∃ candidate ∈ seen, candidate.thread = index) :
    (best = none ∧ threads = ∅) ∨
      ∃ kept, best = some kept ∧ MaximalAmong s threads kept.thread := by
  cases best with
  | none =>
    subst hbest
    refine .inl ⟨rfl, ?_⟩
    apply Set.eq_empty_of_forall_notMem
    intro index hidx
    obtain ⟨candidate, hcand, -⟩ := hcomplete index hidx
    exact hcand
  | some kept =>
    obtain ⟨hkept, hmax⟩ := hbest
    refine .inr ⟨kept, rfl, (hsound kept hkept).1, ?_⟩
    intro index hidx
    obtain ⟨candidate, hcand, rfl⟩ := hcomplete index hidx
    rw [← (hsound candidate hcand).2, ← (hsound kept hkept).2]
    exact hmax candidate hcand

/-- The local selection: a best thread of the local queue, and another cursor. -/
theorem Wellformed.selectFromQueue_spec (h : Wellformed s) (hcpu : cpu < s.cpuCount)
    (excluded : ℕ) :
    (selectFromQueue s cpu excluded = (none, s) ∧ localThreads s cpu excluded = ∅) ∨
      ∃ index cursor, selectFromQueue s cpu excluded =
          (some index, s.setQueue cpu { s.queues cpu with cursor := cursor }) ∧
        cursor < (s.queues cpu).ids.length ∧
        MaximalAmong s (localThreads s cpu excluded) index := by
  have hscan := (isBest_empty Candidate.priority).scan (localCandidate s cpu excluded)
    (range (s.queues cpu).ids.length)
  rw [Set.empty_union] at hscan
  have hspec := maximalAmong_of_isBest s (localThreads s cpu excluded) hscan ?_ ?_
  · rw [selectFromQueue]
    rcases hspec with ⟨hnone, hempty⟩ | ⟨selected, hsome, hmaximal⟩
    · simp only [hnone]
      exact .inl ⟨ite_self _, hempty⟩
    have hne : (s.queues cpu).ids.length ≠ 0 := by
      intro hzero
      rw [hzero] at hsome
      cases hsome
    simp only [hsome, if_neg hne]
    exact .inr ⟨selected.thread, _, rfl, Nat.mod_lt _ (Nat.pos_of_ne_zero hne), hmaximal⟩
  · rintro candidate ⟨offset, hoff, hcand⟩
    have hlt := mem_range.mp hoff
    have hvalid := h.stealCandidate_valid hlt ((h.localCandidate_eq hlt).symm.trans hcand)
    exact ⟨⟨hvalid.eligible, hvalid.home⟩, hvalid.priority⟩
  · rintro _ ⟨helig, hhome⟩
    obtain ⟨offset, hoff, candidate, hcand, hthread⟩ := h.exists_stealCandidate hcpu helig hhome
    exact ⟨candidate, ⟨offset, mem_range.mpr hoff, (h.localCandidate_eq hoff).trans hcand⟩, hthread⟩

theorem Wellformed.selectStealCandidate_spec (h : Wellformed s) (hcpu : cpu < s.cpuCount)
    (excluded : ℕ) :
    (selectStealCandidate s cpu excluded = none ∧ remoteThreads s cpu excluded = ∅) ∨
      ∃ index, selectStealCandidate s cpu excluded = some index ∧
        MaximalAmong s (remoteThreads s cpu excluded) index := by
  have hscan := (isBest_empty Candidate.priority).foldl (fun best donor =>
      if donor = cpu then best
      else (range (s.queues donor).ids.length).foldl
        (fun best offset => keepBetter Candidate.priority best
          (stealCandidate s cpu excluded donor offset)) best)
    (fun donor => {candidate | donor ≠ cpu ∧ ∃ offset ∈ range (s.queues donor).ids.length,
      stealCandidate s cpu excluded donor offset = some candidate}) ?_
    (range s.cpuCount)
  · rw [Set.empty_union] at hscan
    have hspec := maximalAmong_of_isBest s (remoteThreads s cpu excluded) hscan ?_ ?_
    · rw [selectStealCandidate]
      rcases hspec with ⟨hnone, hempty⟩ | ⟨selected, hsome, hmaximal⟩
      · rw [hnone]
        exact .inl ⟨rfl, hempty⟩
      · rw [hsome]
        exact .inr ⟨selected.thread, rfl, hmaximal⟩
    · rintro candidate ⟨donor, -, hne, offset, hoff, hcand⟩
      have hvalid := h.stealCandidate_valid (mem_range.mp hoff) hcand
      exact ⟨⟨hvalid.eligible, hvalid.home.trans_ne hne⟩, hvalid.priority⟩
    · rintro _ ⟨helig, hhome⟩
      obtain ⟨offset, hoff, candidate, hcand, hthread⟩ := h.exists_stealCandidate hcpu helig rfl
      exact ⟨candidate, ⟨_, mem_range.mpr (h.home_lt helig.used), hhome, offset,
        mem_range.mpr hoff, hcand⟩, hthread⟩
  · intro seen best donor hbest
    by_cases hlocal : donor = cpu
    · simpa [hlocal] using hbest
    simp only [hlocal, if_false, ne_eq, not_false_eq_true, true_and]
    exact hbest.scan (stealCandidate s cpu excluded donor) _

/-! ## Picking a thread -/

/-- A thread was given to a processor: it is running now, and no other thread has
changed its state. -/
structure Dispatched (s : Scheduler) (index : SlotIndex) (s' : Scheduler) : Prop where
  wellformed : Wellformed s'
  threads : ∀ other, (s'.threads other).used = (s.threads other).used ∧
    (s'.threads other).stat.id = (s.threads other).stat.id ∧
    (s'.threads other).stat.state =
      if other = index then .running else (s.threads other).stat.state

theorem dispatch_threads (s : Scheduler) (cpu : ℕ) (index other : SlotIndex) :
    (dispatch s cpu index).2.threads other =
      if other = index then
        { s.threads index with
          stat := { (s.threads index).stat with
            state := .running
            lastCpu := cpu
            dispatches := increment (s.threads index).stat.dispatches } }
      else s.threads other :=
  update_apply ..

theorem Wellformed.dispatch (h : Wellformed s) (cpu : ℕ) (index : SlotIndex) :
    Dispatched s index (Task.dispatch s cpu index).2 where
  wellformed := by
    have hresv := h.setStat { (s.threads index).stat with
      state := .running
      lastCpu := cpu
      dispatches := increment (s.threads index).stat.dispatches } rfl rfl (h.affinity index)
    exact hresv.setQueue _ rfl (h.cursor cpu)
  threads other := by
    rw [dispatch_threads]
    split <;> simp_all

/-- The same threads in the same states, at whichever processors. -/
def SameThreads (s s' : Scheduler) : Prop :=
  ∀ other, (s'.threads other).used = (s.threads other).used ∧
    (s'.threads other).stat.id = (s.threads other).stat.id ∧
    (s'.threads other).stat.state = (s.threads other).stat.state

theorem SameThreads.setStat (s : Scheduler) {stat : ThreadStat}
    (hid : stat.id = (s.threads index).stat.id)
    (hstate : stat.state = (s.threads index).stat.state) :
    SameThreads s (s.setStat index stat) := by
  intro other
  by_cases heq : other = index
  · subst heq
    rw [setStat_self]
    exact ⟨rfl, hid, hstate⟩
  · rw [setStat_of_ne _ _ _ heq]
    exact ⟨rfl, rfl, rfl⟩

theorem Dispatched.of_same (h : Dispatched s' index s) {before : Scheduler}
    (hsame : SameThreads before s') : Dispatched before index s where
  wellformed := h.wellformed
  threads other := by
    rw [← (hsame other).1, ← (hsame other).2.1, ← (hsame other).2.2]
    exact h.threads other

def Scheduler.stolen (s : Scheduler) (index : SlotIndex) (cpu : ℕ) : Scheduler :=
  (s.migrate index cpu { (s.threads index).stat with
    homeCpu := cpu
    migrations := increment (s.threads index).stat.migrations }).setQueue cpu
      { (s.queues cpu).add (s.threads index).stat.id with
        steals := increment (s.queues cpu).steals }

theorem Wellformed.steal_eq (h : Wellformed s) (hcpu : cpu < s.cpuCount)
    (hused : (s.threads index).used) (hne : cpu ≠ (s.threads index).stat.homeCpu) :
    steal s cpu index = (.ok, s.stolen index cpu) := by
  have hmissing := h.not_mem hused hne
  rw [steal]
  simp only [queueAdd_queueRemove (h.home_lt hused) (h.mem_home index hused) hcpu hne hmissing
    (h.length_lt cpu index fun _ => hmissing)]
  simp only [setStat_queues, setQueue_self]
  rfl

theorem Wellformed.stolen (h : Wellformed s) (hused : (s.threads index).used)
    (hne : cpu ≠ (s.threads index).stat.homeCpu)
    (hallowed : (s.threads index).stat.affinity.getLsbD cpu) : Wellformed (s.stolen index cpu) := by
  have hmigrated := h.migrate { (s.threads index).stat with
    homeCpu := cpu
    migrations := increment (s.threads index).stat.migrations } hused hne rfl rfl
    ⟨hallowed, (h.affinity index hused).online⟩
  refine hmigrated.setQueue _ ?_ ((h.cursor cpu).add _)
  rw [Scheduler.migrate, setStat_queues, setQueue_self]

/-- The stolen thread is the one the local selection then finds. -/
theorem localThreads_stolen (hlocal : localThreads s cpu excluded = ∅)
    (hremote : index ∈ remoteThreads s cpu excluded) :
    localThreads (s.stolen index cpu) cpu excluded = {index} := by
  ext other
  rw [localThreads, Set.mem_ofPred_eq, eligible_iff, Set.mem_singleton_iff]
  by_cases heq : other = index
  · have hself : (s.stolen index cpu).threads index = _ := migrate_self
    rw [heq, hself]
    exact iff_of_true ⟨(eligible_iff ..).mp hremote.1, rfl⟩ rfl
  have hsame : (s.stolen index cpu).threads other = s.threads other := migrate_of_ne heq
  rw [hsame, ← eligible_iff]
  exact iff_of_false (Set.eq_empty_iff_forall_notMem.mp hlocal other) heq

/-- `pick_next` returns a best thread of the local queue, or a best one of the
other queues if the local queue has none, or says that there is none. -/
theorem Wellformed.pickNext_spec (h : Wellformed s) (cpu excluded : ℕ) (hasOutput : Bool) :
    (∃ status, pickNext s cpu excluded hasOutput = (.error status, s) ∧
      (status = .notFound → localThreads s cpu excluded = ∅ ∧ remoteThreads s cpu excluded = ∅)) ∨
      ∃ index s', pickNext s cpu excluded hasOutput = (.ok (s.threads index).stat.id, s') ∧
        Dispatched s index s' ∧ Eligible s cpu excluded index ∧
        (MaximalAmong s (localThreads s cpu excluded) index ∨
          (localThreads s cpu excluded = ∅ ∧
            MaximalAmong s (remoteThreads s cpu excluded) index)) := by
  rw [pickNext, if_neg (by simp [h.initialized])]
  split
  · exact .inl ⟨.invalidArgument, rfl, nofun⟩
  split
  · exact .inl ⟨.invalidCpu, rfl, nofun⟩
  rename_i hcpu
  rw [ge_iff_le, not_le] at hcpu
  rcases h.selectFromQueue_spec hcpu excluded with
    ⟨hselect, hlocal⟩ | ⟨index, cursor, hselect, hcursor, hmaximal⟩
  · simp only [hselect]
    rcases h.selectStealCandidate_spec hcpu excluded with
      ⟨hsteal, hremote⟩ | ⟨index, hsteal, hmaximal⟩
    · simp only [hsteal, finishPick]
      exact .inl ⟨.notFound, rfl, fun _ => ⟨hlocal, hremote⟩⟩
    obtain ⟨helig, hhome⟩ := hmaximal.1
    simp only [hsteal, h.steal_eq hcpu helig.used hhome.symm]
    have hstolen := h.stolen helig.used hhome.symm helig.allowed
    have honly := localThreads_stolen hlocal hmaximal.1
    rcases hstolen.selectFromQueue_spec hcpu excluded with
      ⟨-, hnone⟩ | ⟨found, cursor, hfound, hcursor, hmaximal'⟩
    · exact absurd (honly.symm.trans hnone) (Set.singleton_ne_empty index)
    have hidx := hmaximal'.1
    rw [honly, Set.mem_singleton_iff] at hidx
    subst hidx
    have hself : SameThreads s (s.stolen found cpu) := .setStat s rfl rfl
    simp only [hfound, finishPick]
    have hmoved := hstolen.setQueue { Scheduler.queues _ cpu with cursor := cursor } rfl
      (.inl hcursor)
    refine .inr ⟨found, _, ?_, (hmoved.dispatch cpu found).of_same hself, helig,
      .inr ⟨hlocal, hmaximal⟩⟩
    exact congrArg (fun id => (Except.ok id, _)) (hself found).2.1
  · simp only [hselect, finishPick]
    have hmoved := h.setQueue { s.queues cpu with cursor := cursor } rfl (.inl hcursor)
    refine .inr ⟨index, _, rfl, ?_, hmaximal.1.1, .inl hmaximal⟩
    exact (hmoved.dispatch cpu index).of_same fun other => ⟨rfl, rfl, rfl⟩

/-! ## Calls -/

theorem Wellformed.configure (h : Task.configure s onlineCpus = (.ok, s')) : Wellformed s' := by
  rw [Task.configure] at h
  split at h
  · cases h
  cases h
  constructor <;> simp only [] <;> first | omega | skip
  · exact nofun
  · exact nofun
  · exact nofun
  · exact nofun
  · exact fun _ => nodup_nil
  · exact fun _ => .inr ⟨rfl, rfl⟩
  · exact nofun

theorem Wellformed.registerThread (h : Wellformed s) (id priority : ℕ) (affinity : CpuMask)
    (preferredCpu : ℕ) :
    (∃ status, Task.registerThread s id priority affinity preferredCpu = (status, s)) ∨
      ∃ index home, (s.threads index).used = false ∧
        Task.registerThread s id priority affinity preferredCpu =
          (.ok, s.register index id priority affinity home) ∧
        Wellformed (s.register index id priority affinity home) := by
  rw [Task.registerThread, if_neg (by simp [h.initialized])]
  split
  · exact .inl ⟨_, rfl⟩
  rename_i hargument
  split
  · exact .inl ⟨_, rfl⟩
  rename_i haffinity
  split
  · exact .inl ⟨_, rfl⟩
  rename_i hfind
  rw [Option.not_isSome_iff_eq_none] at hfind
  cases hslot : findFreeSlot s with
  | none => exact .inl ⟨_, rfl⟩
  | some index =>
  obtain ⟨hid, -⟩ := not_or.mp hargument
  have hfree := findFreeSlot_eq_some hslot
  have hfresh := findThread_eq_none hfind hid
  obtain ⟨hsome, honline⟩ := affinity_of_check h haffinity
  obtain ⟨home, hchoose, hlt, hbit⟩ :=
    chooseHome_spec h.length_le h.cpuCount_le hsome honline preferredCpu
  have hmissing := h.not_mem_of_fresh hfresh home
  have hlen := h.length_lt home index fun hused => by
    rw [hfree] at hused
    cases hused
  simp only [hchoose, queueAdd_eq hlt hmissing hlen]
  exact .inr ⟨index, home, hfree, rfl, h.register hfree hid hfresh ⟨hbit, honline⟩⟩

theorem Wellformed.unregisterThread (h : Wellformed s) (id : ℕ) :
    (∃ status, Task.unregisterThread s id = (status, s) ∧ status ≠ .ok) ∨
      ∃ index, (s.threads index).used ∧ (s.threads index).stat.id = id ∧
        Task.unregisterThread s id = (.ok, (s.dequeue index).setSlot index {}) := by
  fun_cases Task.unregisterThread s id with
  | case3 _ index hfind =>
    obtain ⟨hused, rfl⟩ := findThread_eq_some hfind
    refine .inr ⟨index, hused, rfl, ?_⟩
    rw [queueRemove_eq (h.home_lt hused) (h.mem_home index hused), Scheduler.dequeue]
  | _ => exact .inl ⟨_, rfl, nofun⟩

/-- A call that changes the statistics of the thread it names, or nothing. -/
def Restats (s : Scheduler) (id : ℕ) (change : ThreadStat → ThreadStat)
    (result : Status × Scheduler) : Prop :=
  (∃ status, result = (status, s) ∧ status ≠ .ok) ∨
    ∃ index, (s.threads index).used ∧ (s.threads index).stat.id = id ∧
      result = (.ok, s.setStat index (change (s.threads index).stat))

theorem restats_setState (s : Scheduler) (id : ℕ) (state : ThreadState) :
    Restats s id (fun stat => { stat with state := state }) (Task.setState s id state) := by
  fun_cases Task.setState s id state with
  | case3 _ index hfind =>
    obtain ⟨hused, hid⟩ := findThread_eq_some hfind
    exact .inr ⟨index, hused, hid, rfl⟩
  | _ => exact .inl ⟨_, rfl, nofun⟩

theorem restats_setPriority (s : Scheduler) (id priority : ℕ) :
    Restats s id (fun stat => { stat with priority := priority })
      (Task.setPriority s id priority) := by
  fun_cases Task.setPriority s id priority with
  | case4 _ _ index hfind =>
    obtain ⟨hused, hid⟩ := findThread_eq_some hfind
    exact .inr ⟨index, hused, hid, rfl⟩
  | _ => exact .inl ⟨_, rfl, nofun⟩

theorem restats_cancelDispatch (s : Scheduler) (id cpu : ℕ) :
    Restats s id (fun stat => { stat with state := .ready }) (Task.cancelDispatch s id cpu) := by
  fun_cases Task.cancelDispatch s id cpu with
  | case5 _ _ index hfind =>
    obtain ⟨hused, hid⟩ := findThread_eq_some hfind
    exact .inr ⟨index, hused, hid, rfl⟩
  | _ => exact .inl ⟨_, rfl, nofun⟩

section

variable (h : Wellformed s)
include h

theorem Wellformed.restats (hrestats : Restats s id change result)
    (hkept : ∀ stat, (change stat).id = stat.id ∧ (change stat).homeCpu = stat.homeCpu ∧
      (change stat).affinity = stat.affinity) : Wellformed result.2 := by
  rcases hrestats with ⟨_, rfl, -⟩ | ⟨index, hused, -, rfl⟩
  · exact h
  · obtain ⟨hid, hhome, haffinity⟩ := hkept (s.threads index).stat
    refine h.setStat _ hid hhome fun hused => ?_
    rw [haffinity, hhome]
    exact h.affinity index hused

theorem Wellformed.rehome_eq (hused : (s.threads index).used)
    (hne : destination ≠ (s.threads index).stat.homeCpu) (hlt : destination < s.cpuCount) :
    rehome (s.setStat index { (s.threads index).stat with affinity := affinity }) index
        (s.threads index).stat.id destination =
      (.ok, s.migrate index destination { (s.threads index).stat with
        affinity := affinity
        homeCpu := destination
        migrations := increment (s.threads index).stat.migrations }) := by
  have hmissing := h.not_mem hused hne
  -- queues are untouched by the new affinity, so the queue operations go as before
  have hmove := @queueAdd_queueRemove
    (s.setStat index { (s.threads index).stat with affinity := affinity })
    (s.threads index).stat.id destination _ (h.home_lt hused) (h.mem_home index hused) hlt hne
    hmissing (h.length_lt destination index fun _ => hmissing)
  rw [rehome]
  simp only [setStat_self]
  rw [hmove]
  simp [Scheduler.migrate, Scheduler.setStat, Scheduler.setSlot, Scheduler.setQueue]

theorem Wellformed.setAffinity (id : ℕ) (affinity : CpuMask) :
    Wellformed (Task.setAffinity s id affinity).2 ∧
      SameThreads s (Task.setAffinity s id affinity).2 := by
  rw [Task.setAffinity, if_neg (by simp [h.initialized])]
  split
  · exact ⟨h, fun _ => ⟨rfl, rfl, rfl⟩⟩
  rename_i hcheck
  obtain ⟨hsome, honline⟩ := affinity_of_check h hcheck
  cases hfind : findThread s id with
  | none => exact ⟨h, fun _ => ⟨rfl, rfl, rfl⟩⟩
  | some index =>
  obtain ⟨hused, rfl⟩ := findThread_eq_some hfind
  simp only [setStat_self]
  split
  next hallowed =>
    have hbit := ((cpuAllowed_iff h.cpuCount_le).mp hallowed).2
    exact ⟨h.setStat _ rfl rfl fun _ => ⟨hbit, honline⟩, .setStat s rfl rfl⟩
  rename_i hrefused
  obtain ⟨destination, hchoose, hlt, hbit⟩ := @chooseHome_spec
    (s.setStat index { (s.threads index).stat with affinity := affinity }) affinity
    h.length_le h.cpuCount_le hsome honline maxCpus
  have hne : destination ≠ (s.threads index).stat.homeCpu := by
    rintro rfl
    exact hrefused ((cpuAllowed_iff h.cpuCount_le).mpr ⟨hlt, hbit⟩)
  simp only [hchoose]
  rw [h.rehome_eq hused hne hlt]
  exact ⟨h.migrate _ hused hne rfl rfl ⟨hbit, honline⟩, .setStat _ rfl rfl⟩

theorem Wellformed.perform (request : Request) : Wellformed (request.perform s).2 := by
  cases request with
  | register id priority affinity preferredCpu =>
    rcases h.registerThread id priority affinity preferredCpu with
      ⟨status, heq⟩ | ⟨index, home, -, heq, hwf⟩ <;> simp only [Request.perform, heq]
    · exact h
    · exact hwf
  | unregister id =>
    rcases h.unregisterThread id with ⟨status, heq, -⟩ | ⟨index, hused, -, heq⟩ <;>
      simp only [Request.perform, heq]
    · exact h
    · exact h.unregister hused
  | setState id state =>
    exact h.restats (restats_setState s id state) fun _ => ⟨rfl, rfl, rfl⟩
  | setAffinity id affinity => exact (h.setAffinity id affinity).1
  | setPriority id priority =>
    exact h.restats (restats_setPriority s id priority) fun _ => ⟨rfl, rfl, rfl⟩
  | pickNext cpu excluded hasOutput =>
    rcases h.pickNext_spec cpu excluded hasOutput with
      ⟨status, heq, -⟩ | ⟨index, s', heq, hdispatched, -⟩ <;> simp only [Request.perform, heq]
    · exact h
    · exact hdispatched.wellformed
  | cancelDispatch id cpu =>
    exact h.restats (restats_cancelDispatch s id cpu) fun _ => ⟨rfl, rfl, rfl⟩
  | expandCpuCount onlineCpus =>
    simp only [Request.perform, Task.expandCpuCount, h.initialized, Bool.not_true,
      Bool.false_eq_true, if_false]
    split
    · exact h
    split
    · exact h
    · have hle : onlineCpus ≤ maxCpus := by omega
      have hge : s.cpuCount ≤ onlineCpus := by omega
      simpa only [h.initialized] using h.expand hle hge

theorem Wellformed.run (requests : List Request) : Wellformed (Task.run requests s).2 := by
  induction requests generalizing s with
  | nil => exact h
  | cons request _ ih => exact ih (h.perform request)

end

/-! ## Reservations -/

/-- A registered thread that is not ready. -/
def Reserved (s : Scheduler) (id : ℕ) : Prop :=
  ∃ index, (s.threads index).used ∧ (s.threads index).stat.id = id ∧
    (s.threads index).stat.state ≠ .ready

/-- The calls after which a thread identifier can be returned once more: the
thread was made ready, or it was unregistered and the identifier is free. -/
def Revives (id : ℕ) : Request × Response → Prop
  | (.setState other state, .status .ok) => other = id ∧ state = .ready
  | (.cancelDispatch other _, .status .ok) => other = id
  | (.unregister other, .status .ok) => other = id
  | _ => False

theorem Reserved.restats (hresv : Reserved s id) {named : ℕ}
    (hrestats : Restats s named change result) (hid : ∀ stat, (change stat).id = stat.id)
    (hstate : result.1 = .ok → named = id → ∀ stat, stat.state ≠ .ready →
      (change stat).state ≠ .ready) : Reserved result.2 id := by
  obtain ⟨index, hused, heq, hready⟩ := hresv
  rcases hrestats with ⟨_, rfl, -⟩ | ⟨found, _, hnamed, rfl⟩
  · exact ⟨index, hused, heq, hready⟩
  refine ⟨index, ?_⟩
  by_cases hsame : index = found
  · subst hsame
    rw [setStat_self]
    exact ⟨hused, (hid _).trans heq, hstate rfl (hnamed.symm.trans heq) _ hready⟩
  · rw [setStat_of_ne _ _ _ hsame]
    exact ⟨hused, heq, hready⟩

theorem Reserved.of_same (hresv : Reserved s id) (hsame : SameThreads s s') : Reserved s' id := by
  obtain ⟨index, hused, heq, hready⟩ := hresv
  obtain ⟨hused', hid, hstate⟩ := hsame index
  exact ⟨index, hused'.trans hused, hid.trans heq, hstate.trans_ne hready⟩

theorem Reserved.setSlot (hresv : Reserved s id) (slot : ThreadSlot)
    (hother : (s.threads index).used → (s.threads index).stat.id ≠ id) :
    Reserved (s.setSlot index slot) id := by
  obtain ⟨found, hused, heq, hready⟩ := hresv
  refine ⟨found, ?_⟩
  rw [setSlot_of_ne]
  · exact ⟨hused, heq, hready⟩
  · rintro rfl
    exact hother hused heq

section

variable (h : Wellformed s)
include h

/-- A reservation lasts until a call ends it. -/
theorem Reserved.perform (hresv : Reserved s id) (request : Request)
    (hkept : ¬ Revives id (request, (request.perform s).1)) :
    Reserved (request.perform s).2 id := by
  cases request with
  | register new priority affinity preferredCpu =>
    rcases h.registerThread new priority affinity preferredCpu with
      ⟨status, hres⟩ | ⟨free, home, hfree, hres, -⟩ <;> simp only [Request.perform, hres]
    · exact hresv
    · exact hresv.setSlot _ fun hused => absurd (hused.symm.trans hfree) (by decide)
  | unregister named =>
    rcases h.unregisterThread named with ⟨status, hres, -⟩ | ⟨_, _, hnamed, hres⟩
    · simp only [Request.perform, hres]
      exact hresv
    simp only [Request.perform, hres, Revives] at hkept ⊢
    exact hresv.setSlot _ fun _ heq => hkept (hnamed.symm.trans heq)
  | setState named state =>
    refine hresv.restats (restats_setState s named state) (fun _ => rfl) ?_
    rintro (hok : (Task.setState s named state).1 = _) rfl _ - hready
    simp only [Request.perform, hok] at hkept
    exact hkept ⟨rfl, hready⟩
  | setAffinity named affinity => exact hresv.of_same (h.setAffinity named affinity).2
  | setPriority named priority =>
    exact hresv.restats (restats_setPriority s named priority) (fun _ => rfl)
      fun _ _ _ hstate => hstate
  | pickNext cpu excluded hasOutput =>
    rcases h.pickNext_spec cpu excluded hasOutput with
      ⟨status, hres, -⟩ | ⟨picked, s', hres, hdispatched, -⟩ <;>
        simp only [Request.perform, hres]
    · exact hresv
    obtain ⟨index, hused, heq, hready⟩ := hresv
    obtain ⟨hused', hid, hstate⟩ := hdispatched.threads index
    refine ⟨index, hused'.trans hused, hid.trans heq, ?_⟩
    rw [hstate]
    split
    · nofun
    · exact hready
  | cancelDispatch named cpu =>
    refine hresv.restats (restats_cancelDispatch s named cpu) (fun _ => rfl) ?_
    rintro (hok : (Task.cancelDispatch s named cpu).1 = _) rfl
    simp only [Request.perform, hok] at hkept
    exact absurd rfl hkept
  | expandCpuCount =>
    refine hresv.of_same ?_
    simp only [Request.perform, Task.expandCpuCount]
    split
    · exact fun _ => ⟨rfl, rfl, rfl⟩
    split
    · exact fun _ => ⟨rfl, rfl, rfl⟩
    split <;> exact fun _ => ⟨rfl, rfl, rfl⟩

theorem dispatched_of_picked (request : Request) (hpicked : (request.perform s).1 = .picked id) :
    ∃ index, (s.threads index).used ∧ (s.threads index).stat.id = id ∧
      (s.threads index).stat.state = .ready ∧ Dispatched s index (request.perform s).2 := by
  cases request with
  | pickNext cpu excluded hasOutput =>
    rcases h.pickNext_spec cpu excluded hasOutput with
      ⟨status, hres, -⟩ | ⟨index, s', hres, hdispatched, helig, -⟩
    · simp only [Request.perform, hres] at hpicked
      cases hpicked
    · simp only [Request.perform, hres, Response.picked.injEq] at hpicked ⊢
      exact ⟨index, helig.used, hpicked, helig.ready, hdispatched⟩
  | _ => cases hpicked

theorem not_picked_of_reserved (hresv : Reserved s id) (request : Request) :
    (request.perform s).1 ≠ .picked id := by
  intro hpicked
  obtain ⟨index, hused, heq, hready⟩ := hresv
  obtain ⟨found, hfound, hid, hwas, -⟩ := dispatched_of_picked h request hpicked
  rw [h.id_injective found index hfound hused (hid.trans heq.symm)] at hwas
  exact hready hwas

theorem reserved_of_picked (request : Request) (hpicked : (request.perform s).1 = .picked id) :
    Reserved (request.perform s).2 id := by
  obtain ⟨found, hfound, hid, -, hdispatched⟩ := dispatched_of_picked h request hpicked
  obtain ⟨hused, hsame, hstate⟩ := hdispatched.threads found
  refine ⟨found, hused.trans hfound, hsame.trans hid, ?_⟩
  rw [hstate, if_pos rfl]
  nofun

theorem Reserved.run (hresv : Reserved s id)
    (hrun : (Task.run requests s).1 = middle ++ (pick, .picked id) :: after) :
    ∃ call ∈ middle, Revives id call := by
  induction requests generalizing s middle with
  | nil => exact absurd hrun.symm (by simp [Task.run])
  | cons request _ ih =>
    simp only [Task.run] at hrun
    cases middle with
    | nil =>
      simp only [nil_append, cons.injEq, Prod.mk.injEq] at hrun
      exact absurd hrun.1.2 (not_picked_of_reserved h hresv request)
    | cons call =>
      simp only [cons_append, cons.injEq] at hrun
      by_cases hrevives : Revives id call
      · exact ⟨call, mem_cons_self, hrevives⟩
      rw [← hrun.1] at hrevives
      obtain ⟨found, hfound, hends⟩ := ih (h.perform request)
        (hresv.perform h request hrevives) hrun.2
      exact ⟨found, mem_cons_of_mem _ hfound, hends⟩

/-- Between two returns of a thread identifier lies a call that ends the reservation. -/
theorem revives_between_picks {before : List (Request × Response)} {pick' : Request}
    (hrun : (Task.run requests s).1 =
      before ++ (pick, .picked id) :: (middle ++ (pick', .picked id) :: after)) :
    ∃ call ∈ middle, Revives id call := by
  induction requests generalizing s before with
  | nil => exact absurd hrun.symm (by simp [Task.run])
  | cons request _ ih =>
    simp only [Task.run] at hrun
    cases before with
    | nil =>
      simp only [nil_append, cons.injEq, Prod.mk.injEq] at hrun
      exact (reserved_of_picked h request hrun.1.2).run (h.perform request) hrun.2
    | cons =>
      simp only [cons_append, cons.injEq] at hrun
      exact ih (h.perform request) hrun.2

/-! ## Runs -/

/-- How registered threads and run queues fit together. -/
structure QueueInvariant (s : Scheduler) : Prop where
  occurs : ∀ index, (s.threads index).used → ∀ cpu,
    (s.queues cpu).ids.count (s.threads index).stat.id =
      if cpu = (s.threads index).stat.homeCpu then 1 else 0
  affinity : ∀ index, (s.threads index).used →
    (s.threads index).stat.affinity ≠ 0 ∧
      (∀ cpu, (s.threads index).stat.affinity.getLsbD cpu → cpu < s.cpuCount) ∧
      (s.threads index).stat.affinity.getLsbD (s.threads index).stat.homeCpu
  registered : ∀ cpu, ∀ id ∈ (s.queues cpu).ids, ∃ index, (s.threads index).used ∧
    (s.threads index).stat.id = id
  cursor : ∀ cpu, (s.queues cpu).cursor < (s.queues cpu).ids.length ∨
    ((s.queues cpu).ids = [] ∧ (s.queues cpu).cursor = 0)

theorem Wellformed.queueInvariant : QueueInvariant s where
  occurs := fun index hused cpu => by
    split
    next hhome =>
      subst hhome
      exact count_eq_one_of_mem (h.nodup _) (h.mem_home index hused)
    next hne => exact count_eq_zero.mpr (h.not_mem hused hne)
  affinity := fun index hused => by
    have hvalid := h.affinity index hused
    refine ⟨fun hzero => ?_, hvalid.online, hvalid.home⟩
    have hhome := hvalid.home
    rw [hzero] at hhome
    exact absurd hhome (by simp)
  registered := fun cpu id hid => by
    obtain ⟨index, hused, heq, -⟩ := h.of_mem cpu id hid
    exact ⟨index, hused, heq⟩
  cursor := fun cpu => (h.cursor cpu).imp_right And.symm

/-- What a selection for a processor may answer. -/
structure PickCorrect (s : Scheduler) (cpu excluded : ℕ) (result : Except Status ℕ) : Prop where
  picked : ∀ id, result = .ok id → ∃ index, (s.threads index).stat.id = id ∧
    Eligible s cpu excluded index ∧
    (MaximalAmong s (localThreads s cpu excluded) index ∨
      (localThreads s cpu excluded = ∅ ∧ MaximalAmong s (remoteThreads s cpu excluded) index))
  notFound : result = .error .notFound → ∀ index, ¬ Eligible s cpu excluded index

theorem Wellformed.pickCorrect (cpu excluded : ℕ) (hasOutput : Bool) :
    PickCorrect s cpu excluded (Task.pickNext s cpu excluded hasOutput).1 := by
  rcases h.pickNext_spec cpu excluded hasOutput with
    ⟨status, hres, hnone⟩ | ⟨found, s', hres, -, helig, hmaximal⟩
  · rw [hres]
    refine ⟨nofun, fun hnotFound index helig => ?_⟩
    obtain ⟨hlocal, hremote⟩ := hnone (Except.error.inj hnotFound)
    by_cases hhome : (s.threads index).stat.homeCpu = cpu
    · have hmem : index ∈ localThreads s cpu excluded := ⟨helig, hhome⟩
      rw [hlocal] at hmem
      exact hmem
    · have hmem : index ∈ remoteThreads s cpu excluded := ⟨helig, hhome⟩
      rw [hremote] at hmem
      exact hmem
  · rw [hres]
    exact ⟨fun id hid => ⟨found, Except.ok.inj hid, helig, hmaximal⟩, nofun⟩

end

/-- Every run after `initialize`, and every selection from every state it reaches. -/
theorem scheduler_run_correct {start : Scheduler}
    (hstart : initializeScheduler {} onlineCpus = (.ok, start)) (requests : List Request) :
    QueueInvariant (run requests start).2 ∧
      (∀ cpu excluded hasOutput, PickCorrect (run requests start).2 cpu excluded
        (pickNext (run requests start).2 cpu excluded hasOutput).1) ∧
      ∀ before pick middle pick' after id, (run requests start).1 =
          before ++ (pick, .picked id) :: (middle ++ (pick', .picked id) :: after) →
        ∃ call ∈ middle, Revives id call := by
  have hwellformed : Wellformed start := Wellformed.configure hstart
  have hfinal := hwellformed.run requests
  refine ⟨hfinal.queueInvariant, hfinal.pickCorrect, ?_⟩
  intro before pick middle pick' after id hrun
  exact revives_between_picks hwellformed hrun

/-- A dispatch that is cancelled and made again. -/
theorem scheduler_run_correct_of_cancelled :
    initializeScheduler {} 2 = (.ok, { cpuCount := 2, initialized := true }) ∧
      ∃ call ∈ [(Request.cancelDispatch 7 1, Response.status .ok)], Revives 7 call := by
  refine ⟨rfl, ?_⟩
  have hcorrect := scheduler_run_correct (show initializeScheduler {} 2 = (.ok, _) from rfl)
    [.register 7 3 2#64 0, .pickNext 1 0 true, .cancelDispatch 7 1, .pickNext 1 0 true]
  exact hcorrect.2.2 [(.register 7 3 2#64 0, .status .ok)] (.pickNext 1 0 true) _
    (.pickNext 1 0 true) [] 7 (by decide)

/-- An identifier that is registered again is returned again, although no thread
was made ready in between. -/
theorem reregistered_thread_picked_again :
    initializeScheduler {} 1 = (.ok, { cpuCount := 1, initialized := true }) ∧
    (run [.register 1 0 1#64 0, .pickNext 0 0 true, .unregister 1, .register 1 0 1#64 0,
        .pickNext 0 0 true] { cpuCount := 1, initialized := true }).1 =
      [(.register 1 0 1#64 0, .status .ok), (.pickNext 0 0 true, .picked 1),
        (.unregister 1, .status .ok), (.register 1 0 1#64 0, .status .ok),
        (.pickNext 0 0 true, .picked 1)] :=
  ⟨rfl, by decide⟩

end Kurogane.Task
