/-
# The process table and the job table together

The invariant that ties the two tables to what has been issued and delivered so far, and
the changes that keep it: a live slot is rewritten, an empty one is scribbled on, a zombie
is recycled, a process is entered with or without a job.
-/

import Kurogane.Task.Processes

namespace Kurogane.Task.Process

open List

open Task.Job (JobId invalidJobId)

/-! ## What has happened -/

/-- A pid was issued to a child of `parent`, or an exit code was delivered to `caller`. -/
inductive Event where
  | spawned (pid parent : ProcessId)
  | delivered (pid caller : ProcessId) (exitCode : ℤ)
  deriving DecidableEq

def issued (history : List Event) : List ProcessId :=
  history.filterMap fun event =>
    match event with
    | .spawned pid _ => some pid
    | .delivered .. => none

def delivered (history : List Event) : List ProcessId :=
  history.filterMap fun event =>
    match event with
    | .spawned .. => none
    | .delivered pid _ _ => some pid

@[simp] theorem issued_spawned (pid parent : ProcessId) (history : List Event) :
    issued (.spawned pid parent :: history) = pid :: issued history := rfl

@[simp] theorem issued_delivered (pid caller : ProcessId) (exitCode : ℤ) (history : List Event) :
    issued (.delivered pid caller exitCode :: history) = issued history := rfl

@[simp] theorem delivered_delivered (pid caller : ProcessId) (exitCode : ℤ) (history : List Event) :
    delivered (.delivered pid caller exitCode :: history) = pid :: delivered history := rfl

variable {job : Fin Job.maxJobs} {pid : ProcessId}

theorem mem_issued {history : List Event} :
    pid ∈ issued history ↔ ∃ parent, Event.spawned pid parent ∈ history := by
  induction history with
  | nil => simp [issued]
  | cons event _ ih => cases event <;> simp [ih, exists_or]

/-! ## Jobs -/

section Jobs

variable {job : Job.Slot} {pid : ProcessId}

theorem release_of_notMem (hmem : pid ∉ job.members) (howner : job.ownerPid ≠ pid)
    (hmems : job.active → job.members ≠ []) : job.release pid = job := by
  rcases job with ⟨id, _, ownerPid, members, active, _⟩
  cases active with
  | false => rfl
  | true =>
    have hnonempty : members ≠ [] := hmems rfl
    have herase : members.erase pid = members := erase_of_not_mem hmem
    have hkept : ownerPid ≠ pid := howner
    simp [Job.Slot.release, Job.Slot.removeMember, herase, hkept, Job.Slot.reclaimIfEmpty,
      hnonempty]

theorem release_of_inactive (hinactive : job.active = false) (pid : ProcessId) :
    job.release pid = job := by
  rw [Job.Slot.release, if_pos hinactive]

theorem release_cases (hact : job.active) (pid : ProcessId) :
    (job.members.erase pid = [] ∧ job.release pid = { generation := job.generation }) ∨
      (job.members.erase pid ≠ [] ∧ (job.release pid).active ∧
        (job.release pid).id = job.id ∧ (job.release pid).members = job.members.erase pid ∧
        ((job.release pid).ownerPid = invalidProcessId ∨
          (job.release pid).ownerPid = job.ownerPid)) := by
  by_cases hempty : job.members.erase pid = []
  · refine .inl ⟨hempty, ?_⟩
    simp [Job.Slot.release, hact, Job.Slot.removeMember, Job.Slot.reclaimIfEmpty, hempty]
  refine .inr ⟨hempty, ?_⟩
  by_cases howner : job.ownerPid = pid
  · simp [Job.Slot.release, hact, Job.Slot.removeMember, Job.Slot.reclaimIfEmpty, hempty, howner]
  · simp [Job.Slot.release, hact, Job.Slot.removeMember, Job.Slot.reclaimIfEmpty, hempty, howner]

end Jobs

/-! ## The invariant -/

/-- The jobs and the processes know of each other. -/
structure Grouped (world : World) (known : List ProcessId) : Prop where
  member : ∀ index, (world.slots index).state ≠ .empty →
    (world.slots index).jobId ≠ invalidJobId →
    ∃ job, (world.jobs.slots job).active ∧
      (world.jobs.slots job).id = (world.slots index).jobId ∧
      (world.slots index).pid ∈ (world.jobs.slots job).members
  process : ∀ job, (world.jobs.slots job).active →
    ∀ pid ∈ (world.jobs.slots job).members,
      ∃ index, (world.slots index).state ≠ .empty ∧ (world.slots index).pid = pid ∧
        (world.slots index).jobId = (world.jobs.slots job).id
  active : ∀ job, (world.jobs.slots job).active ↔ (world.jobs.slots job).members ≠ []
  coded : ∀ job, (world.jobs.slots job).active →
    ∃ generation, (world.jobs.slots job).id = Job.encode job generation
  distinct : ∀ job, (world.jobs.slots job).members.Nodup
  owner : ∀ job, (world.jobs.slots job).ownerPid = invalidProcessId ∨
    (world.jobs.slots job).ownerPid ∈ known

structure SoundJob (known : List ProcessId) (job : Fin Job.maxJobs) (slot : Job.Slot) : Prop where
  active : slot.active ↔ slot.members ≠ []
  coded : slot.active → ∃ generation, slot.id = Job.encode job generation
  distinct : slot.members.Nodup
  owner : slot.ownerPid = invalidProcessId ∨ slot.ownerPid ∈ known

/-- The tables agree with the history. -/
structure Consistent (world : World) (history : List Event) : Prop where
  boot : world.initialized = false → world = .boot ∧ history = []
  jobs : world.initialized → world.jobs.initialized
  named : ∀ index, (world.slots index).state ≠ .empty →
    Event.spawned (world.slots index).pid (world.slots index).parentPid ∈ history ∧
      slotOf (world.slots index).pid = some index
  numbered : ∀ pid ∈ issued history, pid = 1 ∧ world.initSpawned ∨
    ∃ (index : Fin maxProcesses) (generation : ℕ), 1 ≤ generation ∧
      generation ≤ (world.slots index).generation ∧ pid = generation * 2 ^ 8 + (index.val + 1)
  unique : (issued history).Nodup
  once : (delivered history).Nodup
  gone : ∀ pid ∈ delivered history, pid ∈ issued history ∧
    ∀ index, (world.slots index).state ≠ .empty → (world.slots index).pid ≠ pid
  parents : ∀ pid caller exitCode, Event.delivered pid caller exitCode ∈ history →
    caller = invalidProcessId ∨ Event.spawned pid caller ∈ history
  grouped : Grouped world (issued history)

section Tables

variable {world next : World} {history : List Event} {index other : Fin maxProcesses}
  {known : List ProcessId} {slot : Slot}

section

variable (h : Consistent world history) (hidx : (world.slots index).state ≠ .empty)
include h hidx

theorem Consistent.index_eq (hother : (world.slots other).state ≠ .empty)
    (hpid : (world.slots index).pid = (world.slots other).pid) : index = other := by
  have hslot := (h.named index hidx).2
  rw [hpid, (h.named other hother).2] at hslot
  exact (Option.some.inj hslot).symm

theorem Consistent.pid_ne_invalid : (world.slots index).pid ≠ invalidProcessId := by
  intro hpid
  have hslot := (h.named index hidx).2
  rw [hpid] at hslot
  simp [slotOf, invalidProcessId] at hslot

theorem Consistent.mem_issued : (world.slots index).pid ∈ issued history :=
  Process.mem_issued.mpr ⟨_, (h.named index hidx).1⟩

end

theorem Grouped.sound (h : Grouped world known) (job : Fin Job.maxJobs) :
    SoundJob known job (world.jobs.slots job) :=
  ⟨h.active job, h.coded job, h.distinct job, h.owner job⟩

theorem consistent_of_blank (hboot : world.initialized = false → world = .boot)
    (hinitialized : world.initialized → world.jobs.initialized)
    (hslots : ∀ index, world.slots index = {}) (hjobs : ∀ job, world.jobs.slots job = {}) :
    Consistent world [] where
  boot hfalse := ⟨hboot hfalse, rfl⟩
  jobs := hinitialized
  named index hlive := by simp [hslots] at hlive
  numbered := by simp [issued]
  unique := nodup_nil
  once := nodup_nil
  gone := by simp [delivered]
  parents := by simp
  grouped :=
    { member := fun index hlive => by simp [hslots] at hlive
      process := fun job hact => by simp [hjobs] at hact
      active := fun job => by simp [hjobs]
      coded := fun job hact => by simp [hjobs] at hact
      distinct := fun job => by simp [hjobs]
      owner := fun job => .inl (by rw [hjobs]) }

/-! ## Changes that do not matter -/

structure Alike (world next : World) : Prop where
  initialized : next.initialized = world.initialized
  initSpawned : next.initSpawned = world.initSpawned
  jobsInitialized : next.jobs.initialized = world.jobs.initialized
  empty : ∀ index, (next.slots index).state = .empty ↔ (world.slots index).state = .empty
  same : ∀ index, (world.slots index).state ≠ .empty →
    (next.slots index).pid = (world.slots index).pid ∧
      (next.slots index).parentPid = (world.slots index).parentPid ∧
      (next.slots index).jobId = (world.slots index).jobId
  generation : ∀ index, (world.slots index).generation ≤ (next.slots index).generation
  jobs : ∀ job, next.jobs.slots job = world.jobs.slots job ∨
    (world.jobs.slots job).active = false ∧ (next.jobs.slots job).active = false ∧
      (next.jobs.slots job).members = [] ∧ (next.jobs.slots job).ownerPid = invalidProcessId

theorem Alike.job_eq (halike : Alike world next)
    (hact : (next.jobs.slots job).active ∨ (world.jobs.slots job).active) :
    next.jobs.slots job = world.jobs.slots job := by
  rcases halike.jobs job with hsame | ⟨hworld, hnext, -⟩
  · exact hsame
  · simp [hworld, hnext] at hact

theorem Grouped.congr (h : Grouped world known) (halike : Alike world next) :
    Grouped next known := by
  have hsound : ∀ job, SoundJob known job (next.jobs.slots job) := by
    intro job
    rcases halike.jobs job with hsame | ⟨-, hinactive, hmems, howner⟩
    · rw [hsame]
      exact h.sound job
    · exact ⟨by simp [hinactive, hmems], by simp [hinactive], hmems ▸ nodup_nil, .inl howner⟩
  refine ⟨fun index hidx hjob => ?_, fun job hact pid hpid => ?_, fun job => (hsound job).active,
    fun job => (hsound job).coded, fun job => (hsound job).distinct, fun job => (hsound job).owner⟩
  · have hlive := (halike.empty index).not.mp hidx
    obtain ⟨hpid, -, hjobId⟩ := halike.same index hlive
    rw [hjobId] at hjob
    obtain ⟨job, hact, hid, hmem⟩ := h.member index hlive hjob
    refine ⟨job, ?_⟩
    rw [halike.job_eq (.inr hact), hpid, hjobId]
    exact ⟨hact, hid, hmem⟩
  · have hjob := halike.job_eq (.inl hact)
    rw [hjob] at hact hpid ⊢
    obtain ⟨index, hlive, hsame, hjobId⟩ := h.process job hact pid hpid
    obtain ⟨hpidSame, -, hjobSame⟩ := halike.same index hlive
    exact ⟨index, (halike.empty index).not.mpr hlive, hpidSame.trans hsame, hjobSame.trans hjobId⟩

theorem Consistent.congr (h : Consistent world history) (hinitialized : world.initialized)
    (halike : Alike world next) : Consistent next history where
  boot hboot := by simp [halike.initialized, hinitialized] at hboot
  jobs _ := halike.jobsInitialized.trans (h.jobs hinitialized)
  named index hidx := by
    have hlive := (halike.empty index).not.mp hidx
    obtain ⟨hpid, hpar, -⟩ := halike.same index hlive
    rw [hpid, hpar]
    exact h.named index hlive
  numbered pid hpid := by
    rcases h.numbered pid hpid with ⟨hone, hinit⟩ | ⟨index, generation, hpos, hle, heq⟩
    · exact .inl ⟨hone, halike.initSpawned.trans hinit⟩
    · exact .inr ⟨index, generation, hpos, hle.trans (halike.generation index), heq⟩
  unique := h.unique
  once := h.once
  gone pid hpid := by
    refine ⟨(h.gone pid hpid).1, fun index hidx => ?_⟩
    have hlive := (halike.empty index).not.mp hidx
    rw [(halike.same index hlive).1]
    exact (h.gone pid hpid).2 index hlive
  parents := h.parents
  grouped := h.grouped.congr halike

/-- The live slots and the active jobs are what they were. -/
structure SameLive (world next : World) : Prop where
  initialized : next.initialized = world.initialized
  initSpawned : next.initSpawned = world.initSpawned
  jobsInitialized : next.jobs.initialized = world.jobs.initialized
  slots : ∀ index, next.slots index = world.slots index ∨
    (world.slots index).state = .empty ∧ (next.slots index).state = .empty
  jobs : ∀ job, next.jobs.slots job = world.jobs.slots job ∨
    (world.jobs.slots job).active = false ∧ (next.jobs.slots job).active = false ∧
      (next.jobs.slots job).members = [] ∧ (next.jobs.slots job).ownerPid = invalidProcessId

theorem SameLive.refl (world : World) : SameLive world world :=
  ⟨rfl, rfl, rfl, fun _ => .inl rfl, fun _ => .inl rfl⟩

theorem SameLive.alike (h : SameLive world next)
    (hgen : ∀ index, (world.slots index).generation ≤ (next.slots index).generation) :
    Alike world next := by
  refine { h with empty := fun index => ?_, same := fun index hlive => ?_, generation := hgen }
  · rcases h.slots index with hsame | ⟨hworld, hnext⟩
    · rw [hsame]
    · simp [hworld, hnext]
  rcases h.slots index with hsame | ⟨hworld, -⟩
  · rw [hsame]
    exact ⟨rfl, rfl, rfl⟩
  · exact absurd hworld hlive

theorem alike_setSlot (hempty : slot.state = .empty ↔ (world.slots index).state = .empty)
    (hsame : (world.slots index).state ≠ .empty → slot.pid = (world.slots index).pid ∧
      slot.parentPid = (world.slots index).parentPid ∧ slot.jobId = (world.slots index).jobId)
    (hgen : (world.slots index).generation ≤ slot.generation) :
    Alike world (setSlot world index slot) where
  initialized := rfl
  initSpawned := rfl
  jobsInitialized := rfl
  empty other := by
    by_cases hother : other = index
    · subst hother
      simpa [setSlot] using hempty
    · simp [setSlot, hother]
  same other hlive := by
    by_cases hother : other = index
    · subst hother
      simpa [setSlot] using hsame hlive
    · simp [setSlot, hother]
  generation other := by
    by_cases hother : other = index
    · subst hother
      simpa [setSlot] using hgen
    · simp [setSlot, hother]
  jobs job := .inl rfl

/-! ## A process goes -/

theorem recycle_slots (world : World) (index other : Fin maxProcesses) :
    (recycle world index).slots other =
      if other = index then (world.slots index).clear else world.slots other := by
  simp only [recycle, setSlot, Function.update_apply]

theorem releaseProcess_slots {table : Job.Table} (hpid : pid ≠ invalidProcessId)
    (hinitialized : table.initialized) (job : Fin Job.maxJobs) :
    (Job.releaseProcess table pid).slots job = (table.slots job).release pid := by
  rw [Job.releaseProcess, if_neg hpid, if_neg (by simp [hinitialized])]

theorem releaseProcess_initialized (table : Job.Table) (pid : ProcessId) :
    (Job.releaseProcess table pid).initialized = table.initialized := by
  rw [Job.releaseProcess]
  split
  · rfl
  · split <;> rfl

theorem active_of_release {job : Job.Slot} (hact : (job.release pid).active) : job.active := by
  cases hjob : job.active with
  | true => rfl
  | false => simp [Job.Slot.release, hjob] at hact

theorem SoundJob.release {job : Fin Job.maxJobs} {slot : Job.Slot} (h : SoundJob known job slot)
    (pid : ProcessId) : SoundJob known job (slot.release pid) := by
  cases hact : slot.active with
  | false =>
    rw [release_of_inactive hact]
    exact h
  | true =>
    rcases release_cases hact pid with ⟨-, hgone⟩ | ⟨hkept, hstill, hsame, hmems, howner⟩
    · rw [hgone]
      exact ⟨by simp, nofun, nodup_nil, .inl rfl⟩
    refine ⟨by simp [hstill, hmems, hkept], fun _ => hsame ▸ h.coded hact,
      hmems ▸ h.distinct.erase _, ?_⟩
    rcases howner with hnobody | howner
    · exact .inl hnobody
    · rw [howner]
      exact h.owner

theorem Grouped.release (h : Grouped world known) (hlive : (world.slots index).state ≠ .empty)
    (hjobs : ∀ job, next.jobs.slots job = (world.jobs.slots job).release (world.slots index).pid)
    (hidx : (next.slots index).state = .empty)
    (hothers : ∀ other, other ≠ index → next.slots other = world.slots other)
    (hunique : ∀ other, (world.slots other).state ≠ .empty →
      (world.slots other).pid = (world.slots index).pid → other = index) : Grouped next known := by
  have hsound : ∀ job, SoundJob known job (next.jobs.slots job) :=
    fun job => hjobs job ▸ (h.sound job).release _
  refine ⟨fun other hother hjob => ?_, fun job hact pid hpid => ?_, fun job => (hsound job).active,
    fun job => (hsound job).coded, fun job => (hsound job).distinct, fun job => (hsound job).owner⟩
  · have hne : other ≠ index := by
      rintro rfl
      exact hother hidx
    rw [hothers other hne] at hother hjob ⊢
    obtain ⟨job, hact, hid, hmem⟩ := h.member other hother hjob
    have hkept : (world.slots other).pid ∈
        (world.jobs.slots job).members.erase (world.slots index).pid :=
      (mem_erase_of_ne fun hpid => hne (hunique other hother hpid)).mpr hmem
    refine ⟨job, ?_⟩
    rw [hjobs]
    rcases release_cases hact (world.slots index).pid with
      ⟨hempty, -⟩ | ⟨-, hstill, hsame, hmems, -⟩
    · rw [hempty] at hkept
      exact absurd hkept not_mem_nil
    · exact ⟨hstill, hsame.trans hid, hmems ▸ hkept⟩
  · rw [hjobs] at hact hpid ⊢
    have hpre := active_of_release hact
    rcases release_cases hpre (world.slots index).pid with
      ⟨-, hgone⟩ | ⟨-, -, hsame, hmems, -⟩
    · simp [hgone] at hact
    rw [hmems] at hpid
    obtain ⟨hother, hmem⟩ := (h.distinct job).mem_erase_iff.mp hpid
    obtain ⟨other, hotherLive, rfl, hjobId⟩ := h.process job hpre pid hmem
    have hne : other ≠ index := by
      rintro rfl
      exact hother rfl
    refine ⟨other, ?_⟩
    rw [hothers other hne, hsame]
    exact ⟨hotherLive, rfl, hjobId⟩

section

variable (h : Consistent world history) (hinitialized : world.initialized)
  (hlive : (world.slots index).state ≠ .empty)
include h hinitialized hlive

theorem Consistent.recycle : Consistent (recycle world index) history := by
  have hsame : ∀ other, ((Process.recycle world index).slots other).state ≠ .empty →
      other ≠ index ∧ (Process.recycle world index).slots other = world.slots other := by
    intro other hother
    rw [recycle_slots] at hother ⊢
    by_cases hidx : other = index
    · rw [if_pos hidx] at hother
      exact absurd rfl hother
    · exact ⟨hidx, if_neg hidx⟩
  refine ⟨fun hboot => ?_, fun _ => ?_, fun other hother => ?_, fun pid hpid => ?_,
    h.unique, h.once,
    fun pid hpid => ⟨(h.gone pid hpid).1, fun other hother => ?_⟩, h.parents, ?_⟩
  · exact absurd (hinitialized.symm.trans hboot) (by simp)
  · exact (releaseProcess_initialized _ _).trans (h.jobs hinitialized)
  · obtain ⟨-, hslot⟩ := hsame other hother
    rw [hslot] at hother ⊢
    exact h.named other hother
  · rcases h.numbered pid hpid with hinit | ⟨slot, generation, hpos, hle, heq⟩
    · exact .inl hinit
    refine .inr ⟨slot, generation, hpos, ?_, heq⟩
    rw [recycle_slots]
    split
    next hslot =>
      subst hslot
      exact hle
    · exact hle
  · obtain ⟨-, hslot⟩ := hsame other hother
    rw [hslot] at hother ⊢
    exact (h.gone pid hpid).2 other hother
  · refine h.grouped.release hlive (fun job => ?_) ?_ (fun other hother => ?_)
      fun other hother hpid => h.index_eq hother hlive hpid
    · exact releaseProcess_slots (h.pid_ne_invalid hlive) (h.jobs hinitialized) job
    · rw [recycle_slots, if_pos rfl]
      rfl
    · rw [recycle_slots, if_neg hother]

theorem Consistent.deliver {caller : ProcessId}
    (hcaller : caller = invalidProcessId ∨ (world.slots index).parentPid = caller) (exitCode : ℤ) :
    Consistent (Process.recycle world index)
      (.delivered (world.slots index).pid caller exitCode :: history) := by
  have hrecycled := h.recycle hinitialized hlive
  refine ⟨fun hboot => ?_, hrecycled.jobs, fun other hother => ?_, hrecycled.numbered, h.unique,
    ?_, fun pid hpid => ?_, fun pid receiver code hevent => ?_, hrecycled.grouped⟩
  · exact absurd (hinitialized.symm.trans hboot) (by simp)
  · obtain ⟨hspawned, hslot⟩ := hrecycled.named other hother
    exact ⟨mem_cons_of_mem _ hspawned, hslot⟩
  · rw [delivered_delivered, nodup_cons]
    exact ⟨fun hpre => (h.gone _ hpre).2 index hlive rfl, h.once⟩
  · rcases mem_cons.mp hpid with rfl | hpre
    · refine ⟨h.mem_issued hlive, fun other hother hsame => ?_⟩
      rw [recycle_slots] at hother hsame
      by_cases hidx : other = index
      · rw [if_pos hidx] at hother
        exact hother rfl
      · rw [if_neg hidx] at hother hsame
        exact hidx (h.index_eq hother hlive hsame)
    · exact hrecycled.gone pid hpre
  · rcases mem_cons.mp hevent with hnew | hpre
    · cases hnew
      rcases hcaller with hkernel | hpar
      · exact .inl hkernel
      · refine .inr (mem_cons_of_mem _ ?_)
        rw [← hpar]
        exact (h.named index hlive).1
    · rcases h.parents pid receiver code hpre with hkernel | hpar
      · exact .inl hkernel
      · exact .inr (mem_cons_of_mem _ hpar)

end

/-! ## A process comes -/

structure Inserted (world next : World) (index : Fin maxProcesses) (history : List Event) :
    Prop where
  empty : (world.slots index).state = .empty
  live : (next.slots index).state ≠ .empty
  others : ∀ other, other ≠ index → next.slots other = world.slots other
  fresh : (next.slots index).pid ∉ issued history
  slot : slotOf (next.slots index).pid = some index
  generation : (world.slots index).generation ≤ (next.slots index).generation

theorem Inserted.before (hins : Inserted world next index history)
    (hother : (world.slots other).state ≠ .empty) :
    other ≠ index ∧ next.slots other = world.slots other := by
  have hne : other ≠ index := by
    rintro rfl
    exact hother hins.empty
  exact ⟨hne, hins.others other hne⟩

theorem Grouped.alone (h : Grouped world (issued history))
    (hins : Inserted world next index history) (hjobs : next.jobs = world.jobs)
    (hjob : (next.slots index).jobId = invalidJobId) (pid : ProcessId) :
    Grouped next (pid :: issued history) where
  member other hother hjobId := by
    have hne : other ≠ index := by
      rintro rfl
      exact hjobId hjob
    rw [hins.others other hne] at hother hjobId ⊢
    rw [hjobs]
    exact h.member other hother hjobId
  process job hact member hmem := by
    rw [hjobs] at hact hmem ⊢
    obtain ⟨other, hother, hpid, hjobId⟩ := h.process job hact member hmem
    refine ⟨other, ?_⟩
    rw [(hins.before hother).2]
    exact ⟨hother, hpid, hjobId⟩
  active := hjobs ▸ h.active
  coded := hjobs ▸ h.coded
  distinct := hjobs ▸ h.distinct
  owner job := by
    rw [hjobs]
    exact (h.owner job).imp_right (mem_cons_of_mem _)

/-- The process joins a job, or it is the first member of a new one. -/
structure Joined (world next : World) (index : Fin maxProcesses) (job : Fin Job.maxJobs) :
    Prop where
  others : ∀ other, other ≠ job → next.jobs.slots other = world.jobs.slots other
  active : (next.jobs.slots job).active = true
  id : (next.jobs.slots job).id = (next.slots index).jobId
  same : (world.jobs.slots job).active = true →
    (next.jobs.slots job).id = (world.jobs.slots job).id
  coded : ∃ generation, (next.jobs.slots job).id = Job.encode job generation
  members : (next.jobs.slots job).members =
    (world.jobs.slots job).members ++ [(next.slots index).pid]
  owner : (next.jobs.slots job).ownerPid = (world.jobs.slots job).ownerPid ∨
    (next.jobs.slots job).ownerPid = (next.slots index).pid

theorem Grouped.join (h : Grouped world (issued history))
    (hlive : ∀ other, (world.slots other).state ≠ .empty → (world.slots other).pid ∈ issued history)
    (hins : Inserted world next index history) (hjoined : Joined world next index job) :
    Grouped next ((next.slots index).pid :: issued history) := by
  have hsound : ∀ group, SoundJob ((next.slots index).pid :: issued history) group
      (next.jobs.slots group) := by
    intro group
    by_cases hgroup : group = job
    · subst hgroup
      refine ⟨by simp [hjoined.active, hjoined.members], fun _ => hjoined.coded, ?_, ?_⟩
      · rw [hjoined.members]
        refine (h.distinct group).append (nodup_singleton _) fun member hmem hnew => ?_
        obtain rfl := mem_singleton.mp hnew
        have hpre := (h.active group).mpr (ne_nil_of_mem hmem)
        obtain ⟨other, hother, hsame, -⟩ := h.process group hpre _ hmem
        exact hins.fresh (hsame ▸ hlive other hother)
      rcases hjoined.owner with hsame | hnew
      · rw [hsame]
        exact (h.owner group).imp_right (mem_cons_of_mem _)
      · exact .inr (hnew ▸ mem_cons_self)
    · rw [hjoined.others group hgroup]
      exact { h.sound group with owner := (h.owner group).imp_right (mem_cons_of_mem _) }
  refine ⟨fun other hother hjobId => ?_, fun group hact pid hpid => ?_,
    fun job => (hsound job).active, fun job => (hsound job).coded,
    fun job => (hsound job).distinct, fun job => (hsound job).owner⟩
  · by_cases hidx : other = index
    · subst hidx
      refine ⟨job, hjoined.active, hjoined.id, ?_⟩
      rw [hjoined.members]
      exact mem_append_right _ (mem_singleton_self _)
    rw [hins.others other hidx] at hother hjobId ⊢
    obtain ⟨group, hact, hid, hmem⟩ := h.member other hother hjobId
    refine ⟨group, ?_⟩
    by_cases hgroup : group = job
    · subst hgroup
      refine ⟨hjoined.active, (hjoined.same hact).trans hid, ?_⟩
      rw [hjoined.members]
      exact mem_append_left _ hmem
    · rw [hjoined.others group hgroup]
      exact ⟨hact, hid, hmem⟩
  · have hold : (world.jobs.slots group).active → pid ∈ (world.jobs.slots group).members →
        (next.jobs.slots group).id = (world.jobs.slots group).id →
        ∃ other, (next.slots other).state ≠ .empty ∧ (next.slots other).pid = pid ∧
          (next.slots other).jobId = (next.jobs.slots group).id := by
      intro hpre hmem hid
      obtain ⟨other, hother, hsame, hjobId⟩ := h.process group hpre pid hmem
      refine ⟨other, ?_⟩
      rw [(hins.before hother).2, hid]
      exact ⟨hother, hsame, hjobId⟩
    by_cases hgroup : group = job
    · subst hgroup
      rw [hjoined.members] at hpid
      rcases mem_append.mp hpid with hmem | hnew
      · have hpre := (h.active group).mpr (ne_nil_of_mem hmem)
        exact hold hpre hmem (hjoined.same hpre)
      · refine ⟨index, hins.live, (mem_singleton.mp hnew).symm, hjoined.id.symm⟩
    · rw [hjoined.others group hgroup] at hact hpid
      exact hold hact hpid (by rw [hjoined.others group hgroup])

theorem Consistent.insert (h : Consistent world history) (hinitialized : next.initialized)
    (hjobs : next.jobs.initialized) (hins : Inserted world next index history)
    (hinit : world.initSpawned → next.initSpawned)
    (hnumbered : (next.slots index).pid = 1 ∧ next.initSpawned ∨
      1 ≤ (next.slots index).generation ∧
        (next.slots index).pid = (next.slots index).generation * 2 ^ 8 + (index.val + 1))
    (hgrouped : Grouped next ((next.slots index).pid :: issued history)) :
    Consistent next (.spawned (next.slots index).pid (next.slots index).parentPid :: history) := by
  refine ⟨fun hboot => absurd (hinitialized.symm.trans hboot) (by simp), fun _ => hjobs,
    fun other hother => ?_, fun pid hpid => ?_, ?_, h.once, fun pid hpid => ?_,
    fun pid caller code hevent => ?_, hgrouped⟩
  · by_cases hidx : other = index
    · subst hidx
      exact ⟨mem_cons_self, hins.slot⟩
    · rw [hins.others other hidx] at hother ⊢
      obtain ⟨hspawned, hslot⟩ := h.named other hother
      exact ⟨mem_cons_of_mem _ hspawned, hslot⟩
  · rcases mem_cons.mp hpid with rfl | hpre
    · rcases hnumbered with hone | ⟨hpos, heq⟩
      · exact .inl hone
      · exact .inr ⟨index, _, hpos, le_rfl, heq⟩
    rcases h.numbered pid hpre with ⟨hone, hspawned⟩ | ⟨slot, generation, hpos, hle, heq⟩
    · exact .inl ⟨hone, hinit hspawned⟩
    refine .inr ⟨slot, generation, hpos, ?_, heq⟩
    by_cases hslot : slot = index
    · subst hslot
      exact hle.trans hins.generation
    · rw [hins.others slot hslot]
      exact hle
  · rw [issued_spawned, nodup_cons]
    exact ⟨hins.fresh, h.unique⟩
  · obtain ⟨hissued, hgone⟩ := h.gone pid hpid
    refine ⟨mem_cons_of_mem _ hissued, fun other hother => ?_⟩
    by_cases hidx : other = index
    · subst hidx
      rintro rfl
      exact hins.fresh hissued
    · rw [hins.others other hidx] at hother ⊢
      exact hgone other hother
  · rcases mem_cons.mp hevent with hnew | hpre
    · cases hnew
    · exact (h.parents pid caller code hpre).imp_right (mem_cons_of_mem _)

end Tables

end Kurogane.Task.Process
