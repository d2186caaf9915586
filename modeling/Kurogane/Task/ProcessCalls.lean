/-
# What the calls of the process table do

Each call either changes nothing that is live, or makes one of the changes that keep the
tables consistent. A spawn first reaps the orphans among the zombies.
-/

import Kurogane.Task.ProcessTables

namespace Kurogane.Task.Process

open Function List

open Task.Job (JobId invalidJobId)

variable {world next : World} {history : List Event} {index other : Fin maxProcesses}
  {pid caller : ProcessId}

variable {generation : ℕ}

/-! ## Pids -/

theorem nextGeneration_eq (hsmall : generation < 2 ^ 56) :
    nextGeneration generation = generation + 1 := by
  unfold nextGeneration
  rw [Nat.mod_eq_of_lt (by omega), if_neg (by omega)]

theorem makePid_eq (hsmall : generation < 2 ^ 56) (index : ℕ) :
    makePid generation index = generation * 2 ^ 8 + (index + 1) := by
  rw [makePid, Nat.mod_eq_of_lt (by omega)]

theorem slotOf_eq (generation : ℕ) (index : Fin maxProcesses) :
    slotOf (generation * 2 ^ 8 + (index.val + 1)) = some index := by
  have hlt : index.val < 16 := index.isLt
  have hlow : (generation * 2 ^ 8 + (index.val + 1)) % 2 ^ 8 = index.val + 1 := by omega
  unfold slotOf
  rw [dif_neg (by rw [hlow]; omega)]
  simp only [hlow, Nat.add_sub_cancel]

theorem find_eq_some :
    find world pid = some index ↔ slotOf pid = some index ∧
      (world.slots index).state ≠ .empty ∧ (world.slots index).pid = pid := by
  rw [find, Option.filter_eq_some_iff]
  simp

theorem liveParent_iff :
    liveParent world pid ↔ ∃ index, slotOf pid = some index ∧
      (world.slots index).state ≠ .empty ∧ (world.slots index).pid = pid ∧
      (world.slots index).state ≠ .zombie ∧ (world.slots index).state ≠ .terminated := by
  unfold liveParent
  cases hfind : find world pid with
  | none =>
    simp only [Bool.false_eq_true, false_iff]
    rintro ⟨_, hslot, hlive, hpid, -⟩
    rw [find_eq_some.mpr ⟨hslot, hlive, hpid⟩] at hfind
    cases hfind
  | some =>
    obtain ⟨hslot, hlive, hpid⟩ := find_eq_some.mp hfind
    simp [hslot, hlive, hpid]

theorem eq_of_pid_eq {generation earlier first second : ℕ} (hfirst : first < 16)
    (hsnd : second < 16) (heq : generation * 2 ^ 8 + (first + 1) = earlier * 2 ^ 8 + (second + 1)) :
    generation = earlier ∧ first = second := by
  omega

/-- A pid of a later generation has not been issued. -/
theorem Consistent.notMem_issued (h : Consistent world history)
    (hlater : (world.slots index).generation < generation) :
    generation * 2 ^ 8 + (index.val + 1) ∉ issued history := by
  intro hissued
  have hidx : index.val < 16 := index.isLt
  rcases h.numbered _ hissued with ⟨hone, -⟩ | ⟨slot, _, _, _, heq⟩
  · have hsmall : generation * 2 ^ 8 + (index.val + 1) = (1 : ℕ) := hone
    omega
  · obtain ⟨_, hslot⟩ := eq_of_pid_eq hidx slot.isLt heq
    obtain rfl : slot = index := Fin.ext hslot.symm
    omega

/-! ## Reaping -/

structure Reaped (world next : World) : Prop where
  initialized : next.initialized = world.initialized
  initSpawned : next.initSpawned = world.initSpawned
  slots : ∀ index, next.slots index = world.slots index ∨
    reapable world index ∧ next.slots index = (world.slots index).clear

theorem reapable_iff : reapable world index ↔ (world.slots index).state = .zombie ∧
    ((world.slots index).parentPid ≠ invalidProcessId →
      liveParent world (world.slots index).parentPid = false) ∧
    (world.slots index).handleCount = 0 := by
  simp only [reapable, ne_eq, decide_eq_true_eq, not_and, Bool.not_eq_true]

theorem Reaped.liveParent_eq (h : Reaped world next) (pid : ProcessId) :
    liveParent next pid = liveParent world pid := by
  rw [Bool.eq_iff_iff, liveParent_iff, liveParent_iff]
  refine exists_congr fun index => and_congr_right fun _ => ?_
  rcases h.slots index with hsame | ⟨hreapable, hclear⟩
  · rw [hsame]
  · have hzombie := (reapable_iff.mp hreapable).1
    simp [hclear, Slot.clear, hzombie]

theorem Reaped.step (h : Reaped world next) (index : Fin maxProcesses) :
    Reaped world (reapOrphan next index) := by
  unfold reapOrphan
  split
  next hreapable =>
    refine ⟨h.initialized, h.initSpawned, fun other => ?_⟩
    rw [recycle_slots]
    by_cases hother : other = index
    · subst hother
      rw [if_pos rfl]
      obtain ⟨hzombie, hpar, hhandles⟩ := reapable_iff.mp hreapable
      rcases h.slots other with hsame | ⟨-, hclear⟩
      · refine .inr ⟨reapable_iff.mpr ?_, by rw [hsame]⟩
        rw [hsame, h.liveParent_eq] at hpar
        rw [hsame] at hzombie hhandles
        exact ⟨hzombie, hpar, hhandles⟩
      · simp [hclear, Slot.clear] at hzombie
    · rw [if_neg hother]
      exact h.slots other
  · exact h

theorem reaped_reapOrphanZombies (world : World) : Reaped world (reapOrphanZombies world) :=
  List.foldlRecOn _ _ ⟨rfl, rfl, fun _ => .inl rfl⟩ fun _ h index _ => h.step index

theorem reapOrphanZombies_eq_self (hnone : ∀ index, reapable world index = false) :
    reapOrphanZombies world = world := by
  unfold reapOrphanZombies
  induction List.finRange maxProcesses with
  | nil => rfl
  | cons first _ ih =>
    rw [foldl_cons, reapOrphan, if_neg (by simp [hnone first])]
    exact ih

theorem Consistent.reapOrphanZombies (h : Consistent world history)
    (hinitialized : world.initialized) : Consistent (reapOrphanZombies world) history := by
  have hfold := List.foldlRecOn (motive := fun current : World =>
    current.initialized ∧ Consistent current history) (List.finRange maxProcesses)
    reapOrphan ⟨hinitialized, h⟩ ?_
  · exact hfold.2
  rintro current ⟨hready, hcur⟩ index -
  rw [reapOrphan]
  split
  next hreapable =>
    have hlive : (current.slots index).state ≠ .empty := by
      simp [(reapable_iff.mp hreapable).1]
    exact ⟨hready, hcur.recycle hready hlive⟩
  · exact ⟨hready, hcur⟩

/-! ## Spawning -/

/-- A process that has just joined a job leaves it as it was. -/
theorem release_joined {job : Job.Slot} (hact : job.active) (hmems : job.members ≠ [])
    (hmem : pid ∉ job.members) (howner : job.ownerPid ≠ pid) :
    ({ job with members := job.members ++ [pid] } : Job.Slot).release pid = job := by
  have herase : (job.members ++ [pid]).erase pid = job.members := by
    rw [erase_append_right _ hmem, erase_cons_head, append_nil]
  rcases job with ⟨id, _, ownerPid, members, active, _⟩
  obtain rfl : active := hact
  have hkept : ownerPid ≠ pid := howner
  have hnonempty : members ≠ [] := hmems
  simp only [Job.Slot.release, Job.Slot.removeMember] at herase ⊢
  simp [herase, hkept, Job.Slot.reclaimIfEmpty, hnonempty]

variable {job : Fin Job.maxJobs} {table : Job.Table} {id jobId : JobId}

theorem decode_eq_some (hdec : Job.decode table id = some job) :
    (table.slots job).active ∧ (table.slots job).id = id := by
  unfold Job.decode at hdec
  split at hdec
  · cases hdec
  dsimp only at hdec
  split at hdec
  · cases hdec
  rename_i hfound
  obtain rfl := Option.some.inj hdec
  rw [not_or, Bool.not_eq_false, not_not] at hfound
  exact hfound

theorem inheritMember_ok {joined : Job.Table}
    (hinherit : Job.inheritMember table id pid = (.ok (), joined)) :
    ∃ job, (table.slots job).active ∧ (table.slots job).id = id ∧
      joined = { table with
        slots := update table.slots job
          { table.slots job with members := (table.slots job).members ++ [pid] } } := by
  revert hinherit
  fun_cases Job.inheritMember table id pid with
  | case5 _ _ job hdec _ hadd =>
    rintro ⟨⟩
    obtain ⟨hact, hid⟩ := decode_eq_some hdec
    refine ⟨job, hact, hid, ?_⟩
    revert hadd
    fun_cases Job.Slot.addMember (table.slots job) pid <;> rintro ⟨⟩
    rfl
  | _ => nofun

def Prepared (world : World) (slot : Slot) (jobs : Job.Table) : Prop :=
  slot.jobId = invalidJobId ∧ jobs = world.jobs ∨
    ∃ job, (world.jobs.slots job).active ∧ (world.jobs.slots job).id = slot.jobId ∧
      jobs = { world.jobs with
        slots := Function.update world.jobs.slots job
          { world.jobs.slots job with members := (world.jobs.slots job).members ++ [slot.pid] } }

variable {slot : Slot} {jobs : Job.Table}

theorem Prepared.initialized (h : Prepared world slot jobs) :
    jobs.initialized = world.jobs.initialized := by
  rcases h with ⟨-, rfl⟩ | ⟨_, -, -, rfl⟩ <;> rfl

theorem Prepared.release (h : Consistent world history) (hprep : Prepared world slot jobs)
    (hfresh : slot.pid ∉ issued history) (hpid : slot.pid ≠ invalidProcessId)
    (job : Fin Job.maxJobs) : (jobs.slots job).release slot.pid = world.jobs.slots job := by
  have hmem : slot.pid ∉ (world.jobs.slots job).members := by
    intro hmem
    have hact := (h.grouped.active job).mpr (ne_nil_of_mem hmem)
    obtain ⟨_, hlive, hsame, -⟩ := h.grouped.process job hact _ hmem
    exact hfresh (hsame ▸ h.mem_issued hlive)
  have howner : (world.jobs.slots job).ownerPid ≠ slot.pid := by
    rcases h.grouped.owner job with hnobody | hknown
    · rw [hnobody]
      exact hpid.symm
    · exact fun hsame => hfresh (hsame ▸ hknown)
  have hsame : (world.jobs.slots job).release slot.pid = world.jobs.slots job :=
    release_of_notMem hmem howner (h.grouped.active job).mp
  rcases hprep with ⟨-, rfl⟩ | ⟨_, hact, -, rfl⟩
  · exact hsame
  dsimp only
  rw [update_apply]
  split
  next hjoined =>
    subst hjoined
    exact release_joined hact ((h.grouped.active job).mp hact) hmem howner
  · exact hsame

/-- What a spawn in an empty slot can do. -/
structure Spawned (world next : World) (index : Fin maxProcesses) (caller : ProcessId)
    (history : List Event) : Prop where
  others : ∀ other, other ≠ index → next.slots other = world.slots other
  ready : (next.slots index).state = .ready
  consistent : Consistent next (.spawned (next.slots index).pid caller :: history)

structure Failed (world next : World) : Prop where
  live : SameLive world next
  generation : ∀ index, (world.slots index).generation ≤ (next.slots index).generation

theorem failed_setSlot (hempty : (world.slots index).state = .empty) (hslot : slot.state = .empty)
    (hgen : (world.slots index).generation ≤ slot.generation) :
    Failed world (setSlot world index slot) := by
  refine ⟨⟨rfl, rfl, rfl, fun other => ?_, fun _ => .inl rfl⟩, fun other => ?_⟩
  · by_cases hother : other = index
    · subst hother
      simp [setSlot, hempty, hslot]
    · simp [setSlot, hother]
  by_cases hother : other = index
  · subst hother
    simpa [setSlot] using hgen
  · simp [setSlot, hother]

theorem enroll_generation (slot : Slot) (threadCreated : Bool) :
    ((enroll world index slot threadCreated).2.slots index).generation = slot.generation := by
  have hlaunch : ∀ jobs,
      ((launch { world with jobs } index slot threadCreated).2.slots index).generation =
        slot.generation := by
    intro jobs
    cases threadCreated <;> simp [launch, setSlot, Slot.clear]
  unfold enroll
  split
  · exact hlaunch world.jobs
  · split
    · simp [setSlot, Slot.clear]
    · exact hlaunch _

section

variable (h : Consistent world history) (hinitialized : world.initialized)
  (hempty : (world.slots index).state = .empty)
include h hinitialized hempty

/-- A process in an empty slot, with a pid of its own and in a job or in none. -/
theorem spawned_setSlot {initSpawned : Bool} (hstate : slot.state = .ready)
    (hslot : slotOf slot.pid = some index) (hfresh : slot.pid ∉ issued history)
    (hgen : (world.slots index).generation ≤ slot.generation) (hready : jobs.initialized)
    (hinit : world.initSpawned → initSpawned)
    (hnumbered : slot.pid = 1 ∧ initSpawned ∨
      1 ≤ slot.generation ∧ slot.pid = slot.generation * 2 ^ 8 + (index.val + 1))
    (hjob : ∀ next, next.slots index = slot → next.jobs = jobs →
      slot.jobId = invalidJobId ∧ jobs = world.jobs ∨ ∃ job, Joined world next index job) :
    Spawned world { setSlot world index slot with jobs, initSpawned } index slot.parentPid
      history := by
  generalize hnext : ({ setSlot world index slot with jobs, initSpawned } : World) = next
  have hself : next.slots index = slot := by
    rw [← hnext]
    exact update_self ..
  have hjobs : next.jobs = jobs := by rw [← hnext]
  have hins : Inserted world next index history := by
    refine ⟨hempty, by simp [hself, hstate], fun other hother => ?_, by rwa [hself],
      by rwa [hself], by rwa [hself]⟩
    rw [← hnext]
    exact update_of_ne hother ..
  refine ⟨hins.others, by rwa [hself], ?_⟩
  have hpar : slot.parentPid = (next.slots index).parentPid := by rw [hself]
  rw [hpar]
  refine h.insert ?_ (by rwa [hjobs]) hins ?_ ?_ ?_
  · rw [← hnext]
    exact hinitialized
  · rw [← hnext]
    exact hinit
  · rw [hself, ← hnext]
    exact hnumbered
  rcases hjob next hself hjobs with ⟨hnone, hsame⟩ | ⟨_, hjoined⟩
  · exact h.grouped.alone hins (hjobs.trans hsame) (by rwa [hself]) _
  · exact h.grouped.join (fun _ => h.mem_issued) hins hjoined

section

variable (hprep : Prepared world slot jobs) (hfresh : slot.pid ∉ issued history)
include hprep hfresh

theorem launch_failed
    (hpid : slot.pid ≠ invalidProcessId) (hgen : (world.slots index).generation ≤ slot.generation) :
    Failed world (launch { world with jobs } index slot false).2 := by
  have hclear : Failed world (setSlot world index slot.clear) := failed_setSlot hempty rfl hgen
  have hjobs : jobs.initialized := hprep.initialized.trans (h.jobs hinitialized)
  refine ⟨⟨rfl, rfl, ?_, hclear.live.slots, fun job => .inl ?_⟩, hclear.generation⟩
  · exact (releaseProcess_initialized jobs slot.pid).trans hprep.initialized
  · exact (releaseProcess_slots hpid hjobs job).trans (hprep.release h hfresh hpid job)

theorem launch_ok (hslot : slotOf slot.pid = some index)
    (hgen : (world.slots index).generation < slot.generation)
    (hpid : slot.pid = slot.generation * 2 ^ 8 + (index.val + 1)) :
    Spawned world (launch { world with jobs } index slot true).2 index slot.parentPid history := by
  refine spawned_setSlot h hinitialized hempty rfl hslot hfresh hgen.le
    (hprep.initialized.trans (h.jobs hinitialized)) id (.inr ⟨Nat.one_le_of_lt hgen, hpid⟩)
    fun next hself hjobs => ?_
  refine hprep.imp_right fun ⟨job, hact, hid, hjoined⟩ => ⟨job, ?_⟩
  have hmems : next.jobs.slots job = { world.jobs.slots job with
      members := (world.jobs.slots job).members ++ [slot.pid] } := by
    rw [hjobs, hjoined]
    exact update_self ..
  refine ⟨fun other hother => ?_, ?_, ?_, fun _ => ?_, ?_, ?_, .inl ?_⟩
  · rw [hjobs, hjoined]
    exact update_of_ne hother ..
  · rw [hmems]
    exact hact
  · rw [hmems, hself]
    exact hid
  · rw [hmems]
  · rw [hmems]
    exact h.grouped.coded job hact
  · rw [hmems, hself]
  · rw [hmems]

end

def SpawnEnds (world : World) (index : Fin maxProcesses) (caller : ProcessId) (history : List Event)
    (result : Except Status ProcessId × World) : Prop :=
  (∃ status, result.1 = .error status ∧ Failed world result.2) ∨
    (result.1 = .ok (result.2.slots index).pid ∧ Spawned world result.2 index caller history)

theorem launch_ends (hprep : Prepared world slot jobs)
    (hgen : slot.generation = (world.slots index).generation + 1)
    (hpid : slot.pid = slot.generation * 2 ^ 8 + (index.val + 1)) (threadCreated : Bool) :
    SpawnEnds world index slot.parentPid history
      (launch { world with jobs } index slot threadCreated) := by
  have hlater : (world.slots index).generation < slot.generation := by
    rw [hgen]
    exact Nat.lt_succ_self _
  have hfresh : slot.pid ∉ issued history := by
    rw [hpid]
    exact h.notMem_issued hlater
  have hslot : slotOf slot.pid = some index := by
    rw [hpid]
    exact slotOf_eq _ _
  have hvalid : slot.pid ≠ invalidProcessId := by
    intro hzero
    rw [hzero] at hslot
    simp [slotOf, invalidProcessId] at hslot
  cases threadCreated with
  | false =>
    exact .inl ⟨_, rfl, launch_failed h hinitialized hempty hprep hfresh hvalid hlater.le⟩
  | true =>
    refine .inr ⟨?_, launch_ok h hinitialized hempty hprep hfresh hslot hlater hpid⟩
    simp [launch, setSlot]

theorem enroll_ends (hgen : slot.generation = (world.slots index).generation + 1)
    (hpid : slot.pid = slot.generation * 2 ^ 8 + (index.val + 1)) (threadCreated : Bool) :
    SpawnEnds world index slot.parentPid history (enroll world index slot threadCreated) := by
  unfold enroll
  split
  next hnone =>
    exact launch_ends h hinitialized hempty (.inl ⟨hnone, rfl⟩) hgen hpid threadCreated
  split
  · refine .inl ⟨_, rfl, failed_setSlot hempty rfl ?_⟩
    exact (Nat.le_succ _).trans_eq hgen.symm
  next jobs hinherit =>
    exact launch_ends h hinitialized hempty (.inr (inheritMember_ok hinherit)) hgen hpid
      threadCreated

theorem spawnAt_ends (hsmall : (world.slots index).generation < 2 ^ 56) (caller : ProcessId)
    (executable : List UInt8) (threadCreated : Bool)
    (hafter : ((spawnAt world caller executable threadCreated index).2.slots index).generation <
      2 ^ 56) :
    SpawnEnds world index caller history (spawnAt world caller executable threadCreated index) := by
  unfold spawnAt at hafter ⊢
  dsimp only at hafter ⊢
  generalize (find world caller).map world.slots = parent at hafter ⊢
  cases hdir : copyPath ((parent.map Slot.workingDirectory).getD [slash]) with
  | none => exact .inl ⟨_, rfl, failed_setSlot hempty rfl (le_rfl)⟩
  | some workingDirectory =>
    simp only [hdir] at hafter ⊢
    cases hpath : buildExecutablePath workingDirectory executable with
    | none => exact .inl ⟨_, rfl, failed_setSlot hempty rfl (le_rfl)⟩
    | some =>
      simp only [hpath] at hafter ⊢
      have hnext := nextGeneration_eq hsmall
      rw [enroll_generation] at hafter
      exact enroll_ends h hinitialized hempty hnext (makePid_eq hafter _) threadCreated

end

theorem Failed.refl (world : World) : Failed world world :=
  ⟨.refl world, fun _ => Nat.le_refl _⟩

/-- The end of a spawn: nothing but the reaping of orphans, or a new process after it. -/
inductive SpawnResult (world : World) (caller : ProcessId) (history : List Event)
    (result : Except Status ProcessId × World) : Prop
  | refused (status : Status) (herror : result.1 = .error status) (hsame : result.2 = world)
  | ignored (hok : result.1 = .ok invalidProcessId) (hsame : result.2 = world)
  | failed (status : Status) (herror : result.1 = .error status)
      (hinitialized : world.initialized)
      (hfailed : Failed (reapOrphanZombies world) result.2)
  | spawned (index : Fin maxProcesses) (hok : result.1 = .ok (result.2.slots index).pid)
      (hinitialized : world.initialized)
      (hempty : ((reapOrphanZombies world).slots index).state = .empty)
      (hspawned : Spawned (reapOrphanZombies world) result.2 index caller history)

theorem spawn_result (h : Consistent world history)
    (hsmall : ∀ index, (world.slots index).generation < 2 ^ 56) (caller : ProcessId)
    (executable : List UInt8) (threadCreated : Bool) (hafter : ∀ index,
      ((spawn world caller executable threadCreated).2.slots index).generation < 2 ^ 56) :
    SpawnResult world caller history (spawn world caller executable threadCreated) := by
  revert hafter
  fun_cases spawn world caller executable threadCreated with
  | case1 | case2 => exact fun _ => .refused _ rfl rfl
  | case3 => exact fun _ => .ignored rfl rfl
  | case4 hready =>
    have hinitialized : world.initialized := by simpa using hready
    have hreaped := reaped_reapOrphanZombies world
    fun_cases spawnInFreeSlot (reapOrphanZombies world) caller executable threadCreated with
    | case1 => exact fun _ => .failed _ rfl hinitialized (by simpa only using Failed.refl _)
    | case2 index hfind =>
      intro hafter
      have hempty : ((reapOrphanZombies world).slots index).state = .empty := by
        simpa using find?_some hfind
      have hgen : ((reapOrphanZombies world).slots index).generation < 2 ^ 56 := by
        rcases hreaped.slots index with hsame | ⟨-, hclear⟩
        · rw [hsame]
          exact hsmall index
        · rw [hclear]
          exact hsmall index
      rcases spawnAt_ends (h.reapOrphanZombies hinitialized)
          (hreaped.initialized.trans hinitialized) hempty hgen caller executable threadCreated
          (hafter index) with ⟨status, herror, hfail⟩ | ⟨hok, hspawned⟩
      · exact .failed status herror hinitialized hfail
      · exact .spawned index hok hinitialized hempty hspawned

/-! ## The first process -/

def Founded (table created : Job.Table) (id : JobId) (owner : ProcessId) (name : List UInt8) :
    Prop :=
  ∃ job, (table.slots job).active = false ∧ ∃ generation, id = Job.encode job generation ∧
    created = { table with
      slots := Function.update table.slots job
        { id, generation, ownerPid := owner, members := [owner], active := true, name } }

theorem create_ok {created : Job.Table} {owner : ProcessId} {name : List UInt8}
    (hcreate : Job.create table owner name = (.ok id, created)) :
    Founded table created id owner name := by
  revert hcreate
  fun_cases Job.create table owner name with
  | case6 _ _ _ _ job hfind =>
    rw [Prod.mk.injEq, Except.ok.injEq]
    rintro ⟨rfl, rfl⟩
    exact ⟨job, by simpa using find?_some hfind, _, rfl, rfl⟩
  | _ => nofun

/-- The end of the first spawn of all. -/
inductive InitResult (world : World) (history : List Event)
    (result : Except Status ProcessId × World) : Prop
  | failed (status : Status) (herror : result.1 = .error status)
      (hfailed : Failed world result.2)
  | spawned (hok : result.1 = .ok 1) (hempty : (world.slots 0).state = .empty)
      (hspawned : Spawned world result.2 0 invalidProcessId history)
      (hpid : (result.2.slots 0).pid = 1)

section

variable (h : Consistent world history)
include h

theorem Consistent.one_notMem (hinit : world.initSpawned = false) : 1 ∉ issued history := by
  intro hissued
  rcases h.numbered 1 hissued with ⟨-, hspawned⟩ | ⟨index, generation, _, -, heq⟩
  · simp [hinit] at hspawned
  · have hlarge : 1 = generation * 2 ^ 8 + (index.val + 1) := heq
    omega

theorem Consistent.job_of_inactive
    (hinactive : (world.jobs.slots job).active = false) : (world.jobs.slots job).members = [] := by
  by_contra hmems
  rw [(h.grouped.active job).mpr hmems] at hinactive
  cases hinactive

section

variable (hinitialized : world.initialized) (hempty : (world.slots 0).state = .empty)
  (hone : 1 ∉ issued history)
include hinitialized hempty hone

section

variable (hfounded : Founded world.jobs jobs jobId 1 systemName)
include hfounded

theorem init_failed :
    Failed world { setSlot world 0 (world.slots 0).clear with
      jobs := Job.releaseProcess jobs 1 } := by
  have hclear : Failed world (setSlot world 0 (world.slots 0).clear) :=
    failed_setSlot hempty rfl (le_rfl)
  obtain ⟨job, hinactive, _, -, hjobs⟩ := hfounded
  have hsame : jobs.initialized = world.jobs.initialized := by rw [hjobs]
  refine ⟨⟨rfl, rfl, (releaseProcess_initialized jobs 1).trans hsame, hclear.live.slots,
    fun other => ?_⟩, hclear.generation⟩
  rw [releaseProcess_slots (by decide) (hsame.trans (h.jobs hinitialized)), hjobs]
  dsimp only
  by_cases hother : other = job
  · subst hother
    rw [update_self]
    exact .inr ⟨hinactive, rfl, rfl, rfl⟩
  · rw [update_of_ne hother]
    have hprep : Prepared world { pid := 1 } world.jobs := .inl ⟨rfl, rfl⟩
    exact .inl (hprep.release h hone (by decide) other)

theorem init_ok {path : List UInt8} :
    Spawned world { setSlot world 0 { (world.slots 0).clear with
        pid := 1, workingDirectory := [slash], state := .ready, jobId, executable := path
        name := deriveName path } with jobs, initSpawned := true } 0 invalidProcessId history := by
  obtain ⟨job, hinactive, generation, hid, hfounded⟩ := hfounded
  have hready : jobs.initialized := by
    rw [hfounded]
    exact h.jobs hinitialized
  refine spawned_setSlot h hinitialized hempty rfl rfl hone le_rfl hready
    (fun _ => rfl) (.inl ⟨rfl, rfl⟩) fun next hself hjobs => .inr ⟨job, ?_⟩
  have hmems : next.jobs.slots job = { id := jobId, generation, ownerPid := 1, members := [1]
                                       active := true, name := systemName } := by
    rw [hjobs, hfounded]
    exact update_self ..
  refine ⟨fun other hother => ?_, ?_, ?_, fun hact => ?_, ?_, ?_, .inr ?_⟩
  · rw [hjobs, hfounded]
    exact update_of_ne hother ..
  · rw [hmems]
  · rw [hmems, hself]
  · rw [hinactive] at hact
    cases hact
  · exact ⟨generation, by rw [hmems, hid]⟩
  · rw [hmems, hself, h.job_of_inactive hinactive]
    rfl
  · rw [hmems, hself]

end

end

theorem spawnInit_result (executable : List UInt8) (threadCreated : Bool) :
    InitResult world history (spawnInit world executable threadCreated) := by
  have hclear : ¬ (world.initSpawned ∨ (world.slots 0).state ≠ .empty) →
      Failed world (setSlot world 0 (world.slots 0).clear) := fun hfree =>
    failed_setSlot (not_not.mp (not_or.mp hfree).2) rfl (le_rfl)
  fun_cases spawnInit world executable threadCreated with
  | case1 | case2 | case3 => exact .failed _ rfl (.refl world)
  | case4 _ hfree | case5 _ hfree => exact .failed _ rfl (hclear hfree)
  | case6 hinit hfree _ _ path hpath jobId jobs hcreate hthread =>
    obtain ⟨hinitSpawned, hempty⟩ := not_or.mp hfree
    refine .spawned rfl (not_not.mp hempty) ?_ (by simp [setSlot])
    exact init_ok h (by simpa using hinit) (not_not.mp hempty)
      (h.one_notMem (by simpa using hinitSpawned)) (create_ok hcreate)
  | case7 hinit hfree _ _ path hpath jobId jobs hcreate hthread =>
    obtain ⟨hinitSpawned, hempty⟩ := not_or.mp hfree
    exact .failed _ rfl (init_failed h (by simpa using hinit) (not_not.mp hempty)
      (h.one_notMem (by simpa using hinitSpawned)) (create_ok hcreate))

end

end Kurogane.Task.Process
