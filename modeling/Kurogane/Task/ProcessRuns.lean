/-
# Runs of the process table

Any sequence of calls, by the kernel or by processes that are running, keeps the process
table and the job table consistent with each other and with what was issued and delivered.
-/

import Kurogane.Task.ProcessCalls
import Mathlib.Data.List.Infix

namespace Kurogane.Task.Process

open Task.Job (JobId invalidJobId)

inductive Request where
  | initialized
  | spawnInit (executable : List UInt8) (threadCreated : Bool)
  | spawn (caller : ProcessId) (executable : List UInt8) (threadCreated : Bool)
  | enter (pid : ProcessId)
  | complete (pid : ProcessId) (exitCode : ℤ)
  | setHandleCount (pid : ProcessId) (handleCount : ℕ)
  | setWorkingDirectory (pid : ProcessId) (path : List UInt8)
  | wait (caller pid : ProcessId)

/-- The kernel calls at any time, a process while it is running. -/
def mayCall (world : World) (caller : ProcessId) : Bool :=
  if caller = invalidProcessId then true
  else
    match find world caller with
    | none => false
    | some index => (world.slots index).state = .running

def perform (world : World) : Request → World
  | .initialized => (initializeProcesses world).2
  | .spawnInit executable threadCreated => (spawnInit world executable threadCreated).2
  | .spawn caller executable threadCreated =>
    if mayCall world caller then (spawn world caller executable threadCreated).2 else world
  | .enter pid => enter world pid
  | .complete pid exitCode => complete world pid exitCode
  | .setHandleCount pid handleCount => (setHandleCount world pid handleCount).2
  | .setWorkingDirectory pid path => (setWorkingDirectory world pid path).2
  | .wait caller pid => if mayCall world caller then (wait world caller pid).2 else world

def spawnEvent (caller : ProcessId) : Except Status ProcessId → Option Event
  | .error _ => none
  | .ok pid => if pid = invalidProcessId then none else some (.spawned pid caller)

def waitEvent (caller pid : ProcessId) : Except Status ℤ → Option Event
  | .error _ => none
  | .ok exitCode => some (.delivered pid caller exitCode)

def eventOf (world : World) : Request → Option Event
  | .spawnInit executable threadCreated =>
    spawnEvent invalidProcessId (spawnInit world executable threadCreated).1
  | .spawn caller executable threadCreated =>
    if mayCall world caller then spawnEvent caller (spawn world caller executable threadCreated).1
    else none
  | .wait caller pid =>
    if mayCall world caller then waitEvent caller pid (wait world caller pid).1 else none
  | _ => none

def serve (current : World × List Event) (request : Request) : World × List Event :=
  (perform current.1 request, (eventOf current.1 request).toList ++ current.2)

def run (requests : List Request) : World × List Event :=
  requests.foldl serve (.boot, [])

variable {world next : World} {history : List Event} {index other : Fin maxProcesses}
  {pid caller : ProcessId}

/-! ## Exit codes -/

/-- A process has ended with an exit code that was not delivered yet. -/
def Zombie (world : World) (pid : ProcessId) (exitCode : ℤ) : Prop :=
  ∃ index, (world.slots index).state = .zombie ∧ (world.slots index).pid = pid ∧
    (world.slots index).exitCode = exitCode

def Running (world : World) (pid : ProcessId) : Prop :=
  ∃ index, find world pid = some index ∧ (world.slots index).state = .running

variable {exitCode : ℤ}

theorem Zombie.of_slots (h : Zombie next pid exitCode) (hslots : ∀ index,
    next.slots index = world.slots index ∨ (next.slots index).state ≠ .zombie) :
    Zombie world pid exitCode := by
  obtain ⟨index, hzombie⟩ := h
  refine ⟨index, ?_⟩
  rcases hslots index with hsame | hother
  · rwa [← hsame]
  · exact absurd hzombie.1 hother

theorem Zombie.of_setSlot {slot : Slot} (h : Zombie (setSlot world index slot) pid exitCode) :
    Zombie world pid exitCode ∨ slot.state = .zombie ∧ slot.pid = pid ∧
      slot.exitCode = exitCode := by
  obtain ⟨other, hzombie⟩ := h
  by_cases hother : other = index
  · subst hother
    exact .inr (by simpa [setSlot] using hzombie)
  · exact .inl ⟨other, by simpa [setSlot, hother] using hzombie⟩

theorem Zombie.of_reaped (h : Zombie (reapOrphanZombies world) pid exitCode) :
    Zombie world pid exitCode :=
  h.of_slots fun index => ((reaped_reapOrphanZombies world).slots index).imp_right fun hreaped => by
    simp [hreaped.2, Slot.clear]

theorem SameLive.zombie (hlive : SameLive world next) (h : Zombie next pid exitCode) :
    Zombie world pid exitCode :=
  h.of_slots fun index => (hlive.slots index).imp_right fun hempty => by simp [hempty.2]

theorem Spawned.zombie (hspawned : Spawned world next index caller history)
    (h : Zombie next pid exitCode) : Zombie world pid exitCode := by
  refine h.of_slots fun other => ?_
  by_cases hother : other = index
  · subst hother
    exact .inr (by simp [hspawned.ready])
  · exact .inl (hspawned.others other hother)

/-! ## One request -/

/-- A zombie without handles makes room. Its parent or the kernel has waited for it, or
its parent is not live. -/
structure Recycled (world : World) (request : Request) (index : Fin maxProcesses) : Prop where
  zombie : (world.slots index).state = .zombie
  handles : (world.slots index).handleCount = 0
  reason : (∃ caller, request = .wait caller (world.slots index).pid ∧
      (caller = (world.slots index).parentPid ∨ caller = invalidProcessId)) ∨
    liveParent world (world.slots index).parentPid = false

def Stays (world next : World) (index : Fin maxProcesses) : Prop :=
  (next.slots index).state ≠ .empty ∧ (next.slots index).pid = (world.slots index).pid

/-- What a request does to the tables and to the history. -/
structure Served (world next : World) (request : Request) (history : List Event)
    (event : Option Event) : Prop where
  consistent : Consistent next (event.toList ++ history)
  leaves : ∀ index, (world.slots index).state ≠ .empty →
    Stays world next index ∨ Recycled world request index
  zombies : ∀ pid exitCode, Zombie next pid exitCode → Zombie world pid exitCode ∨
    request = .complete pid exitCode ∧ Running world pid
  delivered : ∀ pid caller exitCode, event = some (.delivered pid caller exitCode) →
    Zombie world pid exitCode

theorem Alike.served (halike : Alike world next) (h : Consistent world history)
    (hinit : world.initialized) (request : Request)
    (hzombies : ∀ pid exitCode, Zombie next pid exitCode → Zombie world pid exitCode ∨
      request = .complete pid exitCode ∧ Running world pid) :
    Served world next request history none where
  consistent := h.congr hinit halike
  leaves index hlive := .inl ⟨(halike.empty index).not.mpr hlive, (halike.same index hlive).1⟩
  zombies := hzombies
  delivered := by simp

theorem served_same (h : Consistent world history) (request : Request) :
    Served world world request history none :=
  ⟨h, fun _ hlive => .inl ⟨hlive, rfl⟩, fun _ _ => .inl, by simp⟩

theorem served_setSlot (h : Consistent world history) (request : Request)
    (hfind : find world pid = some index) {slot : Slot} (hlive : slot.state ≠ .empty)
    (hsame : slot.pid = (world.slots index).pid ∧
      slot.parentPid = (world.slots index).parentPid ∧ slot.jobId = (world.slots index).jobId)
    (hgen : slot.generation = (world.slots index).generation)
    (hzombie : slot.state = .zombie → (world.slots index).state = .zombie ∧
        slot.exitCode = (world.slots index).exitCode ∨
      request = .complete pid slot.exitCode ∧ (world.slots index).state = .running) :
    Served world (setSlot world index slot) request history none := by
  obtain ⟨-, hpre, hpid⟩ := find_eq_some.mp hfind
  have hinit : world.initialized := by
    by_contra hboot
    rw [Bool.not_eq_true] at hboot
    rw [(h.boot hboot).1] at hpre
    exact hpre rfl
  refine (alike_setSlot (by simp [hlive, hpre]) (fun _ => hsame) hgen.ge).served h hinit request
    fun _ _ hnext => hnext.of_setSlot.elim .inl ?_
  rintro ⟨hstate, rfl, rfl⟩
  rcases hzombie hstate with ⟨hold, hcode⟩ | ⟨hrequest, hrunning⟩
  · exact .inl ⟨index, hold, hsame.1.symm, hcode.symm⟩
  · rw [hsame.1, hpid]
    exact .inr ⟨hrequest, index, hfind, hrunning⟩

theorem reapable_recycled (hreapable : reapable world index) (request : Request) :
    Recycled world request index := by
  obtain ⟨hzombie, hpar, hhandles⟩ := reapable_iff.mp hreapable
  refine ⟨hzombie, hhandles, .inr ?_⟩
  by_cases hnone : (world.slots index).parentPid = invalidProcessId
  · rw [hnone]
    rfl
  · exact hpar hnone

theorem Reaped.leaves (hreaped : Reaped world next) (request : Request) (index : Fin maxProcesses) :
    next.slots index = world.slots index ∨ Recycled world request index := by
  rcases hreaped.slots index with hsame | ⟨hreapable, -⟩
  · exact .inl hsame
  · exact .inr (reapable_recycled hreapable request)

theorem Spawned.served {reaped : World} {result : Except Status ProcessId × World}
    (hspawned : Spawned reaped result.2 index caller history)
    (hok : result.1 = .ok (result.2.slots index).pid) (hempty : (reaped.slots index).state = .empty)
    (request : Request)
    (hleaves : ∀ index, reaped.slots index = world.slots index ∨ Recycled world request index)
    (hzombies : ∀ pid exitCode, Zombie reaped pid exitCode → Zombie world pid exitCode) :
    Served world result.2 request history (spawnEvent caller result.1) := by
  have hnew : (result.2.slots index).state ≠ .empty := by simp [hspawned.ready]
  have hpid := hspawned.consistent.pid_ne_invalid hnew
  have hevent : spawnEvent caller result.1 = some (.spawned (result.2.slots index).pid caller) := by
    rw [hok, spawnEvent, if_neg hpid]
  rw [hevent]
  refine ⟨hspawned.consistent, fun other hlive => (hleaves other).imp_left fun hsame => ?_,
    fun pid exitCode hzombie => .inl (hzombies pid exitCode (hspawned.zombie hzombie)), by simp⟩
  have hother : other ≠ index := by
    rintro rfl
    rw [hsame] at hempty
    exact hlive hempty
  rw [Stays, hspawned.others other hother, hsame]
  exact ⟨hlive, rfl⟩

section

variable (h : Consistent world history)
include h

theorem spawn_served (hsmall : ∀ index, (world.slots index).generation < 2 ^ 56)
    (caller : ProcessId) (executable : List UInt8) (threadCreated : Bool) (hafter : ∀ index,
      ((spawn world caller executable threadCreated).2.slots index).generation < 2 ^ 56)
    (request : Request) :
    Served world (spawn world caller executable threadCreated).2 request history
      (spawnEvent caller (spawn world caller executable threadCreated).1) := by
  have hreaped := reaped_reapOrphanZombies world
  cases spawn_result h hsmall caller executable threadCreated hafter with
  | refused _ herror hsame =>
    rw [herror, hsame]
    exact served_same h _
  | ignored hok hsame =>
    rw [hok, hsame]
    exact served_same h _
  | failed _ herror hinit hfail =>
    rw [herror]
    have halike := hfail.live.alike hfail.generation
    refine ⟨(h.reapOrphanZombies hinit).congr
      (hreaped.initialized.trans hinit) halike, fun index hlive => ?_,
      fun _ _ hzombie => .inl (hfail.live.zombie hzombie).of_reaped, by simp [spawnEvent]⟩
    refine (hreaped.leaves request index).imp_left fun hsame => ?_
    rw [← hsame] at hlive
    refine ⟨(halike.empty index).not.mpr hlive, ?_⟩
    rw [(halike.same index hlive).1, hsame]
  | spawned _ hok _ hempty hspawned =>
    exact hspawned.served hok hempty request (hreaped.leaves request) fun _ _ => Zombie.of_reaped

theorem spawnInit_served (executable : List UInt8) (threadCreated : Bool) (request : Request) :
    Served world (spawnInit world executable threadCreated).2 request history
      (spawnEvent invalidProcessId (spawnInit world executable threadCreated).1) := by
  cases spawnInit_result h executable threadCreated with
  | failed _ herror hfail =>
    rw [herror]
    by_cases hinit : world.initialized
    · exact (hfail.live.alike hfail.generation).served h hinit request
        fun _ _ hzombie => .inl (hfail.live.zombie hzombie)
    have hsame : (spawnInit world executable threadCreated).2 = world := by
      rw [spawnInit, if_pos (by simpa using hinit)]
    rw [hsame]
    exact served_same h request
  | spawned hok hempty hspawned hpid =>
    exact hspawned.served (hpid ▸ hok) hempty request (fun _ => .inl rfl) fun _ _ => id

theorem wait_served (caller pid : ProcessId) :
    Served world (wait world caller pid).2 (.wait caller pid) history
      (waitEvent caller pid (wait world caller pid).1) := by
  fun_cases wait world caller pid with
  | case6 hready index hfind slot hcaller hzombie hhandles =>
    obtain ⟨-, hlive, rfl⟩ := find_eq_some.mp hfind
    have hreceiver : caller = invalidProcessId ∨ (world.slots index).parentPid = caller := by
      rw [not_and_or, not_not, not_not] at hcaller
      exact hcaller
    refine ⟨h.deliver (by simpa using hready) hlive hreceiver _, fun other hother => ?_,
      fun _ _ hnext => .inl (hnext.of_slots fun other => ?_), ?_⟩
    by_cases hidx : other = index
    · subst hidx
      exact .inr ⟨not_not.mp hzombie, not_not.mp hhandles,
        .inl ⟨caller, rfl, hreceiver.symm.imp_left Eq.symm⟩⟩
    · refine .inl ?_
      rw [Stays, recycle_slots, if_neg hidx]
      exact ⟨hother, rfl⟩
    · rw [recycle_slots]
      split
      · exact .inr State.noConfusion
      · exact .inl rfl
    · rintro _ _ _ ⟨⟩
      exact ⟨index, not_not.mp hzombie, rfl, rfl⟩
  | _ => exact served_same h _

theorem initialized_served :
    Served world (initializeProcesses world).2 .initialized history none := by
  unfold initializeProcesses
  split
  · exact served_same h _
  rename_i hboot
  rw [Bool.not_eq_true] at hboot
  obtain ⟨rfl, rfl⟩ := h.boot hboot
  exact ⟨consistent_of_blank (by simp) (fun _ => rfl) (fun _ => rfl) (fun _ => rfl),
    fun index hlive => absurd rfl hlive, fun _ _ => .inl, by simp⟩

theorem perform_served (hsmall : ∀ index, (world.slots index).generation < 2 ^ 56)
    (request : Request)
    (hafter : ∀ index, ((perform world request).slots index).generation < 2 ^ 56) :
    Served world (perform world request) request history (eventOf world request) := by
  cases request with
  | initialized => exact initialized_served h
  | spawnInit executable threadCreated => exact spawnInit_served h executable threadCreated _
  | spawn caller executable threadCreated =>
    simp only [perform, eventOf] at hafter ⊢
    split at hafter
    next hcaller =>
      rw [if_pos hcaller, if_pos hcaller]
      exact spawn_served h hsmall caller executable threadCreated hafter _
    next hcaller =>
      rw [if_neg hcaller, if_neg hcaller]
      exact served_same h _
  | enter pid =>
    rw [perform]
    fun_cases enter world pid with
    | case3 _ hfind => exact served_setSlot h _ hfind (by simp) ⟨rfl, rfl, rfl⟩ rfl (by simp)
    | _ => exact served_same h _
  | complete pid exitCode =>
    rw [perform]
    fun_cases complete world pid exitCode with
    | case3 _ hfind hrunning =>
      exact served_setSlot h _ hfind (by simp) ⟨rfl, rfl, rfl⟩ rfl
        fun _ => .inr ⟨rfl, not_not.mp hrunning⟩
    | _ => exact served_same h _
  | setHandleCount pid handleCount =>
    rw [perform]
    fun_cases setHandleCount world pid handleCount with
    | case3 _ _ hfind =>
      exact served_setSlot h _ hfind (find_eq_some.mp hfind).2.1 ⟨rfl, rfl, rfl⟩ rfl
        fun hzombie => .inl ⟨hzombie, rfl⟩
    | _ => exact served_same h _
  | setWorkingDirectory pid path =>
    rw [perform]
    fun_cases setWorkingDirectory world pid path with
    | case5 _ _ _ hfind =>
      exact served_setSlot h _ hfind (find_eq_some.mp hfind).2.1 ⟨rfl, rfl, rfl⟩ rfl
        fun hzombie => .inl ⟨hzombie, rfl⟩
    | _ => exact served_same h _
  | wait caller pid =>
    simp only [perform, eventOf]
    split
    · exact wait_served h caller pid
    · exact served_same h _

end

/-! ## Runs -/

/-- No generation gets as far as the bits of a pid reach. -/
def Bounded (requests : List Request) : Prop :=
  ∀ earlier, earlier <+: requests →
    ∀ index, ((run earlier).1.slots index).generation < 2 ^ 56

theorem run_concat (requests : List Request) (request : Request) :
    run (requests ++ [request]) = serve (run requests) request := by
  rw [run, List.foldl_append]
  rfl

variable {threadCreated : Bool} {requests : List Request} {executable : List UInt8}
  {request : Request} {status : Status}

theorem Bounded.init (h : Bounded (requests ++ [request])) : Bounded requests :=
  fun earlier hearlier => h earlier (hearlier.trans (List.prefix_append _ _))

theorem Bounded.last (h : Bounded requests) (index : Fin maxProcesses) :
    ((run requests).1.slots index).generation < 2 ^ 56 :=
  h requests (List.prefix_refl _) index

theorem Bounded.served
    (h : Bounded (requests ++ [request])) (hrun : Consistent (run requests).1 (run requests).2) :
    Served (run requests).1 (perform (run requests).1 request) request (run requests).2
      (eventOf (run requests).1 request) := by
  refine perform_served hrun h.init.last request fun index => ?_
  have hlast := h.last index
  rwa [run_concat] at hlast

theorem consistent_run (h : Bounded requests) : Consistent (run requests).1 (run requests).2 := by
  induction requests using List.reverseRecOn with
  | nil =>
    exact consistent_of_blank (fun _ => rfl) (by simp [run, World.boot]) (fun _ => rfl)
      (fun _ => rfl)
  | append_singleton _ _ ih =>
    rw [run_concat]
    exact (h.served (ih h.init)).consistent

/-- The process ended with the exit code: it was running when the request was made. -/
def Ended (requests : List Request) (pid : ProcessId) (exitCode : ℤ) : Prop :=
  ∃ earlier, earlier ++ [.complete pid exitCode] <+: requests ∧ Running (run earlier).1 pid

/-- The exit codes of zombies, and those that were delivered, are what the processes ended
with. -/
theorem ended_run (h : Bounded requests) (pid : ProcessId) (exitCode : ℤ) :
    (Zombie (run requests).1 pid exitCode → Ended requests pid exitCode) ∧
      ∀ caller, .delivered pid caller exitCode ∈ (run requests).2 →
        Ended requests pid exitCode := by
  induction requests using List.reverseRecOn with
  | nil => exact ⟨fun ⟨_, hzombie, _⟩ => State.noConfusion hzombie, by simp [run]⟩
  | append_singleton earlier request ih =>
    obtain ⟨hzombies, hdelivered⟩ := ih h.init
    have hold : Ended earlier pid exitCode → Ended (earlier ++ [request]) pid exitCode :=
      fun ⟨start, hstart, hrunning⟩ =>
        ⟨start, hstart.trans (List.prefix_append _ _), hrunning⟩
    have hserved := h.served (consistent_run h.init)
    rw [run_concat]
    refine ⟨fun hzombie => ?_, fun caller hevent => hold ?_⟩
    · rcases hserved.zombies pid exitCode hzombie with hzombie | ⟨rfl, hrunning⟩
      · exact hold (hzombies hzombie)
      · exact ⟨earlier, List.prefix_refl _, hrunning⟩
    · rcases List.mem_append.mp hevent with hnew | hevent
      · exact hzombies (hserved.delivered pid caller exitCode (Option.mem_toList.mp hnew))
      · exact hdelivered caller hevent

/-- The process table and the job table describe the same processes. -/
structure Tidy (world : World) : Prop where
  distinct : ∀ first second, (world.slots first).state ≠ .empty →
    (world.slots second).state ≠ .empty →
    (world.slots first).pid = (world.slots second).pid → first = second
  member : ∀ index, (world.slots index).state ≠ .empty →
    (world.slots index).jobId ≠ invalidJobId →
    ∃ job, (world.jobs.slots job).active ∧
      (world.jobs.slots job).id = (world.slots index).jobId ∧
      (world.slots index).pid ∈ (world.jobs.slots job).members ∧
      ∀ other, (world.jobs.slots other).active →
        (world.slots index).pid ∈ (world.jobs.slots other).members → other = job
  process : ∀ job, (world.jobs.slots job).active →
    ∀ pid ∈ (world.jobs.slots job).members,
      ∃ index, (world.slots index).state ≠ .empty ∧ (world.slots index).pid = pid
  active : ∀ job, (world.jobs.slots job).active ↔ (world.jobs.slots job).members ≠ []

theorem encode_injective {first second : Fin Job.maxJobs} (earlier later : ℕ)
    (heq : Job.encode first earlier = Job.encode second later) : first = second := by
  have hfirst : first.val < 16 := first.isLt
  have hsnd : second.val < 16 := second.isLt
  unfold Job.encode at heq
  exact Fin.ext (by omega)

section

variable (h : Consistent world history)
include h

theorem Consistent.tidy : Tidy world where
  distinct first second hfirst hsnd hpid := h.index_eq hfirst hsnd hpid
  member index hlive hjobId := by
    obtain ⟨job, hact, hid, hmem⟩ := h.grouped.member index hlive hjobId
    refine ⟨job, hact, hid, hmem, fun other hother hmems => ?_⟩
    obtain ⟨_, hfound, hpid, hotherId⟩ := h.grouped.process other hother _ hmems
    obtain rfl := h.index_eq hfound hlive hpid
    obtain ⟨earlier, hearlier⟩ := h.grouped.coded job hact
    obtain ⟨later, hlater⟩ := h.grouped.coded other hother
    refine encode_injective later earlier ?_
    rw [← hlater, ← hearlier, ← hotherId, hid]
  process job hact pid hpid := by
    obtain ⟨index, hlive, hsame, -⟩ := h.grouped.process job hact pid hpid
    exact ⟨index, hlive, hsame⟩
  active := h.grouped.active

/-- A spawn that fails leaves the live contents alone but for the orphans it has reaped. -/
theorem spawn_error (hsmall : ∀ index, (world.slots index).generation < 2 ^ 56) {caller : ProcessId}
    (hafter : ∀ index,
      ((spawn world caller executable threadCreated).2.slots index).generation < 2 ^ 56)
    (herror : (spawn world caller executable threadCreated).1 = .error status) :
    SameLive world (spawn world caller executable threadCreated).2 ∨
      (∃ index, reapable world index) ∧
        SameLive (reapOrphanZombies world) (spawn world caller executable threadCreated).2 := by
  cases spawn_result h hsmall caller executable threadCreated hafter with
  | refused _ _ hsame =>
    rw [hsame]
    exact .inl (.refl world)
  | ignored hok _ =>
    rw [hok] at herror
    cases herror
  | failed _ _ _ hfail =>
    by_cases hreapable : ∃ index, reapable world index
    · exact .inr ⟨hreapable, hfail.live⟩
    have hnone : ∀ index, reapable world index = false := by simpa using hreapable
    have hlive := hfail.live
    rw [reapOrphanZombies_eq_self hnone] at hlive
    exact .inl hlive
  | spawned _ hok =>
    rw [hok] at herror
    cases herror

theorem spawnInit_error (herror : (spawnInit world executable threadCreated).1 = .error status) :
    SameLive world (spawnInit world executable threadCreated).2 := by
  cases spawnInit_result h executable threadCreated with
  | failed _ _ hfail => exact hfail.live
  | spawned hok =>
    rw [hok] at herror
    cases herror

end

/-- After any sequence of requests the tables are tidy, no pid has been issued and no exit
code delivered twice, and the exit codes that processes ended with have gone to their
parents or to the kernel. The next request recycles only zombies without handles whose
parent or the kernel waits for them, or whose parent is not live; and if it is a spawn that
fails, it leaves the live contents of both tables alone, but for such orphans. -/
theorem tables_consistent (requests : List Request) (request : Request)
    (hbounded : Bounded (requests ++ [request])) :
    Tidy (run requests).1 ∧ (issued (run requests).2).Nodup ∧
      (delivered (run requests).2).Nodup ∧
      (∀ pid caller exitCode, Event.delivered pid caller exitCode ∈ (run requests).2 →
        (caller = invalidProcessId ∨ Event.spawned pid caller ∈ (run requests).2) ∧
          Ended requests pid exitCode) ∧
      (∀ index, ((run requests).1.slots index).state ≠ .empty →
        Stays (run requests).1 (perform (run requests).1 request) index ∨
          Recycled (run requests).1 request index) ∧
      (∀ executable threadCreated status, request = .spawnInit executable threadCreated →
        (spawnInit (run requests).1 executable threadCreated).1 = .error status →
        SameLive (run requests).1 (perform (run requests).1 request)) ∧
      ∀ caller executable threadCreated status, request = .spawn caller executable threadCreated →
        (spawn (run requests).1 caller executable threadCreated).1 = .error status →
        SameLive (run requests).1 (perform (run requests).1 request) ∨
          (∃ index, reapable (run requests).1 index = true) ∧
            SameLive (reapOrphanZombies (run requests).1)
              (perform (run requests).1 request) := by
  have hrun := consistent_run hbounded.init
  have hserved := hbounded.served hrun
  refine ⟨hrun.tidy, hrun.unique, hrun.once, fun pid caller exitCode hevent => ?_,
    hserved.leaves, ?_, ?_⟩
  · exact ⟨hrun.parents pid caller exitCode hevent,
      (ended_run hbounded.init pid exitCode).2 caller hevent⟩
  · rintro executable threadCreated status rfl herror
    exact spawnInit_error hrun herror
  rintro _ _ _ _ rfl herror
  simp only [perform]
  split
  next hcaller =>
    refine spawn_error hrun hbounded.init.last (fun index => ?_) herror
    have hlast := hbounded.last index
    rw [run_concat, serve, perform, if_pos hcaller] at hlast
    exact hlast
  · exact .inl (.refl _)

/-- The first process has a child, which has ended. -/
def childEnded : List Request :=
  [.initialized, .spawnInit [47, 105] true, .enter 1, .spawn 1 [47, 97] true, .enter 258,
    .complete 258 5]

theorem childEnded_bounded : Bounded (childEnded ++ [.wait 1 258]) := by
  have hinits : ∀ earlier ∈ (childEnded ++ [Request.wait 1 258]).inits,
      ∀ index, ((run earlier).1.slots index).generation < 2 ^ 56 := by
    decide +kernel
  exact fun earlier hearlier => hinits earlier ((List.mem_inits _ _).mpr hearlier)

theorem childEnded_consistent :
    Tidy (run childEnded).1 ∧
      Recycled (run childEnded).1 (.wait 1 258) 1 := by
  obtain ⟨htidy, -, -, -, hleaves, -⟩ :=
    tables_consistent childEnded (.wait 1 258) childEnded_bounded
  refine ⟨htidy, (hleaves 1 (by decide +kernel)).resolve_left fun hstays => ?_⟩
  exact hstays.1 (by decide +kernel)

/-- A spawn of the kernel that fails has already reaped a zombie, and a wait of the kernel
recycles a zombie whose parent is live. -/
theorem failedSpawn_reaps :
    (spawn (run [.initialized, .spawn 0 [47, 97] true, .enter 257, .complete 257 5]).1 0 [47, 98]
        false).1 = .error .threadCreationFailed ∧
      ((run [.initialized, .spawn 0 [47, 97] true, .enter 257, .complete 257 5]).1.slots 0).state =
        .zombie ∧
      ((spawn (run [.initialized, .spawn 0 [47, 97] true, .enter 257, .complete 257 5]).1 0 [47, 98]
        false).2.slots 0).state = .empty ∧
      ((run childEnded).1.slots 1).parentPid = 1 ∧ liveParent (run childEnded).1 1 = true ∧
      ((run childEnded).1.slots 1).state = .zombie ∧
      ((perform (run childEnded).1 (.wait 0 258)).slots 1).state = .empty := by
  decide +kernel

end Kurogane.Task.Process
