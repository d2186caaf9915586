/-
# The releases of a periodic task

A periodic task is released once for each period that has passed since its creation,
however the clock jumps or wraps. Every slot invariant here speaks of the unwrapped time:
the clock and the deadline are positions on one line, counted from the creation.
-/

import Kurogane.Task.Cooperative
import Mathlib.Data.BitVec

namespace Kurogane.Task.Cooperative

open BitVec Function

/-- A periodic task that was created at `start` and has seen `elapsed` ticks since. -/
structure OnTime (id : TaskId) (period : Tick) (start elapsed : ℕ) (slot : TaskSlot) : Prop where
  named : slot.id = id
  periodic : slot.periodTicks = period
  deadline : slot.nextRelease =
    BitVec.ofNat 64 (start + period.toNat * (elapsed / period.toNat + 1))
  releases : slot.releaseCount = min (elapsed / period.toNat) maxCounter
  awake : slot.state = .waiting ∧ slot.pending = false ∨
    slot.state = .ready ∧ slot.pending ∨ slot.state = .running
  kept : slot.cancelRequested = false ∧ slot.suspendRequested = false
  balance : slot.yieldCount = 0 → slot.yieldRequested = false ∧
    (elapsed / period.toNat ≤ maxCounter →
      slot.releaseCount = slot.runCount + slot.coalescedReleaseCount + slot.pending.toNat)

/-! ## Words that wrap -/

section

variable {width first second : ℕ}

theorem toNat_ofNat_sub (hle : first ≤ second) (hnear : second - first < 2 ^ width) :
    (BitVec.ofNat width second - BitVec.ofNat width first).toNat = second - first := by
  have hsum : BitVec.ofNat width second =
      BitVec.ofNat width (second - first) + BitVec.ofNat width first := by
    rw [← BitVec.ofNat_add, Nat.sub_add_cancel hle]
  rw [hsum, BitVec.add_sub_cancel, BitVec.toNat_ofNat, Nat.mod_eq_of_lt hnear]

theorem toNat_ofNat_sub_wrap (hlt : first < second) (hnear : second - first ≤ 2 ^ width) :
    (BitVec.ofNat width first - BitVec.ofNat width second).toNat =
      2 ^ width - (second - first) := by
  have haround : BitVec.ofNat width (first + 2 ^ width) = BitVec.ofNat width first := by
    apply BitVec.eq_of_toNat_eq
    simp
  rw [← haround, toNat_ofNat_sub (by omega) (by omega)]
  omega

theorem ofNat_add_ofNat_mul (factor : ℕ) (distance : BitVec width) :
    BitVec.ofNat width first + BitVec.ofNat width factor * distance =
      BitVec.ofNat width (first + factor * distance.toNat) := by
  rw [BitVec.ofNat_add, BitVec.ofNat_mul, BitVec.ofNat_toNat, BitVec.setWidth_eq]

end

/-! ## The clock -/

theorem toNat_maxForwardTickDelta : maxForwardTickDelta.toNat = 2 ^ 63 - 1 := rfl

theorem timeReached_iff (start current deadline : ℕ) (hlate : current - deadline < 2 ^ 63)
    (hearly : deadline - current < 2 ^ 63) :
    timeReached (BitVec.ofNat 64 (start + current)) (BitVec.ofNat 64 (start + deadline)) ↔
      deadline ≤ current := by
  rw [timeReached, decide_eq_true_iff, le_def, toNat_maxForwardTickDelta]
  rcases lt_or_ge current deadline with _ | _
  · rw [toNat_ofNat_sub_wrap (by omega) (by omega)]
    omega
  · rw [toNat_ofNat_sub (by omega) (by omega)]
    omega

theorem lt_mul_div_add_one {period : ℕ} (hpos : 0 < period) (elapsed : ℕ) :
    elapsed < period * (elapsed / period + 1) ∧
      period * (elapsed / period + 1) ≤ elapsed + period := by
  have hdivision := Nat.div_add_mod elapsed period
  have hrest := Nat.mod_lt elapsed hpos
  rw [Nat.mul_add, Nat.mul_one]
  omega

theorem toNat_pos {period : Tick} (hperiod : period ≠ 0) : 0 < period.toNat :=
  Nat.pos_of_ne_zero fun hzero => hperiod (eq_of_toNat_eq hzero)

variable {other : TaskId} {late delta : ℕ}

theorem div_of_missed {period elapsed : ℕ} (hpos : 0 < period) :
    (period * (elapsed / period + 1) + late) / period = elapsed / period + (late / period + 1) := by
  rw [Nat.mul_add_div hpos]
  omega

theorem saturatingAdd_min (count increment : ℕ) :
    saturatingAdd (min count maxCounter) increment = min (count + increment) maxCounter := by
  unfold saturatingAdd
  generalize maxCounter = limit
  omega

theorem saturatingAdd_of_le {target increment : ℕ} (hbelow : target + increment ≤ maxCounter) :
    saturatingAdd target increment = target + increment :=
  min_eq_left hbelow

/-! ## Steps of a slot -/

section Slot

variable {id : TaskId} {period : Tick} {start elapsed : ℕ} {slot : TaskSlot}

theorem OnTime.early (hslot : OnTime id period start elapsed slot)
    (hsame : (elapsed + delta) / period.toNat = elapsed / period.toNat) :
    OnTime id period start (elapsed + delta) slot :=
  { hslot with
    deadline := by rw [hsame]; exact hslot.deadline
    releases := by rw [hsame]; exact hslot.releases
    balance := by rw [hsame]; exact hslot.balance }

theorem OnTime.state_ne (hslot : OnTime id period start elapsed slot) :
    ¬ (slot.state = .empty ∨ slot.state = .suspended) := by
  rcases hslot.awake with ⟨hstate, -⟩ | ⟨hstate, -⟩ | hstate <;> simp [hstate]

/-- The number of releases that are due, as the word the code computes. -/
theorem releaseCount_eq {deadline : ℕ} (hlate : late < 2 ^ 63) :
    (BitVec.ofNat 64 (deadline + late) - BitVec.ofNat 64 deadline) / period + 1 =
      BitVec.ofNat 64 (late / period.toNat + 1) := by
  apply eq_of_toNat_eq
  rw [toNat_add, toNat_udiv, toNat_ofNat_sub (by omega) (by omega),
    Nat.add_sub_cancel_left, toNat_ofNat]
  rfl

section

variable (hslot : OnTime id period start elapsed slot)
include hslot

theorem OnTime.balance_marked (count : ℕ) (hcount : 1 ≤ count) (hyield : slot.yieldCount = 0)
    (hbelow : elapsed / period.toNat + count ≤ maxCounter) :
    saturatingAdd slot.releaseCount count = slot.runCount +
      saturatingAdd slot.coalescedReleaseCount (count - if slot.pending then 0 else 1) + 1 := by
  have hbalance := (hslot.balance hyield).2 (by omega)
  have hreleases : slot.releaseCount = elapsed / period.toNat := by
    rw [hslot.releases, min_eq_left (by omega)]
  rw [saturatingAdd_of_le (by omega), saturatingAdd_of_le (by omega)]
  cases hpend : slot.pending with
  | false =>
    simp only [hpend, Bool.toNat_false, Bool.false_eq_true, if_false] at hbalance ⊢
    omega
  | true =>
    simp only [hpend, Bool.toNat_true, if_true] at hbalance ⊢
    omega

/-- Releases that are due are counted, and all but one of them coalesce. -/
theorem OnTime.markDueReleases (hnz : period ≠ 0) (hsmall : period ≤ maxForwardTickDelta)
    (hdelta : delta < 2 ^ 63) : OnTime id period start (elapsed + delta)
      (slot.markDueReleases (BitVec.ofNat 64 (start + (elapsed + delta)))) := by
  have hperiod := toNat_pos hnz
  rw [le_def, toNat_maxForwardTickDelta] at hsmall
  obtain ⟨_, _⟩ := lt_mul_div_add_one hperiod elapsed
  have hreached := timeReached_iff start (elapsed + delta)
    (period.toNat * (elapsed / period.toNat + 1)) (by omega) (by omega)
  rw [TaskSlot.markDueReleases, if_neg hslot.state_ne, hslot.periodic, if_neg hnz, hslot.deadline]
  rcases lt_or_ge (elapsed + delta) (period.toNat * (elapsed / period.toNat + 1)) with _ | hdue
  · have hsame : (elapsed + delta) / period.toNat = elapsed / period.toNat :=
      Nat.le_antisymm (Nat.lt_succ_iff.mp ((Nat.div_lt_iff_lt_mul hperiod).mpr
        (by rwa [mul_comm]))) (Nat.div_le_div_right (by omega))
    rw [if_pos (by rw [Bool.eq_false_iff, Ne, hreached]; omega)]
    exact hslot.early hsame
  obtain ⟨late, hlate⟩ := Nat.exists_eq_add_of_le hdue
  rw [if_neg (by simpa using hreached.mpr hdue), hlate]
  have hpassed : (period.toNat * (elapsed / period.toNat + 1) + late) / period.toNat =
    elapsed / period.toNat + (late / period.toNat + 1) := div_of_missed hperiod
  have hquotient := Nat.div_le_self late period.toNat
  have hcount : (BitVec.ofNat 64 (late / period.toNat + 1)).toNat = late / period.toNat + 1 := by
    rw [toNat_ofNat, Nat.mod_eq_of_lt (by omega)]
  dsimp only
  rw [← add_assoc, releaseCount_eq (by omega), hcount]
  refine ⟨hslot.named, rfl, ?_, ?_, ?_, hslot.kept, fun hyield => ⟨(hslot.balance hyield).1, ?_⟩⟩
  · calc BitVec.ofNat 64 (start + period.toNat * (elapsed / period.toNat + 1)) +
          BitVec.ofNat 64 (late / period.toNat + 1) * period
        = BitVec.ofNat 64 (start + period.toNat * (elapsed / period.toNat + 1) +
            (late / period.toNat + 1) * period.toNat) := ofNat_add_ofNat_mul _ _
      _ = _ := by
          rw [hpassed, Nat.mul_comm _ period.toNat, Nat.add_assoc, ← Nat.mul_add]
          congr 3
          omega
  · rw [hpassed, hslot.releases, saturatingAdd_min]
  · rcases hslot.awake with ⟨hstate, -⟩ | ⟨hstate, -⟩ | hstate <;> simp [hstate]
  · intro hbelow
    rw [hpassed] at hbelow
    exact hslot.balance_marked _ (Nat.le_add_left 1 _) hyield hbelow

theorem OnTime.started (hready : slot.state = .ready) (now : Tick) :
    OnTime id period start elapsed (slot.start now) := by
  have hpend : slot.pending := by
    rcases hslot.awake with ⟨hstate, -⟩ | ⟨-, hpend⟩ | hstate
    · simp [hstate] at hready
    · exact hpend
    · simp [hstate] at hready
  refine { hslot with
    awake := .inr (.inr rfl)
    kept := ⟨rfl, rfl⟩
    balance := fun hyield => ⟨rfl, fun hbelow => ?_⟩ }
  have hbalance := (hslot.balance hyield).2 hbelow
  have hreleases := hslot.releases
  rw [hpend, Bool.toNat_true] at hbalance
  change slot.releaseCount = saturatingAdd slot.runCount 1 + slot.coalescedReleaseCount + 0
  rw [saturatingAdd_of_le (by omega)]
  omega

end

/-- A periodic task that was neither cancelled nor suspended is armed again. -/
theorem finish_eq (hkept : slot.cancelRequested = false ∧ slot.suspendRequested = false)
    (hperiod : slot.periodTicks ≠ 0) :
    slot.finish = { slot with
      yieldRequested := false
      pending := slot.yieldRequested || slot.pending
      state := if slot.yieldRequested || slot.pending then .ready else .waiting } := by
  rcases slot with ⟨_, pending, _, _, yielded, _, _, _, _, _, _, _, _, _, _⟩
  cases yielded <;> cases pending <;>
    simp_all [TaskSlot.finish, TaskSlot.promoteWaitingIfPending]

theorem OnTime.finished (hslot : OnTime id period start elapsed slot) (hperiod : period ≠ 0) :
    OnTime id period start elapsed slot.finish := by
  rw [finish_eq hslot.kept (by rwa [hslot.periodic])]
  refine { hslot with awake := ?_, balance := fun hyield => ⟨rfl, ?_⟩ }
  · cases hpend : slot.yieldRequested || slot.pending <;> simp
  · rw [(hslot.balance hyield).1, Bool.false_or]
    exact (hslot.balance hyield).2

theorem OnTime.yielded (hslot : OnTime id period start elapsed slot) :
    OnTime id period start elapsed { slot with
      yieldRequested := true
      yieldCount := if slot.yieldRequested then slot.yieldCount
        else saturatingAdd slot.yieldCount 1 } := by
  refine { hslot with balance := fun hyield => ?_ }
  cases hrequested : slot.yieldRequested with
  | true =>
    simp only [hrequested, if_true] at hyield
    simp [(hslot.balance hyield).1] at hrequested
  | false =>
    simp [hrequested, saturatingAdd, maxCounter] at hyield

end Slot

/-! ## Steps of the scheduler -/

section Scheduler

variable {id : TaskId} {period : Tick} {start elapsed : ℕ} {index : Fin maxTasks}
  {scheduler : Scheduler}

/-- The scheduler when a periodic task that was created at `start` is in a slot. -/
structure Watched (id : TaskId) (period : Tick) (start : ℕ) (index : Fin maxTasks) (elapsed : ℕ)
    (scheduler : Scheduler) : Prop where
  started : scheduler.initialized
  clock : scheduler.now = BitVec.ofNat 64 (start + elapsed)
  task : OnTime id period start elapsed (scheduler.tasks index)

@[simp] theorem setTask_tasks (other : Fin maxTasks) (slot : TaskSlot) :
    (setTask scheduler other slot).tasks = update scheduler.tasks other slot := rfl

theorem Watched.setTask (hwatch : Watched id period start index elapsed scheduler)
    (other : Fin maxTasks) (slot : TaskSlot)
    (hslot : other = index → OnTime id period start elapsed slot) :
    Watched id period start index elapsed (setTask scheduler other slot) := by
  refine { hwatch with task := ?_ }
  by_cases hsame : other = index
  · subst hsame
    rw [setTask_tasks, update_self]
    exact hslot rfl
  · rw [setTask_tasks, update_of_ne (Ne.symm hsame)]
    exact hwatch.task

theorem findTask_ok {found : Fin maxTasks}
    (hfind : findTask scheduler other = .ok found) : (scheduler.tasks found).id = other := by
  unfold findTask at hfind
  cases hdec : decodeTaskId other with
  | none => simp [hdec] at hfind
  | some =>
    split at hfind
    · simp at hfind
    · grind

def advance (scheduler : Scheduler) : Request → ℕ
  | .tick current =>
    if scheduler.initialized ∧ current - scheduler.now ≤ maxForwardTickDelta then
      (current - scheduler.now).toNat
    else 0
  | _ => 0

def elapsedIn (scheduler : Scheduler) : List Request → ℕ
  | [] => 0
  | request :: requests =>
    advance scheduler request + elapsedIn (serve scheduler request) requests

/-- The request does not end the task and does not suspend it. -/
def spares (id : TaskId) : Request → Bool
  | .reset _ => false
  | .cancel other => other ≠ id
  | .suspend other => other ≠ id
  | _ => true

theorem create_cases (scheduler : Scheduler) (name : List UInt8) (periodTicks : Tick) :
    (∃ status, create scheduler name periodTicks = (.error status, scheduler)) ∨
      ∃ index, scheduler.initialized ∧ periodTicks ≤ maxForwardTickDelta ∧
        (scheduler.tasks index).state = .empty ∧
        create scheduler name periodTicks =
          (.ok (makeTaskId (nextGeneration (scheduler.tasks index).generation) index),
            setTask scheduler index (TaskSlot.created
              (makeTaskId (nextGeneration (scheduler.tasks index).generation) index)
              (nextGeneration (scheduler.tasks index).generation) name periodTicks
              scheduler.now)) := by
  unfold create
  cases hinit : scheduler.initialized with
  | false => exact .inl ⟨_, if_pos rfl⟩
  | true =>
    by_cases hlarge : periodTicks > maxForwardTickDelta
    · exact .inl ⟨_, if_pos hlarge⟩
    rw [if_neg hlarge]
    cases hname : validateName name with
    | error status => exact .inl ⟨status, rfl⟩
    | ok =>
      cases hfind : (List.finRange maxTasks).find? fun index =>
          (scheduler.tasks index).state = .empty with
      | none => exact .inl ⟨_, rfl⟩
      | some index =>
        exact .inr ⟨index, rfl, BitVec.not_lt.mp hlarge, by simpa using List.find?_some hfind, rfl⟩

section

variable (hwatch : Watched id period start index elapsed scheduler)
include hwatch

theorem Watched.create (name : List UInt8) (periodTicks : Tick) :
    Watched id period start index elapsed (create scheduler name periodTicks).2 := by
  rcases create_cases scheduler name periodTicks with
    ⟨status, hcreate⟩ | ⟨found, -, -, hempty, hcreate⟩
  · rw [hcreate]
    exact hwatch
  rw [hcreate]
  refine hwatch.setTask _ _ ?_
  rintro rfl
  exact absurd (.inl hempty) hwatch.task.state_ne

theorem Watched.cancel (hother : other ≠ id) :
    Watched id period start index elapsed (cancel scheduler other).2 := by
  unfold Cooperative.cancel
  cases hfind : findTask scheduler other with
  | error => split <;> exact hwatch
  | ok found =>
    have hdist : found ≠ index := by
      rintro rfl
      exact hother ((findTask_ok hfind).symm.trans hwatch.task.named)
    dsimp only
    repeat' split
    all_goals first
      | exact hwatch
      | exact hwatch.setTask _ _ fun hsame => absurd hsame hdist

theorem Watched.suspend (hother : other ≠ id) :
    Watched id period start index elapsed (suspend scheduler other).2 := by
  unfold Cooperative.suspend
  cases hfind : findTask scheduler other with
  | error => split <;> exact hwatch
  | ok found =>
    have hdist : found ≠ index := by
      rintro rfl
      exact hother ((findTask_ok hfind).symm.trans hwatch.task.named)
    dsimp only
    repeat' split
    all_goals first
      | exact hwatch
      | exact hwatch.setTask _ _ fun hsame => absurd hsame hdist

theorem Watched.resume (other : TaskId) :
    Watched id period start index elapsed (resume scheduler other).2 := by
  unfold Cooperative.resume
  cases hfind : findTask scheduler other with
  | error => split <;> exact hwatch
  | ok =>
    have hself : OnTime id period start elapsed (scheduler.tasks index) := hwatch.task
    dsimp only
    split
    · exact hwatch
    split
    · split
      · exact hwatch
      · refine hwatch.setTask _ _ ?_
        rintro rfl
        exact { hself with kept := ⟨hself.kept.1, rfl⟩ }
    split
    · exact hwatch
    rename_i hsuspended
    refine hwatch.setTask _ _ ?_
    rintro rfl
    exact absurd (.inr (not_not.mp hsuspended)) hself.state_ne

theorem Watched.yield : Watched id period start index elapsed (yield scheduler).2 := by
  unfold Cooperative.yield
  cases hcur : scheduler.currentSlot with
  | none => split <;> exact hwatch
  | some =>
    dsimp only
    split
    · exact hwatch
    split
    · exact hwatch
    split
    · exact hwatch
    · refine hwatch.setTask _ _ ?_
      rintro rfl
      exact hwatch.task.yielded

theorem Watched.dispatch (frame : RunFrame) :
    Watched id period start index elapsed (dispatch scheduler frame).2 := by
  unfold Cooperative.dispatch
  split
  · cases hnext : nextReady scheduler with
    | none => exact { hwatch with }
    | some next =>
      have hready : (scheduler.tasks next).state = .ready := by
        simpa using List.find?_some hnext
      have hset := hwatch.setTask next ((scheduler.tasks next).start scheduler.now) (by
        rintro rfl
        exact hwatch.task.started hready _)
      exact { hset with }
  · exact { hwatch with }

theorem Watched.runPending (budget : ℕ) :
    Watched id period start index elapsed (runPending scheduler budget).2 := by
  unfold Cooperative.runPending
  split
  · exact hwatch
  split
  · exact hwatch
  · exact hwatch.dispatch _

theorem Watched.callbackReturns (hperiod : period ≠ 0) :
    Watched id period start index elapsed (callbackReturns scheduler).2 := by
  unfold Cooperative.callbackReturns
  split
  next frame current _ _ =>
    have hset := hwatch.setTask current (scheduler.tasks current).finish (by
      rintro rfl
      exact hwatch.task.finished hperiod)
    refine Watched.dispatch ?_ _
    exact { hset with }
  · exact hwatch

theorem Watched.tick (hperiod : period ≠ 0) (hsmall : period ≤ maxForwardTickDelta)
    (current : Tick) :
    Watched id period start index (elapsed + advance scheduler (.tick current))
      (tick scheduler current).2 := by
  have hinit : ¬ scheduler.initialized = false := by simp [hwatch.started]
  unfold Cooperative.tick advance
  dsimp only
  rw [if_neg hinit]
  by_cases hlate : current - scheduler.now > maxForwardTickDelta
  · rw [if_pos hlate, if_neg fun haccepted => BitVec.not_lt.mpr haccepted.2 hlate]
    exact hwatch
  rw [if_neg hlate, if_pos ⟨hwatch.started, BitVec.not_lt.mp hlate⟩]
  have hdelta : (current - scheduler.now).toNat < 2 ^ 63 := by
    have hle := le_def.mp (BitVec.not_lt.mp hlate)
    rw [toNat_maxForwardTickDelta] at hle
    omega
  have hcur : current = BitVec.ofNat 64 (start + (elapsed + (current - scheduler.now).toNat)) := by
    rw [← add_assoc, ofNat_add, ← hwatch.clock, ofNat_toNat, setWidth_eq, add_comm, sub_add_cancel]
  refine ⟨hwatch.started, hcur, ?_⟩
  have hmark := hwatch.task.markDueReleases hperiod hsmall hdelta
  rwa [← hcur] at hmark

/-- What a request does to the task, if it does not end it. -/
theorem Watched.serve (hperiod : period ≠ 0) (hsmall : period ≤ maxForwardTickDelta)
    {request : Request} (hspares : spares id request) :
    Watched id period start index (elapsed + advance scheduler request)
      (serve scheduler request) := by
  cases request with
  | initialized now =>
    change Watched _ _ _ _ _ (initializeScheduler scheduler now).2
    rw [initializeScheduler, if_pos hwatch.started]
    exact hwatch
  | reset => simp [spares] at hspares
  | create name periodTicks => exact hwatch.create name periodTicks
  | cancel => exact hwatch.cancel (by simpa [spares] using hspares)
  | suspend => exact hwatch.suspend (by simpa [spares] using hspares)
  | resume other => exact hwatch.resume other
  | tick current => exact hwatch.tick hperiod hsmall current
  | yield => exact hwatch.yield
  | runPending budget => exact hwatch.runPending budget
  | callbackReturns => exact hwatch.callbackReturns hperiod

end

theorem Watched.run {requests : List Request} (hperiod : period ≠ 0)
    (hsmall : period ≤ maxForwardTickDelta) (hspares : ∀ request ∈ requests, spares id request)
    (hwatch : Watched id period start index elapsed scheduler) :
    Watched id period start index (elapsed + elapsedIn scheduler requests)
      (run scheduler requests) := by
  induction requests generalizing scheduler elapsed with
  | nil => exact hwatch
  | cons request _ hrest =>
    rw [elapsedIn, ← Nat.add_assoc]
    exact hrest (fun later hlater => hspares later (List.mem_cons_of_mem _ hlater))
      (hwatch.serve hperiod hsmall (hspares request List.mem_cons_self))

theorem OnTime.created (id generation : ℕ) (name : List UInt8) {now : Tick} (hperiod : period ≠ 0)
    (hsmall : period ≤ maxForwardTickDelta) :
    OnTime id period now.toNat 0 (TaskSlot.created id generation name period now) := by
  have hslot : OnTime id period now.toNat 0 { generation, id, name, periodTicks := period
                                              nextRelease := now + period, state := .waiting } := by
    refine ⟨rfl, rfl, ?_, ?_, .inl ⟨rfl, rfl⟩, ⟨rfl, rfl⟩, fun _ => ⟨rfl, fun _ => rfl⟩⟩
    · rw [Nat.zero_div, zero_add, mul_one, ofNat_add, ofNat_toNat,
        ofNat_toNat, setWidth_eq, setWidth_eq]
    · rw [Nat.zero_div, Nat.zero_min]
  have hmark := hslot.markDueReleases hperiod hsmall (Nat.two_pow_pos 63)
  rw [add_zero, add_zero, ofNat_toNat, setWidth_eq] at hmark
  rwa [TaskSlot.created, if_neg hperiod]

theorem decodeTaskId_makeTaskId (generation : ℕ) (index : Fin maxTasks) :
    decodeTaskId (makeTaskId generation index) = some index := by
  have hlt : index.val < 32 := index.isLt
  have hlow : makeTaskId generation index % 2 ^ 8 = index.val + 1 := by
    unfold makeTaskId
    omega
  unfold decodeTaskId
  rw [dif_neg (by rw [hlow]; omega)]
  simp only [hlow, Nat.add_sub_cancel]

/-- The counters of a task of which the time since its creation is known. -/
structure Exact (period : Tick) (elapsed : ℕ) (now : Tick) (slot : TaskSlot) : Prop where
  releases : slot.releaseCount = min (elapsed / period.toNat) maxCounter
  deadline : 1 ≤ (slot.nextRelease - now).toNat ∧ (slot.nextRelease - now).toNat ≤ period.toNat
  balance : slot.yieldCount = 0 → elapsed / period.toNat ≤ maxCounter →
    slot.releaseCount = slot.runCount + slot.coalescedReleaseCount + slot.pending.toNat

section

variable (hwatch : Watched id period start index elapsed scheduler)
include hwatch

theorem Watched.exact
    (hperiod : period ≠ 0) : Exact period elapsed scheduler.now (scheduler.tasks index) := by
  obtain ⟨_, _⟩ := lt_mul_div_add_one (toNat_pos hperiod) elapsed
  refine ⟨hwatch.task.releases, ?_, fun hyield => (hwatch.task.balance hyield).2⟩
  rw [hwatch.task.deadline, hwatch.clock, toNat_ofNat_sub (by omega) (by omega)]
  omega

theorem Watched.findTask
    (hdec : decodeTaskId id = some index) : findTask scheduler id = .ok index := by
  unfold Cooperative.findTask
  simp only [hdec]
  refine if_neg ?_
  rintro (hempty | hother)
  · exact hwatch.task.state_ne (.inl hempty)
  · exact hother hwatch.task.named

end

/-- A periodic task that is neither cancelled nor suspended is released exactly once for
each period since its creation, whatever else the scheduler is asked to do. -/
theorem releases_exact (scheduler : Scheduler) (name : List UInt8) (hperiod : period ≠ 0)
    (hcreate : (create scheduler name period).1 = .ok id) (requests : List Request)
    (hspares : ∀ request ∈ requests, spares id request = true) :
    ∃ index, findTask (run (create scheduler name period).2 requests) id = .ok index ∧
      Exact period (elapsedIn (create scheduler name period).2 requests)
        (run (create scheduler name period).2 requests).now
        ((run (create scheduler name period).2 requests).tasks index) := by
  rcases create_cases scheduler name period with
    ⟨status, hfailed⟩ | ⟨index, hinitialized, hsmall, -, hcreated⟩
  · simp [hfailed] at hcreate
  rw [hcreated] at hcreate ⊢
  have hid : makeTaskId (nextGeneration (scheduler.tasks index).generation) index = id :=
    Except.ok.inj hcreate
  have hdecode := decodeTaskId_makeTaskId (nextGeneration (scheduler.tasks index).generation) index
  rw [hid] at hdecode ⊢
  have hwatched : Watched id period scheduler.now.toNat index 0 (setTask scheduler index
      (TaskSlot.created id (nextGeneration (scheduler.tasks index).generation) name period
        scheduler.now)) := by
    refine ⟨hinitialized, ?_, ?_⟩
    · exact ((ofNat_toNat 64 _).trans (setWidth_eq _)).symm
    · rw [setTask_tasks, update_self]
      exact OnTime.created id _ name hperiod hsmall
  have hrun := hwatched.run hperiod hsmall hspares
  rw [zero_add] at hrun
  exact ⟨index, hrun.findTask hdecode, hrun.exact hperiod⟩

def lateClock : Scheduler := run .boot [.initialized 0xfffffffffffffffe#64]

theorem lateClock_releases :
    ∃ index, findTask (run (create lateClock [112] 3).2
        [.tick 2, .runPending 4, .tick 9, .yield, .callbackReturns]) 257 = .ok index ∧
      Exact 3 (elapsedIn (create lateClock [112] 3).2
          [.tick 2, .runPending 4, .tick 9, .yield, .callbackReturns])
        (run (create lateClock [112] 3).2
          [.tick 2, .runPending 4, .tick 9, .yield, .callbackReturns]).now
        ((run (create lateClock [112] 3).2
          [.tick 2, .runPending 4, .tick 9, .yield, .callbackReturns]).tasks index) :=
  releases_exact lateClock [112] (by decide) (by decide +kernel) _ (by decide +kernel)

/-- A task that suspends itself misses the releases that come while it is suspended. -/
theorem selfSuspended_releaseCount :
    (create lateClock [112] 1).1 = .ok 257 ∧
      (run (create lateClock [112] 1).2
        [.tick 0xffffffffffffffff#64, .runPending 1]).currentSlot = some 0 ∧
      elapsedIn (create lateClock [112] 1).2
        [.tick 0xffffffffffffffff#64, .runPending 1, .suspend 257, .callbackReturns, .tick 1] = 3 ∧
      ((run (create lateClock [112] 1).2
        [.tick 0xffffffffffffffff#64, .runPending 1, .suspend 257, .callbackReturns,
          .tick 1]).tasks 0).releaseCount = 1 := by
  decide +kernel

end Scheduler

end Kurogane.Task.Cooperative
