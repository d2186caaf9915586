/-
# The cooperative scheduler

The task table of `src/kernel/task/scheduler.cpp`. Periodic tasks are released by the
clock, a 64-bit counter that wraps, and run by `run_pending`, whose callbacks may call
the scheduler in turn. A call of `run_pending` is therefore split at its callbacks: it is
entered, it goes on whenever a callback returns, and other calls may come in between.

The counters of the metrics are not modelled; no other function reads them.
-/

import Mathlib.Data.BitVec

namespace Kurogane.Task.Cooperative

abbrev Tick := BitVec 64

abbrev TaskId := ℕ

abbrev maxTasks : ℕ := 32

def maxTaskNameLength : ℕ := 31

def maxForwardTickDelta : Tick := 0x7fffffffffffffff#64

def maxGeneration : ℕ := 2 ^ 56 - 1

def maxCounter : ℕ := 2 ^ 64 - 1

inductive Status where
  | notInitialized
  | alreadyInitialized
  | invalidArgument
  | nameTooLong
  | periodTooLarge
  | capacityReached
  | notFound
  | invalidState
  | alreadySuspended
  | notSuspended
  | notRunning
  | cancellationPending
  | clockRegression
  | busy
  | reentrantCall
  | budgetExhausted
  deriving DecidableEq, Repr

inductive TaskState where
  | empty
  | waiting
  | ready
  | running
  | suspended
  deriving DecidableEq, Repr

structure TaskSlot where
  state : TaskState := .empty
  pending : Bool := false
  cancelRequested : Bool := false
  suspendRequested : Bool := false
  yieldRequested : Bool := false
  id : TaskId := 0
  generation : ℕ := 0
  name : List UInt8 := []
  periodTicks : Tick := 0
  nextRelease : Tick := 0
  runCount : ℕ := 0
  releaseCount : ℕ := 0
  coalescedReleaseCount : ℕ := 0
  yieldCount : ℕ := 0
  lastRunTick : Tick := 0

/-- A call of `run_pending` that waits for a callback to return. -/
structure RunFrame where
  budget : ℕ
  executed : ℕ

structure RunResult where
  executed : ℕ := 0
  readyRemaining : ℕ := 0
  deriving DecidableEq

structure Scheduler where
  initialized : Bool := false
  tasks : Fin maxTasks → TaskSlot := fun _ => {}
  now : Tick := 0
  dispatchCursor : Fin maxTasks := 0
  runActive : Option RunFrame := none
  currentSlot : Option (Fin maxTasks) := none

def Scheduler.boot : Scheduler := {}

/-! ## Slots -/

def saturatingAdd (target increment : ℕ) : ℕ := min (target + increment) maxCounter

def timeReached (current deadline : Tick) : Bool := current - deadline ≤ maxForwardTickDelta

def nextGeneration (generation : ℕ) : ℕ :=
  if generation = 0 ∨ generation ≥ maxGeneration then 1 else generation + 1

def makeTaskId (generation index : ℕ) : ℕ := generation * 2 ^ 8 + (index + 1)

namespace TaskSlot

variable (slot : TaskSlot)

/-- The slot is emptied but for its generation. -/
def retire : TaskSlot := { generation := slot.generation }

def promoteWaitingIfPending : TaskSlot :=
  if slot.pending ∧ slot.state = .waiting then { slot with state := .ready } else slot

/-- The releases that are due at the current time. -/
def markDueReleases (current : Tick) : TaskSlot :=
  if slot.state = .empty ∨ slot.state = .suspended then slot
  else if slot.periodTicks = 0 then slot
  else if timeReached current slot.nextRelease = false then slot
  else
    let elapsed := current - slot.nextRelease
    let releaseCount := elapsed / slot.periodTicks + 1
    { slot with
      nextRelease := slot.nextRelease + releaseCount * slot.periodTicks
      pending := true
      releaseCount := saturatingAdd slot.releaseCount releaseCount.toNat
      coalescedReleaseCount := saturatingAdd slot.coalescedReleaseCount
        (releaseCount.toNat - if slot.pending then 0 else 1)
      state := if slot.state = .waiting then .ready else slot.state }

/-- The slot of a task that has just been created. -/
def created (id generation : ℕ) (name : List UInt8) (periodTicks now : Tick) : TaskSlot :=
  if periodTicks = 0 then
    { generation, id, name, periodTicks, pending := true, releaseCount := 1, state := .ready }
  else
    { generation, id, name, periodTicks, nextRelease := now + periodTicks
      state := .waiting : TaskSlot }.markDueReleases now

/-- The slot when its callback is called. -/
def start (now : Tick) : TaskSlot :=
  { slot with
    pending := false
    state := .running
    cancelRequested := false
    suspendRequested := false
    yieldRequested := false
    lastRunTick := now
    runCount := saturatingAdd slot.runCount 1 }

/-- The slot after its callback has returned. -/
def finish : TaskSlot :=
  let cleared := { slot with
    cancelRequested := false
    suspendRequested := false
    yieldRequested := false }
  if slot.cancelRequested then cleared.retire
  else
    let yielded := if slot.yieldRequested then { cleared with pending := true } else cleared
    if slot.suspendRequested then { yielded with state := .suspended }
    else if yielded.periodTicks = 0 ∧ yielded.pending = false then yielded.retire
    else { yielded with state := .waiting }.promoteWaitingIfPending

end TaskSlot

/-! ## Calls -/

variable (scheduler : Scheduler)

section

variable (initialNow : Tick) (name : List UInt8) (id : TaskId)

def setTask (index : Fin maxTasks) (slot : TaskSlot) : Scheduler :=
  { scheduler with tasks := Function.update scheduler.tasks index slot }

def decodeTaskId (id : ℕ) : Option (Fin maxTasks) :=
  if h : id % 2 ^ 8 = 0 ∨ id % 2 ^ 8 > maxTasks then none
  else some ⟨id % 2 ^ 8 - 1, by omega⟩

def findTask : Except Status (Fin maxTasks) :=
  match decodeTaskId id with
  | none => .error .notFound
  | some index =>
    if (scheduler.tasks index).state = .empty ∨ (scheduler.tasks index).id ≠ id then
      .error .notFound
    else .ok index

def validateName : Except Status Unit :=
  if name.length = 0 then .error .invalidArgument
  else if name.length > maxTaskNameLength then .error .nameTooLong
  else .ok ()

def initializeScheduler : Except Status Unit × Scheduler :=
  if scheduler.initialized then (.error .alreadyInitialized, scheduler)
  else
    (.ok (), { initialized := true, now := initialNow
               tasks := fun index => (scheduler.tasks index).retire })

def reset : Except Status Unit × Scheduler :=
  if scheduler.initialized = false then (.error .notInitialized, scheduler)
  else if scheduler.runActive.isSome then (.error .busy, scheduler)
  else
    (.ok (), { initialized := true, now := initialNow
               tasks := fun index => (scheduler.tasks index).retire })

/-- A task without a period is ready at once, and ends when it has run without a yield; one
with a period is first released when a period has passed. -/
def create (periodTicks : Tick) : Except Status TaskId × Scheduler :=
  if scheduler.initialized = false then (.error .notInitialized, scheduler)
  else if periodTicks > maxForwardTickDelta then (.error .periodTooLarge, scheduler)
  else
    match validateName name with
    | .error status => (.error status, scheduler)
    | .ok () =>
      match (List.finRange maxTasks).find? fun index =>
          (scheduler.tasks index).state = .empty with
      | none => (.error .capacityReached, scheduler)
      | some index =>
        let generation := nextGeneration (scheduler.tasks index).generation
        let id := makeTaskId generation index
        (.ok id, setTask scheduler index
          (TaskSlot.created id generation name periodTicks scheduler.now))

def cancel : Except Status Unit × Scheduler :=
  if scheduler.initialized = false then (.error .notInitialized, scheduler)
  else
    match findTask scheduler id with
    | .error status => (.error status, scheduler)
    | .ok index =>
      let slot := scheduler.tasks index
      if slot.state = .running then
        if scheduler.currentSlot ≠ some index then (.error .busy, scheduler)
        else
          (if slot.cancelRequested then .error .cancellationPending else .ok (),
            setTask scheduler index { slot with cancelRequested := true })
      else (.ok (), setTask scheduler index slot.retire)

def suspend : Except Status Unit × Scheduler :=
  if scheduler.initialized = false then (.error .notInitialized, scheduler)
  else
    match findTask scheduler id with
    | .error status => (.error status, scheduler)
    | .ok index =>
      let slot := scheduler.tasks index
      if slot.state = .suspended then (.error .alreadySuspended, scheduler)
      else if slot.state = .running then
        if scheduler.currentSlot ≠ some index then (.error .busy, scheduler)
        else
          (if slot.suspendRequested then .error .alreadySuspended else .ok (),
            setTask scheduler index { slot with suspendRequested := true })
      else (.ok (), setTask scheduler index { slot with state := .suspended })

def resume : Except Status Unit × Scheduler :=
  if scheduler.initialized = false then (.error .notInitialized, scheduler)
  else
    match findTask scheduler id with
    | .error status => (.error status, scheduler)
    | .ok index =>
      let slot := scheduler.tasks index
      if slot.state = .running then
        if scheduler.currentSlot ≠ some index then (.error .busy, scheduler)
        else
          (if slot.suspendRequested then .ok () else .error .notSuspended,
            setTask scheduler index { slot with suspendRequested := false })
      else if slot.state ≠ .suspended then (.error .notSuspended, scheduler)
      else
        let armed := { slot with
          nextRelease := scheduler.now + slot.periodTicks
          pending := if slot.periodTicks = 0 then true else slot.pending }
        (.ok (), setTask scheduler index
          (if armed.pending then { armed with state := .ready }
          else { armed with state := .waiting }.markDueReleases scheduler.now))

end

/-- The clock is a machine word that wraps around: a step of more than half of its range
counts as a step back, and is refused. -/
def tick (current : Tick) : Except Status Unit × Scheduler :=
  if scheduler.initialized = false then (.error .notInitialized, scheduler)
  else if current - scheduler.now > maxForwardTickDelta then
    (.error .clockRegression, scheduler)
  else
    (.ok (), { scheduler with
      now := current
      tasks := fun index => (scheduler.tasks index).markDueReleases current })

def yield : Except Status Unit × Scheduler :=
  if scheduler.initialized = false then (.error .notInitialized, scheduler)
  else
    match scheduler.currentSlot with
    | none => (.error .notRunning, scheduler)
    | some index =>
      let slot := scheduler.tasks index
      if slot.state ≠ .running then (.error .notRunning, scheduler)
      else if slot.cancelRequested then (.error .cancellationPending, scheduler)
      else
        (.ok (), setTask scheduler index
          { slot with
            yieldRequested := true
            yieldCount := if slot.yieldRequested then slot.yieldCount
              else saturatingAdd slot.yieldCount 1 })

/-- The first task that is ready, from the cursor on. -/
def nextReady : Option (Fin maxTasks) :=
  ((List.finRange maxTasks).map fun offset => scheduler.dispatchCursor + offset).find? fun index =>
    (scheduler.tasks index).state = .ready

def countReadyTasks : ℕ :=
  (List.finRange maxTasks).countP fun index => (scheduler.tasks index).state = .ready

/-- What `run_pending` does when its loop has ended. -/
def leave (frame : RunFrame) : (Except Status Unit × RunResult) × Scheduler :=
  ((if countReadyTasks scheduler = 0 then .ok () else .error .budgetExhausted,
      ⟨frame.executed, countReadyTasks scheduler⟩),
    { scheduler with runActive := none })

/-- The loop of `run_pending` up to the next callback; without one the call returns. -/
def dispatch (frame : RunFrame) : Option (Except Status Unit × RunResult) × Scheduler :=
  if frame.executed < frame.budget then
    match nextReady scheduler with
    | none => (some (leave scheduler frame).1, (leave scheduler frame).2)
    | some index =>
      (none, { setTask scheduler index ((scheduler.tasks index).start scheduler.now) with
        dispatchCursor := index + 1
        runActive := some frame
        currentSlot := some index })
  else (some (leave scheduler frame).1, (leave scheduler frame).2)

/-- Run ready tasks in the order of the slots, from the cursor on, until none is ready or the
budget is used up. The call stops at each callback, which may make calls of its own. -/
def runPending (budget : ℕ) : Option (Except Status Unit × RunResult) × Scheduler :=
  if scheduler.initialized = false then (some (.error .notInitialized, {}), scheduler)
  else if scheduler.runActive.isSome then (some (.error .reentrantCall, {}), scheduler)
  else dispatch scheduler ⟨budget, 0⟩

/-- The callback returns, and the loop of `run_pending` goes on. -/
def callbackReturns : Option (Except Status Unit × RunResult) × Scheduler :=
  match scheduler.runActive, scheduler.currentSlot with
  | some frame, some index =>
    dispatch { setTask scheduler index (scheduler.tasks index).finish with currentSlot := none }
      { frame with executed := frame.executed + 1 }
  | _, _ => (none, scheduler)

/-! ## Runs -/

inductive Request where
  | initialized (initialNow : Tick)
  | reset (initialNow : Tick)
  | create (name : List UInt8) (periodTicks : Tick)
  | cancel (id : TaskId)
  | suspend (id : TaskId)
  | resume (id : TaskId)
  | tick (current : Tick)
  | yield
  | runPending (budget : ℕ)
  | callbackReturns

def serve : Request → Scheduler
  | .initialized initialNow => (initializeScheduler scheduler initialNow).2
  | .reset initialNow => (reset scheduler initialNow).2
  | .create name periodTicks => (create scheduler name periodTicks).2
  | .cancel id => (cancel scheduler id).2
  | .suspend id => (suspend scheduler id).2
  | .resume id => (resume scheduler id).2
  | .tick current => (tick scheduler current).2
  | .yield => (yield scheduler).2
  | .runPending budget => (runPending scheduler budget).2
  | .callbackReturns => (callbackReturns scheduler).2

def run (requests : List Request) : Scheduler := requests.foldl serve scheduler

end Kurogane.Task.Cooperative
