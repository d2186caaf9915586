/-
# The run queues of the scheduler

The functions of `kernel/task/scheduler2.cpp`. Every call holds the policy lock
from its first to its last instruction, so a call is a function from one state
to the next and interleavings of processors are sequences of calls.

The counters of dispatches, migrations and steals are 64-bit and wrap.
-/

import Kurogane.Math.Selection
import Mathlib.Data.BitVec

namespace Kurogane.Task

open Math List

/-! ## State -/

def maxCpus : ℕ := 64

def maxSchedulableThreads : ℕ := 64

def maxPriority : ℕ := 31

def invalidThreadId : ℕ := 0

abbrev CpuMask := BitVec 64

inductive Status
  | ok
  | notInitialized
  | alreadyInitialized
  | invalidArgument
  | invalidCpu
  | invalidAffinity
  | alreadyExists
  | notFound
  | capacityReached
  | queueFull
  deriving DecidableEq, Repr

inductive ThreadState
  | ready
  | running
  | blocked
  | sleeping
  | terminated
  deriving DecidableEq, Repr

structure ThreadStat where
  id : ℕ := 0
  state : ThreadState := .ready
  priority : ℕ := 0
  affinity : CpuMask := 0
  homeCpu : ℕ := 0
  lastCpu : ℕ := 0
  dispatches : ℕ := 0
  migrations : ℕ := 0

structure ThreadSlot where
  stat : ThreadStat := {}
  used : Bool := false

/-- The identifiers in use are the first `count` of the array of the source. -/
structure RunQueue where
  ids : List ℕ := []
  cursor : ℕ := 0
  dispatches : ℕ := 0
  steals : ℕ := 0

abbrev SlotIndex := Fin maxSchedulableThreads

structure Scheduler where
  threads : SlotIndex → ThreadSlot := fun _ => {}
  queues : ℕ → RunQueue := fun _ => {}
  cpuCount : ℕ := 0
  initialized : Bool := false

/-- A 64-bit counter. -/
def increment (counter : ℕ) : ℕ := (counter + 1) % 2 ^ 64

variable (s : Scheduler)

section

variable (index : SlotIndex) (id priority : ℕ) (affinity : CpuMask) (cpu : ℕ)

def Scheduler.setSlot (slot : ThreadSlot) : Scheduler :=
  { s with threads := Function.update s.threads index slot }

/-- Write the statistics of a slot. -/
def Scheduler.setStat (stat : ThreadStat) : Scheduler :=
  s.setSlot index { s.threads index with stat := stat }

def Scheduler.setQueue (queue : RunQueue) : Scheduler :=
  { s with queues := Function.update s.queues cpu queue }

/-! ## Masks and lookups -/

def maskForCpu : CpuMask := if cpu < maxCpus then 1#64 <<< cpu else 0

def onlineMaskUnlocked : CpuMask :=
  if !s.initialized ∨ s.cpuCount = 0 then 0
  else if s.cpuCount = maxCpus then BitVec.allOnes 64
  else (1#64 <<< s.cpuCount) - 1#64

def cpuAllowed : Bool :=
  decide (cpu < s.cpuCount) && decide (affinity &&& maskForCpu cpu ≠ 0)

def findThread (id : ℕ) : Option SlotIndex :=
  if id = invalidThreadId then none
  else (finRange maxSchedulableThreads).find? fun index =>
    (s.threads index).used && (s.threads index).stat.id == id

/-! ## Queues -/

/-- The queue with one more identifier at its end. -/
def RunQueue.add (queue : RunQueue) (id : ℕ) : RunQueue :=
  { queue with
    ids := queue.ids ++ [id]
    cursor := if queue.ids.length = 0 then 0 else queue.cursor }

/-- The queue without the first occurrence of an identifier; the rest closes up. -/
def RunQueue.remove (queue : RunQueue) (id : ℕ) : RunQueue :=
  { queue with
    ids := queue.ids.erase id
    cursor := if (queue.ids.erase id).length = 0 then 0
      else if queue.cursor ≥ (queue.ids.erase id).length then
        queue.cursor % (queue.ids.erase id).length
      else queue.cursor }

def queueAdd (cpu id : ℕ) : Except Status Scheduler :=
  if cpu ≥ s.cpuCount then .error .invalidCpu
  else
    let queue := s.queues cpu
    if id ∈ queue.ids then .ok s
    else if queue.ids.length ≥ maxSchedulableThreads then .error .queueFull
    else .ok (s.setQueue cpu (queue.add id))

def queueRemove (cpu id : ℕ) : Scheduler :=
  if cpu ≥ s.cpuCount then s
  else
    let queue := s.queues cpu
    if id ∈ queue.ids then s.setQueue cpu (queue.remove id) else s

/-- The first allowed processor with the shortest queue. -/
def chooseLeastLoaded : Option ℕ :=
  ((range s.cpuCount).foldl (fun (best : Option ℕ × ℕ) cpu =>
    if !cpuAllowed s affinity cpu then best
    else if (s.queues cpu).ids.length < best.2 then (some cpu, (s.queues cpu).ids.length)
    else best) (none, maxSchedulableThreads + 1)).1

def chooseHome (preferredCpu : ℕ) : Option ℕ :=
  if preferredCpu < s.cpuCount ∧ cpuAllowed s affinity preferredCpu then some preferredCpu
  else chooseLeastLoaded s affinity

/-! ## Selection -/

/-- A thread seen by a selection, with the place in the queue it was found at. -/
structure Candidate where
  thread : SlotIndex
  queueIndex : ℕ
  priority : ℕ

/-- The thread at an offset from the cursor of the local queue. -/
def localCandidate (cpu excluded offset : ℕ) : Option Candidate :=
  let queue := s.queues cpu
  let queueIndex := (queue.cursor + offset) % queue.ids.length
  let id := queue.ids.getD queueIndex 0
  if id = excluded then none
  else
    match findThread s id with
    | none => none
    | some index =>
      let stat := (s.threads index).stat
      if stat.state ≠ .ready ∨ !cpuAllowed s stat.affinity cpu then none
      else some ⟨index, queueIndex, stat.priority⟩

/-- The selected slot, and the state with the cursor behind it. -/
def selectFromQueue (cpu excluded : ℕ) : Option SlotIndex × Scheduler :=
  let queue := s.queues cpu
  if queue.ids.length = 0 then (none, s)
  else
    match (range queue.ids.length).foldl
        (fun best offset => keepBetter Candidate.priority best
          (localCandidate s cpu excluded offset)) none with
    | none => (none, s)
    | some selected => (some selected.thread, s.setQueue cpu { queue with
        cursor := (selected.queueIndex + 1) % queue.ids.length })

/-- The thread at an offset from the cursor of another processor's queue. -/
def stealCandidate (destinationCpu excluded cpu offset : ℕ) : Option Candidate :=
  let queue := s.queues cpu
  let queueIndex := (queue.cursor + offset) % queue.ids.length
  match findThread s (queue.ids.getD queueIndex 0) with
  | none => none
  | some index =>
    let stat := (s.threads index).stat
    if stat.id = excluded ∨ stat.state ≠ .ready ∨
        !cpuAllowed s stat.affinity destinationCpu then none
    else some ⟨index, queueIndex, stat.priority⟩

/-- The thread that an idle processor takes from the queue of another one: of those that may
run there, one with the highest priority. -/
def selectStealCandidate (destinationCpu excluded : ℕ) : Option SlotIndex :=
  ((range s.cpuCount).foldl (fun best cpu =>
    if cpu = destinationCpu then best
    else (range (s.queues cpu).ids.length).foldl
      (fun best offset => keepBetter Candidate.priority best
        (stealCandidate s destinationCpu excluded cpu offset)) best) none).map Candidate.thread

/-! ## Calls -/

def configure (onlineCpus : ℕ) : Status × Scheduler :=
  if onlineCpus = 0 ∨ onlineCpus > maxCpus then (.invalidArgument, s)
  else (.ok, { cpuCount := onlineCpus, initialized := true })

def initializeScheduler (onlineCpus : ℕ) : Status × Scheduler :=
  if s.initialized then (.alreadyInitialized, s) else configure s onlineCpus

def expandCpuCount (onlineCpus : ℕ) : Status × Scheduler :=
  if !s.initialized then (.notInitialized, s)
  else if onlineCpus = 0 ∨ onlineCpus > maxCpus ∨ onlineCpus < s.cpuCount then
    (.invalidArgument, s)
  else if onlineCpus = s.cpuCount then (.ok, s)
  else (.ok, { s with
    queues := fun cpu => if s.cpuCount ≤ cpu ∧ cpu < onlineCpus then {} else s.queues cpu
    cpuCount := onlineCpus })

/-- The first slot that is not in use. -/
def findFreeSlot : Option SlotIndex :=
  (finRange maxSchedulableThreads).find? fun index => !(s.threads index).used

/-- The slot of a thread that has just been registered. -/
def registeredSlot (home : ℕ) : ThreadSlot where
  used := true
  stat := {
    id := id
    state := .ready
    priority := priority
    affinity := affinity
    homeCpu := home
    lastCpu := maxCpus }

def registerThread (preferredCpu : ℕ) : Status × Scheduler :=
  if !s.initialized then (.notInitialized, s)
  else if id = invalidThreadId ∨ priority > maxPriority then (.invalidArgument, s)
  else if affinity &&& onlineMaskUnlocked s = 0 ∨ affinity &&& onlineMaskUnlocked s ≠ affinity then
    (.invalidAffinity, s)
  else if (findThread s id).isSome then (.alreadyExists, s)
  else
    match findFreeSlot s with
    | none => (.capacityReached, s)
    | some freeSlot =>
      match chooseHome s affinity preferredCpu with
      | none => (.invalidAffinity, s)
      | some home =>
        match queueAdd s home id with
        | .error _ => (.queueFull, s)
        | .ok added => (.ok, added.setSlot freeSlot (registeredSlot id priority affinity home))

def unregisterThread (id : ℕ) : Status × Scheduler :=
  if !s.initialized then (.notInitialized, s)
  else
    match findThread s id with
    | none => (.notFound, s)
    | some index =>
      (.ok, (queueRemove s (s.threads index).stat.homeCpu id).setSlot index {})

def setState (id : ℕ) (state : ThreadState) : Status × Scheduler :=
  if !s.initialized then (.notInitialized, s)
  else
    match findThread s id with
    | none => (.notFound, s)
    | some index => (.ok, s.setStat index { (s.threads index).stat with state := state })

/-- Move a thread whose processor is no longer allowed. -/
def rehome (id destination : ℕ) : Status × Scheduler :=
  let stat := (s.threads index).stat
  let previous := stat.homeCpu
  let removed := queueRemove s previous id
  match queueAdd removed destination id with
  | .error status =>
    let restored := match queueAdd removed previous id with
      | .ok restored => restored
      | .error _ => removed
    (status, restored.setStat index { stat with affinity := stat.affinity ||| maskForCpu previous })
  | .ok moved => (.ok, moved.setStat index { stat with
      homeCpu := destination
      migrations := increment stat.migrations })

/-- A thread whose home is no longer allowed moves to the queue of a processor that is. -/
def setAffinity (id : ℕ) (affinity : CpuMask) : Status × Scheduler :=
  if !s.initialized then (.notInitialized, s)
  else if affinity &&& onlineMaskUnlocked s = 0 ∨ affinity &&& onlineMaskUnlocked s ≠ affinity then
    (.invalidAffinity, s)
  else
    match findThread s id with
    | none => (.notFound, s)
    | some index =>
      let s := s.setStat index { (s.threads index).stat with affinity := affinity }
      if cpuAllowed s affinity (s.threads index).stat.homeCpu then (.ok, s)
      else
        match chooseHome s affinity maxCpus with
        | none => (.invalidAffinity, s)
        | some destination => rehome s index id destination

def setPriority : Status × Scheduler :=
  if !s.initialized then (.notInitialized, s)
  else if priority > maxPriority then (.invalidArgument, s)
  else
    match findThread s id with
    | none => (.notFound, s)
    | some index => (.ok, s.setStat index { (s.threads index).stat with priority := priority })

/-- Bring a thread of another processor to the local queue. -/
def steal (selected : SlotIndex) : Status × Scheduler :=
  let stat := (s.threads selected).stat
  let removed := queueRemove s stat.homeCpu stat.id
  match queueAdd removed cpu stat.id with
  | .error status =>
    match queueAdd removed stat.homeCpu stat.id with
    | .ok restored => (status, restored)
    | .error _ => (status, removed)
  | .ok moved =>
    let migrated := moved.setStat selected { stat with
      homeCpu := cpu
      migrations := increment stat.migrations }
    (.ok, migrated.setQueue cpu { migrated.queues cpu with
      steals := increment (migrated.queues cpu).steals })

/-- The selected thread is reserved for the processor. -/
def dispatch (selected : SlotIndex) : ℕ × Scheduler :=
  let stat := (s.threads selected).stat
  let reserved := s.setStat selected { stat with
    state := .running
    lastCpu := cpu
    dispatches := increment stat.dispatches }
  (stat.id, reserved.setQueue cpu { reserved.queues cpu with
    dispatches := increment (reserved.queues cpu).dispatches })

/-- What remains of `pick_next` once a selection was made. -/
def finishPick : Option SlotIndex × Scheduler → Except Status ℕ × Scheduler
  | (none, s) => (.error .notFound, s)
  | (some selected, s) => (.ok (dispatch s cpu selected).1, (dispatch s cpu selected).2)

end

/-- The output pointer is the caller's; `hasOutput` says that it is not null. -/
def pickNext (cpu excluded : ℕ) (hasOutput : Bool) : Except Status ℕ × Scheduler :=
  if !s.initialized then (.error .notInitialized, s)
  else if !hasOutput then (.error .invalidArgument, s)
  else if cpu ≥ s.cpuCount then (.error .invalidCpu, s)
  else
    match selectFromQueue s cpu excluded with
    | (some selected, s) => finishPick cpu (some selected, s)
    | (none, s) =>
      match selectStealCandidate s cpu excluded with
      | none => finishPick cpu (none, s)
      | some selected =>
        match steal s cpu selected with
        | (.ok, s) => finishPick cpu (selectFromQueue s cpu excluded)
        | (status, s) => (.error status, s)

def cancelDispatch (id cpu : ℕ) : Status × Scheduler :=
  if !s.initialized then (.notInitialized, s)
  else if cpu ≥ s.cpuCount then (.invalidCpu, s)
  else
    match findThread s id with
    | none => (.notFound, s)
    | some index =>
      let stat := (s.threads index).stat
      if stat.state ≠ .running ∨ stat.lastCpu ≠ cpu then (.invalidArgument, s)
      else (.ok, s.setStat index { stat with state := .ready })

/-! ## Runs -/

inductive Request
  | register (id priority : ℕ) (affinity : CpuMask) (preferredCpu : ℕ)
  | unregister (id : ℕ)
  | setState (id : ℕ) (state : ThreadState)
  | setAffinity (id : ℕ) (affinity : CpuMask)
  | setPriority (id priority : ℕ)
  | pickNext (cpu excluded : ℕ) (hasOutput : Bool)
  | cancelDispatch (id cpu : ℕ)
  | expandCpuCount (onlineCpus : ℕ)
  deriving DecidableEq

/-- A returned status, or the thread returned by a selection. -/
inductive Response
  | status (status : Status)
  | picked (id : ℕ)
  deriving DecidableEq

def Request.perform : Request → Scheduler → Response × Scheduler
  | register id priority affinity preferredCpu, s =>
    let (status, s) := registerThread s id priority affinity preferredCpu
    (.status status, s)
  | unregister id, s => let (status, s) := unregisterThread s id; (.status status, s)
  | setState id state, s => let (status, s) := Task.setState s id state; (.status status, s)
  | setAffinity id affinity, s =>
    let (status, s) := Task.setAffinity s id affinity
    (.status status, s)
  | setPriority id priority, s =>
    let (status, s) := Task.setPriority s id priority
    (.status status, s)
  | pickNext cpu excluded hasOutput, s =>
    match Task.pickNext s cpu excluded hasOutput with
    | (.ok id, s) => (.picked id, s)
    | (.error status, s) => (.status status, s)
  | cancelDispatch id cpu, s =>
    let (status, s) := Task.cancelDispatch s id cpu
    (.status status, s)
  | expandCpuCount onlineCpus, s =>
    let (status, s) := Task.expandCpuCount s onlineCpus
    (.status status, s)

/-- The calls with their answers, and the final state. -/
def run : List Request → Scheduler → List (Request × Response) × Scheduler
  | [], s => ([], s)
  | request :: requests, s =>
    let (response, s) := request.perform s
    let (answers, s) := run requests s
    ((request, response) :: answers, s)

end Kurogane.Task
