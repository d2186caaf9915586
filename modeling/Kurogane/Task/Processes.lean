/-
# The process table

The process table of `src/kernel/task/process.cpp`. Threads belong to another module:
whether a thread can be created, when it first runs and with which code its image ends are
inputs here. The caller of a call is the kernel or a process that is running.

What only `stat` reports, the observed pid, the root of the address space and the thread of
a process, is left out.
-/

import Kurogane.Task.Jobs
import Mathlib.Algebra.GroupWithZero.Nat

namespace Kurogane.Task.Process

open Task.Job (JobId invalidJobId)

abbrev maxProcesses : ℕ := 16

theorem maxProcesses_ne_zero : maxProcesses ≠ 0 := by decide

instance : NeZero maxProcesses := ⟨maxProcesses_ne_zero⟩

def maxProcessName : ℕ := 31

def maxExecutablePath : ℕ := 255

inductive State where
  | empty
  | new
  | ready
  | running
  | blocked
  | sleeping
  | zombie
  | terminated
  deriving DecidableEq, Repr

inductive Status where
  | notInitialized
  | alreadyInitialized
  | invalidArgument
  | pathTooLong
  | capacityReached
  | threadCreationFailed
  | notFound
  | permissionDenied
  | wouldBlock
  | jobFailed
  | resourcesBusy
  deriving DecidableEq, Repr

structure Slot where
  pid : ProcessId := invalidProcessId
  parentPid : ProcessId := invalidProcessId
  generation : ℕ := 0
  state : State := .empty
  exitCode : ℤ := 0
  handleCount : ℕ := 0
  jobId : JobId := invalidJobId
  name : List UInt8 := []
  executable : List UInt8 := []
  workingDirectory : List UInt8 := []

structure World where
  initialized : Bool := false
  initSpawned : Bool := false
  slots : Fin maxProcesses → Slot := fun _ => {}
  jobs : Job.Table := {}

def World.boot : World := {}

/-! ## Paths -/

def slash : UInt8 := '/'.toUInt8

def guiDirectory : List UInt8 := "/gui/".toUTF8.toList

def systemName : List UInt8 := "system".toUTF8.toList

/-- The copy of an absolute path, if it fits. -/
def copyPath (source : List UInt8) : Option (List UInt8) :=
  if source.head? = some slash ∧ source.length ≤ maxExecutablePath then some source else none

def buildExecutablePath (workingDirectory executable : List UInt8) : Option (List UInt8) :=
  if executable = [] then none
  else if executable.head? = some slash then copyPath executable
  else
    let directory := if workingDirectory.head? = some slash then workingDirectory else [slash]
    let separator := if directory.length = 1 then [] else [slash]
    let path := directory ++ separator ++ executable
    if path.length ≤ maxExecutablePath then some path else none

/-- The last component of the path. -/
def deriveName (executable : List UInt8) : List UInt8 :=
  ((executable.reverse.takeWhile (· ≠ slash)).reverse).take maxProcessName

/-! ## Slots -/

/-- The next generation of a slot; the counter is a word and skips zero. -/
def nextGeneration (generation : ℕ) : ℕ :=
  if (generation + 1) % 2 ^ 64 = 0 then 1 else (generation + 1) % 2 ^ 64

/-- The upper bits of the generation are shifted out. -/
def makePid (generation index : ℕ) : ℕ := generation * 2 ^ 8 % 2 ^ 64 + (index + 1)

variable (world : World)

section

variable (pid : ProcessId) (index : Fin maxProcesses) (slot : Slot) (threadCreated : Bool)

def setSlot : World :=
  { world with slots := Function.update world.slots index slot }

/-- The slot that a pid names. -/
def slotOf (pid : ℕ) : Option (Fin maxProcesses) :=
  if h : pid % 2 ^ 8 = 0 ∨ pid % 2 ^ 8 > maxProcesses then none
  else some ⟨pid % 2 ^ 8 - 1, by omega⟩

def find : Option (Fin maxProcesses) :=
  (slotOf pid).filter fun index =>
    (world.slots index).state ≠ .empty ∧ (world.slots index).pid = pid

def liveParent : Bool :=
  match find world pid with
  | none => false
  | some index =>
    (world.slots index).state ≠ .zombie ∧ (world.slots index).state ≠ .terminated

/-- The slot is emptied but for its generation. -/
def Slot.clear : Slot := { generation := slot.generation }

/-- A zombie leaves its job and its slot. -/
def recycle : World :=
  { setSlot world index (world.slots index).clear with
    jobs := Job.releaseProcess world.jobs (world.slots index).pid }

/-- A zombie without handles whose parent cannot wait for it any more. -/
def reapable : Bool :=
  (world.slots index).state = .zombie ∧
    ¬ ((world.slots index).parentPid ≠ invalidProcessId ∧
      liveParent world (world.slots index).parentPid = true) ∧
    (world.slots index).handleCount = 0

def reapOrphan : World :=
  if reapable world index then recycle world index else world

def reapOrphanZombies : World := (List.finRange maxProcesses).foldl reapOrphan world

/-! ## Calls -/

def initializeProcesses : Except Status Unit × World :=
  if world.initialized then (.error .alreadyInitialized, world)
  else
    (.ok (), { initialized := true, jobs := (Job.initializeJobs world.jobs).2 })

/-- The last steps of `spawn`: the thread is created, or everything is undone. -/
def launch :
    Except Status ProcessId × World :=
  if threadCreated then
    (.ok slot.pid, setSlot world index
      { slot with state := .ready, name := deriveName slot.executable })
  else
    (.error .threadCreationFailed,
      { setSlot world index slot.clear with jobs := Job.releaseProcess world.jobs slot.pid })

/-- A new process joins the job of its parent before it is launched. -/
def enroll :
    Except Status ProcessId × World :=
  if slot.jobId = invalidJobId then launch world index slot threadCreated
  else
    match Job.inheritMember world.jobs slot.jobId slot.pid with
    | (.error _, _) => (.error .jobFailed, setSlot world index slot.clear)
    | (.ok (), jobs) => launch { world with jobs } index slot threadCreated

end

section

variable (caller : ProcessId) (executable : List UInt8) (threadCreated : Bool)

/-- `spawn` in an empty slot. What a failed copy of a path leaves in it is not modelled. -/
def spawnAt (index : Fin maxProcesses) : Except Status ProcessId × World :=
  let parent := (find world caller).map world.slots
  let cleared := { (world.slots index).clear with
    parentPid := caller, workingDirectory := [slash] }
  match copyPath ((parent.map Slot.workingDirectory).getD [slash]) with
  | none => (.error .pathTooLong, setSlot world index cleared)
  | some workingDirectory =>
    let inherited := { cleared with
      workingDirectory, jobId := (parent.map Slot.jobId).getD invalidJobId }
    match buildExecutablePath workingDirectory executable with
    | none => (.error .pathTooLong, setSlot world index inherited)
    | some path =>
      let generation := nextGeneration inherited.generation
      enroll world index { inherited with
        executable := path, generation, pid := makePid generation index } threadCreated

def spawnInFreeSlot :
    Except Status ProcessId × World :=
  match (List.finRange maxProcesses).find? fun index => (world.slots index).state = .empty with
  | none => (.error .capacityReached, world)
  | some index => spawnAt world caller executable threadCreated index

/-- A spawn by the kernel of a program for the desktop is acknowledged and ignored. -/
def spawn :
    Except Status ProcessId × World :=
  if world.initialized = false then (.error .notInitialized, world)
  else if executable = [] then (.error .invalidArgument, world)
  else if caller = invalidProcessId ∧ guiDirectory <+: executable then
    (.ok invalidProcessId, world)
  else spawnInFreeSlot (reapOrphanZombies world) caller executable threadCreated

end

/-- The first process has slot 0, process number 1 and no parent, and opens the job of the
system. It can be spawned once. -/
def spawnInit (executable : List UInt8) (threadCreated : Bool) :
    Except Status ProcessId × World :=
  if world.initialized = false then (.error .notInitialized, world)
  else if world.initSpawned ∨ (world.slots 0).state ≠ .empty then
    (.error .alreadyInitialized, world)
  else if executable.head? ≠ some slash then (.error .invalidArgument, world)
  else
    let cleared := (world.slots 0).clear
    match copyPath executable with
    | none => (.error .pathTooLong, setSlot world 0 cleared)
    | some path =>
      match Job.create world.jobs 1 systemName with
      | (.error _, _) => (.error .jobFailed, setSlot world 0 cleared)
      | (.ok jobId, jobs) =>
        if threadCreated then
          (.ok 1, { setSlot world 0 { cleared with
            pid := 1, workingDirectory := [slash], state := .ready, jobId, executable := path
            name := deriveName path } with jobs, initSpawned := true })
        else
          (.error .threadCreationFailed,
            { setSlot world 0 cleared with jobs := Job.releaseProcess jobs 1 })

/-- The exit code of a child that has ended; its slot is free then. The kernel may wait for
any process, and a child with open handles is not released. -/
def wait (caller pid : ProcessId) : Except Status ℤ × World :=
  if world.initialized = false then (.error .notInitialized, world)
  else
    match find world pid with
    | none => (.error .notFound, world)
    | some index =>
      let slot := world.slots index
      if caller ≠ invalidProcessId ∧ slot.parentPid ≠ caller then
        (.error .permissionDenied, world)
      else if slot.state ≠ .zombie then (.error .wouldBlock, world)
      else if slot.handleCount ≠ 0 then (.error .resourcesBusy, world)
      else (.ok slot.exitCode, recycle world index)

def setHandleCount (pid : ProcessId) (handleCount : ℕ) : Except Status Unit × World :=
  if world.initialized = false then (.error .notInitialized, world)
  else
    match find world pid with
    | none => (.error .notFound, world)
    | some index => (.ok (), setSlot world index { world.slots index with handleCount })

def setWorkingDirectory (pid : ProcessId) (path : List UInt8) : Except Status Unit × World :=
  if world.initialized = false then (.error .notInitialized, world)
  else if path.head? ≠ some slash then (.error .invalidArgument, world)
  else
    match find world pid with
    | none => (.error .notFound, world)
    | some index =>
      match copyPath path with
      | none => (.error .pathTooLong, world)
      | some workingDirectory =>
        (.ok (), setSlot world index { world.slots index with workingDirectory })

/-- The thread of a process runs for the first time. -/
def enter (pid : ProcessId) : World :=
  match find world pid with
  | none => world
  | some index =>
    if (world.slots index).state ≠ .ready then world
    else setSlot world index { world.slots index with state := .running }

/-- The image of a running process ends. -/
def complete (pid : ProcessId) (exitCode : ℤ) : World :=
  match find world pid with
  | none => world
  | some index =>
    if (world.slots index).state ≠ .running then world
    else setSlot world index { world.slots index with state := .zombie, exitCode }

end Kurogane.Task.Process
