/-
# Jobs

The job table of `src/kernel/task/job.cpp`. A job is a group of processes; it is active as
long as it has members. The members stand in an array with a count, which is a list here.
The calls by which an owner attaches and detaches processes are not modelled.
-/

import Mathlib.Algebra.Group.Nat.Defs
import Mathlib.Data.List.FinRange

namespace Kurogane.Task

abbrev ProcessId := ℕ

def invalidProcessId : ProcessId := 0

namespace Job

abbrev JobId := ℕ

def invalidJobId : JobId := 0

abbrev maxJobs : ℕ := 16

def maxJobMembers : ℕ := 16

def maxJobName : ℕ := 31

def maximumGeneration : ℕ := 2 ^ 56 - 1

inductive Status where
  | notInitialized
  | alreadyInitialized
  | invalidArgument
  | nameTooLong
  | alreadyExists
  | notFound
  | capacityReached
  deriving DecidableEq, Repr

structure Slot where
  id : JobId := invalidJobId
  generation : ℕ := 0
  ownerPid : ProcessId := invalidProcessId
  members : List ProcessId := []
  active : Bool := false
  name : List UInt8 := []

structure Table where
  initialized : Bool := false
  slots : Fin maxJobs → Slot := fun _ => {}

def nextGeneration (generation : ℕ) : ℕ :=
  if generation = 0 ∨ generation ≥ maximumGeneration then 1 else generation + 1

def encode (index generation : ℕ) : ℕ := generation * 2 ^ 8 + (index + 1)

variable (table : Table)

def decode (id : ℕ) : Option (Fin maxJobs) :=
  if h : id % 2 ^ 8 = 0 ∨ id % 2 ^ 8 > maxJobs then none
  else
    let index : Fin maxJobs := ⟨id % 2 ^ 8 - 1, by omega⟩
    if (table.slots index).active = false ∨ (table.slots index).id ≠ id then none
    else some index

namespace Slot

variable (slot : Slot)

def addMember (pid : ProcessId) : Except Status Slot :=
  if pid = invalidProcessId then .error .invalidArgument
  else if pid ∈ slot.members then .error .alreadyExists
  else if slot.members.length ≥ maxJobMembers then .error .capacityReached
  else .ok { slot with members := slot.members ++ [pid] }

def removeMember (pid : ProcessId) : Slot := { slot with members := slot.members.erase pid }

def reclaimIfEmpty : Slot :=
  if slot.active = false ∨ slot.members.length ≠ 0 then slot
  else { generation := slot.generation }

/-- What the end of a process does to one job. -/
def release (pid : ProcessId) : Slot :=
  if slot.active = false then slot
  else
    let removed := slot.removeMember pid
    { removed with
      ownerPid := if removed.ownerPid = pid then invalidProcessId
        else removed.ownerPid }.reclaimIfEmpty

end Slot

def initializeJobs : Except Status Unit × Table :=
  if table.initialized then (.error .alreadyInitialized, table)
  else (.ok (), { initialized := true })

def create (ownerPid : ProcessId) (name : List UInt8) : Except Status JobId × Table :=
  if table.initialized = false then (.error .notInitialized, table)
  else if ownerPid = invalidProcessId then (.error .invalidArgument, table)
  else if name.length = 0 then (.error .invalidArgument, table)
  else if name.length > maxJobName then (.error .nameTooLong, table)
  else
    match (List.finRange maxJobs).find? fun index => (table.slots index).active = false with
    | none => (.error .capacityReached, table)
    | some index =>
      let generation := nextGeneration (table.slots index).generation
      let id := encode index generation
      (.ok id, { table with
        slots := Function.update table.slots index
          { id, generation, ownerPid, members := [ownerPid], active := true, name } })

def inheritMember (id : JobId) (childPid : ProcessId) : Except Status Unit × Table :=
  if table.initialized = false then (.error .notInitialized, table)
  else if childPid = invalidProcessId then (.error .invalidArgument, table)
  else
    match decode table id with
    | none => (.error .notFound, table)
    | some index =>
      match (table.slots index).addMember childPid with
      | .error status => (.error status, table)
      | .ok slot => (.ok (), { table with slots := Function.update table.slots index slot })

def releaseProcess (pid : ProcessId) : Table :=
  if pid = invalidProcessId then table
  else if table.initialized = false then table
  else { table with slots := fun index => (table.slots index).release pid }

end Job

end Kurogane.Task
