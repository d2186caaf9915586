/-
# Shared-memory objects

The object table of `src/kernel/ipc/shared_memory.cpp`. An object owns frames of
physical memory; its owner and up to eight further processes may hold it open and map
it. Every call holds the lock of the table, so that calls are atomic. The contents of
the frames are not modelled.
-/

import Kurogane.Ipc.Handles
import Kurogane.Math.Ledger
import Kurogane.Memory.PhysicalMemory

namespace Kurogane.Ipc.SharedMemory

open Math Memory

inductive Status where
  | alreadyInitialized
  | notInitialized
  | invalidArgument
  | outOfRange
  | outOfMemory
  | capacityReached
  | staleHandle
  | accessDenied
  | alreadyGranted
  | notFound
  | busy
  deriving DecidableEq, Repr

abbrev maxObjects : ℕ := 16

def maxPagesPerObject : ℕ := 16

abbrev maxGrantsPerObject : ℕ := 8

/-- `UINT16_MAX`, the largest number of mappings of one process. -/
def maxMappings : ℕ := 0xFFFF

/-! ## Objects -/

structure AccessSlot where
  pid : ProcessId := invalidProcessId
  mappings : ℕ := 0
  isOpen : Bool := false

structure ObjectSlot where
  generation : ℕ := 0
  ownerPid : ProcessId := invalidProcessId
  /-- The pointers of the array that are not null. -/
  frames : List Word := []
  pageCount : ℕ := 0
  size : ℕ := 0
  ownerMappings : ℕ := 0
  active : Bool := false
  ownerOpen : Bool := false
  grants : Fin maxGrantsPerObject → AccessSlot := fun _ => {}

/-- What `access_slot` points at: the fields of the owner, or a grant record. -/
inductive Holder where
  | owner
  | grant (record : Fin maxGrantsPerObject)
  deriving DecidableEq

namespace ObjectSlot

variable (slot : ObjectSlot)

def pidOf : Holder → ProcessId
  | .owner => slot.ownerPid
  | .grant record => (slot.grants record).pid

def mappingsOf : Holder → ℕ
  | .owner => slot.ownerMappings
  | .grant record => (slot.grants record).mappings

def openOf : Holder → Bool
  | .owner => slot.ownerOpen
  | .grant record => (slot.grants record).isOpen

def setGrant (record : Fin maxGrantsPerObject) (entry : AccessSlot) : ObjectSlot :=
  { slot with grants := Function.update slot.grants record entry }

def setAccess (isOpen : Bool) (mappings : ℕ) : Holder → ObjectSlot
  | .owner => { slot with ownerOpen := isOpen, ownerMappings := mappings }
  | .grant record => slot.setGrant record { slot.grants record with isOpen, mappings }

def findGrant (pid : ProcessId) : Option (Fin maxGrantsPerObject) :=
  (List.finRange maxGrantsPerObject).find? fun record =>
    (slot.grants record).pid = pid ∧
      ((slot.grants record).isOpen ∨ (slot.grants record).mappings ≠ 0)

def hasLiveAccess : Bool :=
  slot.ownerOpen ∨ slot.ownerMappings ≠ 0 ∨
    ∃ record, (slot.grants record).isOpen ∨ (slot.grants record).mappings ≠ 0

def accessSlot (pid : ProcessId) : Except Status Holder :=
  if pid = slot.ownerPid then
    if slot.ownerOpen ∨ slot.ownerMappings ≠ 0 then .ok .owner else .error .accessDenied
  else
    match slot.findGrant pid with
    | some record => .ok (.grant record)
    | none => .error .accessDenied

/-- The two loops of `grant`: a live record of the process is opened again, otherwise a record
that never had a process is filled. -/
def grantTo (targetPid : ProcessId) : Except Status ObjectSlot :=
  match slot.findGrant targetPid with
  | some record =>
    if (slot.grants record).isOpen then .error .alreadyGranted
    else .ok (slot.setAccess true (slot.grants record).mappings (.grant record))
  | none =>
    match (List.finRange maxGrantsPerObject).find? fun record =>
        (slot.grants record).pid = invalidProcessId ∧ (slot.grants record).mappings = 0 with
    | some record =>
      .ok (slot.setGrant record
        { slot.grants record with pid := targetPid, isOpen := true })
    | none => .error .capacityReached

def dismiss (pid : ProcessId) : ObjectSlot :=
  { slot with
    ownerOpen := if slot.ownerPid = pid then false else slot.ownerOpen
    ownerMappings := if slot.ownerPid = pid then 0 else slot.ownerMappings
    grants := fun record =>
      if (slot.grants record).pid = pid then
        { slot.grants record with isOpen := false, mappings := 0 }
      else slot.grants record }

end ObjectSlot

/-! ## The table and the frame allocator -/

/-- The state of the module. `events` records the frames taken from the allocator and given
back to it, newest first. -/
structure World (region : Region) where
  initialized : Bool
  objects : Fin maxObjects → ObjectSlot
  memory : Frames region
  events : List (LedgerEvent Word)

variable {region : Region} (world : World region)

namespace World

def setObject (index : Fin maxObjects) (slot : ObjectSlot) : World region :=
  { world with objects := Function.update world.objects index slot }

def takeFrame : Option Word × World region :=
  match allocFrame world.memory with
  | (none, memory) => (none, { world with memory })
  | (some frame, memory) =>
    (some frame, { world with memory, events := .taken frame :: world.events })

def freeFrame (frame : Word) : World region :=
  { world with
    memory := tryFreeFrame world.memory frame
    events := .returned frame :: world.events }

def freeFrames (world : World region) : List Word → World region
  | [] => world
  | frame :: rest => (world.freeFrame frame).freeFrames rest

/-- Take `count` more frames. When one is missing, all frames taken are given back. -/
def takeFrames (world : World region) (taken : List Word) : ℕ → Option (List Word) × World region
  | 0 => (some taken, world)
  | count + 1 =>
    match world.takeFrame with
    | (none, next) => (none, next.freeFrames taken)
    | (some frame, next) => next.takeFrames (taken ++ [frame]) count

def decode (handle : Handle) : Except Status (Fin maxObjects) :=
  if kindField handle ≠ Kind.sharedMemory.code then .error .staleHandle
  else
    match decodeIndex handle maxObjects with
    | none => .error .staleHandle
    | some index =>
      if (world.objects index).active = false ∨
          (world.objects index).generation ≠ generationField handle then .error .staleHandle
      else .ok index

/-- The frames are given back and the slot is cleared but for its generation. -/
def reclaim (index : Fin maxObjects) : World region :=
  (world.freeFrames (world.objects index).frames).setObject index
    { generation := (world.objects index).generation }

def maybeReclaim (index : Fin maxObjects) : World region :=
  if (world.objects index).active ∧ (world.objects index).hasLiveAccess = false then
    world.reclaim index
  else world

def freeObject : Option (Fin maxObjects) :=
  (List.finRange maxObjects).find? fun index => !(world.objects index).active

end World

/-! ## Calls -/

structure View where
  frames : List Word
  pageCount : ℕ
  size : ℕ

def initializeSharedMemory : Except Status Unit × World region :=
  if world.initialized then (.error .alreadyInitialized, world)
  else (.ok (), { world with initialized := true, objects := fun _ => {} })

/-- A new object with frames for its size. If a frame is missing, those taken are given back
and the slot stays free, with a new generation. -/
def create (ownerPid : ProcessId) (size : ℕ) : Except Status Handle × World region :=
  if world.initialized = false then (.error .notInitialized, world)
  else if ownerPid = invalidProcessId ∨ size = 0 then (.error .invalidArgument, world)
  else if size > maxPagesPerObject * pageSize then (.error .outOfRange, world)
  else
    match world.freeObject with
    | none => (.error .capacityReached, world)
    | some index =>
      let generation := nextGeneration (world.objects index).generation
      let pageCount := (size + pageSize - 1) / pageSize
      match world.takeFrames [] pageCount with
      | (none, next) => (.error .outOfMemory, next.setObject index { generation })
      | (some frames, next) =>
        (.ok (encode .sharedMemory false index generation),
          next.setObject index
            { generation, ownerPid, frames, pageCount, size, active := true
              ownerOpen := true })

def grant (ownerPid : ProcessId) (handle : Handle) (targetPid : ProcessId) :
    Except Status Unit × World region :=
  if world.initialized = false then (.error .notInitialized, world)
  else if ownerPid = invalidProcessId ∨ targetPid = invalidProcessId ∨ ownerPid = targetPid then
    (.error .invalidArgument, world)
  else
    match world.decode handle with
    | .error status => (.error status, world)
    | .ok index =>
      if (world.objects index).ownerPid ≠ ownerPid ∨ (world.objects index).ownerOpen = false then
        (.error .accessDenied, world)
      else
        match (world.objects index).grantTo targetPid with
        | .error status => (.error status, world)
        | .ok slot => (.ok (), world.setObject index slot)

section

variable (pid : ProcessId)

/-- Count one more mapping of the object by the process, and show its frames. Only the owner
and those it has granted access to may do so, until they close the object. -/
def acquire (handle : Handle) : Except Status View × World region :=
  if world.initialized = false then (.error .notInitialized, world)
  else if pid = invalidProcessId then (.error .invalidArgument, world)
  else
    match world.decode handle with
    | .error status => (.error status, world)
    | .ok index =>
      let slot := world.objects index
      match slot.accessSlot pid with
      | .error _ => (.error .accessDenied, world)
      | .ok holder =>
        if slot.openOf holder = false then (.error .accessDenied, world)
        else if slot.mappingsOf holder = maxMappings then (.error .busy, world)
        else
          (.ok ⟨slot.frames, slot.pageCount, slot.size⟩,
            world.setObject index
              (slot.setAccess (slot.openOf holder) (slot.mappingsOf holder + 1) holder))

def release (handle : Handle) : Except Status Unit × World region :=
  if world.initialized = false then (.error .notInitialized, world)
  else if pid = invalidProcessId then (.error .invalidArgument, world)
  else
    match world.decode handle with
    | .error status => (.error status, world)
    | .ok index =>
      let slot := world.objects index
      match slot.accessSlot pid with
      | .error _ => (.error .notFound, world)
      | .ok holder =>
        if slot.mappingsOf holder = 0 then (.error .notFound, world)
        else
          (.ok (),
            (world.setObject index (slot.setAccess (slot.openOf holder)
              (slot.mappingsOf holder - 1) holder)).maybeReclaim index)

/-- The process gives up its access but keeps the mappings it has: the frames are given back
when no access and no mapping is left. -/
def close (handle : Handle) : Except Status Unit × World region :=
  if world.initialized = false then (.error .notInitialized, world)
  else if pid = invalidProcessId then (.error .invalidArgument, world)
  else
    match world.decode handle with
    | .error status => (.error status, world)
    | .ok index =>
      let slot := world.objects index
      match slot.accessSlot pid with
      | .error _ => (.error .accessDenied, world)
      | .ok holder =>
        if slot.openOf holder = false then (.error .accessDenied, world)
        else
          (.ok (), (world.setObject index
            (slot.setAccess false (slot.mappingsOf holder) holder)).maybeReclaim index)

def releaseSlot (world : World region) (index : Fin maxObjects) : World region :=
  if (world.objects index).active = false then world
  else (world.setObject index ((world.objects index).dismiss pid)).maybeReclaim index

def releaseProcess : World region :=
  if world.initialized = false ∨ pid = invalidProcessId then world
  else (List.finRange maxObjects).foldl (releaseSlot pid) world

end

end Kurogane.Ipc.SharedMemory
