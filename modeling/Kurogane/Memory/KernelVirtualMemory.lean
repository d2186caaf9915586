/-
# Address spaces

The address spaces of `src/kernel/memory/kernel_virtual_memory.cpp`. A created
space has a root table of its own, which starts as a copy of the kernel's, with
all entries and the tags on them. All spaces take their tables from the same
frames.
-/

import Kurogane.Memory.PageUnmapping
import Kurogane.Memory.PhysicalMemory

namespace Kurogane.Memory

variable {region : Region}

inductive SpaceStatus
  | ok
  | addressSpaceAllocationFailed
  | addressSpaceInitializationFailed
  | addressSpaceActive
  deriving DecidableEq

/-- Memory with the root tables of the kernel and of the created spaces. -/
structure KernelMemory (region : Region) where
  words : Word → Fin 512 → Word
  frames : Frames region
  physicalAddressBits : ℕ
  kernelRoot : Word
  spaces : List Word
  activeRoot : Word

variable (memory : KernelMemory region)

namespace KernelMemory

/-- What the page-table module sees; the log starts afresh with every call. -/
def machine : Machine (Frames region) :=
  ⟨memory.words, memory.frames, []⟩

def physicalBits : ℕ :=
  if memory.physicalAddressBits = 0 then architecturalPhysicalAddressBits
  else memory.physicalAddressBits

def space (root : Word) : AddressSpace (Frames region) :=
  ⟨root, physicalMask memory.physicalBits, kernelBackend region memory.physicalAddressBits, true⟩

/-- Memory after a call of the page-table module. -/
def after (machine : Machine (Frames region)) : KernelMemory region :=
  { memory with words := machine.words, frames := machine.context }

/-- The kernel and the created spaces that were not destroyed. -/
def Live (root : Word) : Prop :=
  root = memory.kernelRoot ∨ root ∈ memory.spaces

end KernelMemory

/-- A new space has a root table of its own, filled as the root of the kernel is: the tables
below it are shared. -/
def createAddressSpace : SpaceStatus × KernelMemory region :=
  match allocFrame memory.frames with
  | (none, frames) => (.addressSpaceAllocationFailed, { memory with frames := frames })
  | (some root, frames) =>
    let words := Function.update memory.words root (memory.words memory.kernelRoot)
    match initializeAddressSpace root (kernelBackend region memory.physicalAddressBits)
        ⟨words, frames, []⟩ with
    | (.ok _, machine) =>
      (.ok, { memory.after machine with spaces := root :: memory.spaces })
    | (.error _, machine) =>
      (.addressSpaceInitializationFailed,
        memory.after { machine with context := tryFreeFrame machine.context root })

def isActive (root : Word) : Bool :=
  memory.activeRoot &&& architecturalAddressMask == root

/-- The root frame is freed; the tables below it are not. -/
def destroyAddressSpace (root : Word) : SpaceStatus × KernelMemory region :=
  if root ∉ memory.spaces then (.addressSpaceInitializationFailed, memory)
  else if isActive memory root then (.addressSpaceActive, memory)
  else
    (.ok, { memory with
      frames := tryFreeFrame memory.frames root
      spaces := memory.spaces.erase root })

def activate (root : Word) : KernelMemory region :=
  { memory with activeRoot := root ||| (memory.activeRoot &&& pageOffsetMask) }

/-- Requests name a space by its root. -/
inductive SpaceRequest
  | create
  | destroy (root : Word)
  | activate (root : Word)
  | mapPage (root page physical : Word) (flags : MapFlags)
  | unmapPage (root page : Word)

def SpaceRequest.perform : SpaceRequest → KernelMemory region
  | create => (createAddressSpace memory).2
  | destroy root => (destroyAddressSpace memory root).2
  | activate root => Memory.activate memory root
  | mapPage root page physical flags =>
    memory.after (Memory.mapPage (memory.space root) page physical flags memory.machine).2
  | unmapPage root page =>
    memory.after (Memory.unmapPage (memory.space root) page memory.machine).2

/-- The requests that are made of live spaces. -/
def SpaceRequest.Live : SpaceRequest → Prop
  | create => True
  | destroy root => root ∈ memory.spaces
  | activate root => memory.Live root
  | mapPage root _ _ _ => memory.Live root
  | unmapPage root _ => memory.Live root

end Kurogane.Memory
