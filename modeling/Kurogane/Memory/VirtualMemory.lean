/-
# Page tables

The four-level page tables of `src/kernel/memory/virtual_memory.cpp`. A table is
named by its physical address and holds 512 words. The backend is a record of
callbacks over a context of its own; what the module does to memory and through
the backend is logged in the order in which it happens.
-/

import Kurogane.Math.TableTree

namespace Kurogane.Memory

open Math

abbrev Word := BitVec 64

instance : LawfulBEq Word := inferInstance

/-! ## Constants -/

def pageSize : ℕ := 4096

def architecturalPhysicalAddressBits : ℕ := 52

def entryPresent : Word := 1

def entryWritable : Word := 2

def entryUser : Word := 4

def entryWriteThrough : Word := 8

def entryCacheDisable : Word := 16

def entryAccessed : Word := 32

def entryDirty : Word := 64

def entryHugeOrPat : Word := 128

def entryGlobal : Word := 256

/-- The child table was allocated by the module. Meaningful in non-leaf entries only. -/
def entryModuleOwned : Word := 512

def entryNoExecute : Word := 0x8000000000000000

def architecturalAddressMask : Word := 0x000FFFFFFFFFF000

def pageOffsetMask : Word := 0xFFF

/-! ## Flags and statuses -/

abbrev MapFlags := Word

namespace MapFlags

def writable : MapFlags := 1

def user : MapFlags := 2

def writeThrough : MapFlags := 4

def cacheDisable : MapFlags := 8

def global : MapFlags := 16

def noExecute : MapFlags := 32

end MapFlags

def hasFlag (flags flag : MapFlags) : Bool := flags &&& flag != 0#64

def validMapFlagBits : Word :=
  MapFlags.writable ||| MapFlags.user ||| MapFlags.writeThrough ||| MapFlags.cacheDisable |||
    MapFlags.global ||| MapFlags.noExecute

inductive PageStatus
  | ok
  | notInitialized
  | invalidArgument
  | invalidFlags
  | nonCanonicalAddress
  | unalignedAddress
  | addressOverflow
  | physicalAddressOutOfRange
  | alreadyMapped
  | notMapped
  | outOfMemory
  | backendFailure
  | hugePageConflict
  | permissionConflict
  | corruptPageTable
  deriving DecidableEq, Repr

/-! ## The machine and its backend -/

/-- The callbacks of a backend. `physicalToVirtual` answers whether there is a usable
pointer to the page. -/
structure Backend (σ : Type) where
  allocateTable : σ → Option Word × σ
  freeTable : σ → Word → σ
  physicalToVirtual : σ → Word → Bool × σ
  invalidatePage : σ → Word → σ
  physicalAddressBits : ℕ

inductive Event
  | allocated (table : Word)
  | cleared (table : Word)
  | stored (table : Word) (index : Fin 512) (value : Word)
  | invalidated (page : Word)
  | freed (table : Word)
  deriving DecidableEq

/-- The words of all pages, the context of the backend, and what has happened, the latest
first. -/
structure Machine (σ : Type) where
  words : Word → Fin 512 → Word
  context : σ
  events : List Event := []

structure AddressSpace (σ : Type) where
  rootTablePhysical : Word
  physicalAddressMask : Word
  backend : Backend σ
  initialized : Bool

variable {σ : Type}

namespace Machine

section

variable (machine : Machine σ)

def storeEntry (table : Word) (index : Fin 512) (value : Word) : Machine σ :=
  { machine with
    words := setEntry machine.words table index value
    events := .stored table index value :: machine.events }

def clearTable (table : Word) : Machine σ :=
  { machine with
    words := Function.update machine.words table fun _ => 0#64
    events := .cleared table :: machine.events }

def allocateTable (backend : Backend σ) : Option Word × Machine σ :=
  match backend.allocateTable machine.context with
  | (some table, context) =>
    (some table, { machine with
      context := context
      events := .allocated table :: machine.events })
  | (none, context) => (none, { machine with context := context })

def freeTable (backend : Backend σ) (table : Word) : Machine σ :=
  { machine with
    context := backend.freeTable machine.context table
    events := .freed table :: machine.events }

def invalidatePage (backend : Backend σ) (page : Word) : Machine σ :=
  { machine with
    context := backend.invalidatePage machine.context page
    events := .invalidated page :: machine.events }

/-- Ask the backend for a pointer to a page. -/
def access (backend : Backend σ) (page : Word) : Bool × Machine σ :=
  ((backend.physicalToVirtual machine.context page).1,
    { machine with context := (backend.physicalToVirtual machine.context page).2 })

end

end Machine

/-! ## Validation -/

def canonicalAddress (address : Word) : Bool :=
  if (address >>> 47) &&& 1#64 != 0#64 then address >>> 48 == 0xFFFF#64 else address >>> 48 == 0#64

def validateVirtualPage (address : Word) : PageStatus :=
  if !canonicalAddress address then .nonCanonicalAddress
  else if address &&& pageOffsetMask ≠ 0#64 then .unalignedAddress
  else if address.toNat > 2 ^ 64 - 1 - pageOffsetMask.toNat then .addressOverflow
  else if !canonicalAddress (address + pageOffsetMask) then .nonCanonicalAddress
  else .ok

def validatePhysicalPage (space : AddressSpace σ) (address : Word) : PageStatus :=
  if address &&& pageOffsetMask ≠ 0#64 then .unalignedAddress
  else if address.toNat > 2 ^ 64 - 1 - pageOffsetMask.toNat then .addressOverflow
  else if address &&& ~~~space.physicalAddressMask ≠ 0#64 then .physicalAddressOutOfRange
  else .ok

def validMapFlags (flags : MapFlags) : Bool :=
  if flags &&& ~~~validMapFlagBits ≠ 0#64 then false
  else !(hasFlag flags .user && hasFlag flags .global)

def tableShift : ℕ → ℕ
  | 0 => 39
  | 1 => 30
  | 2 => 21
  | _ => 12

def tableIndex (address : Word) (level : ℕ) : Fin 512 :=
  Fin.ofNat 512 (address.toNat >>> tableShift level)

/-! ## Tables -/

variable (space : AddressSpace σ)

section

variable (physical : Word) (page : Word) (address : Word) (machine : Machine σ)

def tableForPhysical : PageStatus × Machine σ :=
  if validatePhysicalPage space physical ≠ .ok then (.corruptPageTable, machine)
  else
    match machine.access space.backend physical with
    | (true, machine) => (.ok, machine)
    | (false, machine) => (.backendFailure, machine)

/-- The physical address of the child table of an entry, with the status of the access. -/
def childTableFromEntry (entry : Word) (machine : Machine σ) : Except PageStatus Word × Machine σ :=
  if entry &&& (architecturalAddressMask &&& ~~~space.physicalAddressMask) ≠ 0#64 then
    (.error .corruptPageTable, machine)
  else
    match tableForPhysical space (entry &&& space.physicalAddressMask) machine with
    | (.ok, machine) => (.ok (entry &&& space.physicalAddressMask), machine)
    | (status, machine) => (.error status, machine)

def tableEmpty (words : Word → Fin 512 → Word) (table : Word) : Prop :=
  ∀ index, words table index = 0#64

instance (words : Word → Fin 512 → Word) (table : Word) : Decidable (tableEmpty words table) :=
  inferInstanceAs (Decidable (∀ _, _))

def hardwareLeafFlags (flags : MapFlags) : Word :=
  entryPresent |||
    (if hasFlag flags .writable then entryWritable else 0#64) |||
    (if hasFlag flags .user then entryUser else 0#64) |||
    (if hasFlag flags .writeThrough then entryWriteThrough else 0#64) |||
    (if hasFlag flags .cacheDisable then entryCacheDisable else 0#64) |||
    (if hasFlag flags .global then entryGlobal else 0#64) |||
    (if hasFlag flags .noExecute then entryNoExecute else 0#64)

/-- A table that was created for a mapping, with the entry that publishes it. -/
structure CreatedTable where
  parent : Word
  index : Fin 512
  physicalAddress : Word
  deriving DecidableEq

/-- Make every created table unreachable, invalidate, and only then free them. The list
has the table that was created last in front. -/
def rollbackCreatedTables (created : List CreatedTable) (page : Word)
    (machine : Machine σ) : Machine σ :=
  if created = [] then machine
  else
    let detached := created.foldl (fun machine table =>
      machine.storeEntry table.parent table.index 0#64) machine
    created.foldl (fun machine table =>
      machine.freeTable space.backend table.physicalAddress)
      (detached.invalidatePage space.backend page)

/-- The entry that publishes a created table. -/
def createdEntry : Word :=
  physical ||| entryPresent ||| entryWritable ||| entryUser ||| entryModuleOwned

def allocateChildTable (parent : Word) (index : Fin 512)
    (machine : Machine σ) : Except PageStatus Word × Machine σ :=
  match machine.allocateTable space.backend with
  | (none, machine) => (.error .outOfMemory, machine)
  | (some physical, machine) =>
    if validatePhysicalPage space physical ≠ .ok then
      (.error .backendFailure, machine.freeTable space.backend physical)
    else
      match tableForPhysical space physical machine with
      | (.ok, machine) =>
        (.ok physical,
          (machine.clearTable physical).storeEntry parent index (createdEntry physical))
      | (_, machine) => (.error .backendFailure, machine.freeTable space.backend physical)

/-! ## Walking -/

/-- The permissions along a path. -/
structure Access where
  writable : Bool
  user : Bool
  noExecute : Bool
  deriving DecidableEq

def Access.restrict (access : Access) (entry : Word) : Access where
  writable := access.writable && entry &&& entryWritable != 0#64
  user := access.user && entry &&& entryUser != 0#64
  noExecute := access.noExecute || entry &&& entryNoExecute != 0#64

/-- The tables of a path, the deepest first, with its leaf and its permissions. -/
structure WalkPath where
  tables : List Word
  leafValue : Word
  access : Access

def walkFrom (page : Word) :
    List ℕ → List Word → Word → Access → Machine σ → Except PageStatus WalkPath × Machine σ
  | [], above, table, access, machine =>
    let leaf := machine.words table (tableIndex page 3)
    if leaf &&& entryPresent = 0#64 then (.error .notMapped, machine)
    else if leaf &&& (architecturalAddressMask &&& ~~~space.physicalAddressMask) ≠ 0#64 then
      (.error .corruptPageTable, machine)
    else (.ok ⟨table :: above, leaf, access.restrict leaf⟩, machine)
  | level :: levels, above, table, access, machine =>
    let value := machine.words table (tableIndex page level)
    if value &&& entryPresent = 0#64 then (.error .notMapped, machine)
    else if value &&& entryHugeOrPat ≠ 0#64 then
      (.error (if level = 0 then .corruptPageTable else .hugePageConflict), machine)
    else
      match childTableFromEntry space value machine with
      | (.ok next, machine) =>
        walkFrom page levels (table :: above) next (access.restrict value) machine
      | (.error status, machine) => (.error status, machine)

/-- Walk the four levels of tables. The page has the rights that all the entries on the way
give it. -/
def walkToLeaf : Except PageStatus WalkPath × Machine σ :=
  match tableForPhysical space space.rootTablePhysical machine with
  | (.ok, machine) =>
    walkFrom space page [0, 1, 2] [] space.rootTablePhysical ⟨true, true, false⟩ machine
  | (status, machine) => (.error status, machine)

structure Mapping where
  virtualAddress : Word
  physicalAddress : Word
  flags : MapFlags
  accessed : Bool
  dirty : Bool
  deriving DecidableEq

def mappingFlags (leaf : Word) (access : Access) : MapFlags :=
  (if access.writable then MapFlags.writable else 0#64) |||
    (if access.user then MapFlags.user else 0#64) |||
    (if leaf &&& entryWriteThrough ≠ 0#64 then MapFlags.writeThrough else 0#64) |||
    (if leaf &&& entryCacheDisable ≠ 0#64 then MapFlags.cacheDisable else 0#64) |||
    (if leaf &&& entryGlobal ≠ 0#64 then MapFlags.global else 0#64) |||
    (if access.noExecute then MapFlags.noExecute else 0#64)

def mappingFromPath (path : WalkPath) : Mapping where
  virtualAddress := address &&& ~~~pageOffsetMask
  physicalAddress := path.leafValue &&& space.physicalAddressMask
  flags := mappingFlags path.leafValue path.access
  accessed := path.leafValue &&& entryAccessed != 0#64
  dirty := path.leafValue &&& entryDirty != 0#64

/-! ## The interface -/

def physicalMask (physicalBits : ℕ) : Word :=
  BitVec.ofNat 64 (2 ^ physicalBits - 1) &&& ~~~pageOffsetMask

/-- `initialize`: the address space if the root table is acceptable. -/
def initializeAddressSpace (root : Word) (backend : Backend σ) (machine : Machine σ) :
    Except PageStatus (AddressSpace σ) × Machine σ :=
  let physicalBits := if backend.physicalAddressBits = 0 then architecturalPhysicalAddressBits
    else backend.physicalAddressBits
  if physicalBits < 12 ∨ physicalBits > architecturalPhysicalAddressBits then
    (.error .invalidArgument, machine)
  else if root &&& pageOffsetMask ≠ 0#64 then (.error .unalignedAddress, machine)
  else if root &&& ~~~physicalMask physicalBits ≠ 0#64 then
    (.error .physicalAddressOutOfRange, machine)
  else
    let candidate : AddressSpace σ := ⟨root, physicalMask physicalBits, backend, true⟩
    match tableForPhysical candidate root machine with
    | (.ok, machine) => (.ok candidate, machine)
    | (status, machine) => (.error status, machine)

/-- Whether an ancestor is more restrictive than the requested mapping. -/
def permissionConflict (flags : MapFlags) (value : Word) : Bool :=
  (hasFlag flags .writable && value &&& entryWritable == 0#64) ||
    (hasFlag flags .user && value &&& entryUser == 0#64) ||
    (!hasFlag flags .noExecute && value &&& entryNoExecute != 0#64)

/-- The loop of `map_page` down to the leaf table, creating tables where there are none. -/
def descend (page : Word) (flags : MapFlags) :
    List ℕ → Word → List CreatedTable → Machine σ →
      Except PageStatus Word × List CreatedTable × Machine σ
  | [], table, created, machine => (.ok table, created, machine)
  | level :: levels, table, created, machine =>
    let index := tableIndex page level
    let value := machine.words table index
    if value &&& entryPresent = 0#64 then
      if value ≠ 0#64 then (.error .corruptPageTable, created, machine)
      else
        match allocateChildTable space table index machine with
        | (.ok next, machine) =>
          descend page flags levels next (⟨table, index, next⟩ :: created) machine
        | (.error status, machine) => (.error status, created, machine)
    else if value &&& entryHugeOrPat ≠ 0#64 then
      (.error (if level = 0 then .corruptPageTable else .hugePageConflict), created, machine)
    else if permissionConflict flags value then (.error .permissionConflict, created, machine)
    else
      match childTableFromEntry space value machine with
      | (.ok next, machine) => descend page flags levels next created machine
      | (.error status, machine) => (.error status, created, machine)

/-- The end of `map_page`: write the leaf, or take everything back. -/
def placeLeaf (page physical : Word) (flags : MapFlags) :
    Except PageStatus Word × List CreatedTable × Machine σ → PageStatus × Machine σ
  | (.error status, created, machine) =>
    (status, rollbackCreatedTables space created page machine)
  | (.ok table, created, machine) =>
    let index := tableIndex page 3
    let old := machine.words table index
    if old &&& entryPresent ≠ 0#64 then
      (.alreadyMapped, rollbackCreatedTables space created page machine)
    else if old ≠ 0#64 then (.corruptPageTable, rollbackCreatedTables space created page machine)
    else
      (.ok, (machine.storeEntry table index (physical ||| hardwareLeafFlags flags)).invalidatePage
        space.backend page)

def mapPage (page physical : Word) (flags : MapFlags)
    (machine : Machine σ) : PageStatus × Machine σ :=
  if !space.initialized then (.notInitialized, machine)
  else if !validMapFlags flags then (.invalidFlags, machine)
  else if validateVirtualPage page ≠ .ok then (validateVirtualPage page, machine)
  else if validatePhysicalPage space physical ≠ .ok then
    (validatePhysicalPage space physical, machine)
  else
    match tableForPhysical space space.rootTablePhysical machine with
    | (.ok, machine) =>
      placeLeaf space page physical flags
        (descend space page flags [0, 1, 2] space.rootTablePhysical [] machine)
    | (status, machine) => (status, machine)

/-- Detach the empty tables the module owns, from the leaf table upwards. The tables are
those of the path, the deepest first, with the level of the table above. -/
def collapse (page : Word) :
    List Word → Machine σ → List Word × Machine σ
  | child :: parent :: above, machine =>
    let index := tableIndex page above.length
    let value := machine.words parent index
    if ¬ tableEmpty machine.words child then ([], machine)
    else if value &&& entryPresent = 0#64 ∨ value &&& entryModuleOwned = 0#64 ∨
        value &&& space.physicalAddressMask ≠ child then ([], machine)
    else
      let result := collapse page (parent :: above) (machine.storeEntry parent index 0#64)
      (child :: result.1, result.2)
  | _, machine => ([], machine)

/-- `unmap_page`, with the mapping that was removed. -/
def unmapPage : Except PageStatus Mapping × Machine σ :=
  if !space.initialized then (.error .notInitialized, machine)
  else if validateVirtualPage page ≠ .ok then (.error (validateVirtualPage page), machine)
  else
    match walkToLeaf space page machine with
    | (.error status, machine) => (.error status, machine)
    | (.ok path, machine) =>
      let cleared := machine.storeEntry (path.tables.headD 0#64) (tableIndex page 3) 0#64
      let result := collapse space page path.tables cleared
      (.ok (mappingFromPath space page path),
        result.1.foldl (fun machine table => machine.freeTable space.backend table)
          (result.2.invalidatePage space.backend page))

def queryPage : Except PageStatus Mapping × Machine σ :=
  if !space.initialized then (.error .notInitialized, machine)
  else if !canonicalAddress address then (.error .nonCanonicalAddress, machine)
  else
    match walkToLeaf space address machine with
    | (.ok path, machine) => (.ok (mappingFromPath space address path), machine)
    | (.error status, machine) => (.error status, machine)

end

end Kurogane.Memory
