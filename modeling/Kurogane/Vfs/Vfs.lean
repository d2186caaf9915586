/-
# The virtual file system

The mount table, the open-file table and the calls of `src/kernel/fs/vfs.cpp`. The
backends are arbitrary: their contexts are one environment that every backend call
may change, and what a call returns may depend on all of it. The world also keeps a
record of the backend files that were opened and closed, which no call reads.
-/

import Kurogane.Vfs.Paths
import Mathlib.Algebra.Group.Nat.Defs

namespace Kurogane.Vfs

open List

def maxMounts : ℕ := 16
def maxOpenFiles : ℕ := 64
def uint32Max : ℕ := 2 ^ 32 - 1
def uint64Max : ℕ := 2 ^ 64 - 1

inductive NodeType
  | regular
  | directory
  | device
  | pipe
  | mountPoint
  deriving DecidableEq

/-- A set of flags, as the bits of a word. -/
abbrev Flags := UInt32

def seekableFlag : Flags := 1
def readFlag : Flags := 1
def writeFlag : Flags := 2
def appendFlag : Flags := 4
def directoryFlag : Flags := 8

def hasFlag (flags flag : Flags) : Bool := flags &&& flag ≠ 0

def knownNodeFlags : Flags := seekableFlag
def knownOpenFlags : Flags := readFlag ||| writeFlag ||| appendFlag ||| directoryFlag

structure FileStat where
  type : NodeType
  flags : Flags
  size : ℕ

structure DirectoryEntry where
  name : Text
  nameLength : ℕ
  info : FileStat

/-- The token by which a backend knows an open file. -/
structure BackendFile where
  first : UInt64
  second : UInt64
  deriving DecidableEq

/-- A backend call: what it returns, and the environment it leaves. -/
abbrev Backend (ε α : Type) := ε → Except Status α × ε

/-- The operations of a backend; those a backend may lack are optional. -/
structure FileSystem (ε : Type) where
  statPath : Option (List UInt8 → Backend ε FileStat)
  openFile : Option (List UInt8 → Flags → Backend ε BackendFile)
  closeFile : Option (BackendFile → ε → ε)
  readFile : Option (BackendFile → (offset size : ℕ) → Backend ε (List UInt8 × ℕ))
  writeFile : Option (BackendFile → (offset : ℕ) → List UInt8 → Backend ε ℕ)
  statOpen : Option (BackendFile → Backend ε FileStat)
  readdir : Option (BackendFile → (cookie : ℕ) → Backend ε (DirectoryEntry × ℕ))
  create : Option (List UInt8 → Backend ε Unit)
  unlink : Option (List UInt8 → Backend ε Unit)
  rename : Option (List UInt8 → List UInt8 → Backend ε Unit)
  mkdir : Option (List UInt8 → Backend ε Unit)
  rmdir : Option (List UInt8 → Backend ε Unit)
  sync : Option (Backend ε Unit)
  isReadOnly : Bool

structure MountHandle where
  slot : ℕ
  generation : ℕ

structure OpenFileHandle where
  slot : ℕ
  generation : ℕ

/-- `filesystem` is absent in a slot that is cleared. -/
structure Mount (ε : Type) where
  active : Bool := false
  generation : ℕ := 0
  path : List UInt8 := []
  filesystem : Option (FileSystem ε) := none

structure OpenFile where
  active : Bool := false
  generation : ℕ := 0
  referenceCount : ℕ := 0
  flags : Flags := 0
  offset : ℕ := 0
  mountSlot : ℕ := 0
  mountGeneration : ℕ := 0
  type : NodeType := .regular
  nodeFlags : Flags := 0
  backendFile : BackendFile := ⟨0, 0⟩
  globalPath : List UInt8 := []

structure State (ε : Type) where
  initialized : Bool
  mounts : ℕ → Mount ε
  openFiles : ℕ → OpenFile

def State.withMount {ε : Type} (state : State ε) (slot : ℕ) (mount : Mount ε) : State ε :=
  { state with mounts := Function.update state.mounts slot mount }

def State.withOpenFile {ε : Type} (state : State ε) (slot : ℕ) (file : OpenFile) : State ε :=
  { state with openFiles := Function.update state.openFiles slot file }

/-- A backend file, with the mount whose backend it belongs to. -/
structure BackendKey where
  mountSlot : ℕ
  mountGeneration : ℕ
  file : BackendFile
  deriving DecidableEq

inductive BackendEvent
  | opened (key : BackendKey)
  | closed (key : BackendKey)

/-- `events` lists what was opened and closed at the backends, the latest first. -/
structure World (ε : Type) where
  state : State ε
  environment : ε
  events : List BackendEvent

/-! ## Calls -/

/-- A call answers with a status or a value, and leaves a world. -/
def Call (ε α : Type) := World ε → Except Status α × World ε

namespace Call

variable {ε α β : Type}

def bind (call : Call ε α) (next : α → Call ε β) : Call ε β := fun world =>
  match call world with
  | (.ok value, world') => next value world'
  | (.error status, world') => (.error status, world')

instance : Monad (Call ε) where
  pure value := fun world => (.ok value, world)
  bind := Call.bind

def fail (status : Status) : Call ε α := fun world => (.error status, world)

def ofExcept : Except Status α → Call ε α := fun result world => (result, world)

/-- The condition holds, or the call ends with the status. -/
def require (condition : Bool) (status : Status) : Call ε Unit :=
  if condition then pure () else fail status

/-- The value is there, or the call ends with the status. -/
def demand (value : Option α) (status : Status) : Call ε α := fun world =>
  (value.elim (.error status) .ok, world)

def getState : Call ε (State ε) := fun world => (.ok world.state, world)

def setMount (slot : ℕ) (mount : Mount ε) : Call ε Unit := fun world =>
  (.ok (), { world with state := world.state.withMount slot mount })

def setOpenFile (slot : ℕ) (file : OpenFile) : Call ε Unit := fun world =>
  (.ok (), { world with state := world.state.withOpenFile slot file })

def record (event : BackendEvent) : Call ε Unit := fun world =>
  (.ok (), { world with events := event :: world.events })

def backend (operation : Backend ε α) : Call ε α := fun world =>
  ((operation world.environment).1,
    { world with environment := (operation world.environment).2 })

end Call

open Call

variable {ε : Type}

/-! ## Checks -/

def validBackendStat (info : FileStat) : Bool :=
  info.type ≠ .mountPoint && info.flags &&& ~~~knownNodeFlags = 0

def directoryLike (type : NodeType) : Bool := type = .directory || type = .mountPoint

def validFilesystem (filesystem : FileSystem ε) : Bool :=
  if filesystem.statPath.isNone then false
  else if filesystem.openFile.isNone ≠ filesystem.closeFile.isNone then false
  else if filesystem.openFile.isNone && (filesystem.readFile.isSome ||
      filesystem.writeFile.isSome || filesystem.statOpen.isSome || filesystem.readdir.isSome) then
    false
  else true

variable (state : State ε)

def exactNonRootMount (path : List UInt8) : Bool :=
  (range maxMounts).any fun slot =>
    slot ≠ 0 && (state.mounts slot).active && (state.mounts slot).path = path

/-! ## Routes -/

structure Route where
  mountIndex : ℕ
  backendPath : List UInt8

/-- One slot of the search of `route_path` for the mount with the longest path. -/
def selectMount (path : List UInt8) (selected : Option ℕ) (slot : ℕ) : Option ℕ :=
  let entry := state.mounts slot
  if !entry.active || !pathIsComponentPrefix entry.path path then selected
  else
    match selected with
    | none => some slot
    | some best =>
      if entry.path.length > (state.mounts best).path.length then some slot else selected

/-- The mount with the longest path that is above the given one, and what is left of the path
for its backend. -/
def routePath (path : NormalizedPath) : Except Status Route :=
  if !state.initialized then .error .notInitialized
  else
    match (range maxMounts).foldl (selectMount state path.value) none with
    | none => .error .noRootFilesystem
    | some selected =>
      let mountPath := (state.mounts selected).path
      .ok ⟨selected,
        if path.value.length = mountPath.length then [separator]
        else if mountPath.length = 1 then path.value
        else path.value.drop mountPath.length⟩

structure Vnode where
  mount : MountHandle
  backendPath : List UInt8
  info : FileStat

variable (filesystem : Option (FileSystem ε))

/-- `stat_path` of a backend, with the checks on what it returns. -/
def backendStat (path : List UInt8) : Call ε FileStat := do
  let statPath ← demand (filesystem.bind FileSystem.statPath) .backendFailure
  let info ← backend (statPath path)
  require (validBackendStat info) .backendFailure
  pure info

def lookupCanonical (path : NormalizedPath) : Call ε Vnode := do
  let state ← getState
  let route ← ofExcept (routePath state path)
  let entry := state.mounts route.mountIndex
  let info ← backendStat entry.filesystem route.backendPath
  require (!path.trailingSeparator || info.type = .directory) .notDirectory
  let covered := route.mountIndex ≠ 0 && path.value.length = entry.path.length
  require (!covered || info.type = .directory) .backendFailure
  pure ⟨⟨route.mountIndex + 1, entry.generation⟩, route.backendPath,
    if covered then { info with type := .mountPoint } else info⟩

/-- `next_generation`: none follows the largest. -/
def nextGeneration (current : ℕ) : Option ℕ :=
  if current = uint32Max then none else some (current + 1)

/-- A slot that is not active and has a next generation. -/
def freeSlot (active : ℕ → Bool) (generation : ℕ → ℕ) (slot : ℕ) : Option (ℕ × ℕ) :=
  if active slot then none else (nextGeneration (generation slot)).map (slot, ·)

def findMountSlot : Option (ℕ × ℕ) :=
  ((range maxMounts).drop 1).findSome? <|
    freeSlot (fun slot => (state.mounts slot).active) fun slot => (state.mounts slot).generation

def findOpenSlot : Option (ℕ × ℕ) :=
  (range maxOpenFiles).findSome? <|
    freeSlot (fun slot => (state.openFiles slot).active) fun slot =>
      (state.openFiles slot).generation

def validateMountHandle (handle : MountHandle) : Except Status ℕ :=
  if !state.initialized then .error .notInitialized
  else if handle.slot = 0 ∨ handle.slot > maxMounts ∨ handle.generation = 0 then
    .error .invalidHandle
  else
    let entry := state.mounts (handle.slot - 1)
    if !entry.active ∨ entry.generation ≠ handle.generation then .error .staleHandle
    else .ok (handle.slot - 1)

def validateOpenHandle (handle : OpenFileHandle) : Except Status ℕ :=
  if !state.initialized then .error .notInitialized
  else if handle.slot = 0 ∨ handle.slot > maxOpenFiles ∨ handle.generation = 0 then
    .error .invalidHandle
  else
    let selected := state.openFiles (handle.slot - 1)
    if !selected.active ∨ selected.generation ≠ handle.generation then .error .staleHandle
    else if selected.mountSlot ≥ maxMounts then .error .backendFailure
    else
      let entry := state.mounts selected.mountSlot
      if !entry.active ∨ entry.generation ≠ selected.mountGeneration then .error .staleHandle
      else .ok (handle.slot - 1)

/-! ## Mounting -/

/-- The zeroed tables with the root file system in slot 0. -/
def rootState (filesystem : FileSystem ε) : State ε where
  initialized := true
  mounts := Function.update (fun _ => {}) 0 ⟨true, 1, [separator], some filesystem⟩
  openFiles := fun _ => {}

/-- The root of a file system to be mounted is a directory. -/
def checkMountRoot (filesystem : FileSystem ε) : Call ε Unit := do
  let info ← backendStat (some filesystem) [separator]
  require (info.type = .directory) .notDirectory

def initializeVfs (rootFilesystem : Option (FileSystem ε)) : Call ε Unit := do
  let state ← getState
  require (!state.initialized) .alreadyInitialized
  let filesystem ← demand rootFilesystem .noRootFilesystem
  require (validFilesystem filesystem) .invalidArgument
  checkMountRoot filesystem
  fun world => (.ok (), { world with state := rootState filesystem })

def mount (context : Option PathContext) (target : Option Text)
    (filesystem : Option (FileSystem ε)) : Call ε MountHandle := do
  let state ← getState
  require state.initialized .notInitialized
  let filesystem ← demand filesystem .invalidArgument
  require (validFilesystem filesystem) .invalidArgument
  let (slot, generation) ← demand (findMountSlot state) .mountTableFull
  let normalized ← ofExcept (normalizePath context target)
  require (!(exactNonRootMount state normalized.value || normalized.value = [separator]))
    .alreadyExists
  let vnode ← lookupCanonical normalized
  require (directoryLike vnode.info.type) .notDirectory
  checkMountRoot filesystem
  setMount slot ⟨true, generation, normalized.value, some filesystem⟩
  pure ⟨slot + 1, generation⟩

/-- Another active mount lies at or below the mount in the slot. -/
def mountBeneath (index : ℕ) : Bool :=
  (range maxMounts).any fun slot =>
    slot ≠ 0 && slot ≠ index && (state.mounts slot).active &&
      pathIsComponentPrefix (state.mounts index).path (state.mounts slot).path

def mountInUse (index : ℕ) : Bool :=
  (range maxOpenFiles).any fun slot =>
    (state.openFiles slot).active && (state.openFiles slot).mountSlot = index &&
      (state.openFiles slot).mountGeneration = (state.mounts index).generation

/-- The `sync` of a backend, if it has one. -/
def syncBackend : Call ε Unit :=
  match filesystem.bind FileSystem.sync with
  | none => pure ()
  | some sync => backend sync

/-- A mount is removed when nothing is mounted beneath it, no file on it is open and its
backend has been synchronised. The root is never removed. -/
def unmount (handle : MountHandle) : Call ε Unit := do
  let state ← getState
  let index ← ofExcept (validateMountHandle state handle)
  require (index ≠ 0) .rootProtected
  require (!mountBeneath state index) .busy
  require (!mountInUse state index) .busy
  let entry := state.mounts index
  syncBackend entry.filesystem
  setMount index { generation := entry.generation }

/-! ## Open files -/

def validOpenFlags (flags : Flags) : Bool :=
  flags &&& ~~~knownOpenFlags = 0 && (hasFlag flags readFlag || hasFlag flags writeFlag) &&
    (!hasFlag flags appendFlag || hasFlag flags writeFlag)

/-- The open file that `open` publishes, on the mount with the handle. -/
def newOpenFile (generation : ℕ) (flags : Flags) (mount : MountHandle) (info : FileStat)
    (backendFile : BackendFile) (globalPath : List UInt8) : OpenFile where
  active := true
  generation
  referenceCount := 1
  flags
  offset := if hasFlag flags appendFlag then info.size else 0
  mountSlot := mount.slot - 1
  mountGeneration := mount.generation
  type := info.type
  nodeFlags := info.flags
  backendFile
  globalPath

/-- `handleGiven` says whether there is a place to store the handle. -/
def openPath (context : Option PathContext) (path : Option Text) (flags : Flags)
    (handleGiven : Bool) : Call ε OpenFileHandle := do
  let state ← getState
  require state.initialized .notInitialized
  require handleGiven .invalidArgument
  require (validOpenFlags flags) .invalidFlags
  let (slot, generation) ← demand (findOpenSlot state) .openFileTableFull
  let normalized ← ofExcept (normalizePath context path)
  let route ← ofExcept (routePath state normalized)
  let entry := state.mounts route.mountIndex
  let openFile ← demand (entry.filesystem.bind FileSystem.openFile) .unsupported
  require (!(hasFlag flags writeFlag && entry.filesystem.any FileSystem.isReadOnly)) .readOnly
  let vnode ← lookupCanonical normalized
  require (!(hasFlag flags directoryFlag && !directoryLike vnode.info.type)) .notDirectory
  require (!(!hasFlag flags directoryFlag && directoryLike vnode.info.type)) .isDirectory
  let backendFile ← backend (openFile route.backendPath flags)
  record (.opened ⟨route.mountIndex, entry.generation, backendFile⟩)
  setOpenFile slot <|
    newOpenFile generation flags ⟨route.mountIndex + 1, entry.generation⟩ vnode.info backendFile
      normalized.value
  pure ⟨slot + 1, generation⟩

def OpenFile.key (file : OpenFile) : BackendKey :=
  ⟨file.mountSlot, file.mountGeneration, file.backendFile⟩

variable (handle : OpenFileHandle)

def retain : Call ε Unit := do
  let state ← getState
  let index ← ofExcept (validateOpenHandle state handle)
  let file := state.openFiles index
  require (file.referenceCount ≠ uint32Max) .arithmeticOverflow
  setOpenFile index { file with referenceCount := file.referenceCount + 1 }

/-- The `close` of the backend; every mount with open files has one. -/
def closeBackend (file : OpenFile) : Call ε Unit :=
  match filesystem.bind FileSystem.closeFile with
  | none => pure ()
  | some closeFile => do
      backend fun environment => (.ok (), closeFile file.backendFile environment)
      record (.closed file.key)

/-- Give up one reference; the last one closes the file of the backend. The slot keeps its
generation, which makes the old handles stale. -/
def close : Call ε Unit := do
  let state ← getState
  let index ← ofExcept (validateOpenHandle state handle)
  let file := state.openFiles index
  require (file.referenceCount ≠ 0) .backendFailure
  if file.referenceCount > 1 then
    setOpenFile index { file with referenceCount := file.referenceCount - 1 }
  else do
    closeBackend (state.mounts file.mountSlot).filesystem file
    setOpenFile index { generation := file.generation }

def requestOverflows (offset size : ℕ) : Bool := size > uint64Max - offset

/-- `bufferGiven` says whether the buffer pointer is not null. -/
def read (bufferGiven : Bool) (size : ℕ) :
    Call ε (List UInt8 × ℕ) := do
  let state ← getState
  let index ← ofExcept (validateOpenHandle state handle)
  let file := state.openFiles index
  let filesystem := (state.mounts file.mountSlot).filesystem
  require (hasFlag file.flags readFlag) .permissionDenied
  require (!directoryLike file.type) .isDirectory
  require (bufferGiven || size = 0) .invalidArgument
  if size = 0 then pure ([], 0)
  else do
    let readFile ← demand (filesystem.bind FileSystem.readFile) .unsupported
    require (!requestOverflows file.offset size) .arithmeticOverflow
    let (data, completed) ← backend (readFile file.backendFile file.offset size)
    require (completed ≤ size) .backendFailure
    setOpenFile index { file with offset := file.offset + completed }
    pure (data, completed)

/-- The size that `stat_open` of a backend returns, with the checks on what it returns. -/
def backendSize (file : BackendFile) : Call ε ℕ := do
  let statOpen ← demand (filesystem.bind FileSystem.statOpen) .unsupported
  let info ← backend (statOpen file)
  require (validBackendStat info) .backendFailure
  pure info.size

/-- A file opened for appending is written at its end, any other at its offset. -/
def writeOffset (file : OpenFile) : Call ε ℕ :=
  if hasFlag file.flags appendFlag then backendSize filesystem file.backendFile
  else pure file.offset

/-- The buffer is `none` when its pointer is null; the call is then one of `size` bytes. -/
def write (buffer : Option (List UInt8)) (size : ℕ) : Call ε ℕ := do
  let state ← getState
  let index ← ofExcept (validateOpenHandle state handle)
  let file := state.openFiles index
  let filesystem := (state.mounts file.mountSlot).filesystem
  require (hasFlag file.flags writeFlag) .permissionDenied
  require (!directoryLike file.type) .isDirectory
  require (!filesystem.any FileSystem.isReadOnly) .readOnly
  require (buffer.isSome || size = 0) .invalidArgument
  if size = 0 then pure 0
  else do
    let writeFile ← demand (filesystem.bind FileSystem.writeFile) .unsupported
    let offset ← writeOffset filesystem file
    require (!requestOverflows offset size) .arithmeticOverflow
    let completed ← backend (writeFile file.backendFile offset ((buffer.getD []).take size))
    require (completed ≤ size) .backendFailure
    setOpenFile index { file with offset := offset + completed }
    pure completed

inductive SeekOrigin
  | start
  | current
  | finish
  | other

/-- The sum, when it is an unsigned 64-bit number. -/
def addSignedOffset (base : ℕ) (delta : ℤ) : Except Status ℕ :=
  if 0 ≤ delta then
    if delta.toNat > uint64Max - base then .error .arithmeticOverflow
    else .ok (base + delta.toNat)
  else if (-delta).toNat > base then .error .outOfRange
  else .ok (base - (-delta).toNat)

def seekBase (file : OpenFile) : SeekOrigin → Call ε ℕ
  | .start => pure 0
  | .current => pure file.offset
  | .finish => backendSize filesystem file.backendFile
  | .other => fail .invalidArgument

def seek (offset : ℤ) (origin : SeekOrigin) : Call ε ℕ := do
  let state ← getState
  let index ← ofExcept (validateOpenHandle state handle)
  let file := state.openFiles index
  let filesystem := (state.mounts file.mountSlot).filesystem
  require (hasFlag file.nodeFlags seekableFlag) .notSeekable
  let base ← seekBase filesystem file origin
  let candidate ← ofExcept (addSignedOffset base offset)
  setOpenFile index { file with offset := candidate }
  pure candidate

def validDirectoryEntry (entry : DirectoryEntry) : Bool :=
  let name := (range entry.nameLength).map entry.name
  if entry.nameLength = 0 || entry.nameLength > maxNameLength || entry.name entry.nameLength ≠ 0 ||
      !validBackendStat entry.info then
    false
  else if name = dot || name = dotDot then false
  else name.all fun byte => byte ≠ 0 && byte ≠ separator

def directoryChildPath (directory : List UInt8) (entry : DirectoryEntry) : Option (List UInt8) :=
  let gap := if directory.length = 1 then [] else [separator]
  if directory.length > maxPathLength - gap.length ∨
      entry.nameLength > maxPathLength - directory.length - gap.length then
    none
  else some (directory ++ gap ++ (range entry.nameLength).map entry.name)

/-- `readdir`, with a place to store the entry. -/
def readEntry : Call ε DirectoryEntry := do
  let state ← getState
  let index ← ofExcept (validateOpenHandle state handle)
  let file := state.openFiles index
  require (directoryLike file.type && hasFlag file.flags directoryFlag) .notDirectory
  require (hasFlag file.flags readFlag) .permissionDenied
  let readdir ← demand ((state.mounts file.mountSlot).filesystem.bind FileSystem.readdir)
    .unsupported
  let (entry, nextCookie) ← backend (readdir file.backendFile file.offset)
  require (validDirectoryEntry entry && nextCookie ≠ file.offset) .backendFailure
  let child ← demand (directoryChildPath file.globalPath entry) .backendFailure
  setOpenFile index { file with offset := nextCookie }
  pure (if exactNonRootMount state child then
    { entry with info := { entry.info with type := .mountPoint } } else entry)

/-- `entryGiven` says whether there is a place to store the entry. -/
def readdir (entryGiven : Bool) : Call ε DirectoryEntry := do
  require entryGiven .invalidArgument
  readEntry handle

/-! ## Path contexts -/

def initializePathContext : Call ε PathContext := do
  let state ← getState
  require state.initialized .notInitialized
  pure globalContext

section

variable (context : PathContext) (path : Option Text)

/-- The checks that `chdir` and `chroot` share: the path leads to a directory. -/
def findDirectory : Call ε NormalizedPath := do
  let state ← getState
  require state.initialized .notInitialized
  let normalized ← ofExcept (normalizePath (some context) path)
  let vnode ← lookupCanonical normalized
  require (directoryLike vnode.info.type) .notDirectory
  pure normalized

def chdir : Call ε PathContext := do
  let normalized ← findDirectory context path
  pure { context with cwd := terminated normalized.value }

def chroot : Call ε PathContext := do
  let normalized ← findDirectory context path
  pure ⟨terminated normalized.value, terminated normalized.value⟩

end

end Kurogane.Vfs
