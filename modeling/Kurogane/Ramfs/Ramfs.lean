/-
# The memory file system

The file system of `src/kernel/fs/ramfs.cpp`: file entries linked by parent
pointers and child arrays, one counter of nodes and one of file bytes. A pointer
to an entry is the number of the `kmalloc` call that returned it. Which calls
succeed is a parameter, so that allocations may fail in any pattern.
-/

import Mathlib.Algebra.GroupWithZero.Nat
import Mathlib.Data.Fintype.Basic

namespace Kurogane.Ramfs

def ramfsMaxNameLength : ℕ := 63
def ramfsMaxPathLength : ℕ := 255
def ramfsMaxPathDepth : ℕ := 32
def ramfsMaxChildren : ℕ := 64
def ramfsMaxNodes : ℕ := 256
def ramfsMaxFileSize : ℕ := 64 * 1024
def ramfsMaxTotalFileBytes : ℕ := 1024 * 1024
def ramfsMaxPathComponents : ℕ := (ramfsMaxPathLength + 1) / 2

inductive Status
  | ok
  | notInitialized
  | invalidArgument
  | invalidPath
  | pathTooLong
  | nameTooLong
  | pathTooDeep
  | notFound
  | alreadyExists
  | notDirectory
  | isDirectory
  | directoryNotEmpty
  | rootProtected
  | fileTooLarge
  | tooManyChildren
  | tooManyNodes
  | storageLimitReached
  | outOfMemory
  | wouldCreateCycle
  deriving DecidableEq

abbrev PathComponent := List UInt8

/-- Text and data are read through a pointer, which may be null. -/
abbrev Source := Option (ℕ → UInt8)

/-- `content` holds the bytes in front of the terminator, `children` the used part of the child
array. -/
structure FileEntry where
  name : PathComponent
  content : List UInt8 := []
  size : ℕ := 0
  capacity : ℕ := 0
  isDirectory : Bool
  children : List ℕ := []
  childCapacity : ℕ := 0
  parent : Option ℕ := none

structure State where
  entries : ℕ → FileEntry
  root : Option ℕ
  nodeCount : ℕ
  totalFileBytes : ℕ
  lastStatus : Status
  calls : ℕ

def State.modify (s : State) (entry : ℕ) (change : FileEntry → FileEntry) : State :=
  { s with entries := Function.update s.entries entry (change (s.entries entry)) }

def finish (result : Status × State) : Status × State :=
  (result.1, { result.2 with lastStatus := result.1 })

/-! ## Paths -/

def separator : UInt8 := 47
def dot : PathComponent := [46]
def dotDot : PathComponent := [46, 46]

structure ParsedPath where
  components : List PathComponent
  trailingSeparator : Bool

def boundedLength (text : ℕ → UInt8) (maximum : ℕ) (tooLong : Status) : Except Status ℕ :=
  match (List.range (maximum + 1)).find? fun index => text index == 0 with
  | some length => .ok length
  | none => .error tooLong

/-- The checks of `parse_path` on the components in their order. -/
def checkComponents : List PathComponent → (logicalDepth count : ℕ) → Except Status Unit
  | [], _, _ => .ok ()
  | component :: rest, logicalDepth, count =>
    if component.length > ramfsMaxNameLength then .error .nameTooLong
    else if component = dotDot then
      if logicalDepth = 0 then .error .invalidPath
      else if count = ramfsMaxPathComponents then .error .pathTooDeep
      else checkComponents rest (logicalDepth - 1) (count + 1)
    else if component = dot then
      if count = ramfsMaxPathComponents then .error .pathTooDeep
      else checkComponents rest logicalDepth (count + 1)
    else if logicalDepth = ramfsMaxPathDepth then .error .pathTooDeep
    else if count = ramfsMaxPathComponents then .error .pathTooDeep
    else checkComponents rest (logicalDepth + 1) (count + 1)

def parsePath : Source → Except Status ParsedPath
  | none => .error .invalidArgument
  | some text =>
    match boundedLength text ramfsMaxPathLength .pathTooLong with
    | .error status => .error status
    | .ok length =>
      if length = 0 then .error .invalidPath
      else
        let components := (((List.range length).map text).splitOn separator).filter (· ≠ [])
        match checkComponents components 0 0 with
        | .error status => .error status
        | .ok () => .ok ⟨components, text (length - 1) == separator⟩

variable (s : State)

def findChild (parent : ℕ) (component : PathComponent) : Option ℕ :=
  if !(s.entries parent).isDirectory then none
  else (s.entries parent).children.find? fun child => (s.entries child).name == component

def resolveFrom (root : ℕ) : ℕ → List PathComponent → Except Status ℕ
  | current, [] => .ok current
  | current, component :: rest =>
    if !(s.entries current).isDirectory then .error .notDirectory
    else if component = dot then resolveFrom root current rest
    else if component = dotDot then
      if current = root then .error .invalidPath
      else
        match (s.entries current).parent with
        | none => .error .invalidPath
        | some parent => resolveFrom root parent rest
    else
      match findChild s current component with
      | none => .error .notFound
      | some child => resolveFrom root child rest

def resolveComponents (components : List PathComponent) : Except Status ℕ :=
  match s.root with
  | none => .error .notInitialized
  | some root => resolveFrom s root root components

def resolvePath (path : Source) : Except Status ℕ :=
  match parsePath path with
  | .error status => .error status
  | .ok parsed =>
    match resolveComponents s parsed.components with
    | .error status => .error status
    | .ok entry =>
      if parsed.trailingSeparator && !(s.entries entry).isDirectory then .error .notDirectory
      else .ok entry

/-! ## Entries -/

variable (grants : ℕ → Bool)

/-- The next call of the allocator, which returns its own number unless it fails. -/
def kmalloc (s : State) : Option ℕ × State :=
  (if grants s.calls then some s.calls else none, { s with calls := s.calls + 1 })

def allocateEntry (name : PathComponent) (isDirectory : Bool) (s : State) : Option ℕ × State :=
  if s.nodeCount ≥ ramfsMaxNodes then (none, s)
  else
    match kmalloc grants s with
    | (none, s) => (none, s)
    | (some entry, s) =>
      let s := s.modify entry fun _ => { name := name, isDirectory := isDirectory }
      if isDirectory then (some entry, { s with nodeCount := s.nodeCount + 1 })
      else
        match kmalloc grants s with
        | (none, s) => (none, s)
        | (some _, s) =>
          let s := s.modify entry fun fresh => { fresh with capacity := 1 }
          (some entry, { s with nodeCount := s.nodeCount + 1 })

def ensureChildCapacity (directory : ℕ) (s : State) : Status × State :=
  if !(s.entries directory).isDirectory then (.notDirectory, s)
  else if (s.entries directory).children.length ≥ ramfsMaxChildren then (.tooManyChildren, s)
  else if (s.entries directory).children.length < (s.entries directory).childCapacity then (.ok, s)
  else
    let newCapacity := if (s.entries directory).childCapacity = 0 then 4
      else (s.entries directory).childCapacity * 2
    match kmalloc grants s with
    | (none, s) => (.outOfMemory, s)
    | (some _, s) =>
      (.ok, s.modify directory fun entry =>
        { entry with childCapacity := min newCapacity ramfsMaxChildren })

/-- Put the child behind the last one and set its parent pointer. -/
def linkChild (parent child : ℕ) (s : State) : State :=
  (s.modify parent fun entry => { entry with children := entry.children ++ [child] }).modify child
    fun entry => { entry with parent := some parent }

def attachChild (parent child : ℕ) (s : State) : Status × State :=
  match ensureChildCapacity grants parent s with
  | (.ok, s) => (.ok, linkChild parent child s)
  | (status, s) => (status, s)

def detachChild (parent : Option ℕ) (child : ℕ) (s : State) : State :=
  match parent with
  | none => s
  | some parent =>
    if child ∈ (s.entries parent).children then
      (s.modify parent fun entry =>
        { entry with children := entry.children.erase child }).modify child
          fun entry => { entry with parent := none }
    else s

/-- The end of `destroy_subtree`: the counters go down and the storage is given back. -/
def releaseEntry (entry : ℕ) (s : State) : State :=
  { s with
    totalFileBytes :=
      if (s.entries entry).isDirectory then s.totalFileBytes
      else s.totalFileBytes - (s.entries entry).size
    nodeCount := s.nodeCount - 1 }

/-- Going around the loop of `destroy_subtree` is entering it again with one child less. A call
takes at most one step per entry and one per child. -/
def destroyFrom : ℕ → ℕ → State → State
  | 0, _, s => s
  | fuel + 1, entry, s =>
    match (s.entries entry).children.getLast? with
    | some child =>
      destroyFrom fuel entry (destroyFrom fuel child
        (s.modify entry fun entry => { entry with children := entry.children.dropLast }))
    | none => releaseEntry entry s

def destroySubtree (entry : ℕ) (s : State) : State := destroyFrom (2 * ramfsMaxNodes) entry s

/-! ## Creating and writing -/

def createEntry (path : Source) (isDirectory : Bool) (s : State) : Except Status ℕ × State :=
  if s.root = none then (.error .notInitialized, s)
  else
    match parsePath path with
    | .error status => (.error status, s)
    | .ok parsed =>
      match parsed.components.getLast? with
      | none => (.error .rootProtected, s)
      | some final =>
        if final = dot ∨ final = dotDot then (.error .invalidPath, s)
        else if parsed.trailingSeparator && !isDirectory then (.error .invalidPath, s)
        else if s.nodeCount ≥ ramfsMaxNodes then (.error .tooManyNodes, s)
        else
          match resolveComponents s parsed.components.dropLast with
          | .error status => (.error status, s)
          | .ok parent =>
            if !(s.entries parent).isDirectory then (.error .notDirectory, s)
            else if (findChild s parent final).isSome then (.error .alreadyExists, s)
            else if (s.entries parent).children.length ≥ ramfsMaxChildren then
              (.error .tooManyChildren, s)
            else
              match allocateEntry grants final isDirectory s with
              | (none, s) =>
                (.error (if s.nodeCount ≥ ramfsMaxNodes then .tooManyNodes
                  else .outOfMemory), s)
              | (some entry, s) =>
                match attachChild grants parent entry s with
                | (.ok, s) => (.ok entry, s)
                | (status, s) => (.error status, { s with nodeCount := s.nodeCount - 1 })

/-- The bytes behind a pointer that is not read when there are none. -/
def bytesOf (data : Source) (size : ℕ) : List UInt8 := (List.range size).map (data.getD fun _ => 0)

/-- The end of `write_entry`, with the content in a buffer of the given capacity. -/
def publishContent (entry : ℕ) (data : Source) (size capacity : ℕ) (s : State) : State :=
  { s with
    entries := Function.update s.entries entry
      { s.entries entry with content := bytesOf data size, size := size, capacity := capacity }
    totalFileBytes := s.totalFileBytes - (s.entries entry).size + size }

def writeEntry (entry : ℕ) (data : Source) (size : ℕ) (s : State) : Status × State :=
  if (s.entries entry).isDirectory then (.isDirectory, s)
  else if data = none ∧ size ≠ 0 then (.invalidArgument, s)
  else if size > ramfsMaxFileSize then (.fileTooLarge, s)
  else if (s.entries entry).size > s.totalFileBytes then (.storageLimitReached, s)
  else if size > ramfsMaxTotalFileBytes - (s.totalFileBytes - (s.entries entry).size) then
    (.storageLimitReached, s)
  else
    let capacity := (s.entries entry).capacity
    if size + 1 > capacity ∨ size + 1 < capacity ∧ size + 1 ≤ capacity / 2 then
      match kmalloc grants s with
      | (none, s) => (.outOfMemory, s)
      | (some _, s) => (.ok, publishContent entry data size (size + 1) s)
    else (.ok, publishContent entry data size capacity s)

/-! ## Destinations -/

structure Destination where
  parent : ℕ
  name : PathComponent
  existing : Option ℕ

def resolveDestination (path : Source) (sourceIsDirectory : Bool) : Except Status Destination :=
  match parsePath path with
  | .error status => .error status
  | .ok parsed =>
    match parsed.components.getLast? with
    | none => .error .rootProtected
    | some final =>
      if final = dot ∨ final = dotDot ∨ parsed.trailingSeparator ∧ !sourceIsDirectory then
        .error .invalidPath
      else
        match resolveComponents s parsed.components.dropLast with
        | .error status => .error status
        | .ok parent =>
          if !(s.entries parent).isDirectory then .error .notDirectory
          else .ok ⟨parent, final, findChild s parent final⟩

/-- The entries from one up the parent pointers. There are at most as many as nodes. -/
def climb : ℕ → ℕ → List ℕ
  | 0, _ => []
  | fuel + 1, entry =>
    entry :: match (s.entries entry).parent with
      | none => []
      | some parent => climb fuel parent

def isSameOrDescendant (possibleDescendant ancestor : ℕ) : Bool :=
  (climb s ramfsMaxNodes possibleDescendant).contains ancestor

/-- The entries from one up to the root, without the root. -/
def climbToRoot (entry : ℕ) : List ℕ :=
  (climb s ramfsMaxNodes entry).takeWhile fun current => some current != s.root

def entryDepth (entry : ℕ) : ℕ := (climbToRoot s entry).length

def entryPathLength (entry : ℕ) : ℕ :=
  if some entry = s.root then 1
  else ((climbToRoot s entry).map fun current => (s.entries current).name.length + 1).sum

/-- `levels` is how many levels the depth may still go down, that one included. -/
def subtreeFitsAt : (levels : ℕ) → (entry pathLength : ℕ) → Except Status Unit
  | 0, _, _ => .error .pathTooDeep
  | levels + 1, entry, pathLength =>
    if pathLength > ramfsMaxPathLength then .error .pathTooLong
    else (s.entries entry).children.forM fun child =>
      if pathLength > ramfsMaxPathLength - 1 ∨
          (s.entries child).name.length > ramfsMaxPathLength - pathLength - 1 then
        .error .pathTooLong
      else subtreeFitsAt levels child (pathLength + 1 + (s.entries child).name.length)

def subtreeFitsDestination (entry destinationParent destinationNameLength : ℕ) :
    Except Status Unit :=
  let parentDepth := entryDepth s destinationParent
  let parentLength := entryPathLength s destinationParent
  let separator := if some destinationParent = s.root then 0 else 1
  if parentDepth ≥ ramfsMaxPathDepth then .error .pathTooDeep
  else if parentLength > ramfsMaxPathLength - separator ∨
      destinationNameLength > ramfsMaxPathLength - parentLength - separator then
    .error .pathTooLong
  else
    subtreeFitsAt s (ramfsMaxPathDepth - parentDepth) entry
      (parentLength + separator + destinationNameLength)

/-! ## The operations -/

def initializeRamfs (s : State) : Status × State :=
  finish <|
    if s.root.isSome then (.ok, s)
    else
      match allocateEntry grants [separator] true s with
      | (none, s) => (if s.nodeCount ≥ ramfsMaxNodes then .tooManyNodes else .outOfMemory, s)
      | (some root, s) => (.ok, { s with root := some root })

def createEntryAt (path : Source) (isDirectory : Bool) (s : State) : Status × State :=
  finish <|
    match createEntry grants path isDirectory s with
    | (.ok _, s) => (.ok, s)
    | (.error status, s) => (status, s)

def createFileAt (path : Source) (s : State) : Status × State :=
  createEntryAt grants path false s

def createDirectoryAt (path : Source) (s : State) : Status × State :=
  createEntryAt grants path true s

def writeFileData (path data : Source) (size : ℕ) (createIfMissing : Bool)
    (s : State) : Status × State :=
  finish <|
    if s.root = none then (.notInitialized, s)
    else if data = none ∧ size ≠ 0 then (.invalidArgument, s)
    else if size > ramfsMaxFileSize then (.fileTooLarge, s)
    else
      match resolvePath s path with
      | .ok entry => writeEntry grants entry data size s
      | .error status =>
        if status = .notFound && createIfMissing then
          match createEntry grants path false s with
          | (.error status, s) => (status, s)
          | (.ok entry, s) =>
            match writeEntry grants entry data size s with
            | (.ok, s) => (.ok, s)
            | (status, s) =>
              (status, destroySubtree entry
                (detachChild (s.entries entry).parent entry s))
        else (status, s)

/-- Remove a file, or a directory with all that is in it. A directory that is not empty needs
`recursive`, and the root stays. -/
def removePath (path : Source) (recursive : Bool) (s : State) : Status × State :=
  finish <|
    match resolvePath s path with
    | .error status => (status, s)
    | .ok entry =>
      if some entry = s.root then (.rootProtected, s)
      else if (s.entries entry).isDirectory && !(s.entries entry).children.isEmpty &&
          !recursive then (.directoryNotEmpty, s)
      else (.ok, destroySubtree entry (detachChild (s.entries entry).parent entry s))

def copyFile (sourcePath destinationPath : Source) (s : State) : Status × State :=
  finish <|
    if s.root = none then (.notInitialized, s)
    else
      match resolvePath s sourcePath with
      | .error status => (status, s)
      | .ok source =>
        if (s.entries source).isDirectory then (.isDirectory, s)
        else
          match resolveDestination s destinationPath false with
          | .error status => (status, s)
          | .ok destination =>
            if destination.existing.isSome then (.alreadyExists, s)
            else if s.nodeCount ≥ ramfsMaxNodes then (.tooManyNodes, s)
            else if (s.entries destination.parent).children.length ≥ ramfsMaxChildren then
              (.tooManyChildren, s)
            else if (s.entries source).size > ramfsMaxTotalFileBytes - s.totalFileBytes then
              (.storageLimitReached, s)
            else
              match allocateEntry grants destination.name false s with
              | (none, s) =>
                (if s.nodeCount ≥ ramfsMaxNodes then .tooManyNodes else .outOfMemory, s)
              | (some copy, s) =>
                match writeEntry grants copy
                    (some fun index => (s.entries source).content.getD index 0)
                    (s.entries source).size s with
                | (.ok, s) =>
                  match attachChild grants destination.parent copy s with
                  | (.ok, s) => (.ok, s)
                  | (status, s) => (status, destroySubtree copy s)
                | (status, s) => (status, destroySubtree copy s)

def setEntryName (entry : ℕ) (name : PathComponent) (s : State) : State :=
  s.modify entry fun entry => { entry with name := name }

/-- Rename an entry or move it to another directory. A directory is not moved beneath itself,
and no path of the subtree may become too long or too deep. -/
def movePath (sourcePath destinationPath : Source) (s : State) : Status × State :=
  finish <|
    if s.root = none then (.notInitialized, s)
    else
      match resolvePath s sourcePath with
      | .error status => (status, s)
      | .ok source =>
        if some source = s.root then (.rootProtected, s)
        else
          match resolveDestination s destinationPath (s.entries source).isDirectory with
          | .error status => (status, s)
          | .ok destination =>
            if destination.existing = some source then (.ok, s)
            else if destination.existing.isSome then (.alreadyExists, s)
            else if (s.entries source).isDirectory &&
                isSameOrDescendant s destination.parent source then (.wouldCreateCycle, s)
            else
              match subtreeFitsDestination s source destination.parent
                  destination.name.length with
              | .error status => (status, s)
              | .ok () =>
                if some destination.parent = (s.entries source).parent then
                  (.ok, setEntryName source destination.name s)
                else if (s.entries destination.parent).children.length ≥
                    ramfsMaxChildren then (.tooManyChildren, s)
                else
                  match ensureChildCapacity grants destination.parent s with
                  | (.ok, s) =>
                    (.ok, linkChild destination.parent source
                      (setEntryName source destination.name
                        (detachChild (s.entries source).parent source s)))
                  | (status, s) => (status, s)

/-! ## Runs -/

inductive Request
  | initializeRamfs
  | createFileAt (path : Source)
  | createDirectoryAt (path : Source)
  | writeFileData (path data : Source) (size : ℕ) (createIfMissing : Bool)
  | removePath (path : Source) (recursive : Bool)
  | copyFile (sourcePath destinationPath : Source)
  | movePath (sourcePath destinationPath : Source)

def Request.perform : Request → State → Status × State
  | initializeRamfs => Ramfs.initializeRamfs grants
  | createFileAt path => Ramfs.createFileAt grants path
  | createDirectoryAt path => Ramfs.createDirectoryAt grants path
  | writeFileData path data size createIfMissing =>
    Ramfs.writeFileData grants path data size createIfMissing
  | removePath path recursive => Ramfs.removePath path recursive
  | copyFile sourcePath destinationPath => Ramfs.copyFile grants sourcePath destinationPath
  | movePath sourcePath destinationPath => Ramfs.movePath grants sourcePath destinationPath

/-- Before the first call there is no root, and nothing is known about memory. -/
def initialState (entries : ℕ → FileEntry) : State where
  entries := entries
  root := none
  nodeCount := 0
  totalFileBytes := 0
  lastStatus := .notInitialized
  calls := 0

/-- The states after any sequence of requests. -/
inductive Reachable (grants : ℕ → Bool) (entries : ℕ → FileEntry) : State → Prop
  | start : Reachable grants entries (initialState entries)
  | step {s : State} (request : Request) :
      Reachable grants entries s → Reachable grants entries (request.perform grants s).2

end Kurogane.Ramfs
