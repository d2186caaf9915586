/-
# Formatting, mounting and recovery

`format`, `mount` and what they call.
-/

import Kurogane.KuroFS.Writer

namespace Kurogane.KuroFS

open Storage

/-! ## Format -/

variable (device : Device) (geometry : Geometry)

def clearTableLoop : ℕ → ℕ → KProg Status Unit
  | 0, _ => pure ()
  | remaining + 1, block => do
    writeOne device (geometry.inodeTableStart + block) Buffer.zero
    clearTableLoop remaining (block + 1)

/-- The inode of an empty root directory. -/
def freshRoot : Inode where
  id := rootInodeId
  type := .directory
  flags := 0
  size := 0
  extentStart := 0
  extentBlocks := 0
  linkCount := 1
  generation := 1
  revision := 1

def initializeInodeTable : KProg Status Unit := do
  clearTableLoop device geometry geometry.inodeTableBlocks 0
  writeOne device geometry.inodeTableStart
    (Buffer.zero.splice 0 128 (encodeInode freshRoot))

/-- Mark the metadata blocks among those a bitmap sector represents. -/
def markMetadata (firstRepresented : ℕ) : ℕ → ℕ → Buffer → Buffer
  | 0, _, sector => sector
  | remaining + 1, bit, sector =>
    let block := firstRepresented + bit
    if block ≥ geometry.totalBlocks then sector
    else if block < geometry.dataStart then
      markMetadata firstRepresented remaining (bit + 1)
        (Function.update sector (bit / 8) (sector (bit / 8) ||| 1 <<< UInt8.ofNat (bit % 8)))
    else markMetadata firstRepresented remaining (bit + 1) sector

def bitmapLoop : ℕ → ℕ → KProg Status Unit
  | 0, _ => pure ()
  | remaining + 1, bitmapIndex => do
    writeOne device (geometry.allocationBitmapStart + bitmapIndex)
      (markMetadata geometry (bitmapIndex * 4096) 4096 0 Buffer.zero)
    bitmapLoop remaining (bitmapIndex + 1)

def initializeBitmap : KProg Status Unit :=
  bitmapLoop device geometry geometry.allocationBitmapBlocks 0

/-- The inode table and the bitmap are written first, then the two superblocks, the secondary
one before the primary one and each of them flushed. -/
def format (device : Device) (inodeCount : UInt32) : KProg Status Unit :=
  if inodeCount = 0 then .fail .invalidArgument
  else if !device.valid then .fail .blockDeviceError
  else
    match calculateGeometry device inodeCount.toNat with
    | .error status => .fail status
    | .ok geometry => do
      initializeInodeTable device geometry
      initializeBitmap device geometry
      writeOne device 1 (encodeSuperblock geometry none)
      flushDevice device
      writeOne device 0 (encodeSuperblock geometry none)
      flushDevice device

/-! ## Recovery of an interrupted move -/

def inodeMatchesMoveParent (inode : Inode) (parent : MoveParent) (after : Bool) : Bool :=
  inode.id == parent.id && inode.type == .directory && inode.generation == parent.generation &&
    inode.linkCount == 1 &&
    inode.revision == parent.revisionBefore + (if after then 1 else 0) &&
    inode.size == (if after then parent.sizeAfter else parent.sizeBefore) &&
    inode.extentStart == (if after then parent.extentStartAfter else parent.extentStartBefore) &&
    inode.extentBlocks == (if after then parent.extentBlocksAfter else parent.extentBlocksBefore)

def makeMoveParentAfter (before : Inode) (parent : MoveParent) : Inode :=
  { before with
    size := parent.sizeAfter
    extentStart := parent.extentStartAfter
    extentBlocks := parent.extentBlocksAfter }

variable (fs : FileSystem)

section

variable (device : Device) (image : Image) (inodeId : ℕ) (move : MoveIntent)
  (source destination : Inode)

/-- The two parents named by an intent whose child is still there. -/
def readMoveParents : Except Status (Inode × Inode) :=
  match readInode fs image move.childId with
  | .error _ => .error .corruptDirectory
  | .ok child =>
    if child.generation ≠ move.childGeneration ∨ child.type ≠ move.childType then
      .error .corruptDirectory
    else
      match readInode fs image move.source.id with
      | .error status => .error status
      | .ok source =>
        match readInode fs image move.destination.id with
        | .error status => .error status
        | .ok destination => .ok (source, destination)

def releaseMoveExtent (firstBlock blockCount : ℕ) : KProg Status Unit :=
  if blockCount = 0 then pure () else releaseExtent fs firstBlock blockCount

/-- Drop an intent neither of whose parents was published. -/
def abortMove : KProg Status Unit := do
  writeSuperblockPair fs fs.geometry none
  releaseMoveExtent fs move.source.extentStartAfter move.source.extentBlocksAfter
  releaseMoveExtent fs move.destination.extentStartAfter move.destination.extentBlocksAfter

/-- Drop an intent both of whose parents were published. -/
def finishMove : KProg Status Unit :=
  if !inodeMatchesMoveParent source move.source true ||
      !inodeMatchesMoveParent destination move.destination true then .fail .corruptDirectory
  else do
    writeSuperblockPair fs fs.geometry none
    releaseMoveExtent fs move.source.extentStartBefore move.source.extentBlocksBefore
    releaseMoveExtent fs move.destination.extentStartBefore move.destination.extentBlocksBefore

/-- Complete an intent whose destination was published. -/
def completeMove
    (sourceBefore destinationAfter : Bool) : KProg Status Unit :=
  if sourceBefore && destinationAfter then do
    let source ← updateInode fs (makeMoveParentAfter source move.source)
    finishMove fs move source destination
  else finishMove fs move source destination

/-- A move publishes its destination before its source. Which of the two carries its new
revision tells how far it came: it is undone, completed or only cleared away, and any other
combination is corrupt. -/
def recoverMoveIntent : KProg Status Unit := do
  let (source, destination) ← .read fun image => readMoveParents fs image move
  let sourceBefore := inodeMatchesMoveParent source move.source false
  let sourceAfter := inodeMatchesMoveParent source move.source true
  let destinationBefore := inodeMatchesMoveParent destination move.destination false
  let destinationAfter := inodeMatchesMoveParent destination move.destination true
  if sourceBefore && destinationBefore then abortMove fs move
  else if sourceAfter && destinationBefore then .fail .corruptDirectory
  else if !sourceBefore && !sourceAfter then .fail .corruptDirectory
  else if !destinationBefore && !destinationAfter then .fail .corruptDirectory
  else completeMove fs move source destination sourceBefore destinationAfter

/-! ## Mount -/

/-- The flags an inode has to carry, and `none` where they need no change. -/
def normalizedInode : Except Status (Option Inode) :=
  match readInode fs image inodeId with
  | .error .notFound => .ok none
  | .error status => .error status
  | .ok inode =>
    if !validInodeOwnershipFlags inode.flags then .error .invalidInodeMetadata
    else if inodeId = rootInodeId then
      if inode.flags ≠ 0 then .error .invalidInodeMetadata else .ok none
    else
      match findUniqueParent fs image inodeId with
      | .ok _ => .ok (if inode.flags = 0 then none else some { inode with flags := 0 })
      | .error .notFound =>
        .ok (if inode.flags = inodeFlagOrphan then none
          else some { inode with flags := inodeFlagOrphan })
      | .error status => .error status

/-- Publish the flags an inode has to carry. -/
def normalizeSlot : KProg Status Unit := do
  match ← .read fun image => normalizedInode fs image inodeId with
  | none => pure ()
  | some inode =>
    let _ ← updateInode fs inode

def normalizeLoop : ℕ → ℕ → KProg Status Unit
  | 0, _ => pure ()
  | remaining + 1, inodeId => do
    normalizeSlot fs inodeId
    normalizeLoop remaining (inodeId + 1)

/-- Every inode is marked as an orphan or not, by whether a directory names it. This is how an
inode that was reserved when the machine stopped is found again. -/
def normalizeInodeOwnership : KProg Status FileSystem := do
  let fs ← Prog.mapError Prod.fst <| ensureFeature fs featureInodeOwnership
  normalizeLoop fs fs.geometry.inodeCount rootInodeId
  pure fs

/-- The geometry and the intent that `mount` goes by: those of the newer generation. If only
one copy can be read, it counts; two copies of one generation must agree. -/
def selectSuperblock : Except Status SuperblockState :=
  match readSuperblockCopy device image 0, readSuperblockCopy device image 1 with
  | .error primary, .error secondary =>
    if primary = .blockDeviceError ∨ secondary = .blockDeviceError then
      .error .blockDeviceError
    else .error .invalidSuperblock
  | .ok primary, .error _ => .ok primary
  | .error _, .ok secondary => .ok secondary
  | .ok primary, .ok secondary =>
    if primary.geometry.generation = secondary.geometry.generation ∧
        primary.geometry ≠ secondary.geometry then .error .corruptSuperblock
    else
      let selected :=
        if primary.geometry.generation ≥ secondary.geometry.generation then primary.geometry
        else secondary.geometry
      let primaryMove := if primary.geometry = selected then primary.move else none
      let secondaryMove := if secondary.geometry = selected then secondary.move else none
      if primaryMove.isSome ∧ secondaryMove.isSome ∧ primaryMove ≠ secondaryMove then
        .error .corruptSuperblock
      else .ok ⟨selected, secondaryMove.or primaryMove⟩

/-- The checks `mount` makes last. -/
def checkMounted : Except Status Unit :=
  match readInode fs image fs.geometry.rootInode with
  | .error _ => .error .invalidRootInode
  | .ok root =>
    if root.type ≠ .directory then .error .invalidRootInode
    else validateConsistency fs image

/-- Finish or undo the move an active intent records. -/
def recover : Option MoveIntent → KProg Status Unit
  | none => pure ()
  | some move => recoverMoveIntent fs move

/-- What `mount` does once no intent is active. -/
def finishMount (candidate : FileSystem) : KProg Status FileSystem := do
  let candidate ← normalizeInodeOwnership candidate
  .read fun image => checkMounted candidate image
  pure candidate

/-- Select a superblock, recover an interrupted move, put the flags of the inodes right and
check the whole volume. The handle is returned only if all of this succeeds. -/
def mount : KProg Status FileSystem :=
  if device.sectorSize ≠ 512 then .fail .unsupportedSectorSize
  else if !device.valid then .fail .blockDeviceError
  else do
    let selected ← .read fun image => selectSuperblock device image
    let candidate : FileSystem := ⟨device, selected.geometry, true⟩
    recover candidate selected.move
    finishMount candidate

end

end Kurogane.KuroFS
