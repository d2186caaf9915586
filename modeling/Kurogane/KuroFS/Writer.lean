/-
# Blocks, inodes and file data

The functions of `kernel/fs/kurofs.cpp` that write blocks and single inodes. A
program over the device contents ends with a value where the source returns
`Ok`. Where the source changes a caller's object and can still fail afterwards,
the error carries the object as the caller finds it.
-/

import Kurogane.KuroFS.Reader
import Kurogane.Storage.Program

namespace Kurogane.KuroFS

open Storage

abbrev KProg (E α : Type) := Prog ℕ Buffer E α

/-- Fail unless the check of the current contents succeeds. -/
abbrev KProg.read {E α : Type} (reader : Image → Except E α) : KProg E α := Prog.read reader

def writeOne (device : Device) (block : ℕ) (sector : Buffer) : KProg Status Unit :=
  if device.transferValid block then
    .write block sector fun success => if success then pure () else .fail .blockDeviceError
  else .fail .blockDeviceError

def flushDevice (device : Device) : KProg Status Unit :=
  if device.valid then
    .flush fun success => if success then pure () else .fail .blockDeviceError
  else .fail .blockDeviceError

/-! ## The allocation bitmap -/

/-- Mark the `count` blocks from `block` on in a bitmap sector, refusing a
block that is marked already. -/
def markSegment : ℕ → ℕ → Buffer → Except Status Buffer
  | 0, _, bitmap => .ok bitmap
  | count + 1, block, bitmap =>
    if blockMarked bitmap block then .error .noSpace
    else
      markSegment count (block + 1)
        (Function.update bitmap (block % 4096 / 8)
          (bitmap (block % 4096 / 8) ||| bitmapMask block))

/-- Clear the `count` blocks from `block` on in a bitmap sector. -/
def clearSegment : ℕ → ℕ → Buffer → Buffer
  | 0, _, bitmap => bitmap
  | count + 1, block, bitmap =>
    clearSegment count (block + 1)
      (Function.update bitmap (block % 4096 / 8)
        (bitmap (block % 4096 / 8) &&& ~~~(bitmapMask block)))

/-- The end of the part of `[current, endBlock)` in one bitmap sector, in 64-bit arithmetic. -/
def segmentEnd (current endBlock : ℕ) : ℕ :=
  min endBlock ((current / 4096 + 1) * 4096 % 2 ^ 64)

variable (fs : FileSystem)

section

variable (image : Image) (inode : Inode) (firstBlock blockCount : ℕ)

/-- Each round handles one bitmap sector. -/
def publishLoop (endBlock : ℕ) : ℕ → ℕ → KProg Status Unit
  | 0, _ => pure ()
  | fuel + 1, current =>
    if current < endBlock then
      if current / 4096 ≥ fs.geometry.allocationBitmapBlocks then .fail .invalidGeometry
      else do
        let bitmapBlock := fs.geometry.allocationBitmapStart + current / 4096
        let bitmap ← .read fun image => readOne fs.device image bitmapBlock
        match markSegment (segmentEnd current endBlock - current) current bitmap with
        | .error status => .fail status
        | .ok bitmap => do
          writeOne fs.device bitmapBlock bitmap
          publishLoop endBlock fuel (segmentEnd current endBlock)
    else pure ()

/-- Mark the blocks of an extent as allocated and flush. The bitmap is written a sector at a
time, so that a cut leaves a first part of the extent marked; a block that is marked already
ends the loop. -/
def publishExtentAllocation : KProg Status Unit :=
  match addU64 firstBlock blockCount with
  | none => .fail .invalidGeometry
  | some endBlock =>
    if firstBlock < fs.geometry.dataStart ∨ endBlock > fs.geometry.totalBlocks then
      .fail .invalidGeometry
    else do
      publishLoop fs endBlock blockCount firstBlock
      flushDevice fs.device

def releaseLoop (endBlock : ℕ) : ℕ → ℕ → KProg Status Unit
  | 0, _ => pure ()
  | fuel + 1, current =>
    if current < endBlock then do
      let bitmapBlock := fs.geometry.allocationBitmapStart + current / 4096
      let bitmap ← .read fun image => readOne fs.device image bitmapBlock
      writeOne fs.device bitmapBlock
        (clearSegment (segmentEnd current endBlock - current) current bitmap)
      releaseLoop endBlock fuel (segmentEnd current endBlock)
    else pure ()

/-- Clear the marks of an extent, all of whose blocks must be marked, and flush. Here too a
cut leaves a first part of the work done. -/
def releaseExtent : KProg Status Unit :=
  if blockCount = 0 then .fail .invalidArgument
  else do
    let _ ← .read fun image => validateAllocatedExtent fs image firstBlock blockCount
    match addU64 firstBlock blockCount with
    | none => .fail .arithmeticOverflow
    | some endBlock => do
      releaseLoop fs endBlock blockCount firstBlock
      flushDevice fs.device

/-! ## Extent contents -/

def zeroLoop (firstBlock : ℕ) : ℕ → ℕ → KProg Status Unit
  | 0, _ => pure ()
  | remaining + 1, index =>
    match addU64 firstBlock index with
    | none => .fail .arithmeticOverflow
    | some block => do
      writeOne fs.device block Buffer.zero
      zeroLoop firstBlock remaining (index + 1)

/-- Overwrite an allocated extent with zeros, block by block, and flush once at the end. -/
def zeroExtent : KProg Status Unit := do
  let _ ← .read fun image => validateAllocatedExtent fs image firstBlock blockCount
  zeroLoop fs firstBlock blockCount 0
  flushDevice fs.device

/-- The loop shared by `write_extent_data` and `zero_extent_range`: put the
bytes `content 0, content 1, …` at `offset` of an extent, sector by sector. A
sector that is only partly covered is read first. -/
def patchLoop (firstBlock offset size : ℕ) (content : Buffer) :
    ℕ → ℕ → KProg Status Unit
  | 0, _ => pure ()
  | fuel + 1, done =>
    if done < size then
      match addU64 firstBlock ((offset + done) / 512) with
      | none => .fail .arithmeticOverflow
      | some diskBlock => do
        let inSector := (offset + done) % 512
        let chunk := min (size - done) (512 - inSector)
        let sector ← .read fun image =>
          if inSector ≠ 0 ∨ chunk ≠ 512 then readOne fs.device image diskBlock
          else .ok Buffer.zero
        writeOne fs.device diskBlock (sector.splice inSector chunk (content.slice done))
        patchLoop firstBlock offset size content fuel (done + chunk)
    else pure ()

def zeroExtentRange (firstBlock blockCount offset length : ℕ) :
    KProg Status Unit := do
  let capacity ← .read fun image => validateAllocatedExtent fs image firstBlock blockCount
  match addU64 offset length with
  | none => .fail .arithmeticOverflow
  | some last =>
    if last > capacity then .fail .invalidExtent
    else if length = 0 then pure ()
    else do
      patchLoop fs firstBlock offset length Buffer.zero length 0
      flushDevice fs.device

def writeExtentData (firstBlock blockCount offset : ℕ) (source : List UInt8) : KProg Status Unit :=
  if !fs.mounted then .fail .notMounted
  else do
    let capacity ← .read fun image => validateAllocatedExtent fs image firstBlock blockCount
    match addU64 offset source.length with
    | none => .fail .arithmeticOverflow
    | some last =>
      if last > capacity then .fail .noSpace
      else if source.length = 0 then pure ()
      else do
        patchLoop fs firstBlock offset source.length (fun i => source.getD i 0)
          source.length 0
        flushDevice fs.device

/-- Take the first free extent that is long enough. If marking or clearing it fails, its
blocks may stay marked: nobody gives them back. -/
def allocateBlocks (blockCount : ℕ) : KProg Status ℕ :=
  if blockCount = 0 then .fail .invalidArgument
  else if !fs.mounted then .fail .notMounted
  else if blockCount > fs.geometry.totalBlocks - fs.geometry.dataStart then .fail .noSpace
  else do
    let first ← .read fun image => findFreeExtent fs image blockCount
    publishExtentAllocation fs first blockCount
    -- the range becomes visible only after stale contents have been cleared
    zeroExtent fs first blockCount
    pure first

/-! ## Inode slots -/

/-- Replace the 128 bytes of one slot of the inode table. -/
def writeSlot (inodeId : ℕ) (content : Buffer) : KProg Status Unit := do
  let (tableBlock, offset) ← .read fun _ => locateInode fs inodeId
  let sector ← .read fun image => readOne fs.device image tableBlock
  writeOne fs.device tableBlock (sector.splice offset 128 content)
  flushDevice fs.device

/-- Publish the next revision of an inode by overwriting its slot. The snapshot has to be of
the current generation, revision and type, and the extent it brings has to be allocated. -/
def updateInode : KProg Status Inode :=
  if !fs.mounted then .fail .notMounted
  else if !validInodeOwnershipFlags inode.flags ∨
      (inode.flags ≠ 0 ∧ fs.geometry.featureFlags &&& featureInodeOwnership = 0) then
    .fail .invalidInodeMetadata
  else do
    let current ← .read fun image => readInode fs image inode.id
    if current.generation ≠ inode.generation ∨ current.revision ≠ inode.revision ∨
        current.type ≠ inode.type then .fail .staleInode
    else if current.revision = 2 ^ 32 - 1 then .fail .arithmeticOverflow
    else do
      .read fun image => validateInodeExtent fs image inode
      let candidate := { inode with revision := current.revision + 1 }
      writeSlot fs candidate.id (encodeInode candidate)
      pure candidate

/-! ## Superblocks -/

/-- The secondary copy is written and flushed before the primary one, so that one of the two
is complete wherever the device is cut. -/
def writeSuperblockPair (geometry : Geometry) (move : Option MoveIntent) :
    KProg Status Unit := do
  let superblock := encodeSuperblock geometry move
  writeOne fs.device 1 superblock
  flushDevice fs.device
  writeOne fs.device 0 superblock
  flushDevice fs.device

/-- On success the handle carries the upgraded geometry; on a failed write it is
no longer mounted. -/
def ensureFeature (feature : ℕ) : KProg (Status × FileSystem) FileSystem :=
  if feature = 0 ∨ feature &&& (2 ^ 64 - 1 - supportedFeatures) ≠ 0 then
    .fail (.invalidArgument, fs)
  else if fs.geometry.featureFlags &&& feature = feature then pure fs
  else if fs.geometry.generation = 2 ^ 64 - 1 then .fail (.arithmeticOverflow, fs)
  else do
    let upgraded := { fs.geometry with
      generation := fs.geometry.generation + 1
      featureFlags := fs.geometry.featureFlags ||| feature }
    (writeSuperblockPair fs upgraded none).mapError fun status =>
      (status, { fs with mounted := false })
    pure { fs with geometry := upgraded }

/-! ## Allocating inodes -/

/-- The first free slot of one table sector: its inode and the generation to use.
`none` continues with the next sector. -/
def searchSector (inodeCount relativeBlock : ℕ) (sector : Buffer) :
    ℕ → ℕ → Except Status (Option (ℕ × ℕ))
  | 0, _ => .ok none
  | remaining + 1, offset =>
    let inodeId := (relativeBlock * 512 + offset) / 128 + 1
    if inodeId = rootInodeId then
      searchSector inodeCount relativeBlock sector remaining (offset + 128)
    else if inodeId > inodeCount then .error .noSpace
    else
      match decodeFreeInode (sector.slice offset) inodeId with
      | none => searchSector inodeCount relativeBlock sector remaining (offset + 128)
      | some generation => .ok (some (inodeId, generation))

/-- The first free slot of one table block. -/
def searchTableBlock (relativeBlock : ℕ) : Except Status (Option (ℕ × ℕ)) :=
  match readOne fs.device image (fs.geometry.inodeTableStart + relativeBlock) with
  | .error status => .error status
  | .ok sector => searchSector fs.geometry.inodeCount relativeBlock sector 4 0

/-- The first free slot of the inode table. -/
def findFreeInode : Except Status (ℕ × ℕ) :=
  match searchRange (searchTableBlock fs image) fs.geometry.inodeTableBlocks 0 with
  | .error status => .error status
  | .ok none => .error .noSpace
  | .ok (some found) => .ok found

/-- The inode `allocate_inode` writes to a free slot. -/
def pendingInode (inodeId generation : ℕ) (type : InodeType) : Inode where
  id := inodeId
  type := type
  flags := inodeFlagPending
  size := 0
  extentStart := 0
  extentBlocks := 0
  linkCount := 1
  generation := generation
  revision := 1

/-- Reserve a free slot by writing a pending inode to it, which no directory names yet. The
feature that allows its flag is switched on first if it is missing. -/
def allocateInode (type : InodeType) : KProg (Status × FileSystem) (FileSystem × ℕ) :=
  if !fs.mounted then .fail (.notMounted, fs)
  else do
    let fs ← ensureFeature fs featureInodeOwnership
    let (inodeId, generation) ← Prog.mapError (·, fs) <| .read fun image => findFreeInode fs image
    let tableBlock := fs.geometry.inodeTableStart + (inodeId - 1) * 128 / 512
    let sector ← Prog.mapError (·, fs) <| .read fun image => readOne fs.device image tableBlock
    Prog.mapError (·, fs) <| writeOne fs.device tableBlock
      (sector.splice ((inodeId - 1) * 128 % 512) 128
        (encodeInode (pendingInode inodeId generation type)))
    Prog.mapError (·, fs) <| flushDevice fs.device
    pure (fs, inodeId)

/-! ## File data -/

/-- The copy of `write_inode_data` and `resize_inode`: a sector at a time, and a
short read is an invalid extent. -/
def copyLoop (current : Inode) (extent blocks : ℕ) :
    ℕ → ℕ → KProg Status Unit
  | 0, _ => pure ()
  | fuel + 1, copied =>
    if copied < current.size then do
      let wanted := min (current.size - copied) 512
      let chunk ← .read fun image => readInodeData fs image current copied wanted
      if chunk.length ≠ wanted then .fail .invalidExtent
      else do
        writeExtentData fs extent blocks copied chunk
        copyLoop current extent blocks fuel (copied + chunk.length)
    else pure ()

def copyContents (current : Inode) (extent blocks : ℕ) : KProg Status Unit :=
  copyLoop fs current extent blocks current.size 0

/-- Give the extent back after a failure that left it unpublished. -/
def abandonExtent {α : Type} (extent blocks : ℕ) (failure : Status) :
    KProg Status α := do
  releaseExtent fs extent blocks
  .fail failure

/-- Run `program` and give the unpublished extent back if it fails. -/
def orAbandon {α : Type} (extent blocks : ℕ) (program : KProg Status α) :
    KProg Status α := do
  match ← program.attempt with
  | .ok value => pure value
  | .error failure => abandonExtent fs extent blocks failure

/-- Publish a file on its new extent, then give the old extent back. A failed
publication is ambiguous: both extents stay allocated. -/
def replaceExtent (inode current : Inode) (size extent blocks : ℕ) :
    KProg (Status × Inode) Inode := do
  let candidate ← Prog.mapError (·, inode) <| updateInode fs { current with
    size := size
    extentStart := extent
    extentBlocks := blocks }
  if current.extentBlocks = 0 then pure candidate
  else do
    Prog.mapError (·, candidate) <| releaseExtent fs current.extentStart current.extentBlocks
    pure candidate

/-- Overwrite a part of a regular file, or extend it. The old bytes and the new ones are put
together on a fresh extent, and the inode is published when all of it is there. The error
carries the caller's snapshot as it is when the call returns. -/
def writeInodeData (offset : ℕ) (source : List UInt8) :
    KProg (Status × Inode) Inode :=
  if !fs.mounted then .fail (.notMounted, inode)
  else do
    let current ← Prog.mapError (·, inode) <|
      .read fun image => requireCurrentSnapshot fs image inode
    if current.type ≠ .regular then .fail (.invalidArgument, inode)
    else do
      Prog.mapError (·, inode) <| .read fun image => validateInodeExtent fs image current
      if source.length = 0 then pure inode
      else
        match addU64 offset source.length with
        | none => .fail (.arithmeticOverflow, inode)
        | some last =>
          let resultingSize := max last current.size
          let replacementBlocks := divideRoundUp resultingSize 512
          if replacementBlocks = 0 ∨
              replacementBlocks > fs.geometry.totalBlocks - fs.geometry.dataStart then
            .fail (.noSpace, inode)
          else do
            let replacementExtent ← Prog.mapError (·, inode) <| allocateBlocks fs replacementBlocks
            Prog.mapError (·, inode) <| orAbandon fs replacementExtent replacementBlocks do
              copyContents fs current replacementExtent replacementBlocks
              writeExtentData fs replacementExtent replacementBlocks offset source
            replaceExtent fs inode current resultingSize replacementExtent replacementBlocks

end

section

variable (inode current : Inode)

/-- Move a file to a larger extent. -/
def resizeRelocate (newSize requiredBlocks : ℕ) :
    KProg (Status × Inode) Inode := do
  let newExtent ← Prog.mapError (·, inode) <| allocateBlocks fs requiredBlocks
  Prog.mapError (·, inode) <| copyContents fs current newExtent requiredBlocks
  replaceExtent fs inode current newSize newExtent requiredBlocks

/-- Extend a file over the free blocks that follow its extent. -/
def resizeInPlace (newSize requiredBlocks suffixStart : ℕ) : KProg (Status × Inode) Inode := do
  let suffixBlocks := requiredBlocks - current.extentBlocks
  Prog.mapError (·, inode) <| publishExtentAllocation fs suffixStart suffixBlocks
  Prog.mapError (·, inode) <| zeroExtent fs suffixStart suffixBlocks
  Prog.mapError (·, inode) <| zeroExtentRange fs current.extentStart requiredBlocks
    current.size (newSize - current.size)
  Prog.mapError (·, inode) <| updateInode fs { current with
    size := newSize
    extentBlocks := requiredBlocks }

/-- Grow a file beyond its extent: in place when the following blocks are free. -/
def resizeGrow (newSize requiredBlocks : ℕ) :
    KProg (Status × Inode) Inode :=
  if current.extentBlocks = 0 then resizeRelocate fs inode current newSize requiredBlocks
  else
    match addU64 current.extentStart current.extentBlocks with
    | none => .fail (.arithmeticOverflow, inode)
    | some suffixStart => do
      let free ← Prog.attempt <| .read fun image =>
        extentIsFree fs image suffixStart (requiredBlocks - current.extentBlocks)
      match free with
      | .ok () => resizeInPlace fs inode current newSize requiredBlocks suffixStart
      | .error .noSpace => resizeRelocate fs inode current newSize requiredBlocks
      | .error status => .fail (status, inode)

/-- Publish the smaller inode before giving back the trailing blocks. -/
def resizeShrink (newSize requiredBlocks : ℕ) :
    KProg (Status × Inode) Inode := do
  let candidate ← Prog.mapError (·, inode) <| updateInode fs { current with
    size := newSize
    extentStart := if requiredBlocks = 0 then 0 else current.extentStart
    extentBlocks := requiredBlocks }
  match addU64 current.extentStart requiredBlocks with
  | none => .fail (.arithmeticOverflow, candidate)
  | some releasedStart => do
    Prog.mapError (·, candidate) <|
      releaseExtent fs releasedStart (current.extentBlocks - requiredBlocks)
    pure candidate

/-- Change the size within the extent, clearing what a growth exposes. -/
def resizeWithin (newSize : ℕ) :
    KProg (Status × Inode) Inode := do
  Prog.mapError (·, inode) <|
    if newSize > current.size then
      zeroExtentRange fs current.extentStart current.extentBlocks current.size
        (newSize - current.size)
    else pure ()
  Prog.mapError (·, inode) <| updateInode fs { current with size := newSize }

end

/-- Change the size of a regular file. How many blocks it has and needs decides whether it
stays on its extent, gives up the end of it, goes on behind it or moves. -/
def resizeInode (inode : Inode) (newSize : ℕ) : KProg (Status × Inode) Inode :=
  if !fs.mounted then .fail (.notMounted, inode)
  else do
    let current ← Prog.mapError (·, inode) <|
      .read fun image => requireCurrentSnapshot fs image inode
    if current.type ≠ .regular then .fail (.invalidArgument, inode)
    else do
      Prog.mapError (·, inode) <| .read fun image => validateInodeExtent fs image current
      let requiredBlocks := divideRoundUp newSize 512
      if newSize = current.size then pure inode
      else if requiredBlocks > fs.geometry.totalBlocks - fs.geometry.dataStart then
        .fail (.noSpace, inode)
      else if requiredBlocks = current.extentBlocks then
        resizeWithin fs inode current newSize
      else if requiredBlocks < current.extentBlocks then
        resizeShrink fs inode current newSize requiredBlocks
      else resizeGrow fs inode current newSize requiredBlocks

end Kurogane.KuroFS
