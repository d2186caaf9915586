/-
# Reading a KuroFS volume

The functions of `kernel/fs/kurofs.cpp` that only read the device. They are
functions of the device contents: a read of a block inside the device succeeds,
and since nothing is written meanwhile, a cached bitmap sector is the sector on
the device.
-/

import Kurogane.KuroFS.Format
import Kurogane.Storage.Loops

namespace Kurogane.KuroFS

open Storage

abbrev Image := ℕ → Buffer

def readOne (device : Device) (image : Image) (block : ℕ) : Except Status Buffer :=
  if device.transferValid block then .ok (image block) else .error .blockDeviceError

def readSuperblockCopy (device : Device) (image : Image) (block : ℕ) :
    Except Status SuperblockState :=
  match readOne device image block with
  | .error status => .error status
  | .ok sector => decodeSuperblock sector device

/-- The bit of `block` in the bitmap sector that represents it. -/
def bitmapMask (block : ℕ) : UInt8 := 1 <<< UInt8.ofNat (block % 4096 % 8)

def blockMarked (bitmap : Buffer) (block : ℕ) : Bool :=
  bitmap (block % 4096 / 8) &&& bitmapMask block != 0

/-! ## Extents -/

variable (fs : FileSystem) (image : Image)

section

variable (directory : Inode) (childInodeId : ℕ) (inodeId : ℕ) (inode : Inode)

def findFreeLoop (blockCount : ℕ) :
    ℕ → ℕ → ℕ → ℕ → Except Status ℕ
  | 0, _, _, _ => .error .noSpace
  | remaining + 1, block, runStart, runLength =>
    if block / 4096 ≥ fs.geometry.allocationBitmapBlocks then .error .invalidGeometry
    else
      match readOne fs.device image (fs.geometry.allocationBitmapStart + block / 4096) with
      | .error status => .error status
      | .ok bitmap =>
        if blockMarked bitmap block then
          findFreeLoop blockCount remaining (block + 1) runStart 0
        else
          let runStart := if runLength = 0 then block else runStart
          if runLength + 1 = blockCount then .ok runStart
          else findFreeLoop blockCount remaining (block + 1) runStart (runLength + 1)

/-- First fit: the first run of `blockCount` free blocks of the data area. The loop carries
where the current run of free blocks started and how long it is. -/
def findFreeExtent (blockCount : ℕ) : Except Status ℕ :=
  findFreeLoop fs image blockCount (fs.geometry.totalBlocks - fs.geometry.dataStart)
    fs.geometry.dataStart 0 0

/-- One block of `extent_is_free`. -/
def requireFree (block : ℕ) : Except Status Unit :=
  if block / 4096 ≥ fs.geometry.allocationBitmapBlocks then .error .invalidGeometry
  else
    match readOne fs.device image (fs.geometry.allocationBitmapStart + block / 4096) with
    | .error status => .error status
    | .ok bitmap => if blockMarked bitmap block then .error .noSpace else .ok ()

def extentIsFree (firstBlock blockCount : ℕ) : Except Status Unit :=
  if blockCount = 0 then .error .invalidArgument
  else
    match addU64 firstBlock blockCount with
    | none => .error .noSpace
    | some endBlock =>
      if firstBlock < fs.geometry.dataStart ∨ endBlock > fs.geometry.totalBlocks then
        .error .noSpace
      else foldRange (fun _ block => requireFree fs image block) blockCount firstBlock ()

/-- One block of `validate_allocated_extent`. -/
def requireMarked (block : ℕ) : Except Status Unit :=
  if block / 4096 ≥ fs.geometry.allocationBitmapBlocks then .error .invalidGeometry
  else
    match addU64 fs.geometry.allocationBitmapStart (block / 4096) with
    | none => .error .invalidGeometry
    | some bitmapBlock =>
      if bitmapBlock ≥ fs.geometry.totalBlocks then .error .invalidGeometry
      else
        match readOne fs.device image bitmapBlock with
        | .error status => .error status
        | .ok bitmap => if blockMarked bitmap block then .ok () else .error .invalidExtent

/-- The capacity in bytes of an extent all of whose blocks are allocated. -/
def validateAllocatedExtent (firstBlock blockCount : ℕ) : Except Status ℕ :=
  if blockCount = 0 then
    if firstBlock ≠ 0 then .error .invalidExtent else .ok 0
  else
    match addU64 firstBlock blockCount, multiplyU64 blockCount 512 with
    | some endBlock, some capacity =>
      if firstBlock < fs.geometry.dataStart ∨ endBlock > fs.geometry.totalBlocks then
        .error .invalidExtent
      else
        match foldRange (fun _ block => requireMarked fs image block) blockCount firstBlock () with
        | .error status => .error status
        | .ok () => .ok capacity
    | _, _ => .error .arithmeticOverflow

/-- The extent of an inode is allocated and has room for its bytes. That no other inode uses
its blocks is not looked at here. -/
def validateInodeExtent : Except Status Unit :=
  if inode.id = 0 ∨ inode.id > fs.geometry.inodeCount ∨ inode.linkCount = 0 ∨
      inode.generation = 0 then .error .invalidArgument
  else
    match validateAllocatedExtent fs image inode.extentStart inode.extentBlocks with
    | .error status => .error status
    | .ok capacity =>
      if inode.size > capacity ∨ (inode.extentBlocks = 0 ∧ inode.size ≠ 0) then
        .error .invalidExtent
      else .ok ()

def inodeExtentsOverlap (left right : Inode) : Bool :=
  if left.extentBlocks = 0 ∨ right.extentBlocks = 0 then false
  else
    match addU64 left.extentStart left.extentBlocks,
        addU64 right.extentStart right.extentBlocks with
    | some leftEnd, some rightEnd =>
      decide (left.extentStart < rightEnd) && decide (right.extentStart < leftEnd)
    | _, _ => true

/-! ## Inodes -/

/-- The table block and the offset in it that hold an inode. -/
def locateInode : Except Status (ℕ × ℕ) :=
  if inodeId = 0 ∨ inodeId > fs.geometry.inodeCount then .error .invalidArgument
  else
    match multiplyU64 (inodeId - 1) 128 with
    | none => .error .arithmeticOverflow
    | some byteOffset =>
      if byteOffset % 512 + 128 > 512 ∨ byteOffset / 512 ≥ fs.geometry.inodeTableBlocks then
        .error .invalidGeometry
      else
        match addU64 fs.geometry.inodeTableStart (byteOffset / 512) with
        | none => .error .invalidGeometry
        | some tableBlock =>
          if tableBlock ≥ fs.geometry.totalBlocks then .error .invalidGeometry
          else .ok (tableBlock, byteOffset % 512)

/-- The inode in a slot of the table. An inode that does not exist is `NotFound`, and nothing
is said about its extent. -/
def readInode : Except Status Inode :=
  if inodeId = 0 then .error .invalidArgument
  else if !fs.mounted then .error .notMounted
  else if inodeId > fs.geometry.inodeCount then .error .invalidArgument
  else
    match multiplyU64 (inodeId - 1) 128 with
    | none => .error .arithmeticOverflow
    | some byteOffset =>
      if byteOffset % 512 + 128 > 512 ∨ byteOffset / 512 ≥ fs.geometry.inodeTableBlocks then
        .error .invalidGeometry
      else
        match readOne fs.device image (fs.geometry.inodeTableStart + byteOffset / 512) with
        | .error status => .error status
        | .ok sector => decodeInode (sector.slice (byteOffset % 512)) inodeId

/-- A snapshot is current when every field of it is. -/
def requireCurrentSnapshot (snapshot : Inode) : Except Status Inode :=
  match readInode fs image snapshot.id with
  | .error status => .error status
  | .ok current => if snapshot ≠ current then .error .staleInode else .ok current

/-! ## File contents -/

/-- Collect bytes sector by sector until `wanted` of them are read. -/
def readLoop (extentStart offset wanted : ℕ) :
    ℕ → ℕ → Except Status (List UInt8)
  | 0, _ => .ok []
  | fuel + 1, done =>
    if done < wanted then
      match addU64 extentStart ((offset + done) / 512) with
      | none => .error .arithmeticOverflow
      | some diskBlock =>
        match readOne fs.device image diskBlock with
        | .error status => .error status
        | .ok sector =>
          let inSector := (offset + done) % 512
          let chunk := min (wanted - done) (512 - inSector)
          match readLoop extentStart offset wanted fuel (done + chunk) with
          | .error status => .error status
          | .ok rest => .ok ((List.range chunk).map (fun i => sector (inSector + i)) ++ rest)
    else .ok []

/-- Read at most `capacity` bytes from `offset` on; the length of the result is
`out_read`. -/
def readInodeData (offset capacity : ℕ) : Except Status (List UInt8) :=
  if !fs.mounted then .error .notMounted
  else
    match readInode fs image inode.id with
    | .error status => .error status
    | .ok current =>
      if current.generation ≠ inode.generation ∨ current.revision ≠ inode.revision ∨
          current.type ≠ inode.type ∨ current.extentStart ≠ inode.extentStart ∨
          current.extentBlocks ≠ inode.extentBlocks ∨ current.size ≠ inode.size then
        .error .staleInode
      else
        match validateInodeExtent fs image current with
        | .error status => .error status
        | .ok () =>
          if offset ≥ current.size ∨ capacity = 0 then .ok []
          else
            let wanted := min capacity (current.size - offset)
            readLoop fs image current.extentStart offset wanted wanted 0

/-! ## Directories -/

def validateDirectoryChild (entry : DirectoryEntry) : Except Status Unit :=
  match readInode fs image entry.inodeId with
  | .error _ => .error .corruptDirectory
  | .ok child =>
    if child.generation ≠ entry.inodeGeneration ∨ child.type ≠ entry.type then
      .error .corruptDirectory
    else .ok ()

/-- The check shared by every operation on a directory snapshot. -/
def requireDirectory : Except Status Inode :=
  match requireCurrentSnapshot fs image directory with
  | .error status => .error status
  | .ok current =>
    if current.type ≠ .directory then .error .notDirectory
    else if current.size % 128 ≠ 0 then .error .corruptDirectory
    else .ok current

/-- A record of a directory, by its index. The record must name an inode of the generation and
the type that it states. -/
def directoryEntryAt (index : ℕ) : Except Status DirectoryEntry :=
  if !fs.mounted then .error .notMounted
  else
    match requireDirectory fs image directory with
    | .error status => .error status
    | .ok current =>
      if index ≥ current.size / 128 then .error .notFound
      else
        match multiplyU64 index 128 with
        | none => .error .arithmeticOverflow
        | some offset =>
          match readInodeData fs image current offset 128 with
          | .error status => .error status
          | .ok record =>
            if record.length ≠ 128 then .error .corruptDirectory
            else
              match decodeDirectoryEntry (fun i => record.getD i 0) with
              | .error status => .error status
              | .ok entry =>
                match validateDirectoryChild fs image entry with
                | .error status => .error status
                | .ok () => .ok entry

/-! ## Parents -/

/-- The parent found so far and the number of records found so far. -/
structure ParentSearch where
  parentId : ℕ
  references : ℕ

/-- One record of one directory in `find_unique_parent`. -/
def countReference (candidate : Inode)
    (search : ParentSearch) (index : ℕ) : Except Status ParentSearch :=
  match directoryEntryAt fs image candidate index with
  | .error status => .error status
  | .ok entry =>
    if entry.inodeId ≠ childInodeId then .ok search
    else if search.references + 1 > 1 then .error .corruptDirectory
    else .ok ⟨candidate.id, search.references + 1⟩

/-- One inode of `find_unique_parent`. -/
def countReferences (search : ParentSearch)
    (inodeId : ℕ) : Except Status ParentSearch :=
  match readInode fs image inodeId with
  | .error .notFound => .ok search
  | .error status => .error status
  | .ok candidate =>
    if candidate.type ≠ .directory then .ok search
    else if candidate.size % 128 ≠ 0 then .error .corruptDirectory
    else
      foldRange (countReference fs image childInodeId candidate) (candidate.size / 128) 0 search

/-- All records of all directories are looked through for the child. A second record that
names it is an error, so that the answer does not depend on the order. -/
def findUniqueParent : Except Status ℕ :=
  if childInodeId = rootInodeId then .error .invalidArgument
  else
    match foldRange (countReferences fs image childInodeId) fs.geometry.inodeCount
        rootInodeId ⟨0, 0⟩ with
    | .error status => .error status
    | .ok search => if search.parentId = 0 then .error .notFound else .ok search.parentId

/-- Climb at most `depth` parents. -/
def reachesRootWalk : ℕ → ℕ → Except Status Bool
  | 0, _ => .error .corruptDirectory
  | depth + 1, current =>
    match findUniqueParent fs image current with
    | .error .notFound => .ok false
    | .error status => .error status
    | .ok parent =>
      if parent = rootInodeId then .ok true else reachesRootWalk depth parent

/-- Whether climbing from parent to parent ends at the root. A climb of more steps than there
are inodes must have met a cycle and is an error. -/
def inodeReachesRoot : Except Status Bool :=
  if inodeId = 0 ∨ inodeId > fs.geometry.inodeCount then .error .invalidArgument
  else if inodeId = rootInodeId then .ok true
  else reachesRootWalk fs image fs.geometry.inodeCount inodeId

/-! ## The consistency check -/

/-- A record against an earlier record of the same directory. -/
def checkDistinct (entry : DirectoryEntry)
    (previousIndex : ℕ) : Except Status Unit :=
  match directoryEntryAt fs image inode previousIndex with
  | .error status => .error status
  | .ok previous =>
    if previous.inodeId = entry.inodeId ∨
        (previous.name.length = entry.name.length ∧
          sameName previous entry.name entry.name.length) then
      .error .corruptDirectory
    else .ok ()

/-- One record of one directory. -/
def checkRecord (index : ℕ) : Except Status Unit :=
  match directoryEntryAt fs image inode index with
  | .error status => .error status
  | .ok entry =>
    if entry.inodeId = rootInodeId ∨ entry.inodeId = inode.id then .error .corruptDirectory
    else foldRange (fun _ previous => checkDistinct fs image inode entry previous) index 0 ()

/-- One inode against a later one. -/
def checkDisjoint (otherId : ℕ) : Except Status Unit :=
  match readInode fs image otherId with
  | .error .notFound => .ok ()
  | .error status => .error status
  | .ok other => if inodeExtentsOverlap inode other then .error .overlappingExtents else .ok ()

/-- The records of an inode, if it is a directory. -/
def checkRecords : Except Status Unit :=
  if inode.type ≠ .directory then .ok ()
  else if inode.size % 128 ≠ 0 then .error .corruptDirectory
  else foldRange (fun _ index => checkRecord fs image inode index) (inode.size / 128) 0 ()

/-- One inode in the first pass of `validate_consistency`. -/
def checkInode : Except Status Unit :=
  match readInode fs image inodeId with
  | .error .notFound => .ok ()
  | .error status => .error status
  | .ok inode =>
    match validateInodeExtent fs image inode with
    | .error status => .error status
    | .ok () =>
      if !validInodeOwnershipFlags inode.flags ∨ inode.linkCount ≠ 1 ∨
          (inode.id = rootInodeId ∧ inode.flags ≠ 0) then .error .invalidInodeMetadata
      else
        match checkRecords fs image inode with
        | .error status => .error status
        | .ok () =>
          if inode.extentBlocks = 0 then .ok ()
          else
            foldRange (fun _ otherId => checkDisjoint fs image inode otherId)
              (fs.geometry.inodeCount - inodeId) (inodeId + 1) ()

/-- The ancestors of an inode, if it is a directory. -/
def checkAncestors : Except Status Unit :=
  if inode.type ≠ .directory then .ok ()
  else
    match inodeReachesRoot fs image inode.id with
    | .error status => .error status
    | .ok _ => .ok ()

/-- One inode in the second pass of `validate_consistency`. -/
def checkAttachment : Except Status Unit :=
  match readInode fs image inodeId with
  | .error .notFound => .ok ()
  | .error status => .error status
  | .ok inode =>
    match findUniqueParent fs image inode.id with
    | .ok _ =>
      if inode.flags ≠ 0 then .error .invalidInodeMetadata else checkAncestors fs image inode
    | .error .notFound =>
      if inode.flags ≠ inodeFlagOrphan then .error .invalidInodeMetadata
      else checkAncestors fs image inode
    | .error status => .error status

end

/-- The check at the end of `mount`, in two passes over the inode table: first each inode by
itself and its extent against those of later inodes, then its place in the tree. -/
def validateConsistency : Except Status Unit :=
  if !fs.mounted then .error .notMounted
  else
    match foldRange (fun _ inodeId => checkInode fs image inodeId) fs.geometry.inodeCount
        rootInodeId () with
    | .error status => .error status
    | .ok () =>
      foldRange (fun _ inodeId => checkAttachment fs image inodeId)
        (fs.geometry.inodeCount - 1) (rootInodeId + 1) ()

end Kurogane.KuroFS
