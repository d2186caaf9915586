/-
# The on-disk format of KuroFS

Types, limits and codecs of `kernel/fs/kurofs.hpp` and of the first part of
`kernel/fs/kurofs.cpp`. Integers are natural numbers; where the source guards
against overflow, the guard is kept. The source's named sizes appear as numerals:
`512` is `kSectorSize`, `128` is both `INODE_SIZE` and `DIRECTORY_ENTRY_SIZE`,
`4096` is `kBitsPerBitmapBlock` and `63` is `MAX_DIRECTORY_NAME`.

A function of the source that returns `Status::Ok` returns `Except.ok` here, so
`Status` lists the other statuses. Null pointers and out-of-range enumerators
are excluded by the types.
-/

import Kurogane.Storage.Bytes

namespace Kurogane.KuroFS

open Storage

/-- The statuses other than `Ok`. -/
inductive Status
  | notMounted
  | invalidArgument
  | unsupportedSectorSize
  | deviceTooSmall
  | arithmeticOverflow
  | invalidSuperblock
  | corruptSuperblock
  | invalidGeometry
  | invalidRootInode
  | invalidInodeMetadata
  | invalidExtent
  | overlappingExtents
  | staleInode
  | notFound
  | alreadyExists
  | notDirectory
  | directoryNotEmpty
  | wouldCreateCycle
  | nameTooLong
  | corruptDirectory
  | noSpace
  | blockDeviceError
  deriving DecidableEq, Repr

inductive InodeType
  | regular
  | directory
  deriving DecidableEq, Repr

section

variable (sector : Buffer) (bytes : Buffer) (geometry : Geometry) (device : Device)

def InodeType.raw : InodeType → ℕ
  | regular => 1
  | directory => 2

/-- Values other than the two enumerators are refused by every decoder. -/
def InodeType.ofRaw : ℕ → Option InodeType
  | 1 => some .regular
  | 2 => some .directory
  | _ => none

structure Geometry where
  sectorSize : ℕ
  totalBlocks : ℕ
  generation : ℕ
  inodeCount : ℕ
  inodeSize : ℕ
  inodeTableStart : ℕ
  inodeTableBlocks : ℕ
  allocationBitmapStart : ℕ
  allocationBitmapBlocks : ℕ
  dataStart : ℕ
  rootInode : ℕ
  featureFlags : ℕ
  deriving DecidableEq, Repr

structure Inode where
  id : ℕ
  type : InodeType
  flags : ℕ
  size : ℕ
  extentStart : ℕ
  extentBlocks : ℕ
  linkCount : ℕ
  /-- Stable incarnation identity. -/
  generation : ℕ
  /-- Optimistic metadata revision. -/
  revision : ℕ
  deriving DecidableEq, Repr

/-- A decoded directory record. The list holds the `name_length` bytes of the
name without their terminator. -/
structure DirectoryEntry where
  name : List UInt8
  inodeId : ℕ
  inodeGeneration : ℕ
  type : InodeType
  deriving DecidableEq, Repr

structure MoveParent where
  id : ℕ
  generation : ℕ
  revisionBefore : ℕ
  sizeBefore : ℕ
  extentStartBefore : ℕ
  extentBlocksBefore : ℕ
  sizeAfter : ℕ
  extentStartAfter : ℕ
  extentBlocksAfter : ℕ
  deriving DecidableEq, Repr

/-- An active move intent; an inactive one is `none` where an option is used. -/
structure MoveIntent where
  childId : ℕ
  childGeneration : ℕ
  childType : InodeType
  source : MoveParent
  destination : MoveParent
  deriving DecidableEq, Repr

structure SuperblockState where
  geometry : Geometry
  move : Option MoveIntent
  deriving DecidableEq, Repr

/-- A block device as its users see it: its geometry, and whether all three
callbacks are present. The block count is a 64-bit value. The 4095 largest ones
are left out: in such a device the block behind the last bitmap sector has no
64-bit number, and the loops over the bitmap start again at block 0. -/
structure Device where
  sectorSize : ℕ
  sectorCount : ℕ
  callbacks : Bool
  sectorCount_le : sectorCount ≤ 2 ^ 64 - 4096

/-- `storage::block::validate` answers `Ok`. -/
def Device.valid : Bool :=
  device.sectorSize != 0 && device.sectorCount != 0 && device.callbacks

/-- `validate_transfer` answers `Ok` for one block and a 512-byte buffer. -/
def Device.transferValid (block : ℕ) : Bool :=
  device.valid && decide (block < device.sectorCount) && decide (device.sectorSize ≤ 512)

structure FileSystem where
  device : Device
  geometry : Geometry
  mounted : Bool

def featureMoveIntent : ℕ := 1
def featureInodeOwnership : ℕ := 2
def supportedFeatures : ℕ := featureMoveIntent ||| featureInodeOwnership
def inodeFlagPending : ℕ := 1
def inodeFlagOrphan : ℕ := 2
def inodeTombstoneFlag : ℕ := 2 ^ 31
def rootInodeId : ℕ := 1
def minimumDataBlocks : ℕ := 16

/-! ## Arithmetic helpers -/

def addU64 (left right : ℕ) : Option ℕ :=
  if right > 2 ^ 64 - 1 - left then none else some (left + right)

def multiplyU64 (left right : ℕ) : Option ℕ :=
  if left ≠ 0 ∧ right > (2 ^ 64 - 1) / left then none else some (left * right)

def divideRoundUp (value divisor : ℕ) : ℕ :=
  value / divisor + if value % divisor = 0 then 0 else 1

/-- The first `size` bytes are all zero. -/
def allZero (size : ℕ) : Bool :=
  (List.range size).all fun i => bytes i == 0

def startsWith (text : List UInt8) : Bool :=
  (List.range text.length).all fun i => bytes i == text.getD i 0

def validInodeOwnershipFlags (flags : ℕ) : Bool :=
  flags == 0 || flags == inodeFlagPending || flags == inodeFlagOrphan

/-- One of the eight steps the checksum takes for a byte. -/
def crc32Step (crc : UInt32) : UInt32 :=
  (crc >>> 1) ^^^ (0xedb88320 &&& (0 - (crc &&& 1)))

def crc32Byte (crc : UInt32) (byte : UInt8) : UInt32 :=
  crc32Step^[8] (crc ^^^ byte.toUInt32)

/-- The checksum of the first `size` bytes. -/
def crc32 (size : ℕ) : ℕ :=
  (~~~((List.range size).foldl (fun crc i => crc32Byte crc (bytes i)) 0xffffffff)).toNat

/-! ## Geometry -/

/-- The layout that `format` chooses: two superblocks, the inode table, the bitmap and then
the data area, which has at least `minimumDataBlocks` blocks. -/
def calculateGeometry (inodeCount : ℕ) : Except Status Geometry :=
  if inodeCount = 0 then .error .invalidArgument
  else if device.sectorSize ≠ 512 then .error .unsupportedSectorSize
  else
    match multiplyU64 inodeCount 128 with
    | none => .error .arithmeticOverflow
    | some inodeBytes =>
      let inodeBlocks := divideRoundUp inodeBytes 512
      let bitmapBlocks := divideRoundUp device.sectorCount 4096
      match addU64 2 inodeBlocks with
      | none => .error .arithmeticOverflow
      | some bitmapStart =>
        match addU64 bitmapStart bitmapBlocks with
        | none => .error .arithmeticOverflow
        | some dataStart =>
          if dataStart ≥ device.sectorCount ∨
              device.sectorCount - dataStart < minimumDataBlocks then
            .error .deviceTooSmall
          else
            .ok {
              sectorSize := 512
              totalBlocks := device.sectorCount
              generation := 1
              inodeCount := inodeCount
              inodeSize := 128
              inodeTableStart := 2
              inodeTableBlocks := inodeBlocks
              allocationBitmapStart := bitmapStart
              allocationBitmapBlocks := bitmapBlocks
              dataStart := dataStart
              rootInode := rootInodeId
              featureFlags := supportedFeatures }

/-- A geometry is accepted if its areas lie where the number of inodes and the size of the
device put them, and if something is left for data. Unknown features are refused. -/
def validateGeometry : Except Status Unit :=
  if geometry.sectorSize ≠ 512 ∨ geometry.sectorSize ≠ device.sectorSize ∨
      geometry.totalBlocks ≠ device.sectorCount ∨ geometry.inodeCount = 0 ∨
      geometry.inodeSize ≠ 128 ∨ geometry.inodeTableStart ≠ 2 ∨
      geometry.rootInode ≠ rootInodeId ∨ geometry.generation = 0 ∨
      geometry.featureFlags &&& (2 ^ 64 - 1 - supportedFeatures) ≠ 0 then
    .error .invalidGeometry
  else
    match multiplyU64 geometry.inodeCount 128 with
    | none => .error .arithmeticOverflow
    | some inodeBytes =>
      let expectedInodeBlocks := divideRoundUp inodeBytes 512
      let expectedBitmapBlocks := divideRoundUp geometry.totalBlocks 4096
      match addU64 2 expectedInodeBlocks with
      | none => .error .arithmeticOverflow
      | some expectedBitmapStart =>
        match addU64 expectedBitmapStart expectedBitmapBlocks with
        | none => .error .arithmeticOverflow
        | some expectedDataStart =>
          if geometry.inodeTableBlocks ≠ expectedInodeBlocks ∨
              geometry.allocationBitmapStart ≠ expectedBitmapStart ∨
              geometry.allocationBitmapBlocks ≠ expectedBitmapBlocks ∨
              geometry.dataStart ≠ expectedDataStart ∨
              geometry.dataStart ≥ geometry.totalBlocks then
            .error .invalidGeometry
          else .ok ()

/-- An extent is empty and at block 0, or it lies in the data area and has room for `size`
bytes. -/
def geometryExtentValid (size firstBlock blockCount : ℕ) : Bool :=
  if blockCount = 0 then size == 0 && firstBlock == 0
  else
    match addU64 firstBlock blockCount, multiplyU64 blockCount 512 with
    | some endBlock, some capacity =>
      decide (geometry.dataStart ≤ firstBlock) && decide (endBlock ≤ geometry.totalBlocks) &&
        decide (size ≤ capacity)
    | _, _ => false

/-! ## Superblocks -/

/-- `KUROFS1` with its terminator. -/
def magic : List UInt8 := [0x4b, 0x55, 0x52, 0x4f, 0x46, 0x53, 0x31, 0x00]

/-- `KUMOVE1` with its terminator. -/
def moveIntentMagic : List UInt8 := [0x4b, 0x55, 0x4d, 0x4f, 0x56, 0x45, 0x31, 0x00]

def encodeMoveParent (parent : MoveParent) (bytes : Buffer) (offset : ℕ) : Buffer :=
  ((((((((bytes.store offset 8 parent.id).store (offset + 8) 4 parent.generation).store
    (offset + 12) 4 parent.revisionBefore).store (offset + 16) 8 parent.sizeBefore).store
    (offset + 24) 8 parent.extentStartBefore).store (offset + 32) 8
      parent.extentBlocksBefore).store (offset + 40) 8 parent.sizeAfter).store
    (offset + 48) 8 parent.extentStartAfter).store (offset + 56) 8 parent.extentBlocksAfter

def decodeMoveParent (offset : ℕ) : MoveParent where
  id := bytes.load offset 8
  generation := bytes.load (offset + 8) 4
  revisionBefore := bytes.load (offset + 12) 4
  sizeBefore := bytes.load (offset + 16) 8
  extentStartBefore := bytes.load (offset + 24) 8
  extentBlocksBefore := bytes.load (offset + 32) 8
  sizeAfter := bytes.load (offset + 40) 8
  extentStartAfter := bytes.load (offset + 48) 8
  extentBlocksAfter := bytes.load (offset + 56) 8

/-- The geometry fields of a superblock, without intent and checksum. -/
def encodeGeometry : Buffer :=
  (((((((((((((Buffer.zero.splice 0 8 (fun i => magic.getD i 0)).store 8 4 1).store
    12 4 geometry.sectorSize).store 16 8 geometry.totalBlocks).store
    24 8 geometry.generation).store 32 4 geometry.inodeCount).store
    36 4 geometry.inodeSize).store 40 8 geometry.inodeTableStart).store
    48 8 geometry.inodeTableBlocks).store 56 8 geometry.allocationBitmapStart).store
    64 8 geometry.allocationBitmapBlocks).store 72 8 geometry.dataStart).store
    80 8 geometry.rootInode).store 88 8 geometry.featureFlags

/-- The intent record sits at offset 96 and is 160 bytes long. -/
def encodeMoveIntent (move : MoveIntent) (bytes : Buffer) : Buffer :=
  encodeMoveParent move.destination
    (encodeMoveParent move.source
      ((((((bytes.splice 96 8 (fun i => moveIntentMagic.getD i 0)).store 104 4 1).store
        108 4 160).store 112 8 move.childId).store 120 4 move.childGeneration).store
        124 4 move.childType.raw) 128) 192

/-- The checksum in the last four bytes covers all the others, the record of an intent
included. -/
def encodeSuperblock (move : Option MoveIntent) : Buffer :=
  let sector := match move with
    | some move => encodeMoveIntent move (encodeGeometry geometry)
    | none => encodeGeometry geometry
  sector.store 508 4 (crc32 sector 508)

def moveParentValid (parent : MoveParent) : Bool :=
  parent.id != 0 && decide (parent.id ≤ geometry.inodeCount) && parent.generation != 0 &&
    parent.revisionBefore != 0 && parent.revisionBefore != 2 ^ 32 - 1 &&
    parent.sizeBefore % 128 == 0 && parent.sizeAfter % 128 == 0 &&
    geometryExtentValid geometry parent.sizeBefore parent.extentStartBefore
      parent.extentBlocksBefore &&
    geometryExtentValid geometry parent.sizeAfter parent.extentStartAfter
      parent.extentBlocksAfter

/-- The conditions an intent record has to meet against its geometry. -/
def moveIntentValid (move : MoveIntent) : Bool :=
  move.childId != 0 && decide (move.childId ≤ geometry.inodeCount) &&
    move.childGeneration != 0 &&
    moveParentValid geometry move.source && moveParentValid geometry move.destination &&
    move.source.id != move.destination.id &&
    (addU64 move.source.sizeAfter 128 == some move.source.sizeBefore) &&
    (addU64 move.destination.sizeBefore 128 == some move.destination.sizeAfter)

/-- Zeros are no intent. Anything else is a complete intent that fits the geometry, or the
whole superblock counts as corrupt. -/
def decodeMoveIntent :
    Except Status (Option MoveIntent) :=
  let record := sector.slice 96
  if allZero record 160 then .ok none
  else if !startsWith record moveIntentMagic then .error .corruptSuperblock
  else if geometry.featureFlags &&& featureMoveIntent = 0 ∨ record.load 8 4 ≠ 1 ∨
      record.load 12 4 ≠ 160 then
    .error .corruptSuperblock
  else
    match InodeType.ofRaw (record.load 28 4) with
    | none => .error .corruptSuperblock
    | some childType =>
      let move : MoveIntent := {
        childId := record.load 16 8
        childGeneration := record.load 24 4
        childType := childType
        source := decodeMoveParent record 32
        destination := decodeMoveParent record 96 }
      if moveIntentValid geometry move then .ok (some move) else .error .corruptSuperblock

/-- The geometry fields of a superblock sector. -/
def decodeGeometry : Geometry where
  sectorSize := sector.load 12 4
  totalBlocks := sector.load 16 8
  generation := sector.load 24 8
  inodeCount := sector.load 32 4
  inodeSize := sector.load 36 4
  inodeTableStart := sector.load 40 8
  inodeTableBlocks := sector.load 48 8
  allocationBitmapStart := sector.load 56 8
  allocationBitmapBlocks := sector.load 64 8
  dataStart := sector.load 72 8
  rootInode := sector.load 80 8
  featureFlags := sector.load 88 8

/-- The magic and the version come before the checksum, so that a sector that never was a
superblock is told from a damaged one. -/
def decodeSuperblock : Except Status SuperblockState :=
  if !startsWith sector magic then .error .invalidSuperblock
  else if sector.load 8 4 ≠ 1 then .error .invalidSuperblock
  else if sector.load 508 4 ≠ crc32 sector 508 then .error .corruptSuperblock
  else
    match validateGeometry (decodeGeometry sector) device with
    | .error status => .error status
    | .ok () =>
      match decodeMoveIntent sector (decodeGeometry sector) with
      | .error status => .error status
      | .ok move => .ok ⟨decodeGeometry sector, move⟩

/-! ## Inodes -/

/-- The fields of an inode record, without the checksum. -/
def encodeInodeFields (inode : Inode) : Buffer :=
  ((((((((Buffer.zero.store 0 8 inode.id).store 8 4 inode.type.raw).store
    12 4 inode.flags).store 16 8 inode.size).store 24 8 inode.extentStart).store
    32 8 inode.extentBlocks).store 40 4 inode.linkCount).store 44 4 inode.generation).store
    48 4 inode.revision

def encodeInode (inode : Inode) : Buffer :=
  let bytes := encodeInodeFields inode
  bytes.store 124 4 (crc32 bytes 124)

/-- The generation the next incarnation of a free slot has to carry. -/
def decodeFreeInode (expectedId : ℕ) : Option ℕ :=
  if allZero bytes 128 then some 1
  else if bytes.load 124 4 ≠ crc32 bytes 124 then none
  else if bytes.load 0 8 ≠ expectedId ∨ bytes.load 8 4 ≠ 0 ∨
      bytes.load 12 4 ≠ inodeTombstoneFlag ∨ bytes.load 16 8 ≠ 0 ∨ bytes.load 24 8 ≠ 0 ∨
      bytes.load 32 8 ≠ 0 ∨ bytes.load 40 4 ≠ 0 ∨ bytes.load 44 4 = 0 ∨
      bytes.load 48 4 ≠ 0 then none
  else some (bytes.load 44 4)

/-- Images written before revisions existed hold zero in the revision field; it
counts as the first revision. -/
def decodeRevision : ℕ :=
  if bytes.load 48 4 = 0 then 1 else bytes.load 48 4

/-- A free slot is not found; a damaged one is reported as an invalid root inode, whichever
inode was asked for. -/
def decodeInode (expectedId : ℕ) : Except Status Inode :=
  if (decodeFreeInode bytes expectedId).isSome then .error .notFound
  else if bytes.load 124 4 ≠ crc32 bytes 124 then .error .invalidRootInode
  else
    match InodeType.ofRaw (bytes.load 8 4) with
    | none => .error .invalidRootInode
    | some type =>
      let inode : Inode := {
        id := bytes.load 0 8
        type := type
        flags := bytes.load 12 4
        size := bytes.load 16 8
        extentStart := bytes.load 24 8
        extentBlocks := bytes.load 32 8
        linkCount := bytes.load 40 4
        generation := bytes.load 44 4
        revision := decodeRevision bytes }
      if inode.id ≠ expectedId ∨ inode.linkCount = 0 ∨ inode.generation = 0 ∨
          inode.revision = 0 then .error .invalidRootInode
      else .ok inode

end

/-! ## Directory records -/

def slash : UInt8 := 0x2f

def sameName (entry : DirectoryEntry) (name : List UInt8) (length : ℕ) : Bool :=
  entry.name.length == length && entry.name == name.take length

def decodeDirectoryEntry (record : Buffer) : Except Status DirectoryEntry :=
  if record.load 124 4 ≠ crc32 record 124 then .error .corruptDirectory
  else
    match InodeType.ofRaw (record.load 12 4) with
    | none => .error .corruptDirectory
    | some type =>
      if record.load 0 8 = 0 ∨ record.load 8 4 = 0 ∨ record.load 16 4 = 0 ∨
          record.load 16 4 > 63 then .error .corruptDirectory
      else
        let name := (List.range (record.load 16 4)).map fun i => record (20 + i)
        if name.any fun character => character == 0 || character == slash then
          .error .corruptDirectory
        else
          .ok {
            name := name
            inodeId := record.load 0 8
            inodeGeneration := record.load 8 4
            type := type }

end Kurogane.KuroFS
