import OpenFS.Data.BlockBitmap
import OpenFS.Data.BlockIOEngine
import OpenFS.Data.DiskFormat

/-!
# The disk manager

A disk with its bitmap, its log and its device stream. Writing a block allocates
physical blocks, logs the intent, writes header and data, commits the log entry
and saves the whole bitmap.
-/

namespace OpenFS

open ByteImage FileLog

structure DiskManager where
  superblock : DiskSuperBlock := {}
  bitmap : BlockBitmap := {}
  wal : WalManager := {}
  /-- The stream of the block IO engine. -/
  io : Stream := Stream.closed
  state : DiskState := .unknown
  /-- The two files, and what was written to them. -/
  world : World DiskFile

namespace DiskManager

def validateSuperBlock (sb : DiskSuperBlock) : Bool :=
  sb.magic == diskMagic && sb.version == UInt16.ofNat diskFormatVersion &&
    sb.blockSize == UInt32.ofNat physicalBlockSize && computeCRC32 sb.head == sb.checksum

def readAt (d : DiskManager) (offset size : Nat) : Except Status (List UInt8) × DiskManager :=
  let (out, io) := BlockIOEngine.readAt d.io (d.world.files .device) offset size
  (out, { d with io := io })

def writeAt (d : DiskManager) (offset : Nat) (data : List UInt8) (access : Access := .whole) :
    Status × DiskManager :=
  let (s, io, w) := BlockIOEngine.writeAt d.io d.world .device offset data access
  (s, { d with io := io, world := w })

def loadBitmap (d : DiskManager) : Status × DiskManager :=
  match d.readAt d.superblock.bitmapOffset.toNat (u32 (d.superblock.bitmapBlocks.toNat * physicalBlockSize)) with
  | (.error s, d) => (s, d)
  | (.ok bs, d) => (.ok, { d with bitmap := BlockBitmap.load bs d.superblock.dataBlocks.toNat })

/-- The bytes that `SaveBitmap` writes: their number is cut to 32 bits. -/
def savedBytes (b : BlockBitmap) : List UInt8 := b.bitmap.take (u32 b.bitmap.length)

def saveBitmap (d : DiskManager) (access : Access := .whole) : Status × DiskManager :=
  d.writeAt d.superblock.bitmapOffset.toNat (savedBytes d.bitmap) access

/-- Physical blocks for a header and `dataSize` bytes, in 32 bits. -/
def calcPhysicalBlocks (dataSize : UInt32) : Nat :=
  u32 ((u32 (diskBlockHeaderSize + dataSize.toNat) + physicalBlockSize - 1) / physicalBlockSize)

def openExisting (d : DiskManager) : Status × DiskManager :=
  match DiskFormatter.readSuperBlock (d.world.files .device) with
  | .error s => (s, d)
  | .ok sb =>
    if ¬ validateSuperBlock sb then (.internal, d)
    else
      match loadBitmap { d with superblock := sb, io := d.io.open' } with
      | (.ok, d) =>
        let (_, wal) := d.wal.open' (d.world.files .wal) sb.walBlocks.toNat
        (.ok, { d with wal := wal, state := .normal })
      | (s, d) => (s, { d with io := d.io.close })

/-- `Open`: a device that is not formatted is formatted first. -/
def openDisk (d : DiskManager) (nodeId : UInt64) (diskIndex : UInt32) (uuid now : UInt64) :
    Status × DiskManager :=
  if DiskFormatter.isFormatted (d.world.files .device) then d.openExisting
  else
    let size := (d.world.files .device).size
    let diskSize := if size < physicalBlockSize * 10 then 16 * 1024 * 1024 else size
    match DiskFormatter.format d.world (UInt64.ofNat diskSize) (UInt64.ofNat walDefaultBlocks) nodeId diskIndex
      uuid now with
    | (.ok, w) => openExisting { d with world := w }
    | (s, w) => (s, { d with world := w })

def close (d : DiskManager) : DiskManager :=
  if d.state = .unknown then d
  else
    let d := d.saveBitmap.2
    { d with wal := d.wal.close, io := d.io.close, state := .unknown }

/-- The intent goes to the log if it is open; the sequence number stays 0 if the
log refuses it. -/
def logIntent (d : DiskManager) (blockId dataOffset : UInt64) (dataSize crc32 : UInt32)
    (access : Access := .whole) : Nat × DiskManager :=
  if d.wal.isOpen then
    match d.wal.appendEntry d.world .wal blockId dataOffset dataSize crc32 access with
    | (.ok seq, wal, w) => (seq, { d with wal := wal, world := w })
    | (.error _, wal, w) => (0, { d with wal := wal, world := w })
  else (0, d)

def commitIntent (d : DiskManager) (seq : Nat) (reading writing : Access := .whole) : DiskManager :=
  if d.wal.isOpen = true ∧ 0 < seq then
    let (_, wal, w) := d.wal.commitEntry d.world .wal seq reading writing
    { d with wal := wal, world := w }
  else d

/-- What the files make of the accesses of `WriteBlock`: the entry, the block, the reading and
the writing of the entry's header when it is committed, the bitmap. -/
structure WriteAccesses where
  intent : Access := .whole
  block : Access := .whole
  reading : Access := .whole
  commit : Access := .whole
  bitmap : Access := .whole
  deriving DecidableEq, Repr

/-- The header that `WriteBlock` builds. -/
def blockHeader (blockId : UInt64) (level : BlkLevel) (dataSize crc32 : UInt32) : DiskBlockHeader :=
  { magic := UInt32.ofNat diskBlockMagic, blockId := blockId, level := level.toByte, dataSize := dataSize,
    crc32 := crc32, flags := 0 }

/-- `write_buf`: zeros, then 40 bytes of header, then the data at byte 32. -/
def writeBuf (hdr : DiskBlockHeader) (physBlocks : Nat) (data : List UInt8) : List UInt8 :=
  let size := u32 (physBlocks * physicalBlockSize)
  (((Image.zeros size).write 0 hdr.encode).write diskBlockHeaderSize data).bytes 0 size

/-- `data` are the bytes behind the pointer, none for a null pointer. -/
def writeBlock (d : DiskManager) (blockId : UInt64) (level : BlkLevel) (data : List UInt8)
    (dataSize crc32 : UInt32) (accesses : WriteAccesses := {}) : Except Status Nat × DiskManager :=
  if d.state ≠ .normal then (.error .internal, d)
  else
    let physBlocks := calcPhysicalBlocks dataSize
    match d.bitmap.allocate physBlocks with
    | none => (.error .noSpace, d)
    | some (startBlock, bitmap) =>
      let offset := u64 (d.superblock.dataOffset.toNat + startBlock * physicalBlockSize)
      let (seq, d) := logIntent { d with bitmap := bitmap } blockId (UInt64.ofNat offset) dataSize crc32
        accesses.intent
      match d.writeAt offset
        (writeBuf (blockHeader blockId level dataSize crc32) physBlocks (data.take dataSize.toNat))
        accesses.block with
      | (.ok, d) => (.ok offset, ((d.commitIntent seq accesses.reading accesses.commit).saveBitmap accesses.bitmap).2)
      | (s, d) => (.error s, { d with bitmap := d.bitmap.free startBlock physBlocks })

/-- The data, its checksum and the block id. `beyond` is what the copy of 40 header
bytes finds behind the 32 that were read. -/
def readBlock (d : DiskManager) (offset : Nat) (beyond : List UInt8) :
    Except Status (List UInt8 × UInt32 × UInt64) × DiskManager :=
  if ¬ d.io.isOpen then (.error .ioError, d)
  else
    match d.readAt offset diskBlockHeaderSize with
    | (.error s, d) => (.error s, d)
    | (.ok hdrBuf, d) =>
      let hdr := DiskBlockHeader.decode (hdrBuf ++ beyond)
      if hdr.magic ≠ UInt32.ofNat diskBlockMagic then (.error .internal, d)
      else if 0 < hdr.dataSize then
        match d.readAt (u64 (offset + diskBlockHeaderSize)) hdr.dataSize.toNat with
        | (.error s, d) => (.error s, d)
        | (.ok data, d) => (.ok (data, hdr.crc32, hdr.blockId), d)
      else (.ok ([], hdr.crc32, hdr.blockId), d)

/-- The data block at a byte offset of the device. -/
def startBlock (sb : DiskSuperBlock) (offset : Nat) : Nat :=
  u64 (offset + 2 ^ 64 - sb.dataOffset.toNat) / physicalBlockSize

def deleteBlock (d : DiskManager) (offset : Nat) (dataSize : UInt32) (access : Access := .whole) :
    Status × DiskManager :=
  if d.state ≠ .normal then (.internal, d)
  else
    let d := { d with bitmap := d.bitmap.free (startBlock d.superblock offset) (calcPhysicalBlocks dataSize) }
    (.ok, (d.saveBitmap access).2)

/-- The blocks of the uncommitted entries are freed. -/
def rollBack (sb : DiskSuperBlock) (bitmap : BlockBitmap) (entries : List WalEntry) : BlockBitmap :=
  entries.foldl (fun bitmap entry =>
    if entry.committed then bitmap
    else bitmap.free (startBlock sb entry.dataOffset.toNat) (calcPhysicalBlocks entry.dataSize)) bitmap

def recover (d : DiskManager) : Status × DiskManager :=
  if ¬ d.wal.isOpen then (.ok, d)
  else
    match d.wal.replay (d.world.files .wal) with
    | (.error s, wal) => (s, { d with wal := wal })
    | (.ok entries, wal) =>
      let d := { d with wal := wal, bitmap := rollBack d.superblock d.bitmap entries }
      let d := d.saveBitmap.2
      let (_, wal, w) := d.wal.reset d.world .wal
      (.ok, { d with wal := wal, world := w })

def freeBlockCount (d : DiskManager) : Nat := d.bitmap.freeBlocks

def freeSpace (d : DiskManager) : Nat := u64 (d.freeBlockCount * physicalBlockSize)

def totalDataSpace (d : DiskManager) : Nat := u64 (d.superblock.dataBlocks.toNat * physicalBlockSize)

end DiskManager

end OpenFS
