import OpenFS.Common.Crc32
import OpenFS.Data.WalManager

/-!
# The disk layout

A disk is a device file with the superblock, the bitmap and the data area, and
a separate file for the WAL. The superblock is 4152 bytes in memory and in the
file, of which only the first 108 carry anything; the bitmap starts at byte 4096
all the same.
-/

namespace OpenFS

open ByteImage FileLog

inductive DiskFile
  | device
  | wal
  deriving DecidableEq, Repr

/-- `kDiskMagic`: the characters `OFSB0001`. -/
def diskMagic : List UInt8 := [79, 70, 83, 66, 48, 48, 48, 49]

structure DiskSuperBlock where
  magic : List UInt8 := List.replicate 8 0
  version : UInt16 := 0
  /-- Between the version and the next aligned field. -/
  padding : List UInt8 := List.replicate 6 0
  diskUuid : UInt64 := 0
  nodeId : UInt64 := 0
  diskIndex : UInt32 := 0
  blockSize : UInt32 := UInt32.ofNat physicalBlockSize
  totalBlocks : UInt64 := 0
  bitmapOffset : UInt64 := 0
  bitmapBlocks : UInt64 := 0
  walOffset : UInt64 := 0
  walBlocks : UInt64 := 0
  dataOffset : UInt64 := 0
  dataBlocks : UInt64 := 0
  createTime : UInt64 := 0
  checksum : UInt32 := 0
  deriving DecidableEq, Repr

namespace DiskSuperBlock

/-- `sizeof(DiskSuperBlock)`. -/
def bytes : Nat := 4152

/-- The bytes before the checksum. -/
def head (sb : DiskSuperBlock) : List UInt8 :=
  sb.magic ++ toLE 2 sb.version.toNat ++ sb.padding ++ toLE 8 sb.diskUuid.toNat ++ toLE 8 sb.nodeId.toNat ++
    toLE 4 sb.diskIndex.toNat ++ toLE 4 sb.blockSize.toNat ++ toLE 8 sb.totalBlocks.toNat ++
    toLE 8 sb.bitmapOffset.toNat ++ toLE 8 sb.bitmapBlocks.toNat ++ toLE 8 sb.walOffset.toNat ++
    toLE 8 sb.walBlocks.toNat ++ toLE 8 sb.dataOffset.toNat ++ toLE 8 sb.dataBlocks.toNat ++
    toLE 8 sb.createTime.toNat

/-- The bytes that carry something. -/
def used (sb : DiskSuperBlock) : List UInt8 := head sb ++ toLE 4 sb.checksum.toNat

/-- The reserved bytes and the tail padding are zero. -/
def encode (sb : DiskSuperBlock) : List UInt8 := used sb ++ List.replicate 4044 0

def decode (bs : List UInt8) : DiskSuperBlock :=
  { magic := bs.take 8, version := UInt16.ofNat (field bs 8 2), padding := (bs.drop 10).take 6,
    diskUuid := UInt64.ofNat (field bs 16 8), nodeId := UInt64.ofNat (field bs 24 8),
    diskIndex := UInt32.ofNat (field bs 32 4), blockSize := UInt32.ofNat (field bs 36 4),
    totalBlocks := UInt64.ofNat (field bs 40 8), bitmapOffset := UInt64.ofNat (field bs 48 8),
    bitmapBlocks := UInt64.ofNat (field bs 56 8), walOffset := UInt64.ofNat (field bs 64 8),
    walBlocks := UInt64.ofNat (field bs 72 8), dataOffset := UInt64.ofNat (field bs 80 8),
    dataBlocks := UInt64.ofNat (field bs 88 8), createTime := UInt64.ofNat (field bs 96 8),
    checksum := UInt32.ofNat (field bs 104 4) }

/-- The two byte fields have their sizes. -/
structure Sized (sb : DiskSuperBlock) : Prop where
  magic : sb.magic.length = 8
  padding : sb.padding.length = 6

theorem length_used {sb : DiskSuperBlock} (sized : sb.Sized) : sb.used.length = 108 := by
  simp [used, head, sized.magic, sized.padding]

theorem length_encode {sb : DiskSuperBlock} (sized : sb.Sized) : sb.encode.length = bytes := by
  rw [encode, List.length_append, length_used sized, List.length_replicate]
  rfl

theorem getElem_encode_of_behind {sb : DiskSuperBlock} (sized : sb.Sized) {i : Nat} (behind : 108 ≤ i)
    (h : i < sb.encode.length) : sb.encode[i] = 0 := by
  unfold encode at h ⊢
  rw [List.getElem_append_right (by rw [length_used sized]; exact behind), List.getElem_replicate]

theorem decode_used {sb : DiskSuperBlock} (sized : sb.Sized) (tail : List UInt8) :
    decode (sb.used ++ tail) = sb := by
  obtain ⟨hmagic, hpadding⟩ := sized
  obtain ⟨magic, version, padding, diskUuid, nodeId, diskIndex, blockSize, totalBlocks, bitmapOffset,
    bitmapBlocks, walOffset, walBlocks, dataOffset, dataBlocks, createTime, checksum⟩ := sb
  simp only at hmagic hpadding
  simp only [used, head, decode, field]
  simp [List.drop_append, List.drop_of_length_le, hmagic, hpadding, uint16_ofNat_fromLE,
    uint32_ofNat_fromLE, uint64_ofNat_fromLE]

end DiskSuperBlock

/-- The header in front of a block's data: 40 bytes in memory, of which the data
covers the last 8, and of which `ReadBlock` reads 32. -/
structure DiskBlockHeader where
  magic : UInt32 := UInt32.ofNat diskBlockMagic
  blockId : UInt64 := 0
  level : UInt8 := 0
  dataSize : UInt32 := 0
  crc32 : UInt32 := 0
  flags : UInt32 := 0
  reserved2 : UInt32 := 0
  deriving DecidableEq, Repr

namespace DiskBlockHeader

/-- The first 32 bytes. -/
def used (h : DiskBlockHeader) : List UInt8 :=
  toLE 4 h.magic.toNat ++ List.replicate 4 0 ++ toLE 8 h.blockId.toNat ++ [h.level] ++ List.replicate 3 0 ++
    toLE 4 h.dataSize.toNat ++ toLE 4 h.crc32.toNat ++ toLE 4 h.flags.toNat

def encode (h : DiskBlockHeader) : List UInt8 := used h ++ toLE 4 h.reserved2.toNat ++ List.replicate 4 0

def decode (bs : List UInt8) : DiskBlockHeader :=
  { magic := UInt32.ofNat (field bs 0 4), blockId := UInt64.ofNat (field bs 8 8),
    level := UInt8.ofNat (field bs 16 1), dataSize := UInt32.ofNat (field bs 20 4),
    crc32 := UInt32.ofNat (field bs 24 4), flags := UInt32.ofNat (field bs 28 4),
    reserved2 := UInt32.ofNat (field bs 32 4) }

@[simp] theorem length_used (h : DiskBlockHeader) : h.used.length = diskBlockHeaderSize := by
  simp [used, diskBlockHeaderSize]

/-- All fields but the last come from the first 32 bytes. -/
theorem decode_used (h : DiskBlockHeader) (tail : List UInt8) :
    decode (h.used ++ tail) = { h with reserved2 := UInt32.ofNat (field tail 0 4) } := by
  obtain ⟨magic, blockId, level, dataSize, crc32, flags, reserved2⟩ := h
  simp only [used, decode, field]
  simp [List.drop_append, List.drop_of_length_le, uint8_ofNat_fromLE,
    uint32_ofNat_fromLE, uint64_ofNat_fromLE]

end DiskBlockHeader

namespace DiskFormatter

/-- `total_blocks - 1 - bitmap_blocks - wal_blocks` in 64 bits. -/
def dataBlocksFor (totalBlocks bitmapBlocks walBlocks : Nat) : Nat :=
  (totalBlocks + 3 * 2 ^ 64 - 1 - bitmapBlocks - walBlocks) % 2 ^ 64

/-- The blocks that hold one bit for each data block. -/
def neededBitmapBlocks (dataBlocks : Nat) : Nat :=
  (u64 (dataBlocks + 7) / 8 + physicalBlockSize - 1) / physicalBlockSize

/-- The rounds of estimating the size of the bitmap. -/
def bitmapBlocksFor (totalBlocks walBlocks : Nat) : Nat → Nat → Nat
  | 0, bitmapBlocks => bitmapBlocks
  | rounds + 1, bitmapBlocks =>
    let needed := neededBitmapBlocks (dataBlocksFor totalBlocks bitmapBlocks walBlocks)
    if needed = bitmapBlocks then bitmapBlocks else bitmapBlocksFor totalBlocks walBlocks rounds needed

/-- The superblock that `Format` builds; `uuid` and `now` are its clock readings. -/
def newSuperBlock (totalBlocks walBlocks : Nat) (nodeId : UInt64) (diskIndex : UInt32) (uuid now : UInt64) :
    DiskSuperBlock :=
  let bitmapOffset := superBlockSize
  let bitmapBlocks := bitmapBlocksFor totalBlocks walBlocks 10 1
  let dataOffset := u64 (bitmapOffset + bitmapBlocks * physicalBlockSize)
  let sb : DiskSuperBlock :=
    { magic := diskMagic, version := UInt16.ofNat diskFormatVersion, diskUuid := uuid, nodeId := nodeId,
      diskIndex := diskIndex, blockSize := UInt32.ofNat physicalBlockSize,
      totalBlocks := UInt64.ofNat totalBlocks, bitmapOffset := UInt64.ofNat bitmapOffset,
      bitmapBlocks := UInt64.ofNat bitmapBlocks, walOffset := 0, walBlocks := UInt64.ofNat walBlocks,
      dataOffset := UInt64.ofNat dataOffset,
      dataBlocks := UInt64.ofNat (dataBlocksFor totalBlocks bitmapBlocks walBlocks), createTime := now }
  { sb with checksum := computeCRC32 sb.head }

/-- The writes to the two new files; those of zero blocks are put together. -/
def formatEffects (sb : DiskSuperBlock) : List (Effect DiskFile) :=
  [.truncate .device, .write .device 0 sb.encode,
   .write .device sb.encode.length
     (List.replicate ((sb.bitmapBlocks.toNat + sb.dataBlocks.toNat) * physicalBlockSize) 0),
   .truncate .wal, .write .wal 0 (List.replicate (sb.walBlocks.toNat * physicalBlockSize) 0)]

def format (w : World DiskFile) (diskSize walBlocks nodeId : UInt64) (diskIndex : UInt32) (uuid now : UInt64) :
    Status × World DiskFile :=
  let walBlocks := if walBlocks = 0 then walDefaultBlocks else walBlocks.toNat
  let totalBlocks := diskSize.toNat / physicalBlockSize
  if totalBlocks < u64 (1 + 1 + walBlocks + 1) then (.invalidArgument, w)
  else (.ok, w.performAll (formatEffects (newSuperBlock totalBlocks walBlocks nodeId diskIndex uuid now)))

/-- The device file is there; reading less than a whole superblock fails. -/
def readSuperBlock (device : Image) : Except Status DiskSuperBlock :=
  match (Stream.closed.open'.read device 0 DiskSuperBlock.bytes).1 with
  | none => .error .ioError
  | some bs => .ok (DiskSuperBlock.decode bs)

def isFormatted (device : Image) : Bool :=
  match readSuperBlock device with
  | .error _ => false
  | .ok sb => sb.magic == diskMagic

/-! ## What `Format` leaves -/

/-- The blank device and WAL of a superblock. -/
structure Formatted (sb : DiskSuperBlock) (files : DiskFile → Image) : Prop where
  header : (files .device).bytes 0 108 = sb.used
  blank : ∀ i, 108 ≤ i → (files .device).byte i = 0
  size : (files .device).size =
    DiskSuperBlock.bytes + (sb.bitmapBlocks.toNat + sb.dataBlocks.toNat) * physicalBlockSize
  walBlank : ∀ i, (files .wal).byte i = 0

theorem replay_formatEffects_wal (sb : DiskSuperBlock) (files : DiskFile → Image) :
    replay files (formatEffects sb) .wal =
      Image.empty.write 0 (List.replicate (sb.walBlocks.toNat * physicalBlockSize) 0) := by
  simp only [replay, formatEffects, Effect.apply, Function.update, List.foldl]
  rfl

theorem formatted_of_formatEffects {sb : DiskSuperBlock} (sized : sb.Sized) (files : DiskFile → Image) :
    Formatted sb (replay files (formatEffects sb)) := by
  have device : replay files (formatEffects sb) .device = (Image.ofBytes sb.encode).write sb.encode.length
      (List.replicate ((sb.bitmapBlocks.toNat + sb.dataBlocks.toNat) * physicalBlockSize) 0) := by
    simp only [replay, formatEffects, Effect.apply, Function.update, List.foldl]
    rfl
  have size : (Image.ofBytes sb.encode).size = sb.encode.length := Image.size_ofBytes _
  have byte : ∀ i, (replay files (formatEffects sb) .device).byte i = (Image.ofBytes sb.encode).byte i := by
    intro i
    rw [device]
    exact Image.byte_write_zeros _ (Nat.le_of_eq size) i
  constructor
  · calc (replay files (formatEffects sb) .device).bytes 0 108
      _ = (Image.ofBytes sb.encode).bytes 0 108 := Image.bytes_congr fun i _ => byte _
      _ = ((Image.ofBytes sb.encode).bytes 0 sb.encode.length).take 108 := by
        rw [Image.take_bytes _ _ _ _ (by rw [DiskSuperBlock.length_encode sized]; decide)]
      _ = sb.used := by
        rw [Image.bytes_ofBytes, DiskSuperBlock.encode, List.take_left' (DiskSuperBlock.length_used sized)]
  · intro i behind
    rw [byte]
    by_cases inside : i < sb.encode.length
    · rw [Image.byte_ofBytes inside]
      exact DiskSuperBlock.getElem_encode_of_behind sized behind inside
    · exact (Image.ofBytes sb.encode).zero_tail i (by omega)
  · have appended := Image.write_size_of_end (Image.ofBytes sb.encode)
      (List.replicate ((sb.bitmapBlocks.toNat + sb.dataBlocks.toNat) * physicalBlockSize) 0)
    rw [size, List.length_replicate] at appended
    rw [device, appended, DiskSuperBlock.length_encode sized]
  · intro i
    rw [replay_formatEffects_wal]
    exact Image.byte_write_zeros _ (Nat.zero_le _) i

/-- The blocks that the bitmap and the data area share. -/
def sharedBlocks (totalBlocks walBlocks : Nat) : Nat := (totalBlocks + 2 * 2 ^ 64 - 1 - walBlocks) % 2 ^ 64

/-- The size check leaves two of them at least. -/
theorem sharedBlocks_of_check {totalBlocks walBlocks : Nat} (total : totalBlocks < 2 ^ 52)
    (wal : walBlocks < 2 ^ 64)
    (check : ¬ totalBlocks < u64 (1 + 1 + walBlocks + 1)) :
    2 ≤ sharedBlocks totalBlocks walBlocks ∧ sharedBlocks totalBlocks walBlocks ≤ 2 ^ 53 := by
  unfold sharedBlocks u64 at *
  omega

theorem dataBlocksFor_eq {totalBlocks bitmapBlocks walBlocks : Nat} (total : totalBlocks < 2 ^ 52)
    (wal : walBlocks < 2 ^ 64) (room : bitmapBlocks < sharedBlocks totalBlocks walBlocks) :
    dataBlocksFor totalBlocks bitmapBlocks walBlocks = sharedBlocks totalBlocks walBlocks - bitmapBlocks := by
  unfold dataBlocksFor sharedBlocks at *
  omega

/-- Each estimate leaves a block for the bitmap and one for data. -/
theorem bitmapBlocksFor_bounds {totalBlocks walBlocks : Nat} (total : totalBlocks < 2 ^ 52)
    (wal : walBlocks < 2 ^ 64)
    (check : ¬ totalBlocks < u64 (1 + 1 + walBlocks + 1)) (rounds : Nat) {bitmapBlocks : Nat}
    (pos : 0 < bitmapBlocks) (small : bitmapBlocks ≤ 2 ^ 39)
    (room : bitmapBlocks < sharedBlocks totalBlocks walBlocks) :
    0 < bitmapBlocksFor totalBlocks walBlocks rounds bitmapBlocks ∧
      bitmapBlocksFor totalBlocks walBlocks rounds bitmapBlocks ≤ 2 ^ 39 ∧
      bitmapBlocksFor totalBlocks walBlocks rounds bitmapBlocks < sharedBlocks totalBlocks walBlocks := by
  obtain ⟨-, shared⟩ := sharedBlocks_of_check total wal check
  induction rounds generalizing bitmapBlocks with
  | zero => exact ⟨pos, small, room⟩
  | succ rounds ih =>
    have left := dataBlocksFor_eq total wal room
    unfold bitmapBlocksFor
    dsimp only
    split
    · exact ⟨pos, small, room⟩
    · have needed : 0 < neededBitmapBlocks (sharedBlocks totalBlocks walBlocks - bitmapBlocks) ∧
          neededBitmapBlocks (sharedBlocks totalBlocks walBlocks - bitmapBlocks) ≤ 2 ^ 39 ∧
          neededBitmapBlocks (sharedBlocks totalBlocks walBlocks - bitmapBlocks) <
            sharedBlocks totalBlocks walBlocks := by
        unfold neededBitmapBlocks u64 physicalBlockSize
        omega
      rw [left]
      exact ih needed.1 needed.2.1 needed.2.2

/-- What the layout of `Format` guarantees. -/
structure Laid (sb : DiskSuperBlock) : Prop where
  sized : sb.Sized
  bitmapOffset : sb.bitmapOffset.toNat = superBlockSize
  dataOffset : sb.dataOffset.toNat = superBlockSize + sb.bitmapBlocks.toNat * physicalBlockSize
  bitmapBlocks_pos : 0 < sb.bitmapBlocks.toNat
  bitmapBlocks : sb.bitmapBlocks.toNat ≤ 2 ^ 39
  blocks : sb.bitmapBlocks.toNat + sb.dataBlocks.toNat ≤ 2 ^ 53

theorem laid_newSuperBlock {totalBlocks walBlocks : Nat} (total : totalBlocks < 2 ^ 52) (wal : walBlocks < 2 ^ 64)
    (check : ¬ totalBlocks < u64 (1 + 1 + walBlocks + 1)) (nodeId : UInt64) (diskIndex : UInt32)
    (uuid now : UInt64) : Laid (newSuperBlock totalBlocks walBlocks nodeId diskIndex uuid now) := by
  obtain ⟨two, shared⟩ := sharedBlocks_of_check total wal check
  obtain ⟨pos, small, room⟩ := bitmapBlocksFor_bounds total wal check 10 Nat.one_pos Nat.one_le_two_pow two
  have data := dataBlocksFor_eq total wal room
  have bitmap : (UInt64.ofNat (bitmapBlocksFor totalBlocks walBlocks 10 1)).toNat =
      bitmapBlocksFor totalBlocks walBlocks 10 1 := by
    rw [UInt64.toNat_ofNat', Nat.mod_eq_of_lt (by omega)]
  refine ⟨⟨rfl, rfl⟩, rfl, ?_, ?_, Nat.le_trans (Nat.le_of_eq bitmap) small, ?_⟩
  · show (UInt64.ofNat (u64 (superBlockSize + bitmapBlocksFor totalBlocks walBlocks 10 1 *
      physicalBlockSize))).toNat =
      superBlockSize + (UInt64.ofNat (bitmapBlocksFor totalBlocks walBlocks 10 1)).toNat * physicalBlockSize
    rw [bitmap, UInt64.toNat_ofNat']
    unfold u64 superBlockSize physicalBlockSize
    clear bitmap data
    omega
  · show 0 < (UInt64.ofNat (bitmapBlocksFor totalBlocks walBlocks 10 1)).toNat
    rw [bitmap]
    exact pos
  · have sum : bitmapBlocksFor totalBlocks walBlocks 10 1 + (UInt64.ofNat (dataBlocksFor totalBlocks
        (bitmapBlocksFor totalBlocks walBlocks 10 1) walBlocks)).toNat ≤ 2 ^ 53 := by
      rw [data, UInt64.toNat_ofNat', Nat.mod_eq_of_lt (by omega)]
      omega
    exact Nat.le_trans (Nat.add_le_add_right (Nat.le_of_eq bitmap) _) sum

/-- A successful `Format` lays out the disk and leaves it blank. -/
theorem format_ok {w w' : World DiskFile} {diskSize walBlocks nodeId : UInt64} {diskIndex : UInt32}
    {uuid now : UInt64} (h : format w diskSize walBlocks nodeId diskIndex uuid now = (.ok, w')) :
    ∃ sb, Laid sb ∧ Formatted sb w'.files ∧ ∃ totalBlocks walBlocks,
      sb = newSuperBlock totalBlocks walBlocks nodeId diskIndex uuid now := by
  have wal : (if walBlocks = 0 then walDefaultBlocks else walBlocks.toNat) < 2 ^ 64 := by
    split
    · decide
    · exact walBlocks.toNat_lt
  have total : diskSize.toNat / physicalBlockSize < 2 ^ 52 := by
    have := diskSize.toNat_lt
    unfold physicalBlockSize
    omega
  unfold format at h
  dsimp only at h
  generalize (if walBlocks = 0 then walDefaultBlocks else walBlocks.toNat) = blocks at h wal
  by_cases check : diskSize.toNat / physicalBlockSize < u64 (1 + 1 + blocks + 1)
  · rw [if_pos check] at h
    cases h
  · rw [if_neg check] at h
    have laid := laid_newSuperBlock total wal check nodeId diskIndex uuid now
    obtain ⟨-, rfl⟩ := Prod.mk.inj h
    refine ⟨_, laid, ?_, _, _, rfl⟩
    rw [World.performAll_files]
    exact formatted_of_formatEffects laid.sized w.files

end DiskFormatter

end OpenFS
