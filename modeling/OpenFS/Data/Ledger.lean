import OpenFS.Data.DiskSteps

/-!
# The ledger of a disk

The blocks that a disk has to keep, and what the two files must hold for that:
each block's bytes at its offset, its bits in the bitmap as far as it is saved,
the superblock, and a log with a blank first slot. `Safe` effects keep this,
whole or torn.
-/

namespace OpenFS

open ByteImage FileLog DiskManager DiskFormatter

/-- A block as it was written, and where. -/
structure StoredBlock where
  blockId : UInt64
  level : BlkLevel
  data : List UInt8
  crc32 : UInt32
  offset : Nat
  small : data.length < 2 ^ 31
  deriving DecidableEq

namespace StoredBlock

def dataSize (b : StoredBlock) : UInt32 := UInt32.ofNat b.data.length

def header (b : StoredBlock) : DiskBlockHeader := blockHeader b.blockId b.level b.dataSize b.crc32

/-- Physical blocks taken. -/
def count (b : StoredBlock) : Nat := calcPhysicalBlocks b.dataSize

/-- The first of them. -/
def start (sb : DiskSuperBlock) (b : StoredBlock) : Nat := startBlock sb b.offset

/-- The bits of the block in the bitmap. -/
def Covers (sb : DiskSuperBlock) (b : StoredBlock) (j : Nat) : Prop := b.start sb ≤ j ∧ j < b.start sb + b.count

/-- The bytes that count. -/
def content (b : StoredBlock) : List UInt8 := b.header.used ++ b.data

theorem toNat_dataSize (b : StoredBlock) : b.dataSize.toNat = b.data.length := by
  have small := b.small
  unfold dataSize
  rw [UInt32.toNat_ofNat', Nat.mod_eq_of_lt (by omega)]

theorem count_eq (b : StoredBlock) :
    b.count = (diskBlockHeaderSize + b.data.length + physicalBlockSize - 1) / physicalBlockSize := by
  have small := b.small
  unfold count calcPhysicalBlocks
  rw [toNat_dataSize]
  unfold u32 diskBlockHeaderSize physicalBlockSize
  omega

theorem length_content (b : StoredBlock) : b.content.length = diskBlockHeaderSize + b.data.length := by
  simp [content]

theorem count_pos (b : StoredBlock) : 0 < b.count := by
  rw [count_eq]
  unfold diskBlockHeaderSize physicalBlockSize
  omega

/-- The content fits into the physical blocks, whose bytes can be counted in 32 bits. -/
theorem content_fits (b : StoredBlock) :
    b.content.length ≤ b.count * physicalBlockSize ∧ b.count * physicalBlockSize < 2 ^ 32 := by
  have small := b.small
  rw [length_content, count_eq]
  unfold diskBlockHeaderSize physicalBlockSize
  omega

/-- What `WriteBlock` writes for the block. -/
def buffer (b : StoredBlock) : List UInt8 := writeBuf b.header b.count b.data

theorem length_buffer (b : StoredBlock) : b.buffer.length = b.count * physicalBlockSize := by
  unfold buffer writeBuf
  rw [Image.length_bytes]
  exact Nat.mod_eq_of_lt b.content_fits.2

theorem take_buffer (b : StoredBlock) : b.buffer.take b.content.length = b.content := by
  have fits := b.content_fits
  rw [length_content] at fits ⊢
  apply take_writeBuf
  rw [show u32 (b.count * physicalBlockSize) = b.count * physicalBlockSize from Nat.mod_eq_of_lt fits.2]
  exact fits.1

/-- The blocks take no physical block in common. -/
def Apart (sb : DiskSuperBlock) (b c : StoredBlock) : Prop := ∀ j, ¬ (b.Covers sb j ∧ c.Covers sb j)

theorem apart_iff {sb : DiskSuperBlock} {b c : StoredBlock} :
    Apart sb b c ↔ b.start sb + b.count ≤ c.start sb ∨ c.start sb + c.count ≤ b.start sb := by
  have some := b.count_pos
  have some' := c.count_pos
  constructor
  · intro apart
    have clash := apart (max (b.start sb) (c.start sb))
    unfold Covers at clash
    omega
  · intro order j
    unfold Covers
    omega

theorem Apart.symm {sb : DiskSuperBlock} {b c : StoredBlock} (apart : Apart sb b c) : Apart sb c b :=
  fun j both => apart j both.symm

end StoredBlock

/-- A layout with a bit for every data block, and all data blocks in reach. -/
structure Suitable (sb : DiskSuperBlock) : Prop where
  laid : Laid sb
  valid : validateSuperBlock sb = true
  roomy : sb.dataBlocks.toNat ≤ 8 * (sb.bitmapBlocks.toNat * physicalBlockSize)
  reach : blockOffset sb sb.dataBlocks.toNat ≤ 2 ^ 63

/-- The bytes of the bitmap in memory. -/
def bitmapLength (sb : DiskSuperBlock) : Nat := max (loadedBytes sb) (BlockBitmap.needed sb.dataBlocks.toNat)

/-- The bits that are saved, and loaded again. -/
def persistedBits (sb : DiskSuperBlock) : Nat := 8 * min (loadedBytes sb) (u32 (bitmapLength sb))

/-- The bit of a data block on the device. -/
def deviceBit (device : Image) (j : Nat) : Bool := (device.byte (superBlockSize + j / 8)).toNat.testBit (j % 8)

/-- Where the blocks are. -/
structure Placed (sb : DiskSuperBlock) (live : List StoredBlock) : Prop where
  aligned : ∀ b ∈ live, b.offset = blockOffset sb (b.start sb)
  inside : ∀ b ∈ live, b.start sb + b.count ≤ sb.dataBlocks.toNat
  apart : live.Pairwise (StoredBlock.Apart sb)

/-- What the files hold of them. -/
structure Stored (sb : DiskSuperBlock) (live : List StoredBlock) (files : DiskFile → Image) : Prop where
  header : (files .device).bytes 0 108 = sb.used
  size : DiskSuperBlock.bytes + (sb.bitmapBlocks.toNat + sb.dataBlocks.toNat) * physicalBlockSize ≤
    (files .device).size
  content : ∀ b ∈ live, (files .device).bytes b.offset b.content.length = b.content
  saved : ∀ b ∈ live, ∀ j, b.Covers sb j → j < persistedBits sb → deviceBit (files .device) j = true
  blank : WalManager.FirstBlank (files .wal)

/-- An effect that touches no block of the ledger, nor clears its bits. -/
inductive Safe (sb : DiskSuperBlock) (live : List StoredBlock) : Effect DiskFile → Prop where
  | log {e : Effect DiskFile} (behind : WalManager.BehindFirst .wal e) : Safe sb live e
  | emptyLog : Safe sb live (.truncate .wal)
  | block {b : StoredBlock} (aligned : b.offset = blockOffset sb (b.start sb))
      (apart : ∀ c ∈ live, StoredBlock.Apart sb b c) : Safe sb live (.write .device b.offset b.buffer)
  | bitmap {bm : List UInt8} (fits : bm.length ≤ sb.bitmapBlocks.toNat * physicalBlockSize)
      (marked : ∀ b ∈ live, ∀ j, b.Covers sb j → j < persistedBits sb →
        j < 8 * bm.length ∧ BlockBitmap.getBit bm j = true) : Safe sb live (.write .device superBlockSize bm)

section
variable {sb : DiskSuperBlock} {live : List StoredBlock} {files left : DiskFile → Image}

/-- Where a block's bytes end. -/
theorem end_le_blockOffset {b : StoredBlock} (aligned : b.offset = blockOffset sb (b.start sb)) :
    b.offset + b.content.length ≤ blockOffset sb (b.start sb + b.count) := by
  have fits := b.content_fits.1
  rw [aligned]
  unfold blockOffset physicalBlockSize at *
  omega

theorem blockOffset_mono {j k : Nat} (h : j ≤ k) : blockOffset sb j ≤ blockOffset sb k :=
  Nat.add_le_add_left (Nat.mul_le_mul_right _ h) _

/-- The saved bits lie in front of the data area. -/
theorem persisted_before (laid : Laid sb) {j : Nat} (h : j < persistedBits sb) :
    superBlockSize + j / 8 < sb.dataOffset.toNat := by
  have loaded : loadedBytes sb ≤ sb.bitmapBlocks.toNat * physicalBlockSize := Nat.mod_le _ _
  rw [laid.dataOffset]
  unfold persistedBits at h
  omega

theorem dataOffset_le (b : Nat) : sb.dataOffset.toNat ≤ blockOffset sb b := Nat.le_add_right _ _

/-- A device that differs only in a range behind the superblock, which the blocks do not meet. -/
theorem Stored.of_range (stored : Stored sb live files) {off length : Nat} (wal : left .wal = files .wal)
    (grown : (files .device).size ≤ (left .device).size)
    (outside : ∀ i, i < off ∨ off + length ≤ i → (left .device).byte i = (files .device).byte i)
    (behind : superBlockSize ≤ off)
    (apart : ∀ b ∈ live, b.offset + b.content.length ≤ off ∨ off + length ≤ b.offset)
    (saved : ∀ b ∈ live, ∀ j, b.Covers sb j → j < persistedBits sb → deviceBit (left .device) j = true) :
    Stored sb live left := by
  have size : superBlockSize = 4096 := rfl
  refine ⟨?_, Nat.le_trans stored.size grown, fun b member => ?_, saved, wal ▸ stored.blank⟩
  · rw [← stored.header]
    exact Image.bytes_congr fun i h => outside _ (.inl (by omega))
  · have meets := apart b member
    rw [← stored.content b member, Image.length_bytes]
    exact Image.bytes_congr fun i h => outside _ (by omega)

/-- **Safe effects keep the ledger**, also where a crash tears them. -/
theorem Stored.torn (suitable : Suitable sb) (placed : Placed sb live) (stored : Stored sb live files)
    {e : Effect DiskFile} (safe : Safe sb live e) (torn : Torn files e left) : Stored sb live left := by
  have laid := suitable.laid
  cases safe with
  | log behind =>
    obtain ⟨off, bs, rfl, later⟩ := behind
    have device : left .device = files .device := torn.of_other nofun
    have blank : WalManager.FirstBlank (left .wal) := fun i h => by
      rw [torn.outside.2 i (by omega)]
      exact stored.blank i h
    refine ⟨?_, ?_, ?_, ?_, blank⟩ <;> rw [device]
    exacts [stored.header, stored.size, stored.content, stored.saved]
  | emptyLog =>
    have device : left .device = files .device := torn.of_other nofun
    have blank : WalManager.FirstBlank (left .wal) := by
      cases torn with
      | notTruncated => exact stored.blank
      | truncated =>
        rw [Function.update_self]
        exact fun _ _ => rfl
    refine ⟨?_, ?_, ?_, ?_, blank⟩ <;> rw [device]
    exacts [stored.header, stored.size, stored.content, stored.saved]
  | @block b aligned apart =>
    have wal : left .wal = files .wal := torn.of_other nofun
    have area := @dataOffset_le sb (b.start sb)
    have layout := laid.dataOffset
    rw [← aligned] at area
    refine stored.of_range wal torn.outside.1 torn.outside.2 (by omega) (fun c member =>
      ?_) fun c member j covers below => ?_
    · have ends := end_le_blockOffset (placed.aligned c member)
      rw [b.length_buffer]
      rcases StoredBlock.apart_iff.mp (apart c member) with before | after
      · have order := @blockOffset_mono sb _ _ before
        rw [← placed.aligned c member] at order
        unfold blockOffset at order aligned
        rw [Nat.add_mul] at order
        omega
      · have order := @blockOffset_mono sb _ _ after
        rw [← aligned] at order
        omega
    · have front := persisted_before laid below
      unfold deviceBit
      rw [torn.outside.2 _ (.inl (by omega))]
      exact stored.saved c member j covers below
  | @bitmap bm fits marked =>
    have wal : left .wal = files .wal := torn.of_other nofun
    have layout := laid.dataOffset
    refine stored.of_range wal torn.outside.1 torn.outside.2 (Nat.le_refl _) (fun b member =>
      ?_) fun b member j covers below => ?_
    · have area := @dataOffset_le sb (b.start sb)
      rw [← placed.aligned b member] at area
      omega
    · obtain ⟨inside, set⟩ := marked b member j covers below
      have slot : j / 8 < bm.length := by omega
      unfold deviceBit
      rcases torn.inside slot with old | new
      · rw [old]
        exact stored.saved b member j covers below
      · rw [new]
        unfold BlockBitmap.getBit at set
        rwa [List.getD_eq_getElem?_getD, List.getElem?_eq_getElem slot, Option.getD_some] at set

/-- Safe effects, one after the other. -/
theorem Stored.replay (suitable : Suitable sb) (placed : Placed sb live) (stored : Stored sb live files)
    {log : List (Effect DiskFile)} (safe : ∀ e ∈ log, Safe sb live e) :
    Stored sb live (FileLog.replay files log) := by
  induction log generalizing files with
  | nil => exact stored
  | cons e log ih =>
    have first := stored.torn suitable placed (safe e List.mem_cons_self) (.whole files e)
    exact ih first fun e' member => safe e' (List.mem_cons_of_mem _ member)

/-- A crash while they are under way. -/
theorem Stored.crash (suitable : Suitable sb) (placed : Placed sb live) (stored : Stored sb live files)
    {log : List (Effect DiskFile)} (safe : ∀ e ∈ log, Safe sb live e) (crash : Crash files log left) :
    Stored sb live left := by
  refine crash.keeps stored (fun done e rest split kept => ?_) fun done e rest left split kept torn => ?_
  · exact kept.torn suitable placed (safe e (by rw [split]; simp)) (.whole _ e)
  · exact kept.torn suitable placed (safe e (by rw [split]; simp)) torn

end

end OpenFS
