import OpenFS.Data.DataNode
import OpenFS.Data.DiskSteps

/-!
# What a read delivers

`ReadBlock` on a disk in any state, with any bytes on the device. It looks at the magic
number and at the lengths, and hands out the checksum without comparing it. So a read is
as good as the record that it finds.
-/

namespace OpenFS

open ByteImage FileLog

/-- The header that is read at an offset. -/
def blockHeaderAt (device : Image) (offset : Nat) : DiskBlockHeader :=
  .decode (device.bytes offset diskBlockHeaderSize)

/-- The data behind it. -/
def payloadAt (device : Image) (offset : Nat) : List UInt8 :=
  device.bytes (offset + diskBlockHeaderSize) (blockHeaderAt device offset).dataSize.toNat

/-- There is a whole record at the offset, in reach of the stream. -/
structure RecordAt (device : Image) (offset : Nat) : Prop where
  header : offset < 2 ^ 63 ∧ offset + diskBlockHeaderSize ≤ device.size
  magic : (blockHeaderAt device offset).magic = UInt32.ofNat diskBlockMagic
  data : 0 < (blockHeaderAt device offset).dataSize → offset + diskBlockHeaderSize < 2 ^ 63 ∧
    offset + diskBlockHeaderSize + (blockHeaderAt device offset).dataSize.toNat ≤ device.size

/-- The record's checksum is that of its data. -/
def Intact (device : Image) (offset : Nat) : Prop :=
  computeCRC32 (payloadAt device offset) = (blockHeaderAt device offset).crc32

theorem field_append {bs : List UInt8} {i n : Nat} (inside : i + n ≤ bs.length) (tail : List UInt8) :
    field (bs ++ tail) i n = field bs i n := by
  unfold field
  rw [List.drop_append_of_le_length (by omega), List.take_append_of_le_length (by rw [List.length_drop]; omega)]

/-- What is copied from behind the bytes that were read does not count. -/
theorem decode_append {bs : List UInt8} (length : bs.length = diskBlockHeaderSize) (tail : List UInt8) :
    (DiskBlockHeader.decode (bs ++ tail)).magic = (DiskBlockHeader.decode bs).magic ∧
      (DiskBlockHeader.decode (bs ++ tail)).dataSize = (DiskBlockHeader.decode bs).dataSize ∧
      (DiskBlockHeader.decode (bs ++ tail)).crc32 = (DiskBlockHeader.decode bs).crc32 ∧
      (DiskBlockHeader.decode (bs ++ tail)).blockId = (DiskBlockHeader.decode bs).blockId := by
  unfold diskBlockHeaderSize at length
  unfold DiskBlockHeader.decode
  dsimp only
  rw [field_append (by omega), field_append (by omega), field_append (by omega), field_append (by omega)]
  exact ⟨rfl, rfl, rfl, rfl⟩

namespace DiskManager

variable {d : DiskManager} {offset : Nat}

theorem readAt_of_bad {size : Nat} (isOpen : d.io.isOpen = true) (bad : ¬ (d.io.good = true ∧ offset < 2 ^ 63 ∧
    (size = 0 ∨ offset + size ≤ (d.world.files .device).size))) : ∃ d',
      d.readAt offset size = (.error .ioError, d') := by
  unfold readAt
  rw [BlockIOEngine.readAt_of_bad isOpen fun able => bad ⟨able.1, able.2.1, able.2.2.1⟩]
  exact ⟨_, rfl⟩

/-- A whole record is read as it is. -/
theorem readBlock_of_record (good : d.io.good = true) (there : RecordAt (d.world.files .device) offset)
    (beyond : List UInt8) : d.readBlock offset beyond =
      (.ok (payloadAt (d.world.files .device) offset, (blockHeaderAt (d.world.files .device) offset).crc32,
        (blockHeaderAt (d.world.files .device) offset).blockId), d) := by
  obtain ⟨⟨seek, inside⟩, magic, data⟩ := there
  obtain ⟨magic', dataSize', crc', id'⟩ :=
    decode_append (Image.length_bytes (d.world.files .device) offset diskBlockHeaderSize) beyond
  unfold blockHeaderAt at magic data
  have next : u64 (offset + diskBlockHeaderSize) = offset + diskBlockHeaderSize :=
    Nat.mod_eq_of_lt (by unfold diskBlockHeaderSize; omega)
  unfold readBlock
  rw [if_neg (by simp [Stream.isOpen_of_good good]), readAt_of_good good seek (.inr inside)]
  dsimp only
  rw [magic', dataSize', crc', id', if_neg (by simp [magic]), next]
  unfold payloadAt blockHeaderAt
  split
  · next some => rw [readAt_of_good good (data some).1 (.inr (data some).2)]
  · next none =>
    have empty : (DiskBlockHeader.decode ((d.world.files .device).bytes offset diskBlockHeaderSize)).dataSize.toNat = 0 :=
      Nat.eq_zero_of_not_pos fun pos => none (UInt32.lt_iff_toNat_lt.mpr pos)
    rw [empty, Image.bytes_zero]

/-- Without one nothing is read. -/
theorem readBlock_of_no_record (bad : ¬ (d.io.good = true ∧ RecordAt (d.world.files .device) offset))
    (beyond : List UInt8) : ∃ s d', d.readBlock offset beyond = (.error s, d') := by
  unfold readBlock
  by_cases isOpen : d.io.isOpen = true
  · rw [if_neg (by simp [isOpen])]
    by_cases first : d.io.good = true ∧ offset < 2 ^ 63 ∧
      offset + diskBlockHeaderSize ≤ (d.world.files .device).size
    · obtain ⟨good, seek, inside⟩ := first
      obtain ⟨magic', dataSize', -, -⟩ :=
        decode_append (Image.length_bytes (d.world.files .device) offset diskBlockHeaderSize) beyond
      have next : u64 (offset + diskBlockHeaderSize) = offset + diskBlockHeaderSize :=
        Nat.mod_eq_of_lt (by unfold diskBlockHeaderSize; omega)
      rw [readAt_of_good good seek (.inr inside)]
      dsimp only
      rw [magic', dataSize', next]
      split
      · exact ⟨_, _, rfl⟩
      · next magic =>
        have cut : 0 < (blockHeaderAt (d.world.files .device) offset).dataSize ∧
            ¬ (offset + diskBlockHeaderSize < 2 ^ 63 ∧ offset + diskBlockHeaderSize +
              (blockHeaderAt (d.world.files .device) offset).dataSize.toNat ≤ (d.world.files .device).size) := by
          by_contra fits
          exact bad ⟨good, ⟨seek, inside⟩, Decidable.not_not.mp magic, fun some => by
            by_contra outside
            exact fits ⟨some, outside⟩⟩
        obtain ⟨some, outside⟩ := cut
        have pos := UInt32.lt_iff_toNat_lt.mp some
        unfold blockHeaderAt at some outside pos
        rw [if_pos some]
        obtain ⟨d', failed⟩ := @readAt_of_bad d (offset + diskBlockHeaderSize) _ isOpen
          (fun all => outside ⟨all.2.1, all.2.2.resolve_left (Nat.ne_of_gt pos)⟩)
        rw [failed]
        exact ⟨_, _, rfl⟩
    · obtain ⟨d', failed⟩ := @readAt_of_bad d offset diskBlockHeaderSize isOpen
        (fun all => first ⟨all.1, all.2.1, all.2.2.resolve_left (by decide)⟩)
      rw [failed]
      exact ⟨_, _, rfl⟩
  · rw [if_pos isOpen]
    exact ⟨_, _, rfl⟩

/-- What a successful read returns. -/
theorem readBlock_eq_ok_iff {beyond data : List UInt8} {crc32 : UInt32} {blockId : UInt64} {d' : DiskManager} :
    d.readBlock offset beyond = (.ok (data, crc32, blockId), d') ↔
      d.io.good = true ∧ RecordAt (d.world.files .device) offset ∧
        data = payloadAt (d.world.files .device) offset ∧
        crc32 = (blockHeaderAt (d.world.files .device) offset).crc32 ∧
        blockId = (blockHeaderAt (d.world.files .device) offset).blockId ∧ d' = d := by
  constructor
  · intro read
    by_cases there : d.io.good = true ∧ RecordAt (d.world.files .device) offset
    · rw [readBlock_of_record there.1 there.2] at read
      cases read
      exact ⟨there.1, there.2, rfl, rfl, rfl, rfl⟩
    · obtain ⟨s, d', failed⟩ := readBlock_of_no_record there beyond
      rw [failed] at read
      cases read
  · rintro ⟨good, there, rfl, rfl, rfl, rfl⟩
    exact readBlock_of_record good there beyond

end DiskManager

end OpenFS
