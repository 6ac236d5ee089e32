import OpenFS.Data.ReadRecords

/-!
# Corruption and reads

The checksum of the record is never compared with the data. A read returns data that
fit the checksum exactly if the device has them so: a record that was damaged behind
its magic number is handed out like any other.
-/

namespace OpenFS

open ByteImage FileLog

/-- A record that can be read at the offset is intact. -/
def DiskManager.Trustworthy (d : DiskManager) (offset : Nat) : Prop :=
  d.io.good = true → RecordAt (d.world.files .device) offset → Intact (d.world.files .device) offset

/-- The record at a place of the pool can be trusted, if there is such a disk. -/
def DataNode.Trustworthy (node : DataNode) (diskId offset : Nat) : Prop :=
  ∀ d, node.diskPool.disks[diskId]? = some d → d.Trustworthy offset

/-- What is read at the offset has the checksum that is returned with it. -/
def DiskManager.Verifies (d : DiskManager) (offset : Nat) : Prop :=
  ∀ beyond data crc32 blockId d', d.readBlock offset beyond = (.ok (data, crc32, blockId), d') →
    computeCRC32 data = crc32

/-- The same of an answer of the data service. -/
def DataService.Verifies (node : DataNode) (segmentId offset : UInt64) : Prop :=
  ∀ beyond data crc32 node', DataService.readBlock node segmentId offset beyond = (.ok (data, crc32), node') →
    computeCRC32 data = crc32

theorem DiskManager.verifies_iff (d : DiskManager) (offset : Nat) : d.Verifies offset ↔ d.Trustworthy offset := by
  constructor
  · intro verifies good there
    exact verifies [] _ _ _ d (readBlock_of_record good there [])
  · intro trustworthy beyond data crc32 blockId d' read
    obtain ⟨good, there, rfl, rfl, -, -⟩ := readBlock_eq_ok_iff.mp read
    exact trustworthy good there

/-- The service answers with what the disk that is named returns. -/
theorem DataService.readBlock_eq_ok_iff {node : DataNode} {segmentId offset : UInt64} {beyond data : List UInt8}
    {crc32 : UInt32} : (∃ node', DataService.readBlock node segmentId offset beyond = (.ok (data, crc32), node')) ↔
      ∃ d blockId d', node.diskPool.disks[u32 segmentId.toNat]? = some d ∧
        d.readBlock offset.toNat beyond = (.ok (data, crc32, blockId), d') := by
  unfold DataService.readBlock DataNode.readBlock DiskPool.readBlock
  cases disk : node.diskPool.disks[u32 segmentId.toNat]? with
  | none => simp
  | some d =>
    dsimp only
    rcases read : d.readBlock offset.toNat beyond with ⟨out, d'⟩
    constructor
    · rintro ⟨node', answer⟩
      cases out with
      | error s => cases answer
      | ok r =>
        cases answer
        exact ⟨d, _, _, rfl, read⟩
    · rintro ⟨d, blockId, d'', same, read'⟩
      cases same
      rw [read] at read'
      cases read'
      exact ⟨_, rfl⟩

theorem DataService.verifies_iff (node : DataNode) (segmentId offset : UInt64) :
    DataService.Verifies node segmentId offset ↔ node.Trustworthy (u32 segmentId.toNat) offset.toNat := by
  constructor
  · intro verifies d disk good there
    obtain ⟨node', answer⟩ := DataService.readBlock_eq_ok_iff.mpr
      ⟨d, _, d, disk, DiskManager.readBlock_of_record good there []⟩
    exact verifies [] _ _ node' answer
  · intro trustworthy beyond data crc32 node' answer
    obtain ⟨d, blockId, d', disk, read⟩ := DataService.readBlock_eq_ok_iff.mp ⟨node', answer⟩
    exact (d.verifies_iff offset.toNat).mpr (trustworthy d disk) beyond data crc32 blockId d' read

/-- **Reads verify the checksum exactly where there is nothing to find**: no record that
the stream can read, or one that is intact. -/
theorem reads_verify_iff (d : DiskManager) (node : DataNode) (segmentId offset : UInt64) :
    (d.Verifies offset.toNat ↔ d.Trustworthy offset.toNat) ∧
      (DataService.Verifies node segmentId offset ↔ node.Trustworthy (u32 segmentId.toNat) offset.toNat) :=
  ⟨d.verifies_iff offset.toNat, DataService.verifies_iff node segmentId offset⟩

namespace DiskManager

/-- A device with one record, of the byte 7 and a checksum of zero. -/
def damagedDevice : Image :=
  Image.empty.write 0 ((DiskBlockHeader.used { blockId := 1, dataSize := 1, crc32 := 0 }) ++ [7])

/-- A disk with that device. -/
def damagedDisk : DiskManager :=
  { io := ⟨true, false⟩, state := .normal, world := ⟨fun _ => damagedDevice, []⟩ }

theorem damagedDisk_read : damagedDisk.readBlock 0 [] = (.ok ([7], 0, 1), damagedDisk) := by
  let damaged : DiskBlockHeader := { blockId := 1, dataSize := 1, crc32 := 0 }
  have content : (damagedDisk.world.files .device).bytes 0 33 = damaged.used ++ [7] := by decide
  have size : damaged.dataSize.toNat = [(7 : UInt8)].length := rfl
  have inside : 0 + diskBlockHeaderSize + [(7 : UInt8)].length ≤
    (damagedDisk.world.files .device).size := by decide
  exact readBlock_of_content rfl rfl size (by decide) inside content []

end DiskManager

/-- The byte is returned although its checksum is not zero. -/
theorem damaged_record_read : ¬ ∀ (d : DiskManager) (offset : UInt64), d.Verifies offset.toNat := by
  intro claim
  have fits := claim .damagedDisk 0 [] [7] 0 1 _ DiskManager.damagedDisk_read
  exact absurd fits (by decide)

end OpenFS
