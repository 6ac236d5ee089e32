import OpenFS.Data.NodeLedger
import OpenFS.Data.ReadRecords

/-!
# The level in a block's header

The data service selects the level of a block from the block's own size and stores it in
the header on the disk. There it stays: later writes go elsewhere, and reads change no file.
-/

namespace OpenFS

open ByteImage FileLog DiskManager

/-- The level byte of the header at a place of the node. -/
def DataNode.levelAt (node : DataNode) (segmentId offset : UInt64) : Option UInt8 :=
  (node.diskPool.disks[segmentId.toNat]?).map fun d => (blockHeaderAt (d.world.files .device) offset.toNat).level

/-! ## Reads -/

namespace DiskManager

theorem readAt_world (d : DiskManager) (offset size : Nat) : (d.readAt offset size).2.world = d.world := rfl

theorem readBlock_world (d : DiskManager) (offset : Nat) (beyond : List UInt8) :
    (d.readBlock offset beyond).2.world = d.world := by
  have first := readAt_world d offset diskBlockHeaderSize
  unfold readBlock
  split
  · rfl
  generalize d.readAt offset diskBlockHeaderSize = o at first
  obtain ⟨r, d₁⟩ := o
  cases r with
  | error _ => exact first
  | ok hdrBuf =>
    dsimp only at first ⊢
    split
    · exact first
    split
    · have second := readAt_world d₁ (u64 (offset + diskBlockHeaderSize))
        (DiskBlockHeader.decode (hdrBuf ++ beyond)).dataSize.toNat
      generalize d₁.readAt (u64 (offset + diskBlockHeaderSize)) _ = q at second
      obtain ⟨r, d₂⟩ := q
      cases r with
      | error _ => exact second.trans first
      | ok _ => exact second.trans first
    · exact first

end DiskManager

namespace DataNode

variable {node : DataNode} {ledger : Nat → List StoredBlock}

theorem levelAt_readBlock (node : DataNode) (diskId place : Nat) (beyond : List UInt8)
    (segmentId offset : UInt64) :
    (node.readBlock diskId place beyond).2.levelAt segmentId offset = node.levelAt segmentId offset := by
  unfold readBlock DiskPool.readBlock levelAt
  cases disk : node.diskPool.disks[diskId]? with
  | none => rfl
  | some d =>
    have world := readBlock_world d place beyond
    dsimp only
    generalize d.readBlock place beyond = o at world
    obtain ⟨r, d'⟩ := o
    dsimp only at world ⊢
    rcases eq_or_ne diskId segmentId.toNat with same | other
    · rw [← same, List.getElem?_set_self (List.getElem?_eq_some_iff.mp disk).1, disk, Option.map_some,
        Option.map_some, world]
    · rw [List.getElem?_set_ne other]

/-- Whatever a read finds, all levels stay. -/
theorem levelAt_read (node : DataNode) (place place' : UInt64) (beyond : List UInt8) (segmentId offset : UInt64) :
    (DataService.readBlock node place place' beyond).2.levelAt segmentId offset =
      node.levelAt segmentId offset := by
  have kept := levelAt_readBlock node (u32 place.toNat) place'.toNat beyond segmentId offset
  unfold DataService.readBlock
  generalize node.readBlock (u32 place.toNat) place'.toNat beyond = o at kept
  obtain ⟨r, node'⟩ := o
  cases r with
  | error _ => exact kept
  | ok _ => exact kept

end DataNode

/-! ## Writes -/

/-- The header of a block of the ledger has the block's level. -/
theorem Holds.level {live : List StoredBlock} {d : DiskManager} (h : Holds live d) {b : StoredBlock}
    (member : b ∈ live) : (blockHeaderAt (d.world.files .device) b.offset).level = b.level.toByte := by
  have content := h.stored.content b member
  have header : (d.world.files .device).bytes b.offset diskBlockHeaderSize = b.header.used ++ [] := by
    have first := congrArg (List.take diskBlockHeaderSize) content
    rw [Image.take_bytes _ _ _ _ (by rw [b.length_content]; omega)] at first
    rw [first, List.append_nil]
    exact List.take_left' (DiskBlockHeader.length_used _)
  unfold blockHeaderAt
  rw [header, DiskBlockHeader.decode_used]
  rfl

namespace DataNode

variable {node : DataNode} {ledger : Nat → List StoredBlock}

theorem Keeps.levelAt (keeps : Keeps ledger node) {segmentId offset : UInt64} {b : StoredBlock}
    (member : b ∈ ledger segmentId.toNat) (place : offset.toNat = b.offset) :
    node.levelAt segmentId offset = some b.level.toByte := by
  have disk := List.getElem?_eq_getElem (keeps.known _ (List.ne_nil_of_mem member))
  unfold DataNode.levelAt
  rw [disk, Option.map_some, place, (keeps.disks _ _ disk).level member]

/-- A write leaves the levels of the blocks before it, and a block that it acknowledges has the
level of its size. -/
theorem Keeps.write_level (keeps : Keeps ledger node) (blockId : UInt64) {data : List UInt8} (crc32 : UInt32)
    (small : data.length < 2 ^ 31) :
    (∀ segmentId offset old crc, Shelved ledger segmentId offset old crc →
      (DataService.writeBlock node blockId data crc32).2.levelAt segmentId offset =
        node.levelAt segmentId offset) ∧
      ∀ segmentId offset, (DataService.writeBlock node blockId data crc32).1 = .ok (segmentId, offset) →
        (DataService.writeBlock node blockId data crc32).2.levelAt segmentId offset =
          some (selectBlockLevel data.length).toByte := by
  obtain ⟨ledger', keeps', more, acknowledged⟩ := keeps.write_block blockId crc32 small
  refine ⟨fun segmentId offset old crc shelved => ?_, fun segmentId offset ok => ?_⟩
  · obtain ⟨b, member, place, -, -⟩ := shelved
    rw [keeps.levelAt member place, keeps'.levelAt (more _ member) place]
  · obtain ⟨b, member, place, made⟩ := acknowledged segmentId offset ok
    rw [keeps'.levelAt member place, made]

end DataNode

end OpenFS
