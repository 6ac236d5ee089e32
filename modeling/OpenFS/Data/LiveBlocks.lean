import OpenFS.Data.NodeLedger
import OpenFS.Data.ReadRecords

/-!
# Which blocks a data node serves

`ReadBlock` takes a disk and an offset, and asks neither the bitmap nor the table of
locations. What it finds there is served if it looks like a record: a block that was
deleted, or bytes inside a payload. The blocks that are live are served as they were
written.
-/

namespace OpenFS.DataNode

open ByteImage FileLog DiskManager DiskFormatter

namespace LiveBlocks

/-- The calls of a run. A payload comes in a message, which has less than 2^31 bytes. -/
inductive Call
  | write (blockId : UInt64) (level : BlkLevel) (data : List UInt8) (crc32 : UInt32) (small : data.length < 2 ^ 31)
  | delete (blockId : UInt64)

namespace Call

def exec (node : DataNode) : Call → DataNode
  | .write blockId level data crc32 _ => (node.writeBlock blockId level data (UInt32.ofNat data.length) crc32).2
  | .delete blockId => (node.deleteBlock blockId).2

/-- What a call makes of the list of live blocks: an acknowledged write adds a block at the
place that it returns, and a successful delete takes out the blocks with its id. -/
def record (node : DataNode) (live : List (Nat × StoredBlock)) : Call → List (Nat × StoredBlock)
  | .write blockId level data crc32 small =>
    match (node.writeBlock blockId level data (UInt32.ofNat data.length) crc32).1 with
    | .ok (diskId, offset) => (diskId, ⟨blockId, level, data, crc32, offset, small⟩) :: live
    | .error _ => live
  | .delete blockId =>
    if (node.deleteBlock blockId).1 = .ok then live.filter fun x => x.2.blockId ≠ blockId else live

end Call

/-- The states of runs on fresh disks, with the live blocks and their disks. -/
inductive History : DataNode → List (Nat × StoredBlock) → Prop where
  | start {node : DataNode} (installed : Installed node) : History node []
  | call {node : DataNode} {live : List (Nat × StoredBlock)} (before : History node live) (c : Call) :
      History (c.exec node) (c.record node live)

/-- A read that succeeds finds a live block at its place, and returns it. -/
def ServesLive (live : List (Nat × StoredBlock)) (node : DataNode) (diskId offset : Nat) : Prop :=
  ∀ beyond out node', node.readBlock diskId offset beyond = (.ok out, node') →
    ∃ b, (diskId, b) ∈ live ∧ b.offset = offset ∧ out = (b.data, b.crc32, b.blockId)

/-- There is a disk with this number, and a record on it at the offset. -/
def HasRecord (node : DataNode) (diskId offset : Nat) : Prop :=
  ∃ d, node.diskPool.disks[diskId]? = some d ∧ RecordAt (d.world.files .device) offset

/-- The disks hold their ledgers, and every entry of the table is a block of one of them. -/
structure Shelves (ledger : Nat → List StoredBlock) (node : DataNode) : Prop where
  disks : DisksHold ledger node
  known : ∀ e ∈ node.blockLocations, e.2.diskId < node.diskPool.disks.length ∧
    ∃ b ∈ ledger e.2.diskId, b.blockId = e.1 ∧ b.offset = e.2.physicalOffset ∧ b.dataSize = e.2.dataSize

/-- The live blocks are in the ledgers. -/
def Shelved (ledger : Nat → List StoredBlock) (node : DataNode) (live : List (Nat × StoredBlock)) : Prop :=
  ∀ x ∈ live, x.1 < node.diskPool.disks.length ∧ x.2 ∈ ledger x.1

variable {node : DataNode} {ledger : Nat → List StoredBlock} {live : List (Nat × StoredBlock)}

/-! ## The calls -/

/-- A delete frees the place of the entry, and writes nothing else to the device. -/
theorem delete_cases (shelves : Shelves ledger node) (blockId : UInt64) :
    (node.location blockId = none ∧ node.deleteBlock blockId = (.notFound, node)) ∨
      ∃ (i : Nat) (d d' : DiskManager) (b : StoredBlock), node.diskPool.disks[i]? = some d ∧ b ∈ ledger i ∧
        b.blockId = blockId ∧ Holds ((ledger i).erase b) d' ∧
        d'.world = d.world.performAll [.write .device superBlockSize (savedBytes d'.bitmap)] ∧
        d'.superblock = d.superblock ∧
        node.deleteBlock blockId = (.ok, { node with
          diskPool := { disks := node.diskPool.disks.set i d' }
          blockLocations := node.blockLocations.filter fun e => e.1 ≠ blockId }) := by
  unfold DataNode.deleteBlock DiskPool.deleteBlock
  cases found : node.location blockId with
  | none => exact .inl ⟨rfl, rfl⟩
  | some loc =>
    right
    obtain ⟨inside, b, member, id, place, size⟩ := shelves.known _ (location_eq_some found)
    have disk := List.getElem?_eq_getElem inside
    generalize node.diskPool.disks[loc.diskId] = d at disk
    obtain ⟨d', result, world, -, superblock, -, holds'⟩ := (shelves.disks _ d disk).delete member
    dsimp only at place size disk member
    refine ⟨loc.diskId, d, d', b, disk, member, id, holds', world, superblock, ?_⟩
    dsimp only
    rw [disk]
    dsimp only
    rw [← place, ← size, result]

theorem exec_write (shelves : Shelves ledger node) (shelved : Shelved ledger node live) (blockId : UInt64)
    (level : BlkLevel) {data : List UInt8} (crc32 : UInt32) (small : data.length < 2 ^ 31) :
    ∃ ledger', Shelves ledger' (Call.exec node (.write blockId level data crc32 small)) ∧
      Shelved ledger' (Call.exec node (.write blockId level data crc32 small))
        (Call.record node live (.write blockId level data crc32 small)) := by
  unfold Call.exec Call.record
  dsimp only
  rcases shelves.disks.write blockId level crc32 small with
    ⟨s, -, failed⟩ | ⟨i, d, d', b, disk, made, holds, result⟩
  · rw [failed]
    exact ⟨ledger, shelves, shelved⟩
  · have here := (List.getElem?_eq_some_iff.mp disk).1
    have more := subset_update_cons ledger i b
    have first := mem_update_cons ledger i b
    have id : b.blockId = blockId := by rw [made]
    rw [result]
    dsimp only
    rw [← made]
    refine ⟨Function.update ledger i (b :: ledger i), ⟨shelves.disks.set disk holds _, fun e member => ?_⟩,
      fun x member => ?_⟩
    · dsimp only
      rw [List.length_set]
      rcases List.mem_cons.mp member with rfl | old
      · exact ⟨here, b, first, id, rfl, rfl⟩
      · obtain ⟨inside, b', known, rest⟩ := shelves.known e (List.mem_filter.mp old).1
        exact ⟨inside, b', more _ known, rest⟩
    · dsimp only
      rw [List.length_set]
      rcases List.mem_cons.mp member with rfl | old
      · exact ⟨here, first⟩
      · exact ⟨(shelved x old).1, more _ (shelved x old).2⟩

theorem exec_delete (shelves : Shelves ledger node) (shelved : Shelved ledger node live) (blockId : UInt64) :
    ∃ ledger', Shelves ledger' (Call.exec node (.delete blockId)) ∧
      Shelved ledger' (Call.exec node (.delete blockId)) (Call.record node live (.delete blockId)) := by
  unfold Call.exec Call.record
  dsimp only
  rcases delete_cases shelves blockId with ⟨-, missing⟩ | ⟨i, d, d', b, disk, member, id, holds, -, -, result⟩
  · rw [missing]
    exact ⟨ledger, shelves, shelved⟩
  · -- what stays has another id, so it is not the block that goes
    have stays {j : Nat} {c : StoredBlock} (there : c ∈ ledger j) (other : c.blockId ≠ blockId) :
        c ∈ Function.update ledger i ((ledger i).erase b) j := by
      rcases eq_or_ne j i with rfl | elsewhere
      · rw [Function.update_self]
        apply (List.mem_erase_of_ne _).mpr there
        rintro rfl
        exact other id
      · rw [Function.update_of_ne elsewhere]
        exact there
    rw [result, if_pos rfl]
    refine ⟨Function.update ledger i ((ledger i).erase b), ⟨shelves.disks.set disk holds _, fun e left => ?_⟩,
      fun x left => ?_⟩
    · dsimp only
      rw [List.length_set]
      obtain ⟨old, other⟩ := List.mem_filter.mp left
      obtain ⟨inside, c, known, same, rest⟩ := shelves.known e old
      refine ⟨inside, c, stays known ?_, same, rest⟩
      rw [same]
      exact of_decide_eq_true other
    · dsimp only
      rw [List.length_set]
      obtain ⟨old, other⟩ := List.mem_filter.mp left
      exact ⟨(shelved x old).1, stays (shelved x old).2 (of_decide_eq_true other)⟩

theorem Shelves.exec (shelves : Shelves ledger node) (shelved : Shelved ledger node live) (c : Call) :
    ∃ ledger', Shelves ledger' (c.exec node) ∧ Shelved ledger' (c.exec node) (c.record node live) := by
  cases c with
  | write blockId level data crc32 small => exact exec_write shelves shelved blockId level crc32 small
  | delete blockId => exact exec_delete shelves shelved blockId

/-! ## The runs -/

theorem shelves_of_installed (installed : Installed node) : Shelves (fun _ => []) node := by
  refine ⟨installed.holds, ?_⟩
  rw [installed.kept.2]
  exact List.forall_mem_nil _

theorem History.shelved (history : History node live) :
    ∃ ledger, Shelves ledger node ∧ Shelved ledger node live := by
  induction history with
  | start installed => exact ⟨_, shelves_of_installed installed, List.forall_mem_nil _⟩
  | call before c ih =>
    obtain ⟨ledger, shelves, shelved⟩ := ih
    exact shelves.exec shelved c

/-- **A data node serves exactly the live blocks at a place where there is nothing else**: the
place of a live block, a disk that is not there, or no record. -/
theorem serves_live_iff (history : History node live) (diskId offset : Nat) :
    ServesLive live node diskId offset ↔
      (HasRecord node diskId offset → ∃ b, (diskId, b) ∈ live ∧ b.offset = offset) := by
  obtain ⟨ledger, shelves, shelved⟩ := history.shelved
  constructor
  · rintro serves ⟨d, disk, there⟩
    have good := (shelves.disks _ d disk).ready.good
    obtain ⟨b, member, place, -⟩ := serves [] _ _ (readBlock_of_disk disk (readBlock_of_record good there []))
    exact ⟨b, member, place⟩
  · intro placed beyond out node' read
    cases disk : node.diskPool.disks[diskId]? with
    | none =>
      unfold DataNode.readBlock DiskPool.readBlock at read
      rw [disk] at read
      cases read
    | some d =>
      rcases answer : d.readBlock offset beyond with ⟨result, d'⟩
      rw [readBlock_of_disk disk answer] at read
      cases read
      obtain ⟨-, there, -⟩ := readBlock_eq_ok_iff.mp answer
      obtain ⟨b, member, rfl⟩ := placed ⟨d, disk, there⟩
      rw [(shelves.disks _ d disk).read (shelved _ member).2] at answer
      cases answer
      exact ⟨b, member, rfl, rfl⟩

/-! ## Deleted blocks -/

/-- Saving a bitmap leaves the bytes of a block as they are. -/
theorem read_of_saved {blocks : List StoredBlock} {d d' : DiskManager} (holds : Holds blocks d) {b : StoredBlock}
    (member : b ∈ blocks) (good : d'.io.good = true) (length : d'.bitmap.bitmap.length = bitmapLength d.superblock)
    (world : d'.world = d.world.performAll [.write .device superBlockSize (savedBytes d'.bitmap)])
    (beyond : List UInt8) : d'.readBlock b.offset beyond = (.ok (b.data, b.crc32, b.blockId), d') := by
  obtain ⟨seek, inside⟩ := holds.end_le member
  have content := holds.stored.content b member
  have saved := length_savedBytes length
  have cut : u32 (bitmapLength d.superblock) ≤ bitmapLength d.superblock := Nat.mod_le _ _
  have room := bitmapLength_le holds.suitable
  have layout := holds.suitable.laid.dataOffset
  have data := @dataOffset_le d.superblock (b.start d.superblock)
  rw [← holds.placed.aligned b member] at data
  have device : d'.world.files .device = (d.world.files .device).write superBlockSize (savedBytes d'.bitmap) := by
    rw [world]
    rfl
  have behind : superBlockSize + (savedBytes d'.bitmap).length ≤ b.offset := by omega
  have size : ((d.world.files .device).write superBlockSize (savedBytes d'.bitmap)).size =
      (d.world.files .device).size := Image.write_size_of_inside (by omega)
  rw [← Image.bytes_write_of_disjoint (.inr behind), ← device] at content
  rw [← size, ← device] at inside
  rw [StoredBlock.length_content] at seek inside content
  rw [← Nat.add_assoc] at seek inside
  exact readBlock_of_content good rfl b.toNat_dataSize seek inside content beyond

/-- A block that is deleted is read as before. -/
theorem deleted_block_read (history : History node live) {blockId : UInt64}
    (deleted : (node.deleteBlock blockId).1 = .ok) (beyond : List UInt8) :
    ∃ diskId offset data crc32, node.readBlock diskId offset beyond = (.ok (data, crc32, blockId), node) ∧
      (node.deleteBlock blockId).2.readBlock diskId offset beyond =
        (.ok (data, crc32, blockId), (node.deleteBlock blockId).2) := by
  obtain ⟨ledger, shelves, -⟩ := history.shelved
  rcases delete_cases shelves blockId with ⟨-, missing⟩ | ⟨i, d, d', b, disk, member, id, holds, world,
    superblock, result⟩
  · rw [missing] at deleted
    cases deleted
  · have here := (List.getElem?_eq_some_iff.mp disk).1
    have before := shelves.disks i d disk
    refine ⟨i, b.offset, b.data, b.crc32, ?_, ?_⟩
    · rw [readBlock_of_disk disk (before.read member beyond), set_of_getElem? disk, id]
    · have length := holds.length
      rw [superblock] at length
      have there : (node.diskPool.disks.set i d')[i]? = some d' := List.getElem?_set_self here
      rw [result]
      dsimp only
      rw [readBlock_of_disk there (read_of_saved before member holds.ready.good length world beyond),
        set_of_getElem? there, id]

/-- Bytes of a payload that look like a record are read as one. -/
theorem nested_record_read (history : History node live) {diskId : Nat} {b : StoredBlock}
    (member : (diskId, b) ∈ live)
    {header : DiskBlockHeader} {before payload behind : List UInt8}
    (magic : header.magic = UInt32.ofNat diskBlockMagic)
    (size : header.dataSize.toNat = payload.length)
    (data : b.data = before ++ ((header.used ++ payload) ++ behind)) (beyond : List UInt8) :
    node.readBlock diskId (b.offset + (diskBlockHeaderSize + before.length)) beyond =
      (.ok (payload, header.crc32, header.blockId), node) := by
  obtain ⟨ledger, shelves, shelved⟩ := history.shelved
  obtain ⟨here, kept⟩ := shelved _ member
  dsimp only at here kept
  have disk := List.getElem?_eq_getElem here
  generalize node.diskPool.disks[diskId] = d at disk
  have holds := shelves.disks _ d disk
  obtain ⟨seek, inside⟩ := holds.end_le kept
  have content := holds.stored.content b kept
  have record : (header.used ++ payload).length = diskBlockHeaderSize + payload.length := by simp
  have length : b.content.length =
      (diskBlockHeaderSize + before.length) + ((diskBlockHeaderSize + payload.length) + behind.length) := by
    rw [StoredBlock.length_content, data, List.length_append, List.length_append, record]
    omega
  rw [length] at seek inside content
  rw [Image.bytes_add, StoredBlock.content, data, ← List.append_assoc] at content
  obtain ⟨-, rest⟩ := List.append_inj content (by simp)
  rw [Image.bytes_add] at rest
  obtain ⟨there, -⟩ := List.append_inj rest (by simp)
  rw [readBlock_of_disk disk (readBlock_of_content holds.ready.good magic size (by omega) (by omega) there beyond),
    set_of_getElem? disk]

/-! ## One disk -/

/-- On the disk of six blocks a block is written. -/
theorem exists_written (data : List UInt8) (small : data.length < 2 ^ 31)
    (size : calcPhysicalBlocks (UInt32.ofNat data.length) = 1) :
    ∃ node b, History node [(0, b)] ∧ b.blockId = 5 ∧ b.data = data ∧
      node.location 5 = some ⟨0, b.offset, b.dataSize⟩ := by
  obtain ⟨first, d, installed, one, blocks, empty⟩ := exists_oneDisk
  have books := (installed.kept.1.disks 0 d (by rw [one]; rfl)).books
  rw [empty] at books
  obtain ⟨d', start, written, -⟩ := @write_oneDisk _ _ _ one books 0 (by omega)
    (by rw [← Bool.not_eq_true, books.bits]; simp [spansOn]) 5 .l0 data (UInt32.ofNat data.length) 0 size
  have history : History _ _ := .call (.start installed) (.write 5 .l0 data 0 small)
  have recorded : Call.record first [] (.write 5 .l0 data 0 small) =
      [(0, ⟨5, .l0, data, 0, blockOffset d.superblock start, small⟩)] := by
    unfold Call.record
    dsimp only
    rw [written]
  rw [recorded] at history
  refine ⟨_, _, history, rfl, rfl, ?_⟩
  show (first.writeBlock 5 .l0 data (UInt32.ofNat data.length) 0).2.location 5 = _
  rw [written]
  rfl

/-- A payload that spells a record. -/
def spelled : List UInt8 := DiskBlockHeader.used { blockId := 9 }

/-- A block is served at the place that its write returned, and so is the record inside. -/
theorem serves_live_iff_spelled : ∃ node b, History node [(0, b)] ∧ b.blockId = 5 ∧ b.data = spelled ∧
    ServesLive [(0, b)] node 0 b.offset ∧ ¬ ServesLive [(0, b)] node 0 (b.offset + diskBlockHeaderSize) := by
  obtain ⟨node, b, history, id, data, -⟩ := exists_written spelled (by decide) (by decide)
  have first : (0, b) ∈ [(0, b)] := List.mem_singleton_self _
  refine ⟨node, b, history, id, data, (serves_live_iff history 0 b.offset).mpr fun _ => ⟨b, first, rfl⟩, ?_⟩
  intro serves
  have data' : b.data = [] ++ ((({ blockId := 9 } : DiskBlockHeader).used ++ []) ++ []) := data
  have read := nested_record_read history first rfl rfl data' []
  obtain ⟨b', member, place, -⟩ := serves [] _ _ read
  obtain rfl := congrArg Prod.snd (List.mem_singleton.mp member)
  have room : 0 < diskBlockHeaderSize := by decide
  dsimp only at place
  omega

/-- A block that was written and deleted is served. -/
theorem deleted_block_served :
    ¬ ∀ node live, History node live → ∀ diskId offset, ServesLive live node diskId offset := by
  intro claim
  obtain ⟨node, b, history, id, -, known⟩ := exists_written [] (by decide) (by decide)
  obtain ⟨ledger, shelves, -⟩ := history.shelved
  have deleted : (node.deleteBlock 5).1 = .ok := by
    rcases delete_cases shelves 5 with ⟨missing, -⟩ | ⟨i, d, d', b, -, -, -, -, -, -, result⟩
    · rw [known] at missing
      cases missing
    · rw [result]
  obtain ⟨diskId, offset, data, crc32, -, read⟩ := deleted_block_read history deleted []
  obtain ⟨b', member, -⟩ := claim _ _ (.call history (.delete 5)) diskId offset [] _ _ read
  unfold Call.record at member
  dsimp only at member
  rw [if_pos deleted] at member
  exact absurd member (by simp [id])

end LiveBlocks

end OpenFS.DataNode
