import OpenFS.Data.SpaceAccounts

/-!
# The ledgers of a data node

What a node's disks hold, as long as blocks are only written and read: each disk
keeps a ledger, a block that is acknowledged is in it from then on, and is read as it
was written from the place that the acknowledgement names.
-/

namespace OpenFS.DataNode

open DiskManager

/-- `ledger i` lists the blocks of the `i`-th disk; a disk's number fits the 32 bits that it
is cut to when a block is read. -/
structure Keeps (ledger : Nat → List StoredBlock) (node : DataNode) : Prop where
  disks : ∀ i d, node.diskPool.disks[i]? = some d → Holds (ledger i) d
  known : ∀ i, ledger i ≠ [] → i < node.diskPool.disks.length
  few : node.diskPool.disks.length ≤ 2 ^ 32

/-- The ledger has the block at the place that an answer names. -/
def Shelved (ledger : Nat → List StoredBlock) (segmentId offset : UInt64) (data : List UInt8)
    (crc32 : UInt32) : Prop :=
  ∃ b ∈ ledger segmentId.toNat, offset.toNat = b.offset ∧ b.data = data ∧ b.crc32 = crc32

variable {node : DataNode} {ledger ledger' : Nat → List StoredBlock}

theorem Shelved.mono {segmentId offset : UInt64} {data : List UInt8} {crc32 : UInt32}
    (shelved : Shelved ledger segmentId offset data crc32) (more : ∀ i, ledger i ⊆ ledger' i) :
    Shelved ledger' segmentId offset data crc32 := by
  obtain ⟨b, member, rest⟩ := shelved
  exact ⟨b, more _ member, rest⟩

/-! ## One disk of the pool -/

/-- Each disk holds its ledger. -/
def DisksHold (ledger : Nat → List StoredBlock) (node : DataNode) : Prop :=
  ∀ i d, node.diskPool.disks[i]? = some d → Holds (ledger i) d

/-- One disk with its ledger is replaced. -/
theorem DisksHold.set (disks : DisksHold ledger node) {i : Nat} {d d' : DiskManager}
    (disk : node.diskPool.disks[i]? = some d) {blocks : List StoredBlock} (holds : Holds blocks d')
    (locations : List (UInt64 × BlockLocation)) :
    DisksHold (Function.update ledger i blocks)
      { node with diskPool := { disks := node.diskPool.disks.set i d' }, blockLocations := locations } := by
  have here := (List.getElem?_eq_some_iff.mp disk).1
  intro j c there
  dsimp only at there
  rcases eq_or_ne j i with rfl | other
  · rw [List.getElem?_set_self here] at there
    cases there
    rw [Function.update_self]
    exact holds
  · rw [List.getElem?_set_ne other.symm] at there
    rw [Function.update_of_ne other]
    exact disks j c there

theorem subset_update_cons (ledger : Nat → List StoredBlock) (i : Nat) (b : StoredBlock) (j : Nat) :
    ledger j ⊆ Function.update ledger i (b :: ledger i) j := by
  rcases eq_or_ne j i with rfl | other
  · rw [Function.update_self]
    exact List.subset_cons_self _ _
  · rw [Function.update_of_ne other]
    exact List.Subset.refl _

theorem mem_update_cons (ledger : Nat → List StoredBlock) (i : Nat) (b : StoredBlock) :
    b ∈ Function.update ledger i (b :: ledger i) i := by
  rw [Function.update_self]
  exact List.mem_cons_self

/-- A write is refused, or adds a block to the ledger of the disk that was chosen. -/
theorem DisksHold.write (disks : DisksHold ledger node) (blockId : UInt64) (level : BlkLevel) {data : List UInt8}
    (crc32 : UInt32) (small : data.length < 2 ^ 31) :
    (∃ s, s ≠ .ok ∧ node.writeBlock blockId level data (UInt32.ofNat data.length) crc32 = (.error s, node)) ∨
      ∃ (i : Nat) (d d' : DiskManager) (b : StoredBlock), node.diskPool.disks[i]? = some d ∧
        b = ⟨blockId, level, data, crc32, b.offset, small⟩ ∧ Holds (b :: ledger i) d' ∧
        node.writeBlock blockId level data (UInt32.ofNat data.length) crc32 = (.ok (i, b.offset), { node with
          diskPool := { disks := node.diskPool.disks.set i d' }
          blockLocations := setLocation node.blockLocations blockId ⟨i, b.offset, b.dataSize⟩ }) := by
  unfold DataNode.writeBlock DiskPool.writeBlock
  cases selected : node.diskPool.selectDisk with
  | none => exact .inl ⟨_, by decide, rfl⟩
  | some i =>
    dsimp only
    cases disk : node.diskPool.disks[i]? with
    | none => exact .inl ⟨_, by decide, rfl⟩
    | some d =>
      dsimp only
      have holds := disks i d disk
      cases room : d.bitmap.allocate (calcPhysicalBlocks (UInt32.ofNat data.length)) with
      | none =>
        left
        rw [writeBlock_of_full holds.ready.normal room]
        dsimp only
        rw [set_of_getElem? disk]
        exact ⟨_, by decide, rfl⟩
      | some found =>
        right
        obtain ⟨start, bitmap⟩ := found
        obtain ⟨b, effects, d', made, -, result, -, -, -, -, -, holds'⟩ :=
          holds.write blockId level crc32 small room
        refine ⟨i, d, d', b, disk, ?_, holds', ?_⟩
        · rw [made]
        · rw [result]
          dsimp only
          rw [made]
          rfl

/-- A disk of the pool answers for it. -/
theorem readBlock_of_disk {diskId : Nat} {d : DiskManager} (disk : node.diskPool.disks[diskId]? = some d)
    {offset : Nat} {beyond : List UInt8} {out : Except Status (List UInt8 × UInt32 × UInt64)} {d' : DiskManager}
    (read : d.readBlock offset beyond = (out, d')) :
    node.readBlock diskId offset beyond =
      (out, { node with diskPool := { disks := node.diskPool.disks.set diskId d' } }) := by
  unfold DataNode.readBlock DiskPool.readBlock
  rw [disk]
  dsimp only
  rw [read]

/-- A block of the disk's ledger is read as it was written. -/
theorem DisksHold.read (disks : DisksHold ledger node) {i : Nat} (inside : i < node.diskPool.disks.length)
    {b : StoredBlock} (member : b ∈ ledger i) (beyond : List UInt8) :
    node.readBlock i b.offset beyond = (.ok (b.data, b.crc32, b.blockId), node) := by
  have disk := List.getElem?_eq_getElem inside
  rw [readBlock_of_disk disk ((disks _ _ disk).read member beyond), set_of_getElem? disk]

/-- A node that was started on fresh disks holds nothing. -/
theorem Installed.holds (installed : Installed node) : DisksHold (fun _ => []) node := by
  obtain ⟨nodeId, worlds, uuid, now, registered, fresh, started⟩ := installed
  rw [start_of_fresh fresh] at started
  cases started
  intro i d disk
  obtain ⟨d₀, member, rfl⟩ := List.mem_map.mp (List.mem_of_getElem? disk)
  obtain ⟨w, used, rfl⟩ := List.mem_map.mp member
  obtain ⟨d', recovered, -, -, -, -, holds⟩ := (fresh w used).holds.1.recover
  rw [recovered]
  exact holds

/-! ## Writes and reads -/

/-- Changing one disk and its ledger. -/
theorem Keeps.set (keeps : Keeps ledger node) {i : Nat} {d d' : DiskManager} {live : List StoredBlock}
    (disk : node.diskPool.disks[i]? = some d) (holds : Holds live d')
    (locations : List (UInt64 × BlockLocation)) :
    Keeps (Function.update ledger i live)
      { node with diskPool := { disks := node.diskPool.disks.set i d' }, blockLocations := locations } := by
  have here := (List.getElem?_eq_some_iff.mp disk).1
  refine ⟨DisksHold.set keeps.disks disk holds locations, fun j some => ?_, ?_⟩
  · dsimp only
    rw [List.length_set]
    rcases eq_or_ne j i with rfl | other
    · exact here
    · rw [Function.update_of_ne other] at some
      exact keeps.known j some
  · dsimp only
    rw [List.length_set]
    exact keeps.few

/-- A block that is written goes to a ledger, if it is acknowledged, with the level of its size. -/
theorem Keeps.write_block (keeps : Keeps ledger node) (blockId : UInt64) {data : List UInt8} (crc32 : UInt32)
    (small : data.length < 2 ^ 31) :
    ∃ ledger', Keeps ledger' (DataService.writeBlock node blockId data crc32).2 ∧ (∀ i, ledger i ⊆ ledger' i) ∧
      ∀ segmentId offset, (DataService.writeBlock node blockId data crc32).1 = .ok (segmentId, offset) →
        ∃ b ∈ ledger' segmentId.toNat, offset.toNat = b.offset ∧
          b = ⟨blockId, selectBlockLevel data.length, data, crc32, b.offset, small⟩ := by
  have same : ∀ i, ledger i ⊆ ledger i := fun i => List.Subset.refl _
  unfold DataService.writeBlock
  split
  · exact ⟨ledger, keeps, same, fun _ _ ok => by cases ok⟩
  · rcases DisksHold.write keeps.disks blockId (selectBlockLevel data.length) crc32 small with
      ⟨s, bad, refused⟩ | ⟨i, d, d', b, disk, made, holds, result⟩
    · rw [refused]
      exact ⟨ledger, keeps, same, fun _ _ ok => by cases ok⟩
    · rw [result]
      dsimp only
      have reach := holds.end_le List.mem_cons_self
      have here := (List.getElem?_eq_some_iff.mp disk).1
      have few := keeps.few
      refine ⟨_, keeps.set disk holds _, subset_update_cons ledger i b, fun segmentId offset ok => ?_⟩
      cases ok
      have disk_number : (UInt64.ofNat i).toNat = i := by
        rw [UInt64.toNat_ofNat', Nat.mod_eq_of_lt (by omega)]
      have place : (UInt64.ofNat b.offset).toNat = b.offset := by
        rw [UInt64.toNat_ofNat', Nat.mod_eq_of_lt (by omega)]
      refine ⟨b, ?_, place, made⟩
      rw [disk_number]
      exact mem_update_cons ledger i b

/-- A refusal has a status that says so. -/
theorem Keeps.write_ne (keeps : Keeps ledger node) (blockId : UInt64) {data : List UInt8} (crc32 : UInt32)
    (small : data.length < 2 ^ 31) : (DataService.writeBlock node blockId data crc32).1 ≠ .error .ok := by
  unfold DataService.writeBlock
  split
  · simp
  · rcases DisksHold.write keeps.disks blockId (selectBlockLevel data.length) crc32 small with
      ⟨s, bad, refused⟩ | ⟨i, d, d', b, disk, made, holds, result⟩
    · rw [refused]
      simp [bad]
    · rw [result]
      simp

/-- What is acknowledged can be found in a ledger. -/
theorem Keeps.write (keeps : Keeps ledger node) (blockId : UInt64) {data : List UInt8} (crc32 : UInt32)
    (small : data.length < 2 ^ 31) :
    ∃ ledger', Keeps ledger' (DataService.writeBlock node blockId data crc32).2 ∧ (∀ i, ledger i ⊆ ledger' i) ∧
      ∀ segmentId offset, (DataService.writeBlock node blockId data crc32).1 = .ok (segmentId, offset) →
        Shelved ledger' segmentId offset data crc32 := by
  obtain ⟨ledger', keeps', more, acknowledged⟩ := keeps.write_block blockId crc32 small
  refine ⟨ledger', keeps', more, fun segmentId offset ok => ?_⟩
  obtain ⟨b, member, place, made⟩ := acknowledged segmentId offset ok
  exact ⟨b, member, place, by rw [made], by rw [made]⟩

/-- A block of a ledger is read as it was written. -/
theorem Keeps.read (keeps : Keeps ledger node) {segmentId offset : UInt64} {data : List UInt8} {crc32 : UInt32}
    (shelved : Shelved ledger segmentId offset data crc32) (beyond : List UInt8) :
    DataService.readBlock node segmentId offset beyond = (.ok (data, crc32), node) := by
  obtain ⟨b, member, place, rfl, rfl⟩ := shelved
  have inside := keeps.known _ (List.ne_nil_of_mem member)
  have few := keeps.few
  have cut : u32 segmentId.toNat = segmentId.toNat := Nat.mod_eq_of_lt (by omega)
  unfold DataService.readBlock
  rw [cut, place, DisksHold.read keeps.disks inside member]

/-- A node that was started on fresh disks keeps empty ledgers. -/
theorem Installed.keeps (installed : Installed node) (few : node.diskPool.disks.length ≤ 2 ^ 32) :
    Keeps (fun _ => []) node :=
  ⟨installed.holds, fun _ some => absurd rfl some, few⟩

/-! ## A node with room -/

theorem calcPhysicalBlocks_le {n : Nat} (small : n < 2 ^ 31) :
    0 < calcPhysicalBlocks (UInt32.ofNat n) ∧ calcPhysicalBlocks (UInt32.ofNat n) ≤ 2 ^ 20 := by
  have cut : (UInt32.ofNat n).toNat = n := by
    rw [UInt32.toNat_ofNat', Nat.mod_eq_of_lt (by omega)]
  unfold calcPhysicalBlocks
  rw [cut]
  unfold u32 diskBlockHeaderSize physicalBlockSize
  omega

/-- A node with one disk, and so many physical blocks in a row are free at its end. -/
def Roomy (node : DataNode) (room : Nat) : Prop :=
  ∃ d live p, node.diskPool.disks = [d] ∧ Holds live d ∧ p + room ≤ d.superblock.dataBlocks.toNat ∧
    ∀ j, p ≤ j → BlockBitmap.getBit d.bitmap.bitmap j = false

/-- It takes any block, which is no longer than `2 ^ 20` physical blocks. -/
theorem Roomy.write {room : Nat} (roomy : Roomy node (room + 2 ^ 20)) (blockId : UInt64) {data : List UInt8}
    (small : data.length < 2 ^ 31) :
    (∃ place, (DataService.writeBlock node blockId data (computeCRC32 data)).1 = .ok place) ∧
      Roomy (DataService.writeBlock node blockId data (computeCRC32 data)).2 room := by
  obtain ⟨d, live, p, one, holds, fits, clear⟩ := roomy
  obtain ⟨pos, short⟩ := calcPhysicalBlocks_le small
  have blocks := holds.ready.numBlocks
  have selected := selectDisk_of_free one holds.ready.normal (j := p) (by omega) (clear p (Nat.le_refl p))
  obtain ⟨start, bitmap, allocated, early⟩ := BlockBitmap.allocate_of_clear pos (by omega) clear
  have bits := holds.getBit_allocate allocated
  obtain ⟨b, log, d', -, -, result, -, -, superblock, same, -, holds'⟩ :=
    holds.write blockId (selectBlockLevel data.length) (computeCRC32 data) small allocated
  unfold DataService.writeBlock
  rw [if_neg (by simp)]
  unfold DataNode.writeBlock DiskPool.writeBlock
  rw [selected]
  dsimp only
  rw [one]
  dsimp only [List.getElem?_cons_zero]
  rw [result]
  refine ⟨⟨_, rfl⟩, d', b :: live, p + 2 ^ 20, rfl, holds', ?_, fun j behind => ?_⟩
  · rw [superblock]
    omega
  · have past : ¬ (start ≤ j ∧ j < start + calcPhysicalBlocks (UInt32.ofNat data.length)) := by omega
    rw [same, bits, clear j (by omega), decide_eq_false past, Bool.or_false]

theorem freshFiles_huge : FreshFiles (freshWorld (UInt64.ofNat ((2 ^ 35 + 2 ^ 20 - 5) * 4096)) 2) := by
  obtain ⟨started, modest, -⟩ := hugeDisk_spec
  have suitable := (started.holds modest).1.suitable
  rw [hugeDisk_eq] at suitable
  exact freshFiles_freshWorld (by decide) (by decide +kernel) suitable

/-- There is a node that takes more than ten thousand blocks. -/
theorem exists_roomy : ∃ node : DataNode, Installed node ∧ node.diskPool.disks.length = 1 ∧
    Roomy node (2 ^ 14 * 2 ^ 20) := by
  obtain ⟨installed, one⟩ := oneDisk_spec freshFiles_huge
  obtain ⟨holds, blank⟩ := freshFiles_huge.holds
  obtain ⟨d, recovered, -, -, superblock, bitmap, holds'⟩ := holds.recover
  rw [recovered] at one
  have blocks := hugeDisk_spec.2.2.1
  rw [hugeDisk_eq, freshDisk, ← superblock] at blocks
  refine ⟨_, installed, by rw [one]; rfl, d, [], 0, one, holds', by rw [blocks]; decide, fun j _ => ?_⟩
  rw [bitmap]
  exact blank j

end OpenFS.DataNode
