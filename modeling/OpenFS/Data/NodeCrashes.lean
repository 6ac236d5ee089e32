import OpenFS.Data.CrashSafety
import OpenFS.Data.NodeLedger

/-!
# Data nodes that crash

A data node stops at any time, also in the middle of a write or a start, and is started again on
what its disks hold. The ledgers come back with it, if all bits of the bitmaps are saved.
-/

namespace OpenFS.DataNode

open ByteImage FileLog DiskManager DiskFormatter

/-- The files that a crash leaves of each disk, on the way from some managers to others. -/
structure Leaves (before after : List DiskManager) (left : List (DiskFile → Image)) : Prop where
  length_after : after.length = before.length
  length_left : left.length = before.length
  crash : ∀ (i : Nat) (d d' : DiskManager) (files : DiskFile → Image), before[i]? = some d → after[i]? = some d' →
    left[i]? = some files → CrashIn d d' files

/-- What may be under way when a node stops: nothing, a write, or `Stop`. -/
inductive Underway (node : DataNode) : List DiskManager → Prop where
  | idle : Underway node node.diskPool.disks
  | write (blockId : UInt64) (data : List UInt8) (crc32 : UInt32) (small : data.length < 2 ^ 31) :
      Underway node (DataService.writeBlock node blockId data crc32).2.diskPool.disks
  | stop : Underway node (node.diskPool.disks.map DiskManager.close)

/-- `Start` of a new node on these files. -/
def startOn (left : List (DiskFile → Image)) (nodeId : UInt64) (uuid now : Nat → UInt64) (registered : UInt64) :
    Status × DataNode :=
  start { nodeId := nodeId } (left.map fun files => ⟨files, []⟩) uuid now registered

/-- A new node is started on the files, at once or after attempts that were interrupted. -/
inductive Restarted : List (DiskFile → Image) → DataNode → Prop where
  | done (left : List (DiskFile → Image)) (nodeId : UInt64) (uuid now : Nat → UInt64) (registered : UInt64) :
      Restarted left (startOn left nodeId uuid now registered).2
  | again {left left' : List (DiskFile → Image)} {node : DataNode} (nodeId : UInt64) (uuid now : Nat → UInt64)
      (registered : UInt64)
      (leaves : Leaves (left.map anew) (startOn left nodeId uuid now registered).2.diskPool.disks left')
      (later : Restarted left' node) : Restarted left node

/-- The node crashes, and another one is started in its place. -/
def Crashes (node node' : DataNode) : Prop :=
  ∃ after left, Underway node after ∧ Leaves node.diskPool.disks after left ∧ Restarted left node'

/-- All bits of the bitmap are saved, and loaded again. -/
def Whole (sb : DiskSuperBlock) : Prop := sb.dataBlocks.toNat ≤ persistedBits sb

def Durable (node : DataNode) : Prop := ∀ d ∈ node.diskPool.disks, Whole d.superblock

/-- The files of a disk that hold its ledger. -/
structure OnFiles (live : List StoredBlock) (sb : DiskSuperBlock) (files : DiskFile → Image) : Prop where
  suitable : Suitable sb
  placed : Placed sb live
  stored : Stored sb live files
  whole : Whole sb

section
variable {live : List StoredBlock} {sb : DiskSuperBlock} {files left : DiskFile → Image} {d d' : DiskManager}

theorem Whole.persisted (whole : Whole sb) (placed : Placed sb live) : Persisted sb live := by
  intro b member j covers
  have inside := placed.inside b member
  have below := covers.2
  unfold Whole at whole
  omega

theorem onFiles_of_holds (holds : Holds live d) (whole : Whole d.superblock) :
    OnFiles live d.superblock d.world.files :=
  ⟨holds.suitable, holds.placed, holds.stored, whole⟩

/-- A crash between two managers leaves the ledger, if what happens between them is safe. -/
theorem OnFiles.crash (kept : OnFiles live sb d.world.files) {log : List (Effect DiskFile)}
    (world : d'.world = d.world.performAll log) (safe : ∀ e ∈ log, Safe sb live e) (crash : CrashIn d d' left) :
    OnFiles live sb left := by
  rw [crashIn_iff world] at crash
  exact ⟨kept.suitable, kept.placed, kept.stored.crash kept.suitable kept.placed safe crash, kept.whole⟩

/-! ## One disk comes back -/

theorem isFormatted_of_open (opened : d.openExisting = (.ok, d')) (new : d.state = .unknown)
    (normal : d'.state = .normal) : isFormatted (d.world.files .device) = true := by
  unfold openExisting at opened
  unfold isFormatted
  cases read : readSuperBlock (d.world.files .device) with
  | error s =>
    rw [read] at opened
    obtain rfl := congrArg Prod.snd opened
    cases new.symm.trans normal
  | ok sb =>
    rw [read] at opened
    dsimp only at opened ⊢
    split at opened
    · cases opened
    · next valid =>
      unfold validateSuperBlock at valid
      simp only [Bool.and_eq_true, not_not] at valid
      exact valid.1.1.1

/-- The disk that `AddDisk` opens and `RecoverAll` recovers. -/
def back (files : DiskFile → Image) : DiskManager := (anew files).openExisting.2.recover.2

/-- What is needed of a disk that comes back. -/
structure ComesBack (live : List StoredBlock) (sb : DiskSuperBlock) (files : DiskFile → Image) : Prop where
  opens : ∀ nodeId diskIndex uuid now,
    openDisk (anew files) nodeId diskIndex uuid now = (.ok, (anew files).openExisting.2)
  recovers : (anew files).openExisting.2.recover = (.ok, back files)
  superblock : (back files).superblock = sb
  holds : Holds live (back files)
  crash : ∀ left, CrashIn (anew files) (back files) left → OnFiles live sb left

theorem OnFiles.comesBack (kept : OnFiles live sb files) : ComesBack live sb files := by
  obtain ⟨d, opened, rfl, same, holds, -⟩ := holds_of_open (d := anew files) kept.suitable kept.placed kept.stored
    rfl (kept.whole.persisted kept.placed)
  obtain ⟨d', recovered, world, safe, superblock, -, holds'⟩ := holds.recover
  have made : back files = d' := by
    unfold back
    rw [opened, recovered]
  rw [same] at world
  refine ⟨fun nodeId diskIndex uuid now => ?_, ?_, by rw [made, superblock], by rw [made]; exact holds', ?_⟩
  · unfold openDisk
    rw [if_pos (isFormatted_of_open opened rfl holds.ready.normal), opened]
  · rw [made, opened, recovered]
  · rw [made]
    exact fun left crash => OnFiles.crash (d := anew files) kept world safe crash

end

/-! ## The node comes back -/

section
variable {ledger : Nat → List StoredBlock} {left left' : List (DiskFile → Image)} {node node' : DataNode}

/-- Each disk's files hold its ledger. -/
def AllOnFiles (ledger : Nat → List StoredBlock) (left : List (DiskFile → Image)) : Prop :=
  ∀ i files, left[i]? = some files → ∃ sb, OnFiles (ledger i) sb files

theorem AllOnFiles.forall_mem (kept : AllOnFiles ledger left) :
    ∀ files ∈ left, ∃ live sb, ComesBack live sb files := by
  intro files member
  obtain ⟨i, there⟩ := List.getElem?_of_mem member
  obtain ⟨sb, onFiles⟩ := kept i files there
  exact ⟨_, sb, onFiles.comesBack⟩

theorem initializeDisks_of_comesBack (nodeId : UInt64) (uuid now : Nat → UInt64) (pool : DiskPool) (i : Nat)
    (all : ∀ files ∈ left, ∃ live sb, ComesBack live sb files) :
    initializeDisks nodeId uuid now pool i (left.map fun files => ⟨files, []⟩) =
      (.ok, { disks := pool.disks ++ left.map fun files => (anew files).openExisting.2 }) := by
  induction left generalizing pool i with
  | nil => simp [initializeDisks]
  | cons files left ih =>
    obtain ⟨live, sb, first⟩ := all files List.mem_cons_self
    have opened := first.opens nodeId (UInt32.ofNat i) (uuid i) (now i)
    unfold anew at opened
    rw [List.map_cons, initializeDisks]
    unfold DiskPool.addDisk
    rw [opened]
    dsimp only
    rw [ih _ _ fun files' member => all files' (List.mem_cons_of_mem _ member)]
    simp [anew]

theorem recoverDisks_of_comesBack (all : ∀ files ∈ left, ∃ live sb, ComesBack live sb files) :
    DiskPool.recoverDisks (left.map fun files => (anew files).openExisting.2) = (.ok, left.map back) := by
  induction left with
  | nil => rfl
  | cons files left ih =>
    obtain ⟨live, sb, first⟩ := all files List.mem_cons_self
    rw [List.map_cons, DiskPool.recoverDisks, first.recovers]
    dsimp only
    rw [ih fun files' member => all files' (List.mem_cons_of_mem _ member)]
    rfl

/-- A start on files that hold the ledgers succeeds. -/
theorem AllOnFiles.startOn (kept : AllOnFiles ledger left) (nodeId : UInt64) (uuid now : Nat → UInt64)
    (registered : UInt64) : startOn left nodeId uuid now registered = (.ok, {
      diskPool := { disks := left.map back }
      nodeId := if registered = 0 then nodeId else registered
      running := true }) := by
  have all := kept.forall_mem
  unfold DataNode.startOn start
  rw [initializeDisks_of_comesBack _ _ _ _ _ all]
  dsimp only [DiskPool.recoverAll]
  rw [List.nil_append, recoverDisks_of_comesBack all]

/-- What a node that came back has. -/
structure CameBack (ledger : Nat → List StoredBlock) (count : Nat) (node : DataNode) : Prop where
  disks : DisksHold ledger node
  count : node.diskPool.disks.length = count
  durable : Durable node

theorem getElem?_map_back {i : Nat} {d : DiskManager} (there : (left.map back)[i]? = some d) :
    ∃ files, left[i]? = some files ∧ back files = d := by
  rw [List.getElem?_map, Option.map_eq_some_iff] at there
  exact there

/-- The ledgers come back, however often the start is interrupted. -/
theorem Restarted.cameBack (restarted : Restarted left node) (kept : AllOnFiles ledger left) :
    CameBack ledger left.length node := by
  induction restarted with
  | done left nodeId uuid now registered =>
    rw [kept.startOn]
    refine ⟨fun i d there => ?_, List.length_map _, fun d member => ?_⟩
    · obtain ⟨files, there', rfl⟩ := getElem?_map_back there
      obtain ⟨sb, onFiles⟩ := kept i files there'
      exact onFiles.comesBack.holds
    · obtain ⟨files, member', rfl⟩ := List.mem_map.mp member
      obtain ⟨i, there⟩ := List.getElem?_of_mem member'
      obtain ⟨sb, onFiles⟩ := kept i files there
      rw [onFiles.comesBack.superblock]
      exact onFiles.whole
  | @again left left' node nodeId uuid now registered leaves later ih =>
    rw [kept.startOn] at leaves
    have length := leaves.length_left
    rw [List.length_map] at length
    rw [← length]
    refine ih fun i files there => ?_
    have inside : i < left.length := by
      rw [← length]
      exact (List.getElem?_eq_some_iff.mp there).1
    have before := List.getElem?_eq_getElem inside
    obtain ⟨sb, onFiles⟩ := kept i _ before
    refine ⟨sb, onFiles.comesBack.crash _ (leaves.crash i (anew left[i]) (back left[i]) files ?_ ?_ there)⟩
    · rw [List.getElem?_map, before]
      rfl
    · show (left.map back)[i]? = _
      rw [List.getElem?_map, before]
      rfl

/-! ## The node goes down -/

/-- A write changes one disk at most. -/
theorem disks_writeBlock (node : DataNode) (blockId : UInt64) (data : List UInt8) (crc32 : UInt32) :
    (DataService.writeBlock node blockId data crc32).2.diskPool.disks = node.diskPool.disks ∨
      ∃ i d, node.diskPool.disks[i]? = some d ∧
        (DataService.writeBlock node blockId data crc32).2.diskPool.disks = node.diskPool.disks.set i
          (d.writeBlock blockId (selectBlockLevel data.length) data (UInt32.ofNat data.length) crc32).2 := by
  unfold DataService.writeBlock
  split
  · exact .inl rfl
  · unfold DataNode.writeBlock DiskPool.writeBlock
    cases node.diskPool.selectDisk with
    | none => exact .inl rfl
    | some i =>
      dsimp only
      cases disk : node.diskPool.disks[i]? with
      | none => exact .inl rfl
      | some d =>
        refine .inr ⟨i, d, disk, ?_⟩
        dsimp only
        generalize d.writeBlock blockId (selectBlockLevel data.length) data (UInt32.ofNat data.length)
          crc32 = result
        obtain ⟨out, d'⟩ := result
        cases out <;> rfl

/-- Nothing happens to a disk. -/
theorem OnFiles.idle {live : List StoredBlock} {d : DiskManager} {files : DiskFile → Image}
    (kept : OnFiles live d.superblock d.world.files) (crash : CrashIn d d files) :
    OnFiles live d.superblock files :=
  kept.crash (World.performAll_nil _).symm (List.forall_mem_nil _) crash

/-- Whatever is under way, the files hold the ledgers. -/
theorem Underway.allOnFiles {after : List DiskManager} (underway : Underway node after)
    (leaves : Leaves node.diskPool.disks after left) (disks : DisksHold ledger node) (durable : Durable node) :
    AllOnFiles ledger left := by
  intro i files there
  have inside : i < node.diskPool.disks.length := by
    rw [← leaves.length_left]
    exact (List.getElem?_eq_some_iff.mp there).1
  have before := List.getElem?_eq_getElem inside
  have inside' : i < after.length := by
    rw [leaves.length_after]
    exact inside
  have now := List.getElem?_eq_getElem inside'
  generalize after[i] = d' at now
  have crash := leaves.crash i _ d' files before now there
  have holds := disks i _ before
  have kept := onFiles_of_holds holds (durable _ (List.getElem_mem inside))
  generalize node.diskPool.disks[i] = d at *
  refine ⟨d.superblock, ?_⟩
  cases underway with
  | idle =>
    cases before.symm.trans now
    exact kept.idle crash
  | write blockId data crc32 small =>
    rcases disks_writeBlock node blockId data crc32 with same | ⟨j, c, disk, changed⟩
    · rw [same, before] at now
      cases now
      exact kept.idle crash
    · rw [changed] at now
      rcases eq_or_ne i j with rfl | other
      · rw [List.getElem?_set_self inside] at now
        cases now
        cases before.symm.trans disk
        obtain ⟨-, -, crashed⟩ := holds.exec (.write blockId (selectBlockLevel data.length)
          data crc32 small) trivial
        obtain ⟨placed, stored⟩ := crashed files crash
        exact ⟨kept.suitable, placed, stored, kept.whole⟩
      · rw [List.getElem?_set_ne other.symm, before] at now
        cases now
        exact kept.idle crash
  | stop =>
    rw [List.getElem?_map, before] at now
    cases now
    have safe := safe_bitmap holds.suitable holds.length holds.marked
    refine kept.crash ?_ (List.forall_mem_singleton.mpr safe) crash
    rw [close_of_ready holds.ready]

/-- **The ledgers survive a crash.** -/
theorem Keeps.crashes (keeps : Keeps ledger node) (durable : Durable node) (crashes : Crashes node node') :
    Keeps ledger node' ∧ Durable node' := by
  obtain ⟨after, left, underway, leaves, restarted⟩ := crashes
  have back := restarted.cameBack (underway.allOnFiles leaves keeps.disks durable)
  have count := back.count
  rw [leaves.length_left] at count
  refine ⟨⟨back.disks, fun i some => ?_, ?_⟩, back.durable⟩
  · rw [count]
    exact keeps.known i some
  · rw [count]
    exact keeps.few

/-! ## Requests leave the layouts -/

@[simp] theorem superblock_readAt (d : DiskManager) (offset size : Nat) :
    (d.readAt offset size).2.superblock = d.superblock := rfl

@[simp] theorem superblock_writeAt (d : DiskManager) (offset : Nat) (data : List UInt8) :
    (d.writeAt offset data).2.superblock = d.superblock := rfl

theorem superblock_logIntent (d : DiskManager) (blockId dataOffset : UInt64) (dataSize crc32 : UInt32) :
    (d.logIntent blockId dataOffset dataSize crc32).2.superblock = d.superblock := by
  unfold logIntent
  split
  · generalize d.wal.appendEntry d.world .wal blockId dataOffset dataSize crc32 = result
    obtain ⟨out, rest⟩ := result
    cases out <;> rfl
  · rfl

theorem superblock_commitIntent (d : DiskManager) (seq : Nat) :
    (d.commitIntent seq).superblock = d.superblock := by
  unfold commitIntent
  split <;> rfl

theorem superblock_writeBlock (d : DiskManager) (blockId : UInt64) (level : BlkLevel) (data : List UInt8)
    (dataSize crc32 : UInt32) : (d.writeBlock blockId level data dataSize crc32).2.superblock = d.superblock := by
  unfold DiskManager.writeBlock
  split
  · rfl
  · dsimp only
    cases d.bitmap.allocate (calcPhysicalBlocks dataSize) with
    | none => rfl
    | some found =>
      obtain ⟨start, bitmap⟩ := found
      dsimp only
      have logged := superblock_logIntent { d with bitmap := bitmap } blockId
        (UInt64.ofNat (u64 (d.superblock.dataOffset.toNat + start * physicalBlockSize))) dataSize crc32
      generalize logIntent _ _ _ _ _ = result at logged ⊢
      obtain ⟨seq, c⟩ := result
      dsimp only at logged ⊢
      split
      · next c' written =>
        have wrote := congrArg (fun r => r.2.superblock) written
        exact (superblock_commitIntent c' seq).trans (wrote.symm.trans logged)
      · next c' _ written =>
        have wrote := congrArg (fun r => r.2.superblock) written
        exact wrote.symm.trans logged

theorem superblock_readBlock (d : DiskManager) (offset : Nat) (beyond : List UInt8) :
    (d.readBlock offset beyond).2.superblock = d.superblock := by
  unfold DiskManager.readBlock
  split
  · rfl
  · split
    · next c read => exact (congrArg (fun r => r.2.superblock) read).symm
    · next hdrBuf c read =>
      have first : c.superblock = d.superblock := (congrArg (fun r => r.2.superblock) read).symm
      dsimp only
      split
      · exact first
      · split
        · split
          · next c' read' => exact (congrArg (fun r => r.2.superblock) read').symm.trans first
          · next data c' read' => exact (congrArg (fun r => r.2.superblock) read').symm.trans first
        · exact first

theorem Durable.write (durable : Durable node) (blockId : UInt64) (data : List UInt8) (crc32 : UInt32) :
    Durable (DataService.writeBlock node blockId data crc32).2 := by
  rcases disks_writeBlock node blockId data crc32 with same | ⟨i, d, disk, changed⟩
  · intro d member
    rw [same] at member
    exact durable d member
  · intro c member
    rw [changed] at member
    rcases List.mem_or_eq_of_mem_set member with old | rfl
    · exact durable c old
    · rw [superblock_writeBlock]
      exact durable d (List.mem_of_getElem? disk)

theorem Durable.read (durable : Durable node) (segmentId offset : UInt64) (beyond : List UInt8) :
    Durable (DataService.readBlock node segmentId offset beyond).2 := by
  have same : (DataService.readBlock node segmentId offset beyond).2 =
      (node.readBlock (u32 segmentId.toNat) offset.toNat beyond).2 := by
    unfold DataService.readBlock
    generalize node.readBlock (u32 segmentId.toNat) offset.toNat beyond = result
    obtain ⟨out, node'⟩ := result
    cases out <;> rfl
  rw [same]
  unfold DataNode.readBlock DiskPool.readBlock
  cases disk : node.diskPool.disks[u32 segmentId.toNat]? with
  | none => exact durable
  | some d =>
    intro c member
    rcases List.mem_or_eq_of_mem_set member with old | rfl
    · exact durable c old
    · rw [superblock_readBlock]
      exact durable d (List.mem_of_getElem? disk)

end

/-! ## A node that survives -/

/-- A disk of 8 GiB, whose bitmap is saved whole. -/
theorem wholeDisk_spec : FreshFiles (freshWorld (UInt64.ofNat (2 ^ 33)) 2) ∧
    (freshDisk (UInt64.ofNat (2 ^ 33)) 2).superblock.dataBlocks.toNat = 2097085 ∧
      Whole (freshDisk (UInt64.ofNat (2 ^ 33)) 2).superblock := by
  obtain ⟨-, started, superblock⟩ := @freshDisk_spec (UInt64.ofNat (2 ^ 33)) 2 (by decide) (by decide +kernel)
  have total : (UInt64.ofNat (2 ^ 33)).toNat / physicalBlockSize = 2 ^ 21 := by decide +kernel
  have same : (freshDisk (UInt64.ofNat (2 ^ 33)) 2).superblock = newSuperBlock (2 ^ 21) 2 0 0 0 0 := by
    rw [← total]
    exact superblock
  have layout : (newSuperBlock (2 ^ 21) 2 0 0 0 0).dataBlocks.toNat = 2097085 ∧
      (newSuperBlock (2 ^ 21) 2 0 0 0 0).bitmapBlocks.toNat = 64 ∧
      2097085 ≤ persistedBits (newSuperBlock (2 ^ 21) 2 0 0 0 0) := by decide +kernel
  obtain ⟨data, bitmap, persisted⟩ := layout
  rw [← same] at data bitmap persisted
  have modest : Modest (freshDisk (UInt64.ofNat (2 ^ 33)) 2).superblock := by
    refine ⟨?_, ?_⟩
    · rw [data, bitmap]
      decide
    · rw [data]
      decide
  have suitable := (started.holds modest).1.suitable
  refine ⟨freshFiles_freshWorld (by decide) (by decide +kernel) suitable, data, ?_⟩
  unfold Whole
  rw [data]
  exact persisted

/-- There is a node that takes a block and comes back after a crash. -/
theorem exists_durable : ∃ node : DataNode, Installed node ∧ node.diskPool.disks.length = 1 ∧
    Roomy node (2 ^ 20) ∧ Durable node := by
  obtain ⟨fresh, blocks, whole⟩ := wholeDisk_spec
  obtain ⟨installed, one⟩ := oneDisk_spec fresh
  obtain ⟨holds, blank⟩ := fresh.holds
  obtain ⟨d, recovered, -, -, superblock, bitmap, holds'⟩ := holds.recover
  rw [recovered] at one
  rw [freshDisk, ← superblock] at blocks whole
  refine ⟨_, installed, by rw [one]; rfl, ⟨d, [], 0, one, holds', ?_, fun j _ => ?_⟩, fun c member => ?_⟩
  · rw [blocks]
    decide
  · rw [bitmap]
    exact blank j
  · rw [one] at member
    obtain rfl := List.mem_singleton.mp member
    exact whole

/-- A node may crash while nothing is under way. -/
theorem exists_crashes (node : DataNode) : ∃ node', Crashes node node' := by
  refine ⟨_, _, node.diskPool.disks.map fun d => d.world.files, .idle, ⟨rfl, List.length_map _, ?_⟩,
    .done _ 0 (fun _ => 0) (fun _ => 0) 0⟩
  intro i d d' files before after left
  cases before.symm.trans after
  rw [List.getElem?_map, before] at left
  cases left
  exact .between (List.nil_append _).symm

end OpenFS.DataNode
