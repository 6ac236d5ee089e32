import Mathlib.Data.List.Count
import OpenFS.Data.Bookkeeping
import OpenFS.Data.DataNode

/-!
# The data node accounts for its space

What the bitmaps of all disks mark is what the entries of `block_locations_` take, as
long as no successful write names a block that is known already: such a write forgets
the blocks of the old entry, which then stay marked.
-/

namespace OpenFS

open ByteImage FileLog DiskManager DiskFormatter

namespace DataNode

/-- The physical blocks of an entry, on a disk with this superblock. -/
def span (sb : DiskSuperBlock) (loc : BlockLocation) : Nat × Nat :=
  (startBlock sb loc.physicalOffset, calcPhysicalBlocks loc.dataSize)

/-- The spans of the entries on the `i`-th disk. -/
def spansOn (sb : DiskSuperBlock) (i : Nat) (locations : List (UInt64 × BlockLocation)) : List (Nat × Nat) :=
  (locations.filter fun e => e.2.diskId = i).map fun e => span sb e.2

/-- The entries on the `i`-th disk are its books. -/
structure DiskKept (locations : List (UInt64 × BlockLocation)) (i : Nat) (d : DiskManager) : Prop where
  books : Books (spansOn d.superblock i locations) d
  aligned : ∀ e ∈ locations, e.2.diskId = i →
    e.2.physicalOffset = blockOffset d.superblock (span d.superblock e.2).1

structure Kept (node : DataNode) : Prop where
  keys : (node.blockLocations.map Prod.fst).Nodup
  known : ∀ e ∈ node.blockLocations, e.2.diskId < node.diskPool.disks.length
  disks : ∀ i d, node.diskPool.disks[i]? = some d → DiskKept node.blockLocations i d

/-! ## The entries as a list -/

section
variable {locations : List (UInt64 × BlockLocation)}

/-- Taking out a key takes out its entry. -/
theorem perm_cons_filter (keys : (locations.map Prod.fst).Nodup) {e : UInt64 × BlockLocation}
    (member : e ∈ locations) :
    locations.Perm (e :: locations.filter fun e' => e'.1 ≠ e.1) := by
  induction locations with
  | nil => cases member
  | cons first locations ih =>
    obtain ⟨new, keys⟩ := List.nodup_cons.mp keys
    have fresh : ∀ e' ∈ locations, e'.1 ≠ first.1 := fun e' old same => new (same ▸ List.mem_map_of_mem old)
    rcases List.mem_cons.mp member with rfl | later
    · rw [List.filter_cons_of_neg (by simp), List.filter_eq_self.mpr fun e' old => by simpa using fresh e' old]
    · rw [List.filter_cons_of_pos (by simpa using (fresh e later).symm)]
      exact ((ih keys later).cons first).trans (.swap e first _)

theorem spansOn_cons (sb : DiskSuperBlock) (i : Nat) (e : UInt64 × BlockLocation) :
    spansOn sb i (e :: locations) =
      if e.2.diskId = i then span sb e.2 :: spansOn sb i locations else spansOn sb i locations := by
  unfold spansOn
  rw [List.filter_cons]
  simp only [decide_eq_true_eq]
  split <;> rfl

theorem spansOn_perm {sb : DiskSuperBlock} {i : Nat} {others : List (UInt64 × BlockLocation)}
    (same : locations.Perm others) : (spansOn sb i locations).Perm (spansOn sb i others) :=
  (same.filter _).map _

/-- The entry that is found has the key. -/
theorem location_eq_some {node : DataNode} {blockId : UInt64} {loc : BlockLocation}
    (found : node.location blockId = some loc) : (blockId, loc) ∈ node.blockLocations := by
  unfold location at found
  obtain ⟨e, first, rfl⟩ := Option.map_eq_some_iff.mp found
  have same := List.find?_some first
  rw [decide_eq_true_eq] at same
  rw [← same]
  exact List.mem_of_find?_eq_some first

theorem location_eq_none {node : DataNode} {blockId : UInt64} :
    node.location blockId = none ↔ ∀ e ∈ node.blockLocations, e.1 ≠ blockId := by
  unfold location
  rw [Option.map_eq_none_iff, List.find?_eq_none]
  simp only [decide_eq_true_eq, ne_eq]

end

/-! ## The calls -/

/-- The calls of a run; `data` are the bytes behind the pointer. -/
inductive Call
  | write (blockId : UInt64) (level : BlkLevel) (data : List UInt8) (dataSize crc32 : UInt32)
  | delete (blockId : UInt64)

def Call.exec (node : DataNode) : Call → DataNode
  | .write blockId level data dataSize crc32 => (node.writeBlock blockId level data dataSize crc32).2
  | .delete blockId => (node.deleteBlock blockId).2

/-- The disk that the pool selects has room for so many bytes. -/
def Takes (pool : DiskPool) (dataSize : UInt32) : Prop :=
  ∃ i d found, pool.selectDisk = some i ∧ pool.disks[i]? = some d ∧
    d.bitmap.allocate (calcPhysicalBlocks dataSize) = some found

/-- A block that finds room is not known yet. -/
def NewBlock (node : DataNode) : Call → Prop
  | .write blockId _ _ dataSize _ => Takes node.diskPool dataSize → node.location blockId = none
  | .delete _ => True

/-- The layouts of the disks. -/
def superblocks (node : DataNode) : List DiskSuperBlock := node.diskPool.disks.map fun d => d.superblock

theorem set_of_getElem? {disks : List DiskManager} {i : Nat} {d : DiskManager} (disk : disks[i]? = some d) :
    disks.set i d = disks := by
  obtain ⟨inside, rfl⟩ := List.getElem?_eq_some_iff.mp disk
  exact List.set_getElem_self inside

theorem map_superblock_set {disks : List DiskManager} {i : Nat} {d d' : DiskManager} (disk : disks[i]? = some d)
    (same : d'.superblock = d.superblock) :
    (disks.set i d').map (fun d => d.superblock) = disks.map fun d => d.superblock := by
  rw [List.map_set, same]
  apply List.ext_getElem?
  intro k
  rw [List.getElem?_set]
  split
  · next here =>
    subst here
    rw [List.getElem?_map, disk]
    obtain ⟨inside, -⟩ := List.getElem?_eq_some_iff.mp disk
    rw [if_pos (by rw [List.length_map]; exact inside)]
    rfl
  · rfl

variable {node : DataNode}

/-- The disks after a call to one of them. -/
theorem diskKept_set {disks : List DiskManager} {i : Nat} {d' : DiskManager}
    {locations : List (UInt64 × BlockLocation)} (here : DiskKept locations i d')
    (others : ∀ k d, k ≠ i → disks[k]? = some d → DiskKept locations k d) (k : Nat) (d : DiskManager)
    (disk : (disks.set i d')[k]? = some d) : DiskKept locations k d := by
  by_cases same : k = i
  · subst same
    rw [List.getElem?_set_self'] at disk
    obtain ⟨_, _, rfl⟩ := Option.map_eq_some_iff.mp disk
    exact here
  · rw [List.getElem?_set_ne (Ne.symm same)] at disk
    exact others k d same disk

/-- An entry on another disk. -/
theorem DiskKept.cons_of_ne {locations : List (UInt64 × BlockLocation)} {i : Nat} {d : DiskManager}
    (kept : DiskKept locations i d) {e : UInt64 × BlockLocation} (other : e.2.diskId ≠ i) :
    DiskKept (e :: locations) i d := by
  refine ⟨?_, List.forall_mem_cons.mpr ⟨fun here => absurd here other, kept.aligned⟩⟩
  rw [spansOn_cons, if_neg other]
  exact kept.books

/-- A span inside a disk that is ready starts where its offset says. -/
theorem span_blockOffset {spans : List (Nat × Nat)} {d : DiskManager} (books : Books spans d) {s : Nat × Nat}
    (inside : s.1 + s.2 ≤ d.superblock.dataBlocks.toNat) {loc : BlockLocation}
    (offset : loc.physicalOffset = blockOffset d.superblock s.1) (size : calcPhysicalBlocks loc.dataSize = s.2) :
    span d.superblock loc = s := by
  have order : blockOffset d.superblock s.1 ≤ blockOffset d.superblock d.superblock.dataBlocks.toNat :=
    blockOffset_mono (Nat.le_trans (Nat.le_add_right _ _) inside)
  unfold span
  rw [offset, startBlock_blockOffset (Nat.le_trans order books.ready.reach), size]

/-- A block that is not known adds its entry. -/
theorem Kept.write (kept : Kept node) (blockId : UInt64) (level : BlkLevel) (data : List UInt8)
    (dataSize crc32 : UInt32) (new : Takes node.diskPool dataSize → node.location blockId = none) :
    Kept (node.writeBlock blockId level data dataSize crc32).2 ∧
      superblocks (node.writeBlock blockId level data dataSize crc32).2 = superblocks node := by
  unfold DataNode.writeBlock DiskPool.writeBlock
  cases selected : node.diskPool.selectDisk with
  | none => exact ⟨kept, rfl⟩
  | some i =>
    dsimp only
    cases disk : node.diskPool.disks[i]? with
    | none => exact ⟨kept, rfl⟩
    | some d =>
      dsimp only
      cases room : d.bitmap.allocate (calcPhysicalBlocks dataSize) with
      | none =>
        rw [(kept.disks i d disk).books.write_full room]
        dsimp only
        rw [set_of_getElem? disk]
        exact ⟨kept, rfl⟩
      | some found =>
        obtain ⟨start, bitmap⟩ := found
        obtain ⟨books, aligned⟩ := kept.disks i d disk
        obtain ⟨d', result, superblock, books'⟩ := books.write room blockId level data crc32
        have unknown := location_eq_none.mp (new ⟨i, d, _, selected, disk, room⟩)
        have all : node.blockLocations.filter (fun e => e.1 ≠ blockId) = node.blockLocations :=
          List.filter_eq_self.mpr fun e member => by simpa using unknown e member
        let loc : BlockLocation := ⟨i, blockOffset d.superblock start, dataSize⟩
        have place : span d.superblock loc = (start, calcPhysicalBlocks dataSize) := by
          have inside := books'.inside _ List.mem_cons_self
          rw [superblock] at inside
          exact span_blockOffset books inside rfl rfl
        obtain ⟨inside, -⟩ := List.getElem?_eq_some_iff.mp disk
        rw [result]
        dsimp only
        unfold setLocation superblocks
        rw [all]
        refine ⟨⟨?_, ?_, ?_⟩, map_superblock_set disk superblock⟩
        · rw [List.map_cons, List.nodup_cons]
          refine ⟨fun old => ?_, kept.keys⟩
          obtain ⟨e, member, same⟩ := List.mem_map.mp old
          exact unknown e member same
        · rw [List.length_set]
          exact List.forall_mem_cons.mpr ⟨inside, kept.known⟩
        · refine diskKept_set ⟨?_, ?_⟩ fun k d other disk => (kept.disks k d disk).cons_of_ne (Ne.symm other)
          · rw [superblock, spansOn_cons, if_pos rfl]
            show Books (span d.superblock loc :: _) d'
            rw [place]
            exact books'
          · rw [superblock]
            refine List.forall_mem_cons.mpr ⟨fun _ => ?_, aligned⟩
            show loc.physicalOffset = blockOffset d.superblock (span d.superblock loc).1
            rw [place]

/-- Deleting a block takes its entry out. -/
theorem Kept.delete (kept : Kept node) (blockId : UInt64) :
    Kept (node.deleteBlock blockId).2 ∧ superblocks (node.deleteBlock blockId).2 = superblocks node ∧
      (node.deleteBlock blockId).2.blockLocations = node.blockLocations.filter (fun e => e.1 ≠ blockId) := by
  unfold DataNode.deleteBlock DiskPool.deleteBlock
  cases found : node.location blockId with
  | none =>
    refine ⟨kept, rfl, (List.filter_eq_self.mpr fun e member => ?_).symm⟩
    simpa using location_eq_none.mp found e member
  | some loc =>
    have member := location_eq_some found
    have perm := perm_cons_filter kept.keys member
    have inside := kept.known _ member
    have disk := List.getElem?_eq_getElem inside
    generalize node.diskPool.disks[loc.diskId] = d at disk
    obtain ⟨books, aligned⟩ := kept.disks _ d disk
    have same := books.perm (spansOn_perm perm)
    rw [spansOn_cons, if_pos rfl] at same
    have size : calcPhysicalBlocks loc.dataSize = (span d.superblock loc).2 := rfl
    obtain ⟨d', result, superblock, books'⟩ := same.delete size
    rw [← aligned _ member rfl] at result
    dsimp only
    rw [disk]
    dsimp only
    rw [result]
    refine ⟨⟨?_, ?_, ?_⟩, map_superblock_set disk superblock, rfl⟩
    · exact kept.keys.sublist (List.filter_sublist.map _)
    · dsimp only
      rw [List.length_set]
      exact fun e old => kept.known e (List.mem_of_mem_filter old)
    · refine diskKept_set ⟨?_, ?_⟩ fun k d other disk => ?_
      · rw [superblock]
        exact books'
      · rw [superblock]
        exact fun e old => aligned e (List.mem_of_mem_filter old)
      · obtain ⟨books, aligned⟩ := kept.disks k d disk
        refine ⟨?_, fun e old => aligned e (List.mem_of_mem_filter old)⟩
        have same := books.perm (spansOn_perm perm)
        rw [spansOn_cons, if_neg (Ne.symm other)] at same
        exact same

/-! ## A node on fresh disks -/

/-- A layout whose bitmap has a bit for every data block, and whose data blocks can all be sought. -/
structure Fits (sb : DiskSuperBlock) : Prop where
  roomy : sb.dataBlocks.toNat ≤ 8 * (sb.bitmapBlocks.toNat * physicalBlockSize)
  reach : blockOffset sb sb.dataBlocks.toNat ≤ 2 ^ 63

/-- The files of a disk as `Format` left them. -/
def FreshFiles (w : World DiskFile) : Prop :=
  (∃ w' diskSize walBlocks nodeId diskIndex uuid now,
    format w' diskSize walBlocks nodeId diskIndex uuid now = (.ok, w)) ∧
    Fits (openExisting { world := w }).2.superblock

/-- A node that was started on freshly formatted disks. -/
def Installed (node : DataNode) : Prop :=
  ∃ nodeId worlds uuid now registered, (∀ w ∈ worlds, FreshFiles w) ∧
    ({ nodeId := nodeId } : DataNode).start worlds uuid now registered = (.ok, node)

theorem FreshFiles.holds {w : World DiskFile} (fresh : FreshFiles w) :
    Holds [] (openExisting { world := w }).2 ∧
      ∀ j, BlockBitmap.getBit (openExisting { world := w }).2.bitmap.bitmap j = false := by
  obtain ⟨⟨w', diskSize, walBlocks, nodeId, diskIndex, uuid, now, formatted⟩, fits⟩ := fresh
  have started : Started (openExisting { world := w }).2 :=
    ⟨w', w, diskSize, walBlocks, nodeId, diskIndex, uuid, now, _, formatted, rfl⟩
  obtain ⟨holds, blank, -⟩ := started.holds_of_suitable fun laid valid => ⟨laid, valid, fits.roomy, fits.reach⟩
  exact ⟨holds, blank⟩

theorem initializeDisks_of_fresh (nodeId : UInt64) (uuid now : Nat → UInt64) (pool : DiskPool) (i : Nat)
    {worlds : List (World DiskFile)} (fresh : ∀ w ∈ worlds, FreshFiles w) :
    initializeDisks nodeId uuid now pool i worlds =
      (.ok, { disks := pool.disks ++ worlds.map fun w => (openExisting { world := w }).2 }) := by
  induction worlds generalizing pool i with
  | nil => simp [initializeDisks]
  | cons w worlds ih =>
    obtain ⟨⟨w', diskSize, walBlocks, nodeId', diskIndex, uuid', now', formatted⟩, -⟩ := fresh w List.mem_cons_self
    unfold initializeDisks DiskPool.addDisk
    rw [openDisk_of_format formatted]
    dsimp only
    rw [ih _ _ fun w' member => fresh w' (List.mem_cons_of_mem _ member)]
    simp

theorem recoverDisks_of_holds {disks : List DiskManager} (holds : ∀ d ∈ disks, Holds [] d) :
    DiskPool.recoverDisks disks = (.ok, disks.map fun d => d.recover.2) := by
  induction disks with
  | nil => rfl
  | cons d disks ih =>
    obtain ⟨d', recovered, -⟩ := (holds d List.mem_cons_self).recover
    unfold DiskPool.recoverDisks
    rw [recovered, ih fun d' member => holds d' (List.mem_cons_of_mem _ member), List.map_cons, recovered]

theorem start_of_fresh {worlds : List (World DiskFile)} (fresh : ∀ w ∈ worlds, FreshFiles w) (nodeId : UInt64)
    (uuid now : Nat → UInt64) (registered : UInt64) :
    ({ nodeId := nodeId } : DataNode).start worlds uuid now registered = (.ok, {
      diskPool := { disks := (worlds.map fun w => (openExisting { world := w }).2).map fun d => d.recover.2 }
      nodeId := if registered = 0 then nodeId else registered
      running := true }) := by
  unfold start
  rw [initializeDisks_of_fresh _ _ _ _ _ fresh]
  dsimp only [DiskPool.recoverAll]
  rw [List.nil_append, recoverDisks_of_holds fun d member => ?_]
  obtain ⟨w, used, rfl⟩ := List.mem_map.mp member
  exact (fresh w used).holds.1

/-- It knows no blocks, and no disk has given any away. -/
theorem Installed.kept (installed : Installed node) : Kept node ∧ node.blockLocations = [] := by
  obtain ⟨nodeId, worlds, uuid, now, registered, fresh, started⟩ := installed
  rw [start_of_fresh fresh] at started
  cases started
  refine ⟨⟨List.nodup_nil, List.forall_mem_nil _, fun i d disk => ⟨?_, List.forall_mem_nil _⟩⟩, rfl⟩
  obtain ⟨d₀, member, rfl⟩ := List.mem_map.mp (List.mem_of_getElem? disk)
  obtain ⟨w, used, rfl⟩ := List.mem_map.mp member
  obtain ⟨holds, blank⟩ := (fresh w used).holds
  obtain ⟨d', recovered, -, -, -, bitmap, holds'⟩ := holds.recover
  dsimp only
  rw [recovered]
  exact books_nil holds' fun j => by rw [bitmap, blank]

/-! ## Runs -/

/-- Runs of a node; `admits` holds of every call, where it is made. -/
inductive NodeRun (admits : DataNode → Call → Prop) (first : DataNode) : DataNode → Prop where
  | start : NodeRun admits first first
  | call {node : DataNode} (before : NodeRun admits first node) (c : Call) (admitted : admits node c) :
      NodeRun admits first (c.exec node)

theorem Kept.exec (kept : Kept node) (c : Call) (new : NewBlock node c) :
    Kept (c.exec node) ∧ superblocks (c.exec node) = superblocks node := by
  cases c with
  | write blockId level data dataSize crc32 => exact kept.write blockId level data dataSize crc32 new
  | delete blockId => exact ⟨(kept.delete blockId).1, (kept.delete blockId).2.1⟩

/-- A disk without spans has all its blocks free. -/
theorem freeSpace_of_books {d : DiskManager} (books : Books [] d) :
    d.freeSpace = u64 (d.superblock.dataBlocks.toNat * physicalBlockSize) := by
  have none : (List.range d.bitmap.numBlocks).countP (BlockBitmap.getBit d.bitmap.bitmap) = 0 := by
    rw [List.countP_eq_zero]
    intro j _ set
    obtain ⟨s, member, -⟩ := (books.bits j).mp set
    cases member
  unfold freeSpace freeBlockCount BlockBitmap.freeBlocks
  rw [none, books.ready.numBlocks, Nat.sub_zero]

/-- A node that knows no blocks has all its space free. -/
theorem Kept.free (kept : Kept node) (none : node.blockLocations = []) : node.diskPool.totalFreeSpace =
    (superblocks node).foldl (fun total sb => u64 (total + u64 (sb.dataBlocks.toNat * physicalBlockSize))) 0 := by
  unfold DiskPool.totalFreeSpace superblocks
  rw [List.foldl_map]
  apply List.foldl_ext
  intro total d member
  obtain ⟨i, inside, rfl⟩ := List.mem_iff_getElem.mp member
  have books := (kept.disks i _ (List.getElem?_eq_getElem inside)).books
  rw [none] at books
  rw [freeSpace_of_books books]

theorem NodeRun.kept {first : DataNode} (installed : Installed first) (run : NodeRun NewBlock first node) :
    Kept node ∧ superblocks node = superblocks first := by
  induction run with
  | start => exact ⟨installed.kept.1, rfl⟩
  | call before c new ih =>
    obtain ⟨kept, layouts⟩ := ih.1.exec c new
    exact ⟨kept, layouts.trans ih.2⟩

/-- A node that was started on one disk. -/
def oneDisk (w : World DiskFile) : DataNode := (start {} [w] (fun _ => 0) (fun _ => 0) 1).2

theorem oneDisk_spec {w : World DiskFile} (fresh : FreshFiles w) :
    Installed (oneDisk w) ∧ (oneDisk w).diskPool.disks = [(openExisting { world := w }).2.recover.2] := by
  have all : ∀ w' ∈ [w], FreshFiles w' := List.forall_mem_singleton.mpr fresh
  have started := start_of_fresh all 0 (fun _ => 0) (fun _ => 0) 1
  unfold oneDisk
  refine ⟨⟨0, [w], fun _ => 0, fun _ => 0, 1, all, ?_⟩, ?_⟩
  · rw [show ({} : DataNode) = { nodeId := 0 } from rfl, started]
  · rw [show ({} : DataNode) = { nodeId := 0 } from rfl, started]
    rfl

theorem freshFiles_freshWorld {diskSize walBlocks : UInt64} (some : walBlocks ≠ 0)
    (check : ¬ diskSize.toNat / physicalBlockSize < u64 (1 + 1 + walBlocks.toNat + 1))
    (suitable : Suitable (freshDisk diskSize walBlocks).superblock) : FreshFiles (freshWorld diskSize walBlocks) :=
  ⟨⟨⟨fun _ => Image.empty, []⟩, diskSize, walBlocks, 0, 0, 0, 0, (format_empty some check).1⟩,
    suitable.roomy, suitable.reach⟩

theorem freshFiles_small : FreshFiles (freshWorld 40960 2) := by
  obtain ⟨started, modest, -⟩ := smallDisk_spec
  have suitable := (started.holds modest).1.suitable
  rw [smallDisk_eq] at suitable
  exact @freshFiles_freshWorld 40960 2 (by decide) (by decide) suitable

/-- The only disk is chosen, if it has a free block. -/
theorem selectDisk_of_free {d : DiskManager} (one : node.diskPool.disks = [d]) (normal : d.state = .normal)
    {j : Nat}
    (inside : j < d.bitmap.numBlocks) (isFree : BlockBitmap.getBit d.bitmap.bitmap j = false) :
    node.diskPool.selectDisk = some 0 := by
  have count : 0 < d.freeBlockCount := by
    have some : (List.range d.bitmap.numBlocks).countP (BlockBitmap.getBit d.bitmap.bitmap) <
        (List.range d.bitmap.numBlocks).length :=
      List.countP_lt_length_iff.mpr ⟨j, List.mem_range.mpr inside, by simp [isFree]⟩
    rw [List.length_range] at some
    unfold freeBlockCount BlockBitmap.freeBlocks
    omega
  unfold DiskPool.selectDisk DiskPool.selectStep
  rw [one]
  simp [count, normal]

/-- A block goes to the only disk, if that has a free block. -/
theorem write_oneDisk {d : DiskManager} {spans : List (Nat × Nat)} (one : node.diskPool.disks = [d])
    (books : Books spans d) {j : Nat} (inside : j < d.superblock.dataBlocks.toNat)
    (isFree : BlockBitmap.getBit d.bitmap.bitmap j = false) (blockId : UInt64) (level : BlkLevel)
    (data : List UInt8) (dataSize crc32 : UInt32) (size : calcPhysicalBlocks dataSize = 1) :
    ∃ d' start, node.writeBlock blockId level data dataSize crc32 =
      (.ok (0, blockOffset d.superblock start), { node with
        diskPool := { disks := [d'] }
        blockLocations := setLocation node.blockLocations blockId ⟨0, blockOffset d.superblock start, dataSize⟩ }) ∧
      d'.superblock = d.superblock ∧ Books ((start, 1) :: spans) d' := by
  rw [← books.ready.numBlocks] at inside
  have selected := selectDisk_of_free one books.ready.normal inside isFree
  obtain ⟨start, bitmap, room⟩ := @BlockBitmap.allocate_of_free d.bitmap 1 j Nat.one_pos inside
    fun k low high => Nat.le_antisymm (Nat.le_of_lt_succ high) low ▸ isFree
  rw [← size] at room
  obtain ⟨d', result, superblock, books'⟩ := books.write room blockId level data crc32
  rw [size] at books'
  refine ⟨d', start, ?_, superblock, books'⟩
  unfold DataNode.writeBlock DiskPool.writeBlock
  rw [selected]
  dsimp only
  rw [one]
  dsimp only [List.getElem?_cons_zero]
  rw [result]
  rfl

/-- There is a node with one fresh disk of six blocks. -/
theorem exists_oneDisk : ∃ (first : DataNode) (d : DiskManager), Installed first ∧ first.diskPool.disks = [d] ∧
    d.superblock.dataBlocks.toNat = 6 ∧ first.blockLocations = [] := by
  obtain ⟨installed, one⟩ := oneDisk_spec freshFiles_small
  obtain ⟨d, recovered, -, -, superblock, -⟩ := freshFiles_small.holds.1.recover
  have blocks := smallDisk_spec.2.2
  rw [smallDisk_eq, freshDisk] at blocks
  exact ⟨_, d, installed, by rw [one, recovered], by rw [superblock, blocks], installed.kept.2⟩

end DataNode

end OpenFS
