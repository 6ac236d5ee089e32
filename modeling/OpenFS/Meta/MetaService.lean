import OpenFS.Meta.BlockAllocator
import OpenFS.Meta.BlockMap
import OpenFS.Meta.NamespaceInvariant

/-!
# The metadata service

`MetaService` holds the components of `MetaServiceImpl`; each request handler
calls into them and fills in its response. Records travel in messages field by
field; only `replicaCount` is wider there than in memory.
-/

namespace OpenFS

/-- The message `BlockMetaProto`. -/
structure BlockMetaProto where
  blockId : UInt64 := 0
  level : BlkLevel := .l0
  size : UInt32 := 0
  crc32 : UInt32 := 0
  nodeId : UInt64 := 0
  segmentId : UInt64 := 0
  offset : UInt64 := 0
  createTime : UInt64 := 0
  replicaCount : UInt32 := 0
  accessCount : UInt32 := 0
  deriving DecidableEq, Repr

structure MetaService where
  namespaceMgr : NamespaceManager
  blockMap : BlockMap
  nodeMgr : NodeManager
  blockAllocator : BlockAllocator

namespace MetaService

def init (now : UInt64) : MetaService :=
  { namespaceMgr := .init now, blockMap := .init, nodeMgr := .init, blockAllocator := .init }

/-- The inode table that the namespace manager and `CommitBlocks` share. -/
abbrev inodeTable (svc : MetaService) : InodeTable := svc.namespaceMgr.inodeTable

def fillBlockMetaProto (block : BlockMeta) : BlockMetaProto :=
  { blockId := block.blockId, level := block.level, size := block.size, crc32 := block.crc32,
    nodeId := block.nodeId, segmentId := block.segmentId, offset := block.offset,
    createTime := block.createTime, replicaCount := block.replicaCount.toUInt32,
    accessCount := block.accessCount }

/-- The record `CommitBlocks` builds from a message. -/
def blockMetaOf (bp : BlockMetaProto) : BlockMeta :=
  { blockId := bp.blockId, level := bp.level, size := bp.size, crc32 := bp.crc32, nodeId := bp.nodeId,
    segmentId := bp.segmentId, offset := bp.offset, createTime := bp.createTime,
    replicaCount := bp.replicaCount.toUInt16, accessCount := bp.accessCount }

@[simp] theorem blockMetaOf_fill (block : BlockMeta) : blockMetaOf (fillBlockMetaProto block) = block := by
  simp [blockMetaOf, fillBlockMetaProto]

def createFsFile (svc : MetaService) (now : UInt64) (path : Str) (mode uid gid : UInt32)
    (fileSize : UInt64) : Except Status Inode × MetaService :=
  let (out, ns) := svc.namespaceMgr.createFile now path mode uid gid fileSize
  (out, { svc with namespaceMgr := ns })

def removeFsFile (svc : MetaService) (path : Str) : Status × MetaService :=
  let (s, ns) := svc.namespaceMgr.deleteFile path
  (s, { svc with namespaceMgr := ns })

def getFileInfo (svc : MetaService) (path : Str) : Except Status Inode := svc.namespaceMgr.lookup path

def rename (svc : MetaService) (now : UInt64) (srcPath dstPath : Str) : Status × MetaService :=
  let (s, ns) := svc.namespaceMgr.rename now srcPath dstPath
  (s, { svc with namespaceMgr := ns })

def mkDir (svc : MetaService) (now : UInt64) (path : Str) (mode uid gid : UInt32) :
    Except Status Inode × MetaService :=
  let (out, ns) := svc.namespaceMgr.mkDir now path mode uid gid
  (out, { svc with namespaceMgr := ns })

def readDir (svc : MetaService) (path : Str) : Except Status (List DirEntry) :=
  svc.namespaceMgr.readDir path

def rmDir (svc : MetaService) (path : Str) : Status × MetaService :=
  let (s, ns) := svc.namespaceMgr.rmDir path
  (s, { svc with namespaceMgr := ns })

/-- The request's inode id is only logged. -/
def allocateBlocks (svc : MetaService) (clock : Nat → UInt64) (_inodeId : UInt64) (blockCount : UInt32)
    (level : BlkLevel) : Except Status (List BlockMetaProto) × MetaService :=
  let (out, alloc) := svc.blockAllocator.allocate svc.nodeMgr clock blockCount level
  (out.map (List.map fillBlockMetaProto), { svc with blockAllocator := alloc })

/-- `total_size`, a 64-bit sum. -/
def totalSize (blocks : List BlockMeta) : UInt64 :=
  blocks.foldl (fun total blk => total + blk.size.toUInt64) 0

/-- The record `CommitBlocks` writes back; the clock is read twice. -/
def committed (inode : Inode) (mtime ctime : UInt64) (blocks : List BlockMeta) : Inode :=
  { inode with size := totalSize blocks, mtimeNs := mtime, ctimeNs := ctime }

def commitBlocks (svc : MetaService) (mtime ctime : UInt64) (inodeId : UInt64)
    (request : List BlockMetaProto) : Status × MetaService :=
  let blocks := request.map blockMetaOf
  match svc.blockMap.addBlocks inodeId blocks with
  | (.ok, blockMap) =>
    match svc.inodeTable.get inodeId with
    | .ok inode =>
      (.ok, { svc with
        blockMap := blockMap,
        namespaceMgr := { svc.namespaceMgr with
          inodeTable := (svc.inodeTable.update (committed inode mtime ctime blocks)).2 } })
    | .error _ => (.ok, { svc with blockMap := blockMap })
  | (s, blockMap) => (s, { svc with blockMap := blockMap })

def getBlockLocations (svc : MetaService) (inodeId : UInt64) : Except Status (List BlockMetaProto) :=
  (svc.blockMap.getBlocks inodeId).map (List.map fillBlockMetaProto)

/-- A request that may change the service's state, with the clock readings of its handler. -/
inductive Request
  | createFsFile (now : UInt64) (path : Str) (mode uid gid : UInt32) (fileSize : UInt64)
  | removeFsFile (path : Str)
  | rename (now : UInt64) (srcPath dstPath : Str)
  | mkDir (now : UInt64) (path : Str) (mode uid gid : UInt32)
  | rmDir (path : Str)
  | allocateBlocks (clock : Nat → UInt64) (inodeId : UInt64) (blockCount : UInt32) (level : BlkLevel)
  | commitBlocks (mtime ctime : UInt64) (inodeId : UInt64) (request : List BlockMetaProto)
  | register (now : UInt64) (address : Str) (capacity : UInt64)
  | heartbeat (now nodeId used : UInt64)

/-- The state a request leaves. -/
def handle (svc : MetaService) : Request → MetaService
  | .createFsFile now path mode uid gid fileSize => (svc.createFsFile now path mode uid gid fileSize).2
  | .removeFsFile path => (svc.removeFsFile path).2
  | .rename now srcPath dstPath => (svc.rename now srcPath dstPath).2
  | .mkDir now path mode uid gid => (svc.mkDir now path mode uid gid).2
  | .rmDir path => (svc.rmDir path).2
  | .allocateBlocks clock inodeId blockCount level => (svc.allocateBlocks clock inodeId blockCount level).2
  | .commitBlocks mtime ctime inodeId request => (svc.commitBlocks mtime ctime inodeId request).2
  | .register now address capacity => { svc with nodeMgr := (svc.nodeMgr.registerNode now address capacity).2 }
  | .heartbeat now nodeId used => { svc with nodeMgr := svc.nodeMgr.updateHeartbeat now nodeId used }

/-- The states of a service that handles one request at a time. -/
inductive Reachable : MetaService → Prop where
  | init (now : UInt64) : Reachable (init now)
  | step {svc : MetaService} (request : Request) : Reachable svc → Reachable (svc.handle request)

/-- The inode table after a commit: a live inode has the batch's total as its size. -/
def sizedTable (svc : MetaService) (mtime ctime i : UInt64) (blocks : List BlockMeta) : InodeTable :=
  match svc.inodeTable.inodes i with
  | some inode => (svc.inodeTable.update (committed inode mtime ctime blocks)).2
  | none => svc.inodeTable

/-- Everything a commit does. -/
theorem commitBlocks_eq (svc : MetaService) (mtime ctime i : UInt64) (request : List BlockMetaProto) :
    svc.commitBlocks mtime ctime i request = (.ok, { svc with
      blockMap := (svc.blockMap.addBlocks i (request.map blockMetaOf)).2,
      namespaceMgr := { svc.namespaceMgr with
        inodeTable := svc.sizedTable mtime ctime i (request.map blockMetaOf) } }) := by
  unfold commitBlocks sizedTable InodeTable.get
  cases svc.inodeTable.inodes i <;> rfl

end MetaService

/-- Writing a live record back with its id, type, name and parent keeps the invariant. -/
theorem NamespaceManager.Consistent.update {ns : NamespaceManager} (h : ns.Consistent) {inode inode' : Inode}
    {i : UInt64} (live : ns.inodeTable.inodes i = some inode) (id : inode'.inodeId = inode.inodeId)
    (type : inode'.fileType = inode.fileType) (name : inode'.name = inode.name)
    (parent : inode'.parentId = inode.parentId) :
    ({ ns with inodeTable := (ns.inodeTable.update inode').2 } : NamespaceManager).Consistent := by
  have keyed := h.keyed live
  have records : (ns.inodeTable.update inode').2.inodes =
      Function.update ns.inodeTable.inodes i (some inode') := by
    rw [InodeTable.update_inodes, id, keyed, live]; rfl
  have types : ∀ j, (∃ r, (ns.inodeTable.update inode').2.inodes j = some r ∧ r.fileType = .directory) ↔
      ∃ r, ns.inodeTable.inodes j = some r ∧ r.fileType = .directory := by
    intro j
    rw [records]
    rcases eq_or_ne j i with rfl | other
    · simp [live, type]
    · rw [Function.update_of_ne other]
  refine ⟨h.lists, fun {j r} there => ?_, fun d => ?_, fun {d e} listed => ?_, (types 1).mpr h.rootLive⟩
  · rw [records] at there
    rcases eq_or_ne j i with rfl | other
    · rw [Function.update_self] at there; cases there; exact id.trans keyed
    · rw [Function.update_of_ne other] at there; exact h.keyed there
  · rw [h.keys d]; exact (types d).symm
  · obtain ⟨r, there, type', name', parent'⟩ := h.entry listed
    rw [records]
    rcases eq_or_ne e.inodeId i with same | other
    · rw [same] at there ⊢
      cases live.symm.trans there
      exact ⟨inode', Function.update_self .., type.trans type', name.trans name', parent.trans parent'⟩
    · exact ⟨r, by rw [Function.update_of_ne other, there], type', name', parent'⟩

namespace MetaService

theorem consistent_handle {svc : MetaService} (h : svc.namespaceMgr.Consistent) (request : Request) :
    (svc.handle request).namespaceMgr.Consistent := by
  cases request with
  | createFsFile now path mode uid gid fileSize =>
    exact h.effect (NamespaceManager.exec_effect _ now (.createFile path mode uid gid fileSize))
  | removeFsFile path => exact h.effect (NamespaceManager.exec_effect _ 0 (.deleteFile path))
  | rename now srcPath dstPath => exact h.effect (NamespaceManager.exec_effect _ now (.rename srcPath dstPath))
  | mkDir now path mode uid gid => exact h.effect (NamespaceManager.exec_effect _ now (.mkDir path mode uid gid))
  | rmDir path => exact h.effect (NamespaceManager.exec_effect _ 0 (.rmDir path))
  | commitBlocks mtime ctime inodeId request =>
    rw [handle, commitBlocks_eq, sizedTable]
    cases live : svc.inodeTable.inodes inodeId with
    | none => exact h
    | some inode => exact h.update live rfl rfl rfl rfl
  | allocateBlocks => exact h
  | register => exact h
  | heartbeat => exact h

/-- Serving requests keeps the namespace consistent. -/
theorem Reachable.consistent {svc : MetaService} (h : Reachable svc) : svc.namespaceMgr.Consistent := by
  induction h with
  | init now => exact .init now
  | step request _ ih => exact consistent_handle ih request

end MetaService

end OpenFS
