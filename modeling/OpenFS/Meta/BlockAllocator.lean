import OpenFS.Common.Types

/-!
# Data nodes and block ids

`NodeManager` knows the registered data nodes; `BlockAllocator` numbers new
blocks and assigns them all to one node that is online.
-/

namespace OpenFS

structure NodeInfo where
  nodeId : UInt64 := 0
  address : Str := []
  capacity : UInt64 := 0
  used : UInt64 := 0
  online : Bool := true
  lastHeartbeat : UInt64 := 0
  deriving DecidableEq, Repr

/-- `nodes` lists the records in the order in which the hash map is walked. -/
structure NodeManager where
  nodes : List NodeInfo
  nextNodeId : UInt64

namespace NodeManager

def init : NodeManager := { nodes := [], nextNodeId := 1 }

def registerNode (mgr : NodeManager) (now : UInt64) (address : Str) (capacity : UInt64) :
    UInt64 × NodeManager :=
  let id := mgr.nextNodeId
  let info : NodeInfo :=
    { nodeId := id, address := address, capacity := capacity, online := true, lastHeartbeat := now }
  (id, { nodes := info :: mgr.nodes.filter (fun n => n.nodeId ≠ id), nextNodeId := mgr.nextNodeId + 1 })

def updateHeartbeat (mgr : NodeManager) (now nodeId used : UInt64) : NodeManager :=
  { mgr with nodes := mgr.nodes.map fun n =>
      if n.nodeId = nodeId then { n with used := used, lastHeartbeat := now } else n }

/-- The first node online, or 0. -/
def getAnyOnlineNode (mgr : NodeManager) : UInt64 :=
  match mgr.nodes.find? (fun n => n.online) with
  | some n => n.nodeId
  | none => 0

end NodeManager

/-- The atomic counters of `BlockAllocator`. -/
structure BlockAllocator where
  nextBlockId : UInt64
  nextSegmentId : UInt64

namespace BlockAllocator

def init : BlockAllocator := { nextBlockId := 1, nextSegmentId := 1 }

/-- The `i`-th block of a request; `createTime` is the clock reading of its round. -/
def newBlock (alloc : BlockAllocator) (targetNode : UInt64) (level : BlkLevel) (createTime : UInt64)
    (i : Nat) : BlockMeta :=
  { blockId := alloc.nextBlockId + UInt64.ofNat i, level := level,
    size := UInt32.ofNat (blockLevelSize level), nodeId := targetNode, segmentId := alloc.nextSegmentId,
    createTime := createTime, replicaCount := 1 }

/-- `clock i` is the clock reading of round `i`. -/
def allocate (alloc : BlockAllocator) (mgr : NodeManager) (clock : Nat → UInt64) (blockCount : UInt32)
    (level : BlkLevel) : Except Status (List BlockMeta) × BlockAllocator :=
  let targetNode := mgr.getAnyOnlineNode
  if targetNode = 0 then (.error .noSpace, alloc)
  else
    (.ok ((List.range blockCount.toNat).map fun i => alloc.newBlock targetNode level (clock i) i),
      { alloc with nextBlockId := alloc.nextBlockId + UInt64.ofNat blockCount.toNat })

section
variable {alloc : BlockAllocator} {mgr : NodeManager} {blockCount : UInt32} {level : BlkLevel}
  {clock : Nat → UInt64}

theorem allocate_offline (offline : mgr.getAnyOnlineNode = 0) :
    alloc.allocate mgr clock blockCount level = (.error .noSpace, alloc) :=
  if_pos offline

theorem allocate_online (online : mgr.getAnyOnlineNode ≠ 0) :
    alloc.allocate mgr clock blockCount level =
      (.ok ((List.range blockCount.toNat).map fun i => alloc.newBlock mgr.getAnyOnlineNode level (clock i) i),
        { alloc with nextBlockId := alloc.nextBlockId + UInt64.ofNat blockCount.toNat }) :=
  if_neg online

/-- The only refusal. -/
theorem allocate_error {s : Status} (refused : (alloc.allocate mgr clock blockCount level).1 = .error s) :
    s ≠ .ok := by
  by_cases offline : mgr.getAnyOnlineNode = 0
  · rw [allocate_offline offline] at refused
    cases refused
    decide
  · rw [allocate_online offline] at refused
    cases refused

/-- As many blocks as are asked for, at the level that is asked for. -/
theorem of_allocated {blocks : List BlockMeta}
    (given : (alloc.allocate mgr clock blockCount level).1 = .ok blocks) :
    blocks.length = blockCount.toNat ∧ ∀ b ∈ blocks, b.level = level := by
  by_cases offline : mgr.getAnyOnlineNode = 0
  · rw [allocate_offline offline] at given
    cases given
  · rw [allocate_online offline] at given
    cases given
    constructor
    · rw [List.length_map, List.length_range]
    · intro b member
      obtain ⟨j, -, rfl⟩ := List.mem_map.mp member
      rfl

end

end BlockAllocator

end OpenFS
