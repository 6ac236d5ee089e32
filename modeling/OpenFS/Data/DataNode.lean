import OpenFS.Data.DiskPool

/-!
# The data node

A data node stores blocks in its disk pool and keeps in memory where each block
went. `DataServiceImpl` answers the RPCs from it.
-/

namespace OpenFS

structure BlockLocation where
  diskId : Nat := 0
  physicalOffset : Nat := 0
  dataSize : UInt32 := 0
  deriving DecidableEq, Repr

/-- `blockLocations` lists the entries in the order in which the hash map is walked. -/
structure DataNode where
  diskPool : DiskPool := {}
  nodeId : UInt64 := 0
  running : Bool := false
  blockLocations : List (UInt64 × BlockLocation) := []

namespace DataNode

/-- Add the configured disks in turn, up to the first that fails; `uuid i` and `now i`
are the clock readings while the `i`-th is formatted. -/
def initializeDisks (nodeId : UInt64) (uuid now : Nat → UInt64) :
    DiskPool → Nat → List (FileLog.World DiskFile) → Status × DiskPool
  | pool, _, [] => (.ok, pool)
  | pool, i, world :: worlds =>
    match pool.addDisk world nodeId (UInt32.ofNat i) (uuid i) (now i) with
    | (.ok, pool) => initializeDisks nodeId uuid now pool (i + 1) worlds
    | (s, pool) => (s, pool)

/-- Problems in the recovery are only logged; `registered` is the id that the metadata
node gives, 0 if the registration fails. -/
def start (node : DataNode) (worlds : List (FileLog.World DiskFile)) (uuid now : Nat → UInt64)
    (registered : UInt64) : Status × DataNode :=
  match initializeDisks node.nodeId uuid now node.diskPool 0 worlds with
  | (.ok, pool) =>
    (.ok, { node with
      diskPool := pool.recoverAll.2
      nodeId := if registered = 0 then node.nodeId else registered
      running := true })
  | (s, pool) => (s, { node with diskPool := pool })

/-- The files of the disks that were closed, and the node. -/
def stop (node : DataNode) : List (FileLog.World DiskFile) × DataNode :=
  if node.running = false then ([], node)
  else
    let (worlds, pool) := node.diskPool.closeAll
    (worlds, { node with diskPool := pool, running := false })

def getBlockCount (node : DataNode) : Nat := u32 node.blockLocations.length

/-- The entry of a block id. -/
def location (node : DataNode) (blockId : UInt64) : Option BlockLocation :=
  (node.blockLocations.find? (fun e => e.1 = blockId)).map Prod.snd

/-- `block_locations_[block_id] = loc`. -/
def setLocation (locations : List (UInt64 × BlockLocation)) (blockId : UInt64) (loc : BlockLocation) :
    List (UInt64 × BlockLocation) :=
  (blockId, loc) :: locations.filter (fun e => e.1 ≠ blockId)

def writeBlock (node : DataNode) (blockId : UInt64) (level : BlkLevel) (data : List UInt8)
    (dataSize crc32 : UInt32) : Except Status (Nat × Nat) × DataNode :=
  match node.diskPool.writeBlock blockId level data dataSize crc32 with
  | (.error s, pool) => (.error s, { node with diskPool := pool })
  | (.ok (diskId, offset), pool) =>
    (.ok (diskId, offset), { node with
      diskPool := pool
      blockLocations := setLocation node.blockLocations blockId
        { diskId := diskId, physicalOffset := offset, dataSize := dataSize } })

def readBlock (node : DataNode) (diskId offset : Nat) (beyond : List UInt8) :
    Except Status (List UInt8 × UInt32 × UInt64) × DataNode :=
  let (out, pool) := node.diskPool.readBlock diskId offset beyond
  (out, { node with diskPool := pool })

def deleteBlock (node : DataNode) (blockId : UInt64) : Status × DataNode :=
  match node.location blockId with
  | none => (.notFound, node)
  | some loc =>
    match node.diskPool.deleteBlock loc.diskId loc.physicalOffset loc.dataSize with
    | (.ok, pool) =>
      (.ok, { node with
        diskPool := pool, blockLocations := node.blockLocations.filter (fun e => e.1 ≠ blockId) })
    | (s, pool) => (s, { node with diskPool := pool })

end DataNode

namespace DataService

/-- `DataServiceImpl::WriteBlock`: the segment id of the answer is the disk's number. -/
def writeBlock (node : DataNode) (blockId : UInt64) (data : List UInt8) (crc32 : UInt32) :
    Except Status (UInt64 × UInt64) × DataNode :=
  if computeCRC32 data ≠ crc32 then (.error .crcMismatch, node)
  else
    match node.writeBlock blockId (selectBlockLevel data.length) data (UInt32.ofNat data.length) crc32 with
    | (.error s, node) => (.error s, node)
    | (.ok (diskId, offset), node) => (.ok (UInt64.ofNat diskId, UInt64.ofNat offset), node)

/-- `DataServiceImpl::ReadBlock`: the segment id is cut to 32 bits. -/
def readBlock (node : DataNode) (segmentId offset : UInt64) (beyond : List UInt8) :
    Except Status (List UInt8 × UInt32) × DataNode :=
  match node.readBlock (u32 segmentId.toNat) offset.toNat beyond with
  | (.error s, node) => (.error s, node)
  | (.ok (data, crc32, _), node) => (.ok (data, crc32), node)

def deleteBlock (node : DataNode) (blockId : UInt64) : Status × DataNode := node.deleteBlock blockId

end DataService

end OpenFS
