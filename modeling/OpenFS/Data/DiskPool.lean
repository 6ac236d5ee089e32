import OpenFS.Data.DiskManager

/-!
# The disk pool

Several disks used as one store: a block is written to the disk with the most free
blocks, and read and deleted on the disk that is named.
-/

namespace OpenFS

structure DiskPool where
  disks : List DiskManager := []

namespace DiskPool

/-- One round of the loop in `SelectDisk`: the best disk so far, and its free blocks. -/
def selectStep (best : Option Nat × Nat) (disk : DiskManager × Nat) : Option Nat × Nat :=
  if best.2 < disk.1.freeBlockCount ∧ disk.1.state = .normal then (some disk.2, disk.1.freeBlockCount) else best

/-- The first of the normal disks with the most free blocks; a full disk is never chosen. -/
def selectDisk (pool : DiskPool) : Option Nat := (pool.disks.zipIdx.foldl selectStep (none, 0)).1

/-- `AddDisk`, for a path whose files are `world`. -/
def addDisk (pool : DiskPool) (world : FileLog.World DiskFile) (nodeId : UInt64) (diskIndex : UInt32)
    (uuid now : UInt64) : Status × DiskPool :=
  match DiskManager.openDisk { world := world } nodeId diskIndex uuid now with
  | (.ok, d) => (.ok, { disks := pool.disks ++ [d] })
  | (s, _) => (s, pool)

/-- The disks are closed and given up; their files are what stays. -/
def closeAll (pool : DiskPool) : List (FileLog.World DiskFile) × DiskPool :=
  (pool.disks.map fun d => d.close.world, { disks := [] })

/-- The disk's number and the offset there. -/
def writeBlock (pool : DiskPool) (blockId : UInt64) (level : BlkLevel) (data : List UInt8)
    (dataSize crc32 : UInt32) : Except Status (Nat × Nat) × DiskPool :=
  match pool.selectDisk with
  | none => (.error .noSpace, pool)
  | some selected =>
    match pool.disks[selected]? with
    | none => (.error .noSpace, pool)
    | some disk =>
      match disk.writeBlock blockId level data dataSize crc32 with
      | (.error s, disk) => (.error s, { disks := pool.disks.set selected disk })
      | (.ok offset, disk) => (.ok (selected, offset), { disks := pool.disks.set selected disk })

def readBlock (pool : DiskPool) (diskId offset : Nat) (beyond : List UInt8) :
    Except Status (List UInt8 × UInt32 × UInt64) × DiskPool :=
  match pool.disks[diskId]? with
  | none => (.error .notFound, pool)
  | some disk =>
    let (out, disk) := disk.readBlock offset beyond
    (out, { disks := pool.disks.set diskId disk })

def deleteBlock (pool : DiskPool) (diskId offset : Nat) (dataSize : UInt32) : Status × DiskPool :=
  match pool.disks[diskId]? with
  | none => (.notFound, pool)
  | some disk =>
    let (s, disk) := disk.deleteBlock offset dataSize
    (s, { disks := pool.disks.set diskId disk })

/-- Recover the disks in turn, up to the first that fails. -/
def recoverDisks : List DiskManager → Status × List DiskManager
  | [] => (.ok, [])
  | disk :: disks =>
    match disk.recover with
    | (.ok, disk) => let (s, disks) := recoverDisks disks; (s, disk :: disks)
    | (s, disk) => (s, disk :: disks)

def recoverAll (pool : DiskPool) : Status × DiskPool :=
  let (s, disks) := recoverDisks pool.disks
  (s, { disks := disks })

def totalFreeSpace (pool : DiskPool) : Nat :=
  pool.disks.foldl (fun total d => u64 (total + d.freeSpace)) 0

def totalDataSpace (pool : DiskPool) : Nat :=
  pool.disks.foldl (fun total d => u64 (total + d.totalDataSpace)) 0

end DiskPool

end OpenFS
