import Mathlib.Algebra.Group.Nat.Defs

/-!
# Shared types of the OpenFS components

Status codes, block levels, the disk layout constants and the metadata records
of `common/types.h`. Sizes and offsets are natural numbers; `u32` and `u64` cut
a value where the code's own 32- or 64-bit arithmetic or a cast does. Ids,
checksums and timestamps, which are only stored and compared, keep their width
in the type.
-/

namespace OpenFS

/-- The value of an unsigned 64-bit computation whose exact result is `n`. -/
abbrev u64 (n : Nat) : Nat := n % 2 ^ 64

/-- The value of an unsigned 32-bit computation, or of a cast to `uint32_t`. -/
abbrev u32 (n : Nat) : Nat := n % 2 ^ 32

/-- A C++ byte string holding characters: paths and names. -/
abbrev Str := List Char

inductive Status
  | ok
  | notFound
  | alreadyExists
  | invalidArgument
  | ioError
  | notDirectory
  | notEmpty
  | noSpace
  | crcMismatch
  | internal
  deriving DecidableEq, Repr

inductive BlkLevel
  | l0
  | l1
  | l2
  | l3
  | l4
  deriving DecidableEq, Repr

/-- The enumerator's value, as `static_cast<uint8_t>` gives it. -/
def BlkLevel.toByte : BlkLevel → UInt8
  | .l0 => 0
  | .l1 => 1
  | .l2 => 2
  | .l3 => 3
  | .l4 => 4

/-- Bytes of a full block at each level. -/
def blockLevelSize : BlkLevel → Nat
  | .l0 => 64 * 1024
  | .l1 => 512 * 1024
  | .l2 => 4 * 1024 * 1024
  | .l3 => 32 * 1024 * 1024
  | .l4 => 256 * 1024 * 1024

/-- The level for a file of `fileSize` bytes; files above 32 MiB are cut into L3 blocks. -/
def selectBlockLevel (fileSize : Nat) : BlkLevel :=
  if fileSize ≤ 64 * 1024 then .l0
  else if fileSize ≤ 512 * 1024 then .l1
  else if fileSize ≤ 4 * 1024 * 1024 then .l2
  else if fileSize ≤ 32 * 1024 * 1024 then .l3
  else .l3

/-! ## Disk format constants -/

def physicalBlockSize : Nat := 4096
def superBlockSize : Nat := 4096
def diskFormatVersion : Nat := 1
def walBlockSize : Nat := 4096
def walDefaultBlocks : Nat := 256
def walEntryHeaderSize : Nat := 32
def walMagic : Nat := 0x57414C21
def diskBlockHeaderSize : Nat := 32
def diskBlockMagic : Nat := 0x4F42524B

inductive DiskState
  | unknown
  | normal
  | degraded
  | faulted
  deriving DecidableEq, Repr

/-! ## Metadata records -/

inductive InodeType
  | regular
  | directory
  | symlink
  deriving DecidableEq, Repr

structure Inode where
  inodeId : UInt64 := 0
  fileType : InodeType := .regular
  mode : UInt32 := 0o644
  uid : UInt32 := 0
  gid : UInt32 := 0
  size : UInt64 := 0
  nlink : UInt64 := 1
  atimeNs : UInt64 := 0
  mtimeNs : UInt64 := 0
  ctimeNs : UInt64 := 0
  blockLevel : BlkLevel := .l2
  isPacked : Bool := false
  parentId : UInt64 := 0
  name : Str := []
  deriving DecidableEq, Repr

structure BlockMeta where
  blockId : UInt64 := 0
  level : BlkLevel := .l2
  size : UInt32 := 0
  crc32 : UInt32 := 0
  nodeId : UInt64 := 0
  segmentId : UInt64 := 0
  offset : UInt64 := 0
  createTime : UInt64 := 0
  replicaCount : UInt16 := 1
  accessCount : UInt32 := 0
  deriving DecidableEq, Repr

structure DirEntry where
  name : Str := []
  inodeId : UInt64 := 0
  fileType : InodeType := .regular
  deriving DecidableEq, Repr

end OpenFS
