import OpenFS.Common.Crc32
import OpenFS.Common.Types

/-!
# The block splitter

`Split` cuts the data of a file into slices of one block each, all of the level
that the file's size selects.
-/

namespace OpenFS

structure BlockSlice where
  blockId : UInt64 := 0
  level : BlkLevel := .l2
  fileOffset : Nat := 0
  dataSize : UInt32 := 0
  crc32 : UInt32 := 0
  deriving DecidableEq, Repr

/-- The bytes of the slice. -/
def BlockSlice.bytes (slice : BlockSlice) (data : List UInt8) : List UInt8 :=
  (data.drop slice.fileOffset).take slice.dataSize.toNat

namespace BlockSplitter

/-- The number of blocks; the sum wraps in 64 bits and the result is cut to 32. -/
def blockCount (fileSize : Nat) (level : BlkLevel) : Nat :=
  if fileSize = 0 then 0
  else u32 (u64 (fileSize + (blockLevelSize level - 1)) / blockLevelSize level)

/-- The loop of `SplitWithLevel`. -/
def sliceLoop (level : BlkLevel) (data : List UInt8) : (count remaining offset : Nat) → List BlockSlice
  | 0, _, _ => []
  | count + 1, remaining, offset =>
    let size := min remaining (blockLevelSize level)
    { level := level, fileOffset := offset, dataSize := UInt32.ofNat size,
      crc32 := computeCRC32 ((data.drop offset).take size) } ::
      sliceLoop level data count (remaining - size) (offset + size)

def splitWithLevel (fileSize : Nat) (level : BlkLevel) (data : List UInt8) : List BlockSlice :=
  if fileSize = 0 then [] else sliceLoop level data (blockCount fileSize level) fileSize 0

def split (fileSize : Nat) (data : List UInt8) : List BlockSlice :=
  splitWithLevel fileSize (selectBlockLevel fileSize) data

theorem blockLevelSize_pos (level : BlkLevel) : 0 < blockLevelSize level := by
  cases level <;> decide

theorem blockLevelSize_lt (level : BlkLevel) : blockLevelSize level < 2 ^ 32 := by
  cases level <;> decide

theorem length_sliceLoop (level : BlkLevel) (data : List UInt8) (count remaining offset : Nat) :
    (sliceLoop level data count remaining offset).length = count := by
  induction count generalizing remaining offset with
  | zero => rfl
  | succ count ih => simp [sliceLoop, ih]

@[simp] theorem length_split (data : List UInt8) :
    (split data.length data).length = blockCount data.length (selectBlockLevel data.length) := by
  unfold split splitWithLevel
  split
  · next empty => simp [blockCount, empty]
  · exact length_sliceLoop ..

/-- All slices are of the level that was selected. -/
theorem level_of_mem_sliceLoop {level : BlkLevel} {data : List UInt8} {count remaining offset : Nat}
    {slice : BlockSlice} (member : slice ∈ sliceLoop level data count remaining offset) : slice.level = level := by
  induction count generalizing remaining offset with
  | zero => cases member
  | succ count ih =>
    rcases List.mem_cons.mp member with rfl | later
    · rfl
    · exact ih later

theorem blockCount_lt (fileSize : Nat) (level : BlkLevel) : blockCount fileSize level < 2 ^ 32 := by
  unfold blockCount
  split
  · decide
  · exact Nat.mod_lt _ (by decide)

end BlockSplitter

end OpenFS
