import OpenFS.Client.BlockSplitter

/-!
# The bytes of the slices

Each slice records the length and the checksum of its bytes, and the slices follow one
another from the start of the data. They reach its end unless `BlockCount` loses bits in
the cast to 32 of them, beyond `2 ^ 32 - 1` blocks.
-/

namespace OpenFS.BlockSplitter

/-- The bytes of the slices, one after the other. -/
def chunks (data : List UInt8) : List (List UInt8) := (split data.length data).map fun slice => slice.bytes data

/-- What of the data is in the slices. -/
def stored (data : List UInt8) : List UInt8 := (chunks data).flatten

/-- What `2 ^ 32 - 1` blocks of the largest level in use hold. -/
def maxSplit : Nat := 2 ^ 57 - 2 ^ 25

/-- The slice fits its bytes. -/
structure Describes (slice : BlockSlice) (bytes : List UInt8) : Prop where
  size : slice.dataSize.toNat = bytes.length
  crc32 : slice.crc32 = computeCRC32 bytes
  small : bytes.length < 2 ^ 31

theorem blockLevelSize_select_le (fileSize : Nat) : blockLevelSize (selectBlockLevel fileSize) ≤ 2 ^ 25 := by
  unfold selectBlockLevel
  split
  · decide
  · split
    · decide
    · split
      · decide
      · split <;> decide

section
variable {level : BlkLevel} (data : List UInt8)

/-- The first slice of a round. -/
theorem bytes_first (offset : Nat) (crc : UInt32) :
    BlockSlice.bytes ⟨0, level, offset, UInt32.ofNat (min (data.length - offset) (blockLevelSize level)),
      crc⟩ data =
      (data.drop offset).take (blockLevelSize level) := by
  have small := blockLevelSize_lt level
  unfold BlockSlice.bytes
  dsimp only
  rw [UInt32.toNat_ofNat', Nat.mod_eq_of_lt (by omega), ← List.length_drop, List.take_eq_take_iff]
  omega

theorem describes_of_mem (some : blockLevelSize level < 2 ^ 31) {count offset : Nat} {slice : BlockSlice}
    (member : slice ∈ sliceLoop level data count (data.length - offset) offset) :
    Describes slice (slice.bytes data) := by
  have small := blockLevelSize_lt level
  induction count generalizing offset with
  | zero => cases member
  | succ count ih =>
    rcases List.mem_cons.mp member with rfl | later
    · have bytes := @bytes_first level data offset
        (computeCRC32 ((data.drop offset).take (min (data.length - offset) (blockLevelSize level))))
      have same : (data.drop offset).take (min (data.length - offset) (blockLevelSize level)) =
          (data.drop offset).take (blockLevelSize level) := by
        rw [← List.length_drop, List.take_eq_take_iff]
        omega
      refine ⟨?_, ?_, ?_⟩
      · rw [bytes, List.length_take, List.length_drop, UInt32.toNat_ofNat', Nat.mod_eq_of_lt (by omega),
          Nat.min_comm]
      · rw [bytes, same]
      · rw [bytes, List.length_take]
        omega
    · have next : data.length - offset - min (data.length - offset) (blockLevelSize level) =
          data.length - (offset + min (data.length - offset) (blockLevelSize level)) := by omega
      rw [next] at later
      exact ih later

/-- The slices of so many rounds hold the bytes from the offset on. -/
theorem flatten_sliceLoop (count offset : Nat) :
    ((sliceLoop level data count (data.length - offset) offset).map fun slice => slice.bytes data).flatten =
      (data.drop offset).take (count * blockLevelSize level) := by
  induction count generalizing offset with
  | zero => simp [sliceLoop]
  | succ count ih =>
    have next : data.length - offset - min (data.length - offset) (blockLevelSize level) =
        data.length - (offset + min (data.length - offset) (blockLevelSize level)) := by omega
    rw [sliceLoop, List.map_cons, List.flatten_cons, bytes_first, next, ih, Nat.succ_mul, Nat.add_comm (count * _),
      List.take_add, List.drop_drop]
    congr 2
    by_cases last : data.length - offset ≤ blockLevelSize level
    · rw [List.drop_of_length_le (by omega), List.drop_of_length_le (by omega)]
    · rw [Nat.min_eq_right (by omega)]

end

theorem describes_of_mem_split {data : List UInt8} {slice : BlockSlice} (member : slice ∈ split data.length data) :
    Describes slice (slice.bytes data) := by
  unfold split splitWithLevel at member
  split at member
  · cases member
  · exact @describes_of_mem _ data (Nat.lt_of_le_of_lt (blockLevelSize_select_le _) (by decide)) _ 0 _ member

theorem short_of_mem_chunks {data c : List UInt8} (member : c ∈ chunks data) : c.length < 2 ^ 31 := by
  obtain ⟨slice, inside, rfl⟩ := List.mem_map.mp member
  exact (describes_of_mem_split inside).small

theorem stored_eq (data : List UInt8) : stored data = data.take
    (blockCount data.length (selectBlockLevel data.length) * blockLevelSize (selectBlockLevel data.length)) := by
  unfold stored chunks split splitWithLevel
  split
  · next empty =>
    rw [List.eq_nil_of_length_eq_zero empty]
    rfl
  · exact flatten_sliceLoop data _ 0

/-- Up to the limit the blocks are enough. -/
theorem length_le_blocks {n : Nat} (small : n ≤ maxSplit) :
    n ≤ blockCount n (selectBlockLevel n) * blockLevelSize (selectBlockLevel n) ∧
      (n ≠ 0 → 0 < blockCount n (selectBlockLevel n)) := by
  unfold maxSplit at small
  unfold blockCount
  split
  · next empty => exact ⟨by omega, fun some => absurd empty some⟩
  · unfold selectBlockLevel u32 u64
    split
    · simp only [blockLevelSize]
      omega
    · split
      · simp only [blockLevelSize]
        omega
      · split
        · simp only [blockLevelSize]
          omega
        · split
          · simp only [blockLevelSize]
            omega
          · simp only [blockLevelSize]
            omega

/-- Data within the limit is in the slices as a whole. -/
theorem stored_eq_self {data : List UInt8} (small : data.length ≤ maxSplit) : stored data = data := by
  rw [stored_eq, List.take_of_length_le (length_le_blocks small).1]

/-- The slices never hold more than the limit. -/
theorem length_stored_le (data : List UInt8) : (stored data).length ≤ maxSplit := by
  have count := blockCount_lt data.length (selectBlockLevel data.length)
  have size := blockLevelSize_select_le data.length
  rw [stored_eq, List.length_take]
  refine Nat.le_trans (Nat.min_le_left _ _) (Nat.le_trans (Nat.mul_le_mul (Nat.le_pred_of_lt count) size) ?_)
  decide

end OpenFS.BlockSplitter
