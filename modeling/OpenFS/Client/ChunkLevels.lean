import OpenFS.Client.Tiling

/-!
# The level that a chunk would select

A file is cut into chunks of the size of its level. Chunks that are full select the level
of the file again, and so does a tail unless the file has more than 32 MiB and the tail no
more than 4.
-/

namespace OpenFS.BlockSplitter

section
variable {level : BlkLevel} (data : List UInt8)

/-- The bytes of the slices of so many rounds. -/
theorem map_bytes_sliceLoop (count offset : Nat) :
    (sliceLoop level data count (data.length - offset) offset).map (fun slice => slice.bytes data) =
      (List.range count).map fun j =>
        (data.drop (offset + j * blockLevelSize level)).take (blockLevelSize level) := by
  induction count generalizing offset with
  | zero => rfl
  | succ count ih =>
    have next : data.length - offset - min (data.length - offset) (blockLevelSize level) =
        data.length - (offset + min (data.length - offset) (blockLevelSize level)) := by omega
    rw [sliceLoop, List.map_cons, bytes_first, next, ih, List.range_succ_eq_map, List.map_cons, List.map_map,
      Nat.zero_mul, Nat.add_zero]
    congr 1
    apply List.map_congr_left
    intro j _
    dsimp only [Function.comp_apply]
    rw [Nat.succ_mul]
    by_cases last : data.length - offset ≤ blockLevelSize level
    · rw [List.drop_of_length_le (by omega), List.drop_of_length_le (by omega)]
    · rw [Nat.min_eq_right (by omega)]
      congr 2
      omega

end

/-- The `j`-th chunk begins `j` blocks into the data. -/
theorem chunks_eq (data : List UInt8) :
    chunks data = (List.range (blockCount data.length (selectBlockLevel data.length))).map fun j =>
      (data.drop (j * blockLevelSize (selectBlockLevel data.length))).take
        (blockLevelSize (selectBlockLevel data.length)) := by
  unfold chunks split splitWithLevel
  split
  · next empty => simp [blockCount, empty]
  · have all := @map_bytes_sliceLoop (selectBlockLevel data.length) data
      (blockCount data.length (selectBlockLevel data.length)) 0
    simpa only [Nat.zero_add, Nat.sub_zero] using all

/-- The last block of a file of more than 32 MiB is full or has more than 4 MiB, if it is counted. -/
def TailKeepsLevel (n : Nat) : Prop :=
  32 * 1024 * 1024 < n → n ≤ maxSplit → n % (32 * 1024 * 1024) = 0 ∨ 4 * 1024 * 1024 < n % (32 * 1024 * 1024)

theorem selectBlockLevel_eq_l3 {n : Nat} : selectBlockLevel n = .l3 ↔ 4 * 1024 * 1024 < n := by
  unfold selectBlockLevel
  constructor
  · intro same
    by_contra small
    split at same
    · cases same
    split at same
    · cases same
    split at same
    · cases same
    · omega
  · intro large
    rw [if_neg (by omega), if_neg (by omega), if_neg (by omega)]
    split <;> rfl

/-- Up to 32 MiB a file is no longer than a block of its level. -/
theorem le_blockLevelSize {n : Nat} (small : n ≤ 32 * 1024 * 1024) : n ≤ blockLevelSize (selectBlockLevel n) := by
  unfold selectBlockLevel
  split
  · next fits => exact fits
  split
  · next fits => exact fits
  split
  · next fits => exact fits
  · exact small

/-- So many blocks of 32 MiB are needed, and counted up to the limit. -/
theorem blockCount_l3 {n : Nat} (some : 0 < n) (counted : n ≤ maxSplit) :
    blockCount n .l3 = (n + 33554431) / 33554432 := by
  unfold maxSplit at counted
  unfold blockCount u32 u64
  rw [if_neg (by omega)]
  simp only [blockLevelSize]
  omega

/-- The size of each chunk selects the level of the file. -/
theorem levels_of_chunks (data : List UInt8) :
    (∀ c ∈ chunks data, selectBlockLevel c.length = selectBlockLevel data.length) ↔
      TailKeepsLevel data.length := by
  have sizes : (∀ c ∈ chunks data, selectBlockLevel c.length = selectBlockLevel data.length) ↔
      ∀ j < blockCount data.length (selectBlockLevel data.length), selectBlockLevel
        (min (blockLevelSize (selectBlockLevel data.length))
          (data.length - j * blockLevelSize (selectBlockLevel data.length))) = selectBlockLevel data.length := by
    rw [chunks_eq]
    simp only [List.mem_map, List.mem_range, forall_exists_index, and_imp, forall_apply_eq_imp_iff₂,
      List.length_take, List.length_drop]
  rw [sizes]
  generalize data.length = n
  unfold TailKeepsLevel
  by_cases large : 32 * 1024 * 1024 < n
  · have level : selectBlockLevel n = .l3 := selectBlockLevel_eq_l3.mpr (by omega)
    rw [level]
    simp only [selectBlockLevel_eq_l3]
    show (∀ j < blockCount n .l3, 4 * 1024 * 1024 < min (32 * 1024 * 1024) (n - j * (32 * 1024 * 1024))) ↔ _
    constructor
    · intro all _ counted
      -- the last block
      have count := blockCount_l3 (by omega) counted
      have last := all ((n + 33554431) / 33554432 - 1) (by rw [count]; omega)
      omega
    · intro tail j below
      by_cases counted : n ≤ maxSplit
      · rw [blockCount_l3 (by omega) counted] at below
        have rest := tail large counted
        omega
      · -- blocks are lost in the count, and all that are left are full
        have few := blockCount_lt n .l3
        unfold maxSplit at counted
        omega
  · refine iff_of_true (fun j below => ?_) fun more => absurd more large
    have whole : n ≤ blockLevelSize (selectBlockLevel n) := le_blockLevelSize (by omega)
    have few : blockCount n (selectBlockLevel n) ≤ 1 := by
      by_cases empty : n = 0
      · rw [empty]
        decide
      · exact Nat.le_of_eq (blockCount_selected (by omega) (by omega))
    obtain rfl : j = 0 := by omega
    rw [Nat.zero_mul, Nat.sub_zero, Nat.min_eq_right whole]

theorem level_of_mem_split {n : Nat} {data : List UInt8} {slice : BlockSlice} (member : slice ∈ split n data) :
    slice.level = selectBlockLevel n := by
  unfold split splitWithLevel at member
  split at member
  · cases member
  · exact level_of_mem_sliceLoop member

end OpenFS.BlockSplitter
