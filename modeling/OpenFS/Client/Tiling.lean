import Mathlib.Algebra.GroupWithZero.Nat
import Mathlib.Data.List.Chain
import OpenFS.Client.Slices

/-!
# Splitting tiles the file

For every level, and sizes for which 32 bits are enough to count the blocks, the slices
follow one another from the start to the end of the file, and all but the last are full.
-/

namespace OpenFS.BlockSplitter

/-- What is asked of the slices of a file. -/
structure Tiles (data : List UInt8) (level : BlkLevel) (slices : List BlockSlice) : Prop where
  count : slices.length = blockCount data.length level
  first : ∀ slice, slices.head? = some slice → slice.fileOffset = 0
  contiguous : slices.IsChain fun a b => b.fileOffset = a.fileOffset + a.dataSize.toNat
  full : ∀ slice ∈ slices.dropLast, slice.dataSize.toNat = blockLevelSize level
  last : ∀ slice, slices.getLast? = some slice → 0 < slice.dataSize.toNat ∧
    slice.dataSize.toNat ≤ blockLevelSize level
  total : (slices.map fun slice => slice.dataSize.toNat).sum = data.length
  range : ∀ slice ∈ slices, (slice.bytes data).length = slice.dataSize.toNat
  crc32 : ∀ slice ∈ slices, slice.crc32 = computeCRC32 (slice.bytes data)
  whole : (slices.map fun slice => slice.bytes data).flatten = data

/-- The largest size of the smallest level: `2 ^ 32 - 1` blocks of 64 KiB. -/
def maxTiled : Nat := 2 ^ 48 - 2 ^ 16

/-- So many blocks are needed for what remains. -/
structure Needed (size count remaining : Nat) : Prop where
  enough : remaining ≤ count * size
  tight : count = 0 ∨ (count - 1) * size < remaining

theorem needed_blockCount {n : Nat} (small : n ≤ maxTiled) (level : BlkLevel) :
    Needed (blockLevelSize level) (blockCount n level) n := by
  unfold maxTiled at small
  unfold blockCount u32 u64
  split
  · next empty => exact ⟨by omega, .inl rfl⟩
  · cases level <;> (simp only [blockLevelSize]; exact ⟨by omega, by omega⟩)

section
variable {level : BlkLevel} {count remaining offset : Nat} {data : List UInt8}

/-- What is left after a slice. -/
theorem Needed.next (needed : Needed (blockLevelSize level) (count + 1) remaining) :
    0 < min remaining (blockLevelSize level) ∧
      (count ≠ 0 → min remaining (blockLevelSize level) = blockLevelSize level) ∧
      Needed (blockLevelSize level) count (remaining - min remaining (blockLevelSize level)) := by
  obtain ⟨enough, tight⟩ := needed
  have positive := blockLevelSize_pos level
  have below := tight.resolve_left (Nat.succ_ne_zero count)
  rw [Nat.add_sub_cancel] at below
  rw [Nat.succ_mul] at enough
  refine ⟨by omega, fun more => ?_, by omega, ?_⟩
  · have := Nat.le_mul_of_pos_left (blockLevelSize level) (Nat.pos_of_ne_zero more)
    omega
  · cases count with
    | zero => exact .inl rfl
    | succ count =>
      right
      rw [Nat.succ_mul] at below
      rw [Nat.add_sub_cancel]
      omega

/-- The size of a slice is cut to 32 bits, and nothing is lost. -/
theorem toNat_dataSize (level : BlkLevel) (remaining : Nat) :
    (UInt32.ofNat (min remaining (blockLevelSize level))).toNat = min remaining (blockLevelSize level) :=
  UInt32.toNat_ofNat_of_lt' (Nat.lt_of_le_of_lt (Nat.min_le_right ..) (blockLevelSize_lt level))

theorem head_sliceLoop {slice : BlockSlice}
    (head : (sliceLoop level data count remaining offset).head? = some slice) :
    slice.fileOffset = offset := by
  cases count with
  | zero => cases head
  | succ count =>
    cases head
    rfl

theorem chain_sliceLoop : (sliceLoop level data count remaining offset).IsChain fun a b =>
    b.fileOffset = a.fileOffset + a.dataSize.toNat := by
  induction count generalizing remaining offset with
  | zero => exact .nil
  | succ count ih =>
    refine List.isChain_cons.mpr ⟨fun b head => ?_, ih⟩
    rw [head_sliceLoop head, toNat_dataSize]

theorem full_sliceLoop (needed : Needed (blockLevelSize level) count remaining) :
    ∀ slice ∈ (sliceLoop level data count remaining offset).dropLast,
      slice.dataSize.toNat = blockLevelSize level := by
  induction count generalizing remaining offset with
  | zero => exact fun _ member => by cases member
  | succ count ih =>
    obtain ⟨-, full, rest⟩ := needed.next
    cases count with
    | zero => exact fun _ member => by cases member
    | succ count =>
      intro slice member
      rw [sliceLoop, List.dropLast_cons_of_ne_nil (by rw [sliceLoop]; exact List.cons_ne_nil _ _)] at member
      rcases List.mem_cons.mp member with rfl | later
      · rw [toNat_dataSize]
        exact full (Nat.succ_ne_zero count)
      · exact ih rest slice later

theorem last_sliceLoop (needed : Needed (blockLevelSize level) count remaining) {slice : BlockSlice}
    (last : (sliceLoop level data count remaining offset).getLast? = some slice) :
    0 < slice.dataSize.toNat ∧ slice.dataSize.toNat ≤ blockLevelSize level := by
  induction count generalizing remaining offset with
  | zero => cases last
  | succ count ih =>
    obtain ⟨some, -, rest⟩ := needed.next
    cases count with
    | zero =>
      cases (Option.some.inj last : _ = slice)
      show 0 < (UInt32.ofNat _).toNat ∧ (UInt32.ofNat _).toNat ≤ _
      rw [toNat_dataSize]
      exact ⟨some, Nat.min_le_right _ _⟩
    | succ count =>
      rw [sliceLoop, sliceLoop, List.getLast?_cons_cons, ← sliceLoop] at last
      exact ih rest last

theorem total_sliceLoop (needed : Needed (blockLevelSize level) count remaining) :
    ((sliceLoop level data count remaining offset).map fun slice => slice.dataSize.toNat).sum = remaining := by
  induction count generalizing remaining offset with
  | zero =>
    have := needed.enough
    rw [sliceLoop, List.map_nil, List.sum_nil]
    omega
  | succ count ih =>
    rw [sliceLoop, List.map_cons, List.sum_cons, toNat_dataSize, ih needed.next.2.2]
    omega

end

/-- Each level, for sizes that can be counted. -/
theorem tiles_splitWithLevel {data : List UInt8} (small : data.length ≤ maxTiled) (level : BlkLevel) :
    Tiles data level (splitWithLevel data.length level data) := by
  have needed := needed_blockCount small level
  unfold splitWithLevel
  split
  · next empty =>
    cases List.eq_nil_of_length_eq_zero empty
    exact ⟨by simp [blockCount], (fun _ head => by cases head), .nil, (fun _ member => by cases member),
      (fun _ last => by cases last), rfl, (fun _ member => by cases member),
        (fun _ member => by cases member), rfl⟩
  · have some : blockLevelSize level < 2 ^ 31 := by cases level <;> decide
    have described (slice : BlockSlice)
        (member : slice ∈ sliceLoop level data (blockCount data.length level) (data.length - 0) 0) :
        Describes slice (slice.bytes data) :=
      describes_of_mem data some member
    refine ⟨length_sliceLoop .., fun _ => head_sliceLoop, chain_sliceLoop, full_sliceLoop needed,
      fun _ => last_sliceLoop needed, total_sliceLoop needed,
        fun slice member => (described slice member).size.symm,
      fun slice member => (described slice member).crc32, ?_⟩
    exact (flatten_sliceLoop data _ 0).trans (List.take_of_length_le needed.enough)

/-- Up to 32 MiB a file is one block. -/
theorem blockCount_selected {n : Nat} (some : 0 < n) (small : n ≤ 32 * 1024 * 1024) :
    blockCount n (selectBlockLevel n) = 1 := by
  unfold blockCount selectBlockLevel u32 u64
  rw [if_neg (by omega)]
  split
  · simp only [blockLevelSize]
    omega
  · split
    · simp only [blockLevelSize]
      omega
    · split
      · simp only [blockLevelSize]
        omega
      · simp only [blockLevelSize]
        omega

/-- **Splitting tiles the file**, at a level that is given and at the selected one. -/
theorem splitting_tiles (data : List UInt8) (small : data.length ≤ maxTiled) :
    (∀ level, Tiles data level (splitWithLevel data.length level data)) ∧
      Tiles data (selectBlockLevel data.length) (split data.length data) ∧
      (0 < data.length → data.length ≤ 32 * 1024 * 1024 → (split data.length data).length = 1) :=
  ⟨tiles_splitWithLevel small, tiles_splitWithLevel small _, fun some few => by
    rw [length_split, blockCount_selected some few]⟩

/-- A file of 128 KiB and a byte: three blocks of the smallest level, or one of the selected one. -/
theorem splitting_tiles_threeBlocks : ∃ data : List UInt8, data.length = 131073 ∧
    (splitWithLevel data.length .l0 data).length = 3 ∧ Tiles data .l0 (splitWithLevel data.length .l0 data) ∧
    Tiles data (selectBlockLevel data.length) (split data.length data) ∧ (split data.length data).length = 1 := by
  have length : (List.replicate 131073 (7 : UInt8)).length = 131073 := List.length_replicate
  obtain ⟨given, selected, single⟩ := splitting_tiles (List.replicate 131073 7) (by rw [length]; decide)
  refine ⟨List.replicate 131073 7, length, ?_, given .l0, selected, ?_⟩
  · rw [(given .l0).count, length]
    decide
  · exact single (by rw [length]; decide) (by rw [length]; decide)

end OpenFS.BlockSplitter
