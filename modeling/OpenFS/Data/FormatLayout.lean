import Mathlib.Logic.Function.Iterate
import OpenFS.Data.FreshDisk

/-!
# Sizing the bitmap

`Format` looks for the size of the bitmap by ten rounds of an estimate. What the bitmap
and the data area share is split right unless it leaves the remainder 1 on division by
32769, one more than the bits of a bitmap block: then no size fits itself, the estimates
alternate between two of them, and the tenth round ends on the one that is a bit short.
-/

namespace OpenFS

open ByteImage FileLog

namespace DiskFormatter

/-- The next estimate for `shared` blocks. -/
def estimate (shared bitmapBlocks : Nat) : Nat := (shared - bitmapBlocks + 32767) / 32768

/-! ## The rounds -/

/-- Less than `error` off, or just that. -/
def Near (size error bitmapBlocks : Nat) : Prop := bitmapBlocks ≤ size + error ∧ size ≤ bitmapBlocks + error

theorem estimate_le {shared : Nat} (two : 2 ≤ shared) (bitmapBlocks : Nat) :
    estimate shared bitmapBlocks ≤ shared := by
  unfold estimate
  omega

theorem iterate_ten (next : Nat → Nat) (n : Nat) :
    next^[10] n = next (next (next (next (next (next (next (next (next (next n))))))))) := rfl

section
variable {shared size error less bitmapBlocks : Nat}

/-- A size that fits itself draws the estimates near, 32768 times as near in each round. -/
theorem Near.estimate (near : Near size error bitmapBlocks) (fits : shared ≤ 32769 * size)
    (tight : 32769 * size ≤ shared + 32767) (room : bitmapBlocks ≤ shared) (far : error ≤ 32768 * less) :
    Near size less (estimate shared bitmapBlocks) := by
  obtain ⟨above, below⟩ := near
  unfold Near DiskFormatter.estimate
  constructor
  · omega
  · omega

/-- From a neighbour it is reached in two rounds. -/
theorem Near.settles (near : Near size 1 bitmapBlocks) (fits : shared ≤ 32769 * size)
    (tight : 32769 * size ≤ shared + 32767) (room : size + 1 ≤ shared) :
    DiskFormatter.estimate shared (DiskFormatter.estimate shared bitmapBlocks) = size := by
  obtain ⟨above, below⟩ := near
  unfold DiskFormatter.estimate
  omega

theorem estimate_fixed (fits : shared ≤ 32769 * size) (tight : 32769 * size ≤ shared + 32767)
    (room : size ≤ shared) : estimate shared size = size := by
  unfold estimate
  omega

/-- Ten rounds reach it. -/
theorem iterate_estimate (two : 2 ≤ shared) (small : shared ≤ 2 ^ 53) (fits : shared ≤ 32769 * size)
    (tight : 32769 * size ≤ shared + 32767) : (estimate shared)^[10] 1 = size := by
  have near : Near size (2 ^ 39) 1 := ⟨by omega, by omega⟩
  have near₁ : Near size (2 ^ 24) _ := near.estimate fits tight (by omega) (by omega)
  have near₂ : Near size (2 ^ 9) _ := near₁.estimate fits tight (estimate_le two _) (by omega)
  have near₃ : Near size 1 _ := near₂.estimate fits tight (estimate_le two _) (by omega)
  have settled := near₃.settles fits tight (by omega)
  have fixed := @estimate_fixed shared size fits tight (by omega)
  rw [iterate_ten, settled]
  simp only [fixed]

end

/-- Where no size fits itself, the estimates go to and fro, and the even ones are short. -/
theorem iterate_estimate_short {shared size : Nat} (odd : shared = 32769 * size + 1) (some : 1 ≤ size)
    (small : shared ≤ 2 ^ 53) : (estimate shared)^[10] 1 = size := by
  have up : estimate shared size = size + 1 := by
    unfold estimate
    omega
  have down : estimate shared (size + 1) = size := by
    unfold estimate
    omega
  have first : size + 1 ≤ estimate shared 1 ∧ estimate shared 1 ≤ size + 2 ^ 24 := by
    unfold estimate
    omega
  have second : estimate shared (estimate shared 1) ≤ size ∧
      size ≤ estimate shared (estimate shared 1) + 2 ^ 9 := by
    generalize estimate shared 1 = b at first ⊢
    unfold estimate
    omega
  have third : estimate shared (estimate shared (estimate shared 1)) = size + 1 := by
    generalize estimate shared (estimate shared 1) = b at second ⊢
    unfold estimate
    omega
  rw [iterate_ten, third]
  simp only [up, down]

/-- What the tenth round gives. -/
theorem iterate_estimate_eq {shared : Nat} (two : 2 ≤ shared) (small : shared ≤ 2 ^ 53) :
    (estimate shared)^[10] 1 = (shared + 32767) / 32769 := by
  by_cases odd : shared % 32769 = 1
  · have parts := Nat.div_add_mod shared 32769
    rw [@iterate_estimate_short shared (shared / 32769) (by omega) (by omega) small]
    omega
  · exact iterate_estimate two small (by omega) (by omega)

/-! ## The layout -/

theorem neededBitmapBlocks_eq {dataBlocks : Nat} (small : dataBlocks ≤ 2 ^ 53) :
    neededBitmapBlocks dataBlocks = (dataBlocks + 32767) / 32768 := by
  unfold neededBitmapBlocks u64 physicalBlockSize
  omega

/-- Stopping at a size that fits itself changes nothing. -/
theorem bitmapBlocksFor_eq {totalBlocks walBlocks : Nat} (total : totalBlocks < 2 ^ 52) (wal : walBlocks < 2 ^ 64)
    (check : ¬ totalBlocks < u64 (1 + 1 + walBlocks + 1)) (rounds : Nat) {bitmapBlocks : Nat}
    (room : bitmapBlocks < sharedBlocks totalBlocks walBlocks) :
    bitmapBlocksFor totalBlocks walBlocks rounds bitmapBlocks =
      (estimate (sharedBlocks totalBlocks walBlocks))^[rounds] bitmapBlocks := by
  obtain ⟨two, small⟩ := sharedBlocks_of_check total wal check
  induction rounds generalizing bitmapBlocks with
  | zero => rfl
  | succ rounds ih =>
    have next : neededBitmapBlocks (dataBlocksFor totalBlocks bitmapBlocks walBlocks) =
        estimate (sharedBlocks totalBlocks walBlocks) bitmapBlocks := by
      rw [dataBlocksFor_eq total wal room, neededBitmapBlocks_eq (by omega)]
      rfl
    rw [Function.iterate_succ_apply]
    unfold bitmapBlocksFor
    dsimp only
    rw [next]
    split
    · next fixed => rw [fixed, Function.iterate_fixed fixed]
    · apply ih
      unfold estimate
      omega

/-- The number of WAL blocks that `Format` reckons with. -/
def walBlocksOf (walBlocks : UInt64) : Nat := if walBlocks = 0 then walDefaultBlocks else walBlocks.toNat

/-- The superblock that `Format` builds for a disk of `diskSize` bytes. -/
def superBlockOf (diskSize walBlocks nodeId : UInt64) (diskIndex : UInt32) (uuid now : UInt64) : DiskSuperBlock :=
  newSuperBlock (diskSize.toNat / physicalBlockSize) (walBlocksOf walBlocks) nodeId diskIndex uuid now

/-- The bytes that are saved, by the superblock: the bitmap's blocks, or more if the data blocks need more. -/
def reservedBytes (sb : DiskSuperBlock) : Nat :=
  max (sb.bitmapBlocks.toNat * physicalBlockSize) ((sb.dataBlocks.toNat + 7) / 8)

/-- The layout holds a disk of `diskSize` bytes together. -/
structure ConsistentLayout (diskSize walBlocks : UInt64) (sb : DiskSuperBlock) : Prop where
  /-- Every data block has a bit in the bitmap's blocks. -/
  capacity : sb.dataBlocks.toNat ≤ sb.bitmapBlocks.toNat * physicalBlockSize * 8
  some : 1 ≤ sb.dataBlocks.toNat
  dataOffset : sb.dataOffset.toNat = sb.bitmapOffset.toNat + sb.bitmapBlocks.toNat * physicalBlockSize
  inside : sb.dataOffset.toNat + sb.dataBlocks.toNat * physicalBlockSize ≤ diskSize.toNat
  /-- `total_blocks - 1 - bitmap_blocks - wal_blocks` in each round, and after the last. -/
  noWrap : ∀ rounds, rounds ≤ 10 →
    1 + bitmapBlocksFor (diskSize.toNat / physicalBlockSize) (walBlocksOf walBlocks) rounds 1 +
      walBlocksOf walBlocks ≤
      diskSize.toNat / physicalBlockSize
  /-- Saving the bitmap leaves the data area alone. -/
  apart : ∀ d : DiskManager, d.superblock = sb → d.bitmap.bitmap.length ≤ reservedBytes sb →
    ∀ i, sb.dataOffset.toNat ≤ i →
      (d.saveBitmap.2.world.files .device).byte i = (d.world.files .device).byte i

section
variable {diskSize walBlocks nodeId : UInt64} {diskIndex : UInt32} {uuid now : UInt64}

/-- What the size check gives. -/
theorem roomy_of_format {w w' : World DiskFile} (wal : walBlocks.toNat < 2 ^ 63)
    (formatted : format w diskSize walBlocks nodeId diskIndex uuid now = (.ok, w')) :
    walBlocksOf walBlocks + 3 ≤ diskSize.toNat / physicalBlockSize := by
  have small : walBlocksOf walBlocks < 2 ^ 63 := by
    unfold walBlocksOf
    split
    · decide
    · exact wal
  unfold format at formatted
  dsimp only at formatted
  rw [show (if walBlocks = 0 then walDefaultBlocks else walBlocks.toNat) = walBlocksOf walBlocks from rfl]
    at formatted
  split at formatted
  · cases formatted
  · next check =>
    unfold u64 at check
    omega

/-- Where the check is passed, `Format` lays out the disk. -/
theorem format_of_roomy (wal : walBlocks.toNat < 2 ^ 63)
    (roomy : walBlocksOf walBlocks + 3 ≤ diskSize.toNat / physicalBlockSize) (w : World DiskFile) :
    format w diskSize walBlocks nodeId diskIndex uuid now = (.ok,
      w.performAll (formatEffects (superBlockOf diskSize walBlocks nodeId diskIndex uuid now))) := by
  have check : ¬ diskSize.toNat / physicalBlockSize < u64 (1 + 1 + walBlocksOf walBlocks + 1) := by
    have small : walBlocksOf walBlocks < 2 ^ 63 := by
      unfold walBlocksOf
      split
      · decide
      · exact wal
    unfold u64
    omega
  unfold format superBlockOf
  dsimp only
  rw [show (if walBlocks = 0 then walDefaultBlocks else walBlocks.toNat) = walBlocksOf walBlocks from rfl,
    if_neg check]

/-- What `Format` built is on the device. -/
theorem readSuperBlock_of_format {w w' : World DiskFile} (wal : walBlocks.toNat < 2 ^ 63)
    (formatted : format w diskSize walBlocks nodeId diskIndex uuid now = (.ok, w')) :
    readSuperBlock (w'.files .device) = .ok (superBlockOf diskSize walBlocks nodeId diskIndex uuid now) := by
  have roomy := roomy_of_format wal formatted
  have total : diskSize.toNat / physicalBlockSize < 2 ^ 52 := by
    have := diskSize.toNat_lt
    unfold physicalBlockSize
    omega
  have check : ¬ diskSize.toNat / physicalBlockSize < u64 (1 + 1 + walBlocksOf walBlocks + 1) := by
    unfold u64
    omega
  have laid := laid_newSuperBlock total (by omega) check nodeId diskIndex uuid now
  have valid := DiskManager.valid_newSuperBlock (diskSize.toNat / physicalBlockSize) (walBlocksOf walBlocks) nodeId
    diskIndex uuid now
  rw [format_of_roomy wal roomy] at formatted
  obtain ⟨-, rfl⟩ := Prod.mk.inj formatted
  have blank := formatted_of_formatEffects laid.sized w.files
  rw [← World.performAll_files] at blank
  exact DiskManager.readSuperBlock_of_openable (openable_of_formatted laid valid blank)

/-- The numbers of the layout. -/
theorem superBlockOf_spec (roomy : walBlocksOf walBlocks + 3 ≤ diskSize.toNat / physicalBlockSize)
    (sb : DiskSuperBlock) (made : sb = superBlockOf diskSize walBlocks nodeId diskIndex uuid now) {shared : Nat}
    (rest : shared = diskSize.toNat / physicalBlockSize - 1 - walBlocksOf walBlocks) :
    Laid sb ∧ sb.bitmapBlocks.toNat = (shared + 32767) / 32769 ∧
      sb.dataBlocks.toNat = shared - (shared + 32767) / 32769 ∧
      ∀ rounds, bitmapBlocksFor (diskSize.toNat / physicalBlockSize) (walBlocksOf walBlocks) rounds 1 <
        shared := by
  subst made
  have total : diskSize.toNat / physicalBlockSize < 2 ^ 52 := by
    have := diskSize.toNat_lt
    unfold physicalBlockSize
    omega
  have wal : walBlocksOf walBlocks < 2 ^ 64 := by omega
  have check : ¬ diskSize.toNat / physicalBlockSize < u64 (1 + 1 + walBlocksOf walBlocks + 1) := by
    unfold u64
    omega
  obtain rfl : shared = sharedBlocks (diskSize.toNat / physicalBlockSize) (walBlocksOf walBlocks) := by
    unfold sharedBlocks
    omega
  obtain ⟨two, small⟩ := sharedBlocks_of_check total wal check
  have last := bitmapBlocksFor_eq total wal check 10 two
  rw [iterate_estimate_eq two small] at last
  have laid := laid_newSuperBlock total wal check nodeId diskIndex uuid now
  have bitmap : (superBlockOf diskSize walBlocks nodeId diskIndex uuid now).bitmapBlocks.toNat =
      bitmapBlocksFor (diskSize.toNat / physicalBlockSize) (walBlocksOf walBlocks) 10 1 := by
    show (UInt64.ofNat (bitmapBlocksFor _ _ 10 1)).toNat = _
    rw [UInt64.toNat_ofNat', Nat.mod_eq_of_lt (by omega)]
  have data : (superBlockOf diskSize walBlocks nodeId diskIndex uuid now).dataBlocks.toNat =
      dataBlocksFor (diskSize.toNat / physicalBlockSize)
        (bitmapBlocksFor (diskSize.toNat / physicalBlockSize) (walBlocksOf walBlocks) 10 1)
          (walBlocksOf walBlocks) := by
    show (UInt64.ofNat (dataBlocksFor _ (bitmapBlocksFor _ _ 10 1) _)).toNat = _
    rw [UInt64.toNat_ofNat']
    exact Nat.mod_mod _ _
  refine ⟨laid, by rw [bitmap, last], ?_, fun rounds => ?_⟩
  · rw [data, last, dataBlocksFor_eq total wal (by omega)]
  · exact (bitmapBlocksFor_bounds total wal check rounds Nat.one_pos Nat.one_le_two_pow two).2.2

/-- A bitmap that fits its blocks is saved in front of the data area. -/
theorem saveBitmap_apart {sb : DiskSuperBlock} (laid : Laid sb)
    (capacity : sb.dataBlocks.toNat ≤ sb.bitmapBlocks.toNat * physicalBlockSize * 8) {d : DiskManager}
    (same : d.superblock = sb) (length : d.bitmap.bitmap.length ≤ reservedBytes sb) {i : Nat}
    (area : sb.dataOffset.toNat ≤ i) :
    (d.saveBitmap.2.world.files .device).byte i = (d.world.files .device).byte i := by
  have layout := laid.dataOffset
  have front := laid.bitmapOffset
  have written : (DiskManager.savedBytes d.bitmap).length ≤ sb.bitmapBlocks.toNat * physicalBlockSize := by
    unfold DiskManager.savedBytes
    rw [List.length_take]
    unfold reservedBytes at length
    omega
  unfold DiskManager.saveBitmap
  by_cases good : d.io.good = true ∧ d.superblock.bitmapOffset.toNat < 2 ^ 63
  · rw [DiskManager.writeAt_of_good good.1 good.2, same]
    dsimp only
    rw [World.perform_write_files, Image.write_byte_of_outside (.inr (by omega))]
  · obtain ⟨io, failed⟩ := DiskManager.writeAt_of_bad good (DiskManager.savedBytes d.bitmap)
    rw [failed]

/-- **The layout is consistent exactly if** what bitmap and data share does not leave 1 on division by 32769. -/
theorem consistentLayout_iff (wal : walBlocks.toNat < 2 ^ 63) {w w' : World DiskFile}
    (formatted : format w diskSize walBlocks nodeId diskIndex uuid now = (.ok, w')) {sb : DiskSuperBlock}
    (built : readSuperBlock (w'.files .device) = .ok sb) :
    ConsistentLayout diskSize walBlocks sb ↔
      (diskSize.toNat / physicalBlockSize - 1 - walBlocksOf walBlocks) % 32769 ≠ 1 := by
  have roomy := roomy_of_format wal formatted
  have made : sb = superBlockOf diskSize walBlocks nodeId diskIndex uuid now := by
    rw [readSuperBlock_of_format wal formatted] at built
    exact (Except.ok.inj built).symm
  obtain ⟨shared, rest⟩ : ∃ shared, shared = diskSize.toNat / physicalBlockSize - 1 - walBlocksOf walBlocks :=
    ⟨_, rfl⟩
  obtain ⟨laid, bitmap, data, rounds⟩ := superBlockOf_spec roomy sb made rest
  rw [← rest]
  constructor
  · intro consistent odd
    have capacity := consistent.capacity
    rw [bitmap, data] at capacity
    unfold physicalBlockSize at capacity
    omega
  · intro even
    have capacity : sb.dataBlocks.toNat ≤ sb.bitmapBlocks.toNat * physicalBlockSize * 8 := by
      rw [bitmap, data]
      unfold physicalBlockSize
      omega
    have layout := laid.dataOffset
    have front := laid.bitmapOffset
    refine ⟨capacity, by omega, by omega, ?_, fun n _ => ?_, fun d same length i area => ?_⟩
    · rw [layout, bitmap, data]
      unfold superBlockSize physicalBlockSize at *
      omega
    · have room := rounds n
      omega
    · exact saveBitmap_apart laid capacity same length area

end

/-! ## Two layouts -/

theorem consistentLayout_sixBlocks : ConsistentLayout 40960 2 (superBlockOf 40960 2 0 0 0 0) := by
  have formatted := @format_of_roomy 40960 2 0 0 0 0 (by decide) (by decide) ⟨fun _ => Image.empty, []⟩
  have built := readSuperBlock_of_format (by decide) formatted
  exact (consistentLayout_iff (by decide) formatted built).mpr (by decide)

/-- 33027 blocks with the default WAL: the bitmap has one bit less than there are data blocks. -/
theorem layout_one_bit_short :
    ¬ ∀ (diskSize walBlocks nodeId : UInt64) (diskIndex : UInt32) (uuid now : UInt64) (w w' : World DiskFile)
      (sb : DiskSuperBlock), walBlocks.toNat < 2 ^ 63 →
        format w diskSize walBlocks nodeId diskIndex uuid now = (.ok, w') →
          readSuperBlock (w'.files .device) = .ok sb → ConsistentLayout diskSize walBlocks sb := by
  intro claim
  have formatted := @format_of_roomy 135278592 0 0 0 0 0 (by decide) (by decide) ⟨fun _ => Image.empty, []⟩
  have built := readSuperBlock_of_format (by decide) formatted
  have capacity := (claim 135278592 0 0 0 0 0 _ _ _ (by decide) formatted built).capacity
  have short : ¬ (superBlockOf 135278592 0 0 0 0 0).dataBlocks.toNat ≤
      (superBlockOf 135278592 0 0 0 0 0).bitmapBlocks.toNat * physicalBlockSize * 8 := by decide +kernel
  exact short capacity

end DiskFormatter

end OpenFS
