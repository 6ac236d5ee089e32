import Mathlib.Algebra.Order.Floor.Div
import OpenFS.Data.DiskSteps

/-!
# Physical blocks of a payload

`CalcPhysicalBlocks` adds two 32-bit values before it stores the sum in 64 bits, and
`WriteBlock` multiplies in 32 bits for the size of its buffer. Each wraps near the top of
the range, at its own boundary.
-/

namespace OpenFS.DiskManager

open ByteImage FileLog

/-- The size of `write_buf`, in 32 bits. -/
def bufferSize (dataSize : UInt32) : Nat := u32 (calcPhysicalBlocks dataSize * physicalBlockSize)

/-- The arithmetic of a request is that of the numbers: the header and payload copies stay
in the buffer, and the buffer in the extent. -/
structure Unwrapped (dataSize : UInt32) : Prop where
  ceiling : calcPhysicalBlocks dataSize = (diskBlockHeaderSize + dataSize.toNat) ⌈/⌉ physicalBlockSize
  payload : diskBlockHeaderSize + dataSize.toNat ≤ bufferSize dataSize
  header : ∀ hdr : DiskBlockHeader, hdr.encode.length ≤ bufferSize dataSize
  copies : ∀ (hdr : DiskBlockHeader) (data : List UInt8), data.length = dataSize.toNat →
    (writeBuf hdr (calcPhysicalBlocks dataSize) data).take (diskBlockHeaderSize + data.length) = hdr.used ++ data
  extent : bufferSize dataSize ≤ calcPhysicalBlocks dataSize * physicalBlockSize

theorem length_encode (hdr : DiskBlockHeader) : hdr.encode.length = diskBlockHeaderSize + 8 := by
  simp [DiskBlockHeader.encode, diskBlockHeaderSize]

/-! ## Below the boundary -/

section Fits

variable {dataSize : UInt32} (fits : diskBlockHeaderSize + dataSize.toNat + physicalBlockSize ≤ 2 ^ 32)

include fits

theorem calcPhysicalBlocks_of_fits :
    calcPhysicalBlocks dataSize = (diskBlockHeaderSize + dataSize.toNat) ⌈/⌉ physicalBlockSize := by
  have sum : u32 (diskBlockHeaderSize + dataSize.toNat) = diskBlockHeaderSize + dataSize.toNat := by
    apply Nat.mod_eq_of_lt
    unfold physicalBlockSize at fits
    omega
  unfold calcPhysicalBlocks
  rw [sum, Nat.ceilDiv_eq_add_pred_div]
  apply Nat.mod_eq_of_lt
  apply (Nat.div_lt_iff_lt_mul (by decide)).mpr
  unfold diskBlockHeaderSize physicalBlockSize at *
  omega

theorem bufferSize_of_fits :
    bufferSize dataSize = calcPhysicalBlocks dataSize * physicalBlockSize ∧
      diskBlockHeaderSize + dataSize.toNat ≤ bufferSize dataSize := by
  unfold bufferSize
  rw [calcPhysicalBlocks_of_fits fits, Nat.ceilDiv_eq_add_pred_div]
  have whole : (diskBlockHeaderSize + dataSize.toNat + physicalBlockSize - 1) / physicalBlockSize *
      physicalBlockSize < 2 ^ 32 := by
    apply Nat.lt_of_le_of_lt (Nat.div_mul_le_self _ _)
    unfold diskBlockHeaderSize physicalBlockSize at *
    omega
  rw [u32, Nat.mod_eq_of_lt whole]
  constructor
  · rfl
  · unfold diskBlockHeaderSize physicalBlockSize at *
    omega

end Fits

theorem unwrapped_of_fits {dataSize : UInt32}
    (fits : diskBlockHeaderSize + dataSize.toNat + physicalBlockSize ≤ 2 ^ 32) : Unwrapped dataSize where
  ceiling := calcPhysicalBlocks_of_fits fits
  payload := (bufferSize_of_fits fits).2
  header hdr := by
    have payload := (bufferSize_of_fits fits).2
    rw [(bufferSize_of_fits fits).1] at payload ⊢
    rw [length_encode]
    -- a whole block holds more than the 40 bytes
    unfold diskBlockHeaderSize physicalBlockSize at *
    omega
  copies hdr data size := by
    apply take_writeBuf
    rw [size]
    exact (bufferSize_of_fits fits).2
  extent := Nat.le_of_eq (bufferSize_of_fits fits).1

/-! ## Above it -/

/-- The product wraps: the extent is right, but the buffer is empty. -/
theorem bufferSize_of_product_wrap {dataSize : UInt32}
    (large : 2 ^ 32 < diskBlockHeaderSize + dataSize.toNat + physicalBlockSize)
    (sum : diskBlockHeaderSize + dataSize.toNat < 2 ^ 32) : bufferSize dataSize = 0 := by
  unfold bufferSize calcPhysicalBlocks u32
  unfold diskBlockHeaderSize physicalBlockSize at *
  omega

/-- The sum wraps: one block at most for 4 GiB. -/
theorem calcPhysicalBlocks_of_sum_wrap {dataSize : UInt32}
    (sum : 2 ^ 32 ≤ diskBlockHeaderSize + dataSize.toNat) : calcPhysicalBlocks dataSize ≤ 1 := by
  have bound : dataSize.toNat < 2 ^ 32 := dataSize.toNat_lt
  unfold calcPhysicalBlocks u32
  unfold diskBlockHeaderSize physicalBlockSize at *
  omega

/-- Whatever wraps, the buffer is smaller than what is copied into it. -/
theorem bufferSize_lt_of_wrap {dataSize : UInt32}
    (large : 2 ^ 32 < diskBlockHeaderSize + dataSize.toNat + physicalBlockSize) :
    bufferSize dataSize < diskBlockHeaderSize + dataSize.toNat := by
  by_cases sum : diskBlockHeaderSize + dataSize.toNat < 2 ^ 32
  · rw [bufferSize_of_product_wrap large sum]
    exact Nat.add_pos_left (by decide) _
  · have few := calcPhysicalBlocks_of_sum_wrap (Nat.le_of_not_lt sum)
    have small : bufferSize dataSize ≤ calcPhysicalBlocks dataSize * physicalBlockSize := Nat.mod_le _ _
    unfold diskBlockHeaderSize physicalBlockSize at *
    omega

/-- The arithmetic is right exactly for payloads that leave a block and a header below
`2 ^ 32`. -/
theorem unwrapped_iff (dataSize : UInt32) :
    Unwrapped dataSize ↔ diskBlockHeaderSize + dataSize.toNat + physicalBlockSize ≤ 2 ^ 32 := by
  constructor
  · intro unwrapped
    by_contra large
    have short := bufferSize_lt_of_wrap (Nat.lt_of_not_le large)
    have payload := unwrapped.payload
    omega
  · exact unwrapped_of_fits

/-- 4294967295 bytes go into the buffer of one block. -/
theorem wrapped_at_max : calcPhysicalBlocks 4294967295 = 1 ∧ ¬ Unwrapped 4294967295 := by
  constructor
  · decide
  · intro unwrapped
    have payload := unwrapped.payload
    revert payload
    decide

end OpenFS.DiskManager
