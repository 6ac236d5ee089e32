import OpenFS.Common.Crc32
import OpenFS.Lib.ReflectedCrc

/-!
# The table and the shift register

The entries of the table are what eight shifts make of a byte, so the checksum is that of
the shift register with the polynomial `0xEDB88320`.
-/

namespace OpenFS

open ReflectedCrc

def crc32Poly : BitVec 32 := 0xEDB88320

/-- CRC-32, bit after bit: all ones at the start, and all bits changed at the end. -/
def bitwiseCRC32 (data : List UInt8) : UInt32 :=
  .ofBitVec (remainder crc32Poly 0xFFFFFFFF (data.map UInt8.toBitVec) ^^^ 0xFFFFFFFF)

/-- All 256 entries. -/
theorem crc32Table_eq : crc32Table =
    (List.range 256).map fun i => UInt32.ofBitVec ((bitStep crc32Poly)^[8] (BitVec.ofNat 32 i)) := by
  decide +kernel

theorem crc32Table_getD {i : Nat} (below : i < 256) :
    (crc32Table.getD i 0).toBitVec = (bitStep crc32Poly)^[8] (BitVec.ofNat 32 i) := by
  rw [crc32Table_eq, List.getD_eq_getElem?_getD, List.getElem?_map, List.getElem?_range below]
  rfl

theorem and_lowByte (c : BitVec 32) : c &&& 0xFF = (c.setWidth 8).setWidth 32 := by
  apply BitVec.eq_of_toNat_eq
  rw [BitVec.toNat_and, BitVec.toNat_setWidth, BitVec.toNat_setWidth]
  show c.toNat &&& 2 ^ 8 - 1 = _
  rw [Nat.and_two_pow_sub_one_eq_mod]
  omega

/-- One round of the loop is one byte of the register. -/
theorem crcStep_eq (crc : UInt32) (byte : UInt8) :
    ((crc >>> 8) ^^^ crc32Table.getD ((crc ^^^ byte.toUInt32) &&& 0xFF).toNat 0).toBitVec =
      byteStep crc32Poly crc.toBitVec byte.toBitVec := by
  have below : ((crc ^^^ byte.toUInt32) &&& 0xFF).toNat < 256 := by
    rw [UInt32.toNat_and]
    exact Nat.lt_of_le_of_lt Nat.and_le_right (by decide)
  have index : BitVec.ofNat 32 ((crc ^^^ byte.toUInt32) &&& 0xFF).toNat =
      ((crc.toBitVec ^^^ byte.toBitVec.setWidth 32).setWidth 8).setWidth 32 := by
    have bits (x : UInt32) : BitVec.ofNat 32 x.toNat = x.toBitVec := BitVec.eq_of_toNat_eq (by simp)
    rw [bits, UInt32.toBitVec_and, UInt32.toBitVec_xor, UInt8.toBitVec_toUInt32]
    exact and_lowByte _
  rw [byteStep_eq, UInt32.toBitVec_xor, crc32Table_getD below, index, UInt32.toBitVec_shiftRight]
  rfl

theorem crc32Impl_eq (init : UInt32) (data : List UInt8) :
    (crc32Impl init data).toBitVec = remainder crc32Poly init.toBitVec (data.map UInt8.toBitVec) := by
  induction data generalizing init with
  | nil => rfl
  | cons byte data ih => exact (ih _).trans (congrArg (fun c => remainder crc32Poly c _) (crcStep_eq init byte))

theorem computeCRC32_eq (data : List UInt8) : computeCRC32 data = bitwiseCRC32 data := by
  apply UInt32.toBitVec_inj.mp
  unfold computeCRC32 bitwiseCRC32
  rw [UInt32.toBitVec_xor, crc32Impl_eq]
  rfl

/-- Going on from a checksum, part after part. -/
theorem foldl_updateCRC32 (first : List UInt8) (parts : List (List UInt8)) :
    parts.foldl updateCRC32 (computeCRC32 first) = computeCRC32 (first ++ parts.flatten) := by
  induction parts generalizing first with
  | nil => simp
  | cons part parts ih =>
    rw [List.foldl_cons, updateCRC32_computeCRC32, ih, List.flatten_cons, List.append_assoc]

/-- **The table-driven checksum is CRC-32**, taken at once or in parts. -/
theorem table_driven_crc (data : List UInt8) :
    computeCRC32 data = bitwiseCRC32 data ∧
      ∀ (first : List UInt8) (parts : List (List UInt8)), first ++ parts.flatten = data →
        parts.foldl updateCRC32 (computeCRC32 first) = computeCRC32 data := by
  refine ⟨computeCRC32_eq data, fun first parts whole => ?_⟩
  rw [← whole]
  exact foldl_updateCRC32 first parts

end OpenFS
