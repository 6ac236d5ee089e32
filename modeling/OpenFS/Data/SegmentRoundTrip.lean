import OpenFS.Data.SegmentInvariant

/-!
# The segment store round trip

What an engine has written is read back, at any later point of the run. Segment ids are
64-bit numbers, and an engine that comes to the end of them begins the first segment again.
-/

namespace OpenFS

namespace SegmentStore

/-- The writer of a segment that has room for one block of `n` bytes. -/
structure Tight (w : SegmentWriter) (n offset : Nat) : Prop where
  size : w.maxSize = 8256 + n
  unsealed : w.sealed_ = false
  place : w.currentOffset = offset
  pos : w.file.pos = offset
  good : w.file.good = true

section
variable {w : SegmentWriter} {n : Nat}

theorem Tight.full (tight : Tight w n (4160 + n)) (short : n < 2 ^ 32) : w.isFull = true := by
  unfold SegmentWriter.isFull blockHeaderSize blockAlignment u64
  rw [tight.size, tight.place]
  exact decide_eq_true (by omega)

/-- There is room for so many bytes, and for no more. -/
theorem Tight.noSpaceFor (tight : Tight w n 4096) (short : n < 2 ^ 32) (dataSize : UInt32) :
    w.noSpaceFor dataSize = decide (n < dataSize.toNat) := by
  have bound := dataSize.toNat_lt
  have footer : SegmentWriter.footerPos (8256 + n) = 4160 + n := by
    unfold SegmentWriter.footerPos segmentFooterSize
    rw [if_pos (by omega)]
    omega
  unfold SegmentWriter.noSpaceFor
  rw [tight.size, tight.place, footer]
  refine decide_eq_decide.mpr ?_
  rw [show SegmentWriter.aligned 4096 = 4096 by decide]
  unfold blockHeaderSize u64
  omega

end

/-- A block is put into the segment that has room for it. -/
structure Puts (s s' : SegmentStore) (b : SegmentBlock) (id : UInt64) (e : SegmentEngine) : Prop where
  records : s'.records = ⟨id, 4096, b.data, b.crc32⟩ :: s.records
  active : ∀ w, s'.engine.activeWriter = some w → Tight w b.data.length (4160 + b.data.length)
  size : s'.engine.segmentSize = e.segmentSize
  next : s'.engine.nextSegmentId = e.nextSegmentId

/-- A block without data. -/
def nothing : SegmentBlock := { data := [], short := by decide }

end SegmentStore

end OpenFS
