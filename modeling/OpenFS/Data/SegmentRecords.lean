import OpenFS.Data.SegmentEngine

/-!
# Records in segment files

A record is a place that `WriteBlock` has returned, with what was written there. While a
segment is written its file is appended to, and a record that is there stays: the writer
only writes behind it. Segment files of different ids have different names.
-/

namespace OpenFS

open ByteImage OutFile

/-- A block that is handed in. -/
structure SegmentBlock where
  blockId : UInt64 := 0
  level : BlkLevel := .l0
  data : List UInt8
  crc32 : UInt32 := 0
  /-- The size is a 32-bit number. -/
  short : data.length < 2 ^ 32

def SegmentBlock.dataSize (b : SegmentBlock) : UInt32 := UInt32.ofNat b.data.length

/-- A place that was returned for a block. -/
structure Record where
  segmentId : UInt64
  offset : Nat
  data : List UInt8
  crc32 : UInt32
  deriving DecidableEq, Repr

namespace Record

/-- Where the record ends. -/
def stop (a : Record) : Nat := a.offset + blockHeaderSize + a.data.length

/-- No byte belongs to both. -/
def Apart (a b : Record) : Prop := a.segmentId ≠ b.segmentId ∨ a.stop ≤ b.offset ∨ b.stop ≤ a.offset

/-- The record's header and data are in its segment file. -/
def In (a : Record) (dir : Str) (files : Files Str) : Prop :=
  a.data.length < 2 ^ 32 ∧ a.offset < 2 ^ 63 ∧ ∃ blockId level,
    Has files (SegmentReader.segmentPath dir a.segmentId) a.offset
      (SegmentWriter.blockHdr blockId level (UInt32.ofNat a.data.length) a.crc32 ++ a.data)

end Record

/-! ## File names -/

namespace SegmentReader

/-- The name tells the id. -/
theorem segmentPath_inj {dir : Str} {i j : UInt64} (same : segmentPath dir i = segmentPath dir j) : i = j := by
  unfold segmentPath at same
  simp only [List.append_cancel_left_eq, List.append_cancel_right_eq] at same
  have value := congrArg (fun cs => Nat.ofDigitChars 10 cs 0) same
  simp only [List.leftpad, Nat.ofDigitChars_append, Nat.ofDigitChars_replicate_zero, Nat.mul_zero,
    Nat.ofDigitChars_ten_toDigits] at value
  exact UInt64.toNat_inj.mp value

/-! ## Reading a record -/

theorem length_blockHdr (blockId : UInt64) (level : BlkLevel) (dataSize crc32 : UInt32) :
    (SegmentWriter.blockHdr blockId level dataSize crc32).length = blockHeaderSize := by
  simp [SegmentWriter.blockHdr, blockHeaderSize]

end SegmentReader

/-! ## Writing a segment -/

section
variable {dir : Str} {files : Files Str} {records : List Record} {w : SegmentWriter}

/-- A write behind the records of its segment leaves them all. -/
theorem Record.In.write {a : Record} {f : OutFile Str} {bs : List UInt8} {id : UInt64} (there : a.In dir files)
    (path : f.path = SegmentReader.segmentPath dir id)
    (past : f.good = true → a.segmentId = id → a.stop ≤ f.pos) : a.In dir (f.write files bs).2 := by
  obtain ⟨short, low, blockId, level, has⟩ := there
  refine ⟨short, low, blockId, level, has.write fun good => ?_⟩
  by_cases own : a.segmentId = id
  · right
    have := past good own
    rw [List.length_append, SegmentReader.length_blockHdr, ← Nat.add_assoc]
    exact this
  · left
    rw [path]
    exact fun same => own (SegmentReader.segmentPath_inj same)

/-- The records are in their files, and the writer is behind those of its segment. -/
structure Writing (dir : Str) (files : Files Str) (records : List Record) (w : SegmentWriter) : Prop where
  stored : ∀ a ∈ records, a.In dir files
  apart : records.Pairwise Record.Apart
  path : w.file.path = SegmentReader.segmentPath dir w.segmentId
  past : ∀ a ∈ records, a.segmentId = w.segmentId → a.stop ≤ w.currentOffset
  position : w.file.good = true →
    w.file.pos = w.currentOffset ∧ segmentHeaderSize ≤ w.currentOffset ∧ w.currentOffset < 2 ^ 63

namespace SegmentWriter

theorem length_headerBuf (segmentId : UInt64) : (headerBuf segmentId).length = segmentHeaderSize := by
  unfold headerBuf
  rw [List.length_append, List.length_append, length_toLE, List.length_replicate]
  rfl

/-- A new writer for an id without records. -/
theorem create_writing (stored : ∀ a ∈ records, a.In dir files) (apart : records.Pairwise Record.Apart)
    {id : UInt64}
    (unused : ∀ a ∈ records, a.segmentId ≠ id) (maxSize : Nat) :
    Writing dir (create files id (SegmentReader.segmentPath dir id) maxSize).2 records
        (create files id (SegmentReader.segmentPath dir id) maxSize).1 ∧
      (create files id (SegmentReader.segmentPath dir id) maxSize).1.segmentId = id ∧
      (create files id (SegmentReader.segmentPath dir id) maxSize).1.maxSize = maxSize := by
  have other : ∀ a ∈ records, SegmentReader.segmentPath dir a.segmentId ≠ SegmentReader.segmentPath dir id :=
    fun a member same => unused a member (SegmentReader.segmentPath_inj same)
  have opened : ∀ a ∈ records, a.In dir (openTrunc files (SegmentReader.segmentPath dir id)).2 := by
    intro a member
    obtain ⟨short, low, blockId, level, has⟩ := stored a member
    exact ⟨short, low, blockId, level, has.openTrunc (other a member)⟩
  unfold create writeHeader
  dsimp only
  generalize opening : openTrunc files (SegmentReader.segmentPath dir id) = o at opened
  obtain ⟨f, files₁⟩ := o
  obtain ⟨rfl, rfl⟩ := Prod.mk.inj opening
  dsimp only at opened ⊢
  have kept : ∀ a ∈ records, a.In dir
      (({ path := SegmentReader.segmentPath dir id } : OutFile Str).write
        (Function.update files (SegmentReader.segmentPath dir id) (some Image.empty)) (headerBuf id)).2 :=
          fun a member =>
    (opened a member).write rfl fun _ own => absurd own (unused a member)
  have low : 0 + (headerBuf id).length < 2 ^ 63 := by
    rw [length_headerBuf]
    decide
  rw [write_eq rfl low] at kept ⊢
  rw [if_neg (by simp)]
  refine ⟨⟨kept, apart, rfl, fun a member own => absurd own (unused a member), fun _ =>
    ⟨?_, Nat.le_refl _, ?_⟩⟩, rfl, rfl⟩
  · exact (Nat.zero_add _).trans (length_headerBuf id)
  · show segmentHeaderSize < 2 ^ 63
    decide

theorem le_aligned {n : Nat} (low : n < 2 ^ 63) : n ≤ aligned n ∧ aligned n % blockAlignment = 0 := by
  unfold aligned blockAlignment
  have plain : u64 (n + 4096 - 1) = n + 4096 - 1 := Nat.mod_eq_of_lt (by omega)
  rw [plain]
  omega

/-- After the zeros the writer is at the aligned offset, if the stream is still good. -/
theorem pad_spec (writing : Writing dir files records w) :
    Writing dir (w.pad files).2 records (w.pad files).1 ∧ (w.pad files).1.segmentId = w.segmentId ∧
      (w.pad files).1.maxSize = w.maxSize ∧
      ((w.pad files).1.file.good = true →
        (w.pad files).1.currentOffset = aligned w.currentOffset ∧ w.currentOffset ≤ aligned w.currentOffset ∧
          aligned w.currentOffset % blockAlignment = 0) := by
  obtain ⟨stored, apart, path, past, position⟩ := writing
  unfold pad
  by_cases off : w.currentOffset < aligned w.currentOffset
  · rw [if_pos off]
    dsimp only
    generalize zeros : List.replicate (aligned w.currentOffset - w.currentOffset) (0 : UInt8) = bs
    have kept : ∀ a ∈ records, a.In dir (w.file.write files bs).2 := fun a member =>
      (stored a member).write path fun good own => by
        rw [(position good).1]
        exact past a member own
    by_cases good : (w.file.write files bs).1.good = true
    · rw [if_neg (by simpa using good)]
      obtain ⟨before, room, moved⟩ := write_good good
      obtain ⟨pos, header, low⟩ := position before
      obtain ⟨up, multiple⟩ := le_aligned low
      have length : bs.length = aligned w.currentOffset - w.currentOffset := by
        rw [← zeros]
        exact List.length_replicate
      refine ⟨⟨kept, apart, write_path.trans path, ?_, ?_⟩, rfl, rfl, fun _ => ⟨rfl, up, multiple⟩⟩
      · exact fun a member own => Nat.le_trans (past a member own) up
      · intro _
        dsimp only
        omega
    · rw [if_pos good]
      exact ⟨⟨kept, apart, write_path.trans path, past, fun after => absurd after good⟩, rfl, rfl,
        fun after => absurd after good⟩
  · rw [if_neg off]
    refine ⟨⟨stored, apart, path, past, position⟩, rfl, rfl, fun good => ?_⟩
    obtain ⟨up, multiple⟩ := le_aligned (position good).2.2
    exact ⟨Nat.le_antisymm up (Nat.le_of_not_lt off), up, multiple⟩

/-- The record that a call of `writeBlock` leaves. -/
def added (w : SegmentWriter) (b : SegmentBlock) (records : List Record) : Except Status Nat → List Record
  | .ok offset => ⟨w.segmentId, offset, b.data, b.crc32⟩ :: records
  | .error _ => records

/-- A failed or finished write at the position of the writer leaves the records. -/
theorem write_stored (writing : Writing dir files records w) (bs : List UInt8) :
    ∀ a ∈ records, a.In dir (w.file.write files bs).2 := fun a member =>
  (writing.stored a member).write writing.path fun good own => by
    rw [(writing.position good).1]
    exact writing.past a member own

/-- Once the stream has failed. -/
theorem writing_of_bad {f : OutFile Str} (writing : Writing dir files records w) {files' : Files Str}
    (stored : ∀ a ∈ records, a.In dir files') (path : f.path = w.file.path) (bad : ¬ f.good = true) :
    Writing dir files' records { w with file := f } :=
  ⟨stored, writing.apart, path.trans writing.path, writing.past, fun good => absurd good bad⟩

/-- A record at the position of the writer is behind all others of its segment. -/
theorem writing_record (writing : Writing dir files records w) {a : Record} {w' : SegmentWriter}
    {files' : Files Str} (new : a.In dir files') (kept : ∀ b ∈ records, b.In dir files')
    (sameId : w'.segmentId = w.segmentId) (path : w'.file.path = w.file.path) (own : a.segmentId = w.segmentId)
    (offset : a.offset = w.currentOffset) (stop : w'.currentOffset = a.stop)
    (position : w'.file.good = true →
      w'.file.pos = w'.currentOffset ∧ segmentHeaderSize ≤ w'.currentOffset ∧ w'.currentOffset < 2 ^ 63) :
    Writing dir files' (a :: records) w' := by
  refine ⟨List.forall_mem_cons.mpr ⟨new, kept⟩, List.pairwise_cons.mpr ⟨fun b member => ?_, writing.apart⟩, ?_,
    List.forall_mem_cons.mpr ⟨fun _ => stop ▸ Nat.le_refl _, fun b member same => ?_⟩, position⟩
  · by_cases same : b.segmentId = w.segmentId
    · exact .inr (.inr (offset ▸ writing.past b member same))
    · exact .inl fun equal => same (equal.symm.trans own)
  · rw [path, sameId]
    exact writing.path
  · have before := writing.past b member (same.trans sameId)
    have longer : a.offset ≤ a.stop := Nat.le_trans (Nat.le_add_right _ _) (Nat.le_add_right _ _)
    rw [offset] at longer
    exact stop ▸ Nat.le_trans before longer

/-- The record is put behind all others of its segment, aligned and before the footer. -/
theorem writeBlock_spec (writing : Writing dir files records w) (b : SegmentBlock)
    {r : Except Status Nat} {w' : SegmentWriter} {files' : Files Str}
    (wrote : w.writeBlock files b.blockId b.level b.data b.dataSize b.crc32 = (r, w', files')) :
    Writing dir files' (added w b records r) w' ∧ w'.segmentId = w.segmentId ∧ w'.maxSize = w.maxSize ∧
      ∀ offset, r = .ok offset → offset % blockAlignment = 0 ∧ segmentHeaderSize ≤ offset ∧
        u64 (offset + blockHeaderSize + b.data.length) ≤ footerPos w.maxSize ∧ offset < 2 ^ 63 := by
  have size : b.dataSize.toNat = b.data.length := UInt32.toNat_ofNat_of_lt' b.short
  unfold writeBlock at wrote
  split at wrote
  · cases wrote
    exact ⟨writing, rfl, rfl, fun _ ok => by cases ok⟩
  split at wrote
  · cases wrote
    exact ⟨writing, rfl, rfl, fun _ ok => by cases ok⟩
  next fits =>
  obtain ⟨padded, sameId, sameSize, there⟩ := pad_spec writing
  generalize w.pad files = p at padded sameId sameSize there wrote
  obtain ⟨w₁, files₁⟩ := p
  dsimp only at padded sameId sameSize there wrote
  have kept := write_stored padded (blockHdr b.blockId b.level b.dataSize b.crc32)
  by_cases good : (w₁.file.write files₁ (blockHdr b.blockId b.level b.dataSize b.crc32)).1.good = true
  · rw [if_neg (by simpa using good)] at wrote
    obtain ⟨before, room, moved⟩ := write_good good
    obtain ⟨pos, header, low⟩ := padded.position before
    obtain ⟨at_aligned, up, multiple⟩ := there before
    have front := has_write good (by simp [blockHdr])
    have path : (w₁.file.write files₁ (blockHdr b.blockId b.level b.dataSize b.crc32)).1.path =
      w₁.file.path := write_path
    generalize w₁.file.write files₁ (blockHdr b.blockId b.level b.dataSize b.crc32) =
      o at kept good moved front path wrote
    obtain ⟨f, files₂⟩ := o
    dsimp only at kept good moved front path wrote
    rw [SegmentReader.length_blockHdr, pos] at moved room
    rw [size, List.take_length] at wrote
    have kept' : ∀ a ∈ records, a.In dir (f.write files₂ b.data).2 := fun a member =>
      (kept a member).write (path.trans padded.path) fun _ own => by
        have := padded.past a member own
        omega
    by_cases good' : (f.write files₂ b.data).1.good = true
    · rw [if_neg (by simpa using good')] at wrote
      obtain ⟨-, room', moved'⟩ := write_good good'
      have whole : Has (f.write files₂ b.data).2 f.path w₁.currentOffset
          (blockHdr b.blockId b.level b.dataSize b.crc32 ++ b.data) := by
        rw [← path, pos] at front
        exact front.write_on (by rw [SegmentReader.length_blockHdr, moved]) good'
      cases wrote
      have new : Record.In ⟨w.segmentId, w₁.currentOffset, b.data, b.crc32⟩ dir (f.write files₂ b.data).2 := by
        refine ⟨b.short, low, b.blockId, b.level, ?_⟩
        show Has _ (SegmentReader.segmentPath dir w.segmentId) _ _
        rw [← sameId, ← padded.path, ← path]
        exact whole
      refine ⟨writing_record padded new kept' rfl (write_path.trans path) sameId.symm rfl rfl ?_, sameId,
        sameSize, ?_⟩
      · intro _
        dsimp only
        omega
      · rintro offset ⟨⟩
        unfold noSpaceFor at fits
        rw [decide_eq_true_eq, Nat.not_lt, size, ← at_aligned] at fits
        rw [← at_aligned] at multiple
        exact ⟨multiple, header, fits, low⟩
    · rw [if_pos good'] at wrote
      cases wrote
      exact ⟨writing_of_bad padded kept' (write_path.trans path) good', sameId, sameSize, fun _ ok => by cases ok⟩
  · rw [if_pos good] at wrote
    cases wrote
    exact ⟨writing_of_bad padded kept write_path good, sameId, sameSize, fun _ ok => by cases ok⟩

/-- The footer goes behind the data. -/
theorem seekFooter_spec (writing : Writing dir files records w) :
    w.seekFooter.path = w.file.path ∧ (w.seekFooter.good = true → w.currentOffset ≤ w.seekFooter.pos) := by
  unfold seekFooter
  generalize footerPos w.maxSize = n
  by_cases before : w.currentOffset < n
  · rw [if_pos before]
    refine ⟨seekp_path, fun good => ?_⟩
    rw [(seekp_good good).2]
    exact Nat.le_of_lt before
  · rw [if_neg before]
    exact ⟨rfl, fun good => Nat.le_of_eq (writing.position good).1.symm⟩

/-- Sealing leaves the records. -/
theorem seal_stored (writing : Writing dir files records w) : ∀ a ∈ records, a.In dir (w.seal_ files).2.2 := by
  obtain ⟨path, behind⟩ := seekFooter_spec writing
  have kept : ∀ a ∈ records, a.In dir (w.seekFooter.write files (footerBuf w.segmentId w.currentOffset)).2 :=
    fun a member => (writing.stored a member).write (path.trans writing.path) fun good own =>
      Nat.le_trans (writing.past a member own) (behind good)
  unfold seal_
  generalize w.seekFooter.write files (footerBuf w.segmentId w.currentOffset) = o at kept
  obtain ⟨f, files'⟩ := o
  dsimp only
  split
  · exact writing.stored
  · split
    · exact kept
    · exact kept

end SegmentWriter

end

end OpenFS
