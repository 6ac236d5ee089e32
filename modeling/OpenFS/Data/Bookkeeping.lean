import OpenFS.Data.FreshDisk

/-!
# Bookkeeping of space

The physical blocks that a disk has given away, as spans: the first block and how
many. `Books` says that the bitmap marks exactly these. Writing a block adds a span
and deleting it takes it out again, whatever was written to the device.
-/

namespace OpenFS

open ByteImage FileLog DiskManager DiskFormatter

/-- The blocks of a span. -/
def InSpan (span : Nat × Nat) (j : Nat) : Prop := span.1 ≤ j ∧ j < span.1 + span.2

def SpansApart (s t : Nat × Nat) : Prop := ∀ j, ¬ (InSpan s j ∧ InSpan t j)

/-- A disk that is ready and has given away exactly the blocks of the spans. -/
structure Books (spans : List (Nat × Nat)) (d : DiskManager) : Prop where
  ready : d.Ready
  long : d.superblock.dataBlocks.toNat ≤ 8 * d.bitmap.bitmap.length
  inside : ∀ s ∈ spans, s.1 + s.2 ≤ d.superblock.dataBlocks.toNat
  apart : spans.Pairwise SpansApart
  bits : ∀ j, BlockBitmap.getBit d.bitmap.bitmap j = true ↔ ∃ s ∈ spans, InSpan s j

theorem SpansApart.symm {s t : Nat × Nat} (apart : SpansApart s t) : SpansApart t s :=
  fun j both => apart j both.symm

section
variable {spans rest : List (Nat × Nat)} {d : DiskManager}

/-- A fresh disk has given nothing away. -/
theorem books_nil (holds : Holds [] d) (blank : ∀ j, BlockBitmap.getBit d.bitmap.bitmap j = false) :
    Books [] d := by
  refine ⟨holds.ready, ?_, List.forall_mem_nil _, .nil, fun j => ?_⟩
  · rw [holds.length]
    exact dataBlocks_le holds.suitable.laid
  · rw [blank]
    simp

theorem Books.perm (books : Books spans d) (same : spans.Perm rest) : Books rest d :=
  ⟨books.ready, books.long, fun s member => books.inside s (same.mem_iff.mpr member),
    books.apart.perm same fun h => h.symm, fun j => (books.bits j).trans
      ⟨fun ⟨s, member, covers⟩ => ⟨s, same.mem_iff.mp member, covers⟩,
        fun ⟨s, member, covers⟩ => ⟨s, same.mem_iff.mpr member, covers⟩⟩⟩

/-- The first slot of the log stays blank through the effects of a write. -/
theorem firstBlank_of_write {w : World DiskFile} (blank : WalManager.FirstBlank (w.files .wal))
    {effects : List (Effect DiskFile)}
    (each : ∀ e ∈ effects, WalManager.BehindFirst .wal e ∨ e.file = .device) :
    WalManager.FirstBlank ((w.performAll effects).files .wal) := by
  induction effects generalizing w with
  | nil => exact blank
  | cons e effects ih =>
    rw [World.performAll_cons]
    refine ih ?_ fun e' member => each e' (List.mem_cons_of_mem _ member)
    rcases each e List.mem_cons_self with behind | device
    · have kept : ∀ e' ∈ [e], WalManager.BehindFirst DiskFile.wal e' := List.forall_mem_singleton.mpr behind
      exact blank.performAll kept
    · rw [World.perform_files_of_other w (by rw [device]; nofun)]
      exact blank

/-- Writing a block adds its span. -/
theorem Books.write (books : Books spans d) {dataSize : UInt32} {start : Nat} {bitmap : BlockBitmap}
    (room : d.bitmap.allocate (calcPhysicalBlocks dataSize) = some (start, bitmap)) (blockId : UInt64)
    (level : BlkLevel) (data : List UInt8) (crc32 : UInt32) :
    ∃ d', d.writeBlock blockId level data dataSize crc32 = (.ok (blockOffset d.superblock start), d') ∧
      d'.superblock = d.superblock ∧ Books ((start, calcPhysicalBlocks dataSize) :: spans) d' := by
  obtain ⟨pos, inside, isFree, rfl⟩ := BlockBitmap.allocate_eq_some room
  obtain ⟨wal, intent, commit, numbered, intends, commits, result⟩ :=
    writeBlock_of_room books.ready room blockId level data crc32
  have long := books.long
  rw [books.ready.numBlocks] at inside
  have bits := fun j => BlockBitmap.getBit_setRange (Nat.le_trans inside long) j
  refine ⟨_, result, rfl, ⟨?_, ?_, ?_, ?_, ?_⟩⟩
  · refine ⟨books.ready.normal, books.ready.good, books.ready.laid, books.ready.reach,
      books.ready.numBlocks, numbered,
      firstBlank_of_write books.ready.blank fun e member => ?_⟩
    simp only [List.mem_append, List.mem_singleton] at member
    rcases member with ((intend | rfl) | commit) | rfl
    · exact .inl (intends e intend)
    · exact .inr rfl
    · exact .inl (commits e commit)
    · exact .inr rfl
  · show _ ≤ 8 * (BlockBitmap.setRange _ _ _).length
    rw [BlockBitmap.length_setRange]
    exact long
  · exact List.forall_mem_cons.mpr ⟨inside, books.inside⟩
  · refine List.pairwise_cons.mpr ⟨fun s member j => ?_, books.apart⟩
    rintro ⟨⟨low, high⟩, covers⟩
    have set := (books.bits j).mpr ⟨s, member, covers⟩
    rw [isFree j low high] at set
    cases set
  · intro j
    show BlockBitmap.getBit (BlockBitmap.setRange _ _ _) j = true ↔ _
    rw [bits, Bool.or_eq_true, decide_eq_true_eq, books.bits j]
    simp only [List.mem_cons, exists_eq_or_imp]
    exact Or.comm

/-- A full disk keeps its books. -/
theorem Books.write_full (books : Books spans d) {dataSize : UInt32}
    (full : d.bitmap.allocate (calcPhysicalBlocks dataSize) = none) (blockId : UInt64) (level : BlkLevel)
    (data : List UInt8) (crc32 : UInt32) :
    d.writeBlock blockId level data dataSize crc32 = (.error .noSpace, d) :=
  writeBlock_of_full books.ready.normal full blockId level data crc32

/-- Deleting a block takes its span out. -/
theorem Books.delete {span : Nat × Nat} (books : Books (span :: rest) d) {dataSize : UInt32}
    (size : calcPhysicalBlocks dataSize = span.2) :
    ∃ d', d.deleteBlock (blockOffset d.superblock span.1) dataSize = (.ok, d') ∧ d'.superblock = d.superblock ∧
      Books rest d' := by
  have result := deleteBlock_of_ready books.ready (blockOffset d.superblock span.1) dataSize
  have inside := books.inside span List.mem_cons_self
  have reach := books.ready.reach
  have blocks := books.ready.laid.blocks
  have order : blockOffset d.superblock span.1 ≤ blockOffset d.superblock d.superblock.dataBlocks.toNat :=
    blockOffset_mono (Nat.le_trans (Nat.le_add_right _ _) inside)
  rw [startBlock_blockOffset (Nat.le_trans order reach), size] at result
  obtain ⟨others, apart⟩ := List.pairwise_cons.mp books.apart
  refine ⟨_, result, rfl, ⟨?_, ?_, fun s member => books.inside s (List.mem_cons_of_mem _ member), apart, ?_⟩⟩
  · exact ⟨books.ready.normal, books.ready.good, books.ready.laid, books.ready.reach, books.ready.numBlocks,
      books.ready.numbered, firstBlank_of_write books.ready.blank (List.forall_mem_singleton.mpr (.inr rfl))⟩
  · show _ ≤ 8 * (BlockBitmap.clearRange _ _ _ _).length
    rw [BlockBitmap.length_clearRange]
    exact books.long
  · intro j
    show BlockBitmap.getBit (BlockBitmap.clearRange _ _ _ _) j = true ↔ _
    rw [BlockBitmap.getBit_clearRange (by omega), books.ready.numBlocks, Bool.and_eq_true, books.bits j,
      Bool.not_eq_true', decide_eq_false_iff_not]
    constructor
    · rintro ⟨⟨s, member, covers⟩, outside⟩
      rcases List.mem_cons.mp member with rfl | other
      · unfold InSpan at covers
        omega
      · exact ⟨s, other, covers⟩
    · rintro ⟨s, member, covers⟩
      refine ⟨⟨s, List.mem_cons_of_mem _ member, covers⟩, fun both => ?_⟩
      exact others s member j ⟨⟨both.1, both.2.1⟩, covers⟩

end

end OpenFS
