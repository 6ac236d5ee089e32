import OpenFS.Data.DiskStore

/-!
# Fresh disks

A disk that `Format` has laid out and `OpenExisting` has opened holds nothing yet. Two
of them are built here: a small one, and one whose bitmap has 2^32 bytes, of which
`LoadBitmap` reads none.
-/

namespace OpenFS

open ByteImage FileLog DiskManager DiskFormatter

/-- A disk as it is after `Format` and `OpenExisting`. -/
def Started (d : DiskManager) : Prop :=
  ∃ w w' diskSize walBlocks nodeId diskIndex uuid now s,
    format w diskSize walBlocks nodeId diskIndex uuid now = (.ok, w') ∧
      openExisting { world := w' } = (s, d)

/-- The layouts that the results are about. -/
structure Modest (sb : DiskSuperBlock) : Prop where
  roomy : sb.dataBlocks.toNat ≤ 8 * (sb.bitmapBlocks.toNat * physicalBlockSize)
  small : sb.dataBlocks.toNat < 2 ^ 35

/-- All bits of the blocks are saved, and loaded again. -/
def Persisted (sb : DiskSuperBlock) (live : List StoredBlock) : Prop :=
  ∀ b ∈ live, ∀ j, b.Covers sb j → j < persistedBits sb

theorem Modest.suitable {sb : DiskSuperBlock} (modest : Modest sb) (laid : Laid sb)
    (valid : validateSuperBlock sb = true) : Suitable sb := by
  have small := modest.small
  have bitmap := laid.bitmapBlocks
  have layout := laid.dataOffset
  refine ⟨laid, valid, modest.roomy, ?_⟩
  unfold blockOffset
  rw [layout]
  unfold superBlockSize physicalBlockSize
  omega

theorem placed_nil {sb : DiskSuperBlock} : Placed sb [] :=
  ⟨List.forall_mem_nil _, List.forall_mem_nil _, .nil⟩

/-- A disk that was just formatted holds nothing. -/
theorem stored_of_formatted {sb : DiskSuperBlock} {files : DiskFile → Image} (formatted : Formatted sb files) :
    Stored sb [] files :=
  ⟨formatted.header, Nat.le_of_eq formatted.size.symm, List.forall_mem_nil _, List.forall_mem_nil _,
    fun i _ => formatted.walBlank i⟩

theorem openable_of_formatted {sb : DiskSuperBlock} {files : DiskFile → Image} (laid : Laid sb)
    (valid : validateSuperBlock sb = true) (formatted : Formatted sb files) : Openable sb (files .device) := by
  have size := formatted.size
  have loaded : loadedBytes sb ≤ sb.bitmapBlocks.toNat * physicalBlockSize := Nat.mod_le _ _
  have front : superBlockSize ≤ DiskSuperBlock.bytes := by decide
  rw [Nat.add_mul] at size
  exact ⟨laid, valid, formatted.header, by omega, by omega⟩

/-- The superblock is the one that `Format` made. -/
theorem Started.superblock {w w' : World DiskFile} {diskSize walBlocks nodeId : UInt64} {diskIndex : UInt32}
    {uuid now : UInt64} (formatted : format w diskSize walBlocks nodeId diskIndex uuid now = (.ok, w')) :
    Formatted (openExisting { world := w' }).2.superblock w'.files ∧
      Laid (openExisting { world := w' }).2.superblock ∧
      validateSuperBlock (openExisting { world := w' }).2.superblock = true := by
  obtain ⟨sb, laid, blank, totalBlocks, walBlocks', rfl⟩ := format_ok formatted
  have valid := valid_newSuperBlock totalBlocks walBlocks' nodeId diskIndex uuid now
  have opened := openExisting_of_openable (d := { world := w' }) rfl (openable_of_formatted laid valid blank)
  rw [opened]
  exact ⟨blank, laid, valid⟩

/-- Adding a formatted disk opens it as it is. -/
theorem openDisk_of_format {w w' : World DiskFile} {diskSize walBlocks nodeId : UInt64} {diskIndex : UInt32}
    {uuid now : UInt64} (formatted : format w diskSize walBlocks nodeId diskIndex uuid now = (.ok, w'))
    (nodeId' : UInt64) (diskIndex' : UInt32) (uuid' now' : UInt64) :
    openDisk { world := w' } nodeId' diskIndex' uuid' now' = (.ok, (openExisting { world := w' }).2) := by
  obtain ⟨sb, laid, blank, totalBlocks, walBlocks', rfl⟩ := format_ok formatted
  have openable := openable_of_formatted laid (valid_newSuperBlock totalBlocks walBlocks' nodeId diskIndex
    uuid now) blank
  have known : isFormatted (w'.files .device) = true := by
    unfold isFormatted
    rw [readSuperBlock_of_openable openable]
    exact beq_self_eq_true diskMagic
  unfold openDisk
  rw [if_pos known, openExisting_of_openable (d := { world := w' }) rfl openable]

/-- What opening a fresh disk gives. -/
theorem Started.holds_of_suitable {d : DiskManager} (started : Started d)
    (suitable : Laid d.superblock → validateSuperBlock d.superblock = true → Suitable d.superblock) :
    Holds [] d ∧ (∀ j, BlockBitmap.getBit d.bitmap.bitmap j = false) ∧
      ∀ i, 108 ≤ i → (d.world.files .device).byte i = 0 := by
  obtain ⟨w, w', diskSize, walBlocks, nodeId, diskIndex, uuid, now, s, formatted, opened⟩ := started
  obtain ⟨blank, laid, valid⟩ := Started.superblock formatted
  rw [opened] at blank laid valid
  obtain ⟨d', opened', same, world, holds, bits⟩ := holds_of_open (d := { world := w' }) (suitable laid valid)
    placed_nil (stored_of_formatted blank) rfl (List.forall_mem_nil _)
  cases opened'.symm.trans opened
  refine ⟨holds, fun j => ?_, fun i h => by rw [world]; exact blank.blank i h⟩
  have zero := blank.blank (superBlockSize + j / 8) (Nat.le_trans (by decide) (Nat.le_add_right _ _))
  rw [bits]
  unfold deviceBit
  rw [zero]
  simp

theorem Started.holds {d : DiskManager} (started : Started d) (modest : Modest d.superblock) :
    Holds [] d ∧ (∀ j, BlockBitmap.getBit d.bitmap.bitmap j = false) ∧
      ∀ i, 108 ≤ i → (d.world.files .device).byte i = 0 :=
  started.holds_of_suitable fun laid valid => modest.suitable laid valid

/-! ## Two disks -/

/-- The files of a disk that was just formatted. -/
def freshWorld (diskSize walBlocks : UInt64) : World DiskFile :=
  (format ⟨fun _ => Image.empty, []⟩ diskSize walBlocks 0 0 0 0).2

def freshDisk (diskSize walBlocks : UInt64) : DiskManager :=
  (openExisting { world := freshWorld diskSize walBlocks }).2

section
variable {diskSize walBlocks : UInt64}

theorem format_empty (some : walBlocks ≠ 0)
    (check : ¬ diskSize.toNat / physicalBlockSize < u64 (1 + 1 + walBlocks.toNat + 1)) :
    format ⟨fun _ => Image.empty, []⟩ diskSize walBlocks 0 0 0 0 = (.ok, freshWorld diskSize walBlocks) ∧
      freshWorld diskSize walBlocks = World.performAll ⟨fun _ => Image.empty, []⟩
        (formatEffects (newSuperBlock (diskSize.toNat / physicalBlockSize) walBlocks.toNat 0 0 0 0)) := by
  have formatted : format ⟨fun _ => Image.empty, []⟩ diskSize walBlocks 0 0 0 0 =
      (.ok, World.performAll ⟨fun _ => Image.empty, []⟩
        (formatEffects (newSuperBlock (diskSize.toNat / physicalBlockSize) walBlocks.toNat 0 0 0 0))) := by
    unfold format
    rw [if_neg some]
    exact if_neg check
  have world : freshWorld diskSize walBlocks = _ := congrArg Prod.snd formatted
  exact ⟨world ▸ formatted, world⟩

theorem open_freshWorld (some : walBlocks ≠ 0)
    (check : ¬ diskSize.toNat / physicalBlockSize < u64 (1 + 1 + walBlocks.toNat + 1)) {sb : DiskSuperBlock}
    (made : sb = newSuperBlock (diskSize.toNat / physicalBlockSize) walBlocks.toNat 0 0 0 0) :
    openExisting { world := freshWorld diskSize walBlocks } = (.ok, {
      superblock := sb
      bitmap := BlockBitmap.load (((freshWorld diskSize walBlocks).files .device).bytes superBlockSize
        (loadedBytes sb)) sb.dataBlocks.toNat
      wal := (({} : WalManager).open' ((freshWorld diskSize walBlocks).files .wal) sb.walBlocks.toNat).2
      io := ⟨true, false⟩
      state := .normal
      world := freshWorld diskSize walBlocks }) := by
  subst made
  have total : diskSize.toNat / physicalBlockSize < 2 ^ 52 := by
    have := diskSize.toNat_lt
    unfold physicalBlockSize
    omega
  have laid := laid_newSuperBlock total walBlocks.toNat_lt check 0 0 0 0
  have blank := formatted_of_formatEffects laid.sized fun _ => Image.empty
  rw [← World.performAll_files ⟨fun _ => Image.empty, []⟩, ← (format_empty some check).2] at blank
  have valid := valid_newSuperBlock (diskSize.toNat / physicalBlockSize) walBlocks.toNat 0 0 0 0
  exact openExisting_of_openable (d := { world := freshWorld diskSize walBlocks }) rfl
    (openable_of_formatted laid valid blank)

theorem freshDisk_spec (some : walBlocks ≠ 0)
    (check : ¬ diskSize.toNat / physicalBlockSize < u64 (1 + 1 + walBlocks.toNat + 1)) :
    openExisting { world := freshWorld diskSize walBlocks } = (.ok, freshDisk diskSize walBlocks) ∧
      Started (freshDisk diskSize walBlocks) ∧ (freshDisk diskSize walBlocks).superblock =
        newSuperBlock (diskSize.toNat / physicalBlockSize) walBlocks.toNat 0 0 0 0 := by
  have formatted := (format_empty some check).1
  have opened := open_freshWorld some check rfl
  unfold freshDisk
  refine ⟨by rw [opened], ⟨_, _, diskSize, walBlocks, 0, 0, 0, 0, _, formatted, rfl⟩, by rw [opened]⟩

/-- The log of a fresh disk. -/
theorem freshDisk_log (some : walBlocks ≠ 0)
    (check : ¬ diskSize.toNat / physicalBlockSize < u64 (1 + 1 + walBlocks.toNat + 1)) :
    (freshDisk diskSize walBlocks).wal = { walBlocks := walBlocks.toNat, nextSeq := 1, file := ⟨true, false⟩ } ∧
      (freshDisk diskSize walBlocks).world.files .wal =
        Image.empty.write 0 (List.replicate (walBlocks.toNat * physicalBlockSize) 0) := by
  have blocks : (newSuperBlock (diskSize.toNat / physicalBlockSize) walBlocks.toNat 0 0 0 0).walBlocks.toNat =
      walBlocks.toNat := by
    show (UInt64.ofNat walBlocks.toNat).toNat = _
    rw [UInt64.ofNat_toNat]
  have log : (freshWorld diskSize walBlocks).files .wal =
      Image.empty.write 0 (List.replicate (walBlocks.toNat * physicalBlockSize) 0) := by
    rw [(format_empty some check).2, World.performAll_files, replay_formatEffects_wal, blocks]
  have pos : 0 < walBlocks.toNat := by
    rw [Nat.pos_iff_ne_zero]
    intro none
    exact some (UInt64.toNat_inj.mp none)
  have size : WalEntryHeader.bytes ≤ ((freshWorld diskSize walBlocks).files .wal).size := by
    have appended := Image.write_size_of_end Image.empty (List.replicate (walBlocks.toNat * physicalBlockSize) 0)
    rw [show Image.empty.size = 0 from rfl, List.length_replicate] at appended
    rw [log, appended]
    unfold WalEntryHeader.bytes physicalBlockSize
    omega
  have blank : WalManager.FirstBlank ((freshWorld diskSize walBlocks).files .wal) := by
    intro i _
    rw [log]
    exact Image.byte_write_zeros _ (Nat.zero_le _) i
  unfold freshDisk
  rw [open_freshWorld some check rfl]
  refine ⟨?_, log⟩
  dsimp only
  rw [blank.open_of_whole size rfl, blocks]

end

/-- Six data blocks. -/
def smallDisk : DiskManager := freshDisk 40960 2

theorem smallDisk_eq : smallDisk = freshDisk 40960 2 := rfl

/-- `2 ^ 35 - 8` data blocks. -/
def hugeDisk : DiskManager := freshDisk (UInt64.ofNat ((2 ^ 35 + 2 ^ 20 - 5) * 4096)) 2

theorem hugeDisk_eq : hugeDisk = freshDisk (UInt64.ofNat ((2 ^ 35 + 2 ^ 20 - 5) * 4096)) 2 := rfl

theorem smallDisk_superblock : smallDisk.superblock = newSuperBlock 10 2 0 0 0 0 :=
  (@freshDisk_spec 40960 2 (by decide) (by decide)).2.2

theorem smallDisk_spec : Started smallDisk ∧ Modest smallDisk.superblock ∧
    smallDisk.superblock.dataBlocks.toNat = 6 := by
  obtain ⟨-, started, -⟩ := @freshDisk_spec 40960 2 (by decide) (by decide)
  have layout : (newSuperBlock 10 2 0 0 0 0).dataBlocks.toNat = 6 ∧
      (newSuperBlock 10 2 0 0 0 0).bitmapBlocks.toNat = 1 := by decide +kernel
  refine ⟨started, ⟨?_, ?_⟩, ?_⟩ <;> rw [smallDisk_superblock, layout.1]
  · rw [layout.2]
    decide
  · decide

/-- All its bits are saved and loaded. -/
theorem smallDisk_persisted {live : List StoredBlock} (placed : Placed smallDisk.superblock live) :
    Persisted smallDisk.superblock live := by
  intro b member j covers
  have inside := placed.inside b member
  have blocks := smallDisk_spec.2.2
  have all : 6 ≤ persistedBits (newSuperBlock 10 2 0 0 0 0) := by decide +kernel
  rw [← smallDisk_superblock] at all
  exact Nat.lt_of_lt_of_le covers.2 (Nat.le_trans inside (blocks ▸ all))

/-- Of its bitmap nothing is loaded. -/
theorem hugeDisk_spec : Started hugeDisk ∧ Modest hugeDisk.superblock ∧
    hugeDisk.superblock.dataBlocks.toNat = 2 ^ 35 - 8 ∧ loadedBytes hugeDisk.superblock = 0 := by
  obtain ⟨-, started, superblock⟩ := @freshDisk_spec (UInt64.ofNat ((2 ^ 35 + 2 ^ 20 - 5) * 4096)) 2
    (by decide) (by decide +kernel)
  have total : (UInt64.ofNat ((2 ^ 35 + 2 ^ 20 - 5) * 4096)).toNat / physicalBlockSize = 2 ^ 35 + 2 ^ 20 - 5 := by
    decide +kernel
  have layout : (newSuperBlock (2 ^ 35 + 2 ^ 20 - 5) 2 0 0 0 0).dataBlocks.toNat = 2 ^ 35 - 8 ∧
      (newSuperBlock (2 ^ 35 + 2 ^ 20 - 5) 2 0 0 0 0).bitmapBlocks.toNat = 2 ^ 20 ∧
      loadedBytes (newSuperBlock (2 ^ 35 + 2 ^ 20 - 5) 2 0 0 0 0) = 0 := by decide +kernel
  have same : hugeDisk.superblock = newSuperBlock (2 ^ 35 + 2 ^ 20 - 5) 2 0 0 0 0 := by
    rw [← total]
    exact superblock
  obtain ⟨data, bitmap, loaded⟩ := layout
  rw [same]
  refine ⟨started, ⟨?_, ?_⟩, data, loaded⟩
  · rw [data, bitmap]
    decide
  · rw [data]
    decide

/-- A block of one physical block finds room on a fresh disk, and is written to its first block. -/
theorem Started.write_one {d : DiskManager} (started : Started d) (modest : Modest d.superblock)
    (some : 0 < d.superblock.dataBlocks.toNat) (blockId : UInt64) (level : BlkLevel) {data : List UInt8}
    (crc32 : UInt32) (small : data.length < 2 ^ 31)
    (one : calcPhysicalBlocks (UInt32.ofNat data.length) = 1) :
    ∃ b d', d.writeBlock blockId level data (UInt32.ofNat data.length) crc32 = (.ok b.offset, d') ∧
      b = ⟨blockId, level, data, crc32, b.offset, small⟩ ∧ b.Covers d.superblock 0 ∧
      d'.superblock = d.superblock ∧ (∀ j, BlockBitmap.getBit d'.bitmap.bitmap j = decide (j = 0)) ∧
      Holds [b] d' := by
  obtain ⟨holds, blank, -⟩ := started.holds modest
  have fits : 1 ≤ d.bitmap.numBlocks := by
    rw [holds.ready.numBlocks]
    exact some
  have room := BlockBitmap.allocate_of_blank (b := d.bitmap)
    (by rw [one]; decide : 0 < calcPhysicalBlocks (UInt32.ofNat data.length)) (by rw [one]; exact fits) blank
  obtain ⟨b, log, d', eq, first, result, -, -, superblock, bitmap, -, holds'⟩ :=
    holds.write blockId level crc32 small room
  refine ⟨b, d', result, ?_, ?_, superblock, fun j => ?_, holds'⟩
  · rw [eq]
  · have pos := b.count_pos
    unfold StoredBlock.Covers
    omega
  · rw [bitmap, holds.getBit_allocate room, blank, Bool.false_or, decide_eq_decide]
    omega

/-- A block without data. -/
theorem Started.write {d : DiskManager} (started : Started d) (modest : Modest d.superblock)
    (some : 0 < d.superblock.dataBlocks.toNat) (blockId : UInt64) :
    ∃ b d', d.writeBlock blockId .l0 [] 0 0 = (.ok b.offset, d') ∧
      b = ⟨blockId, .l0, [], 0, b.offset, by decide⟩ ∧ b.Covers d.superblock 0 ∧ d'.superblock = d.superblock ∧
      (∀ j, BlockBitmap.getBit d'.bitmap.bitmap j = decide (j = 0)) ∧ Holds [b] d' :=
  started.write_one modest some blockId .l0 0 (by decide) (by decide)

/-- Two bytes are written to the small disk. -/
theorem smallDisk_write : ∃ b d', smallDisk.writeBlock 5 .l0 [7, 8] 2 9 = (.ok b.offset, d') ∧
    b = ⟨5, .l0, [7, 8], 9, b.offset, by decide⟩ ∧ d'.superblock = smallDisk.superblock ∧
    (∀ j, BlockBitmap.getBit d'.bitmap.bitmap j = decide (j = 0)) ∧ Holds [b] d' := by
  obtain ⟨started, modest, blocks⟩ := smallDisk_spec
  obtain ⟨b, d', result, eq, -, superblock, bits, holds⟩ :=
    started.write_one modest (by rw [blocks]; decide) 5 .l0 9 (by decide : ([7, 8] : List UInt8).length < 2 ^ 31)
      (by decide)
  exact ⟨b, d', result, eq, superblock, bits, holds⟩

/-- Where nothing of the bitmap is loaded, opening gives an empty one. -/
theorem lost_of_open {sb : DiskSuperBlock} {live : List StoredBlock} {d : DiskManager} (suitable : Suitable sb)
    (stored : Stored sb live d.world.files) (closed : d.io.isOpen = false) (none : loadedBytes sb = 0) :
    ∃ d', d.openExisting = (.ok, d') ∧ d'.superblock = sb ∧ Holds [] d' ∧
      ∀ j, BlockBitmap.getBit d'.bitmap.bitmap j = false := by
  obtain ⟨d', opened, superblock, -, holds, bits⟩ := holds_of_open suitable placed_nil
    (stored.sublist (List.nil_sublist _)) closed (List.forall_mem_nil _)
  refine ⟨d', opened, superblock, holds, fun j => ?_⟩
  rw [bits, none]
  simp

end OpenFS
