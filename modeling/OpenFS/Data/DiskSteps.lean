import OpenFS.Data.DiskManager
import OpenFS.Data.WalInvariant

/-!
# What the disk manager does to its files

Each operation of a disk that is ready is a list of effects on the two files, next
to the change of the bitmap and of the log's state. Where a block goes, which
bytes are written and in which order is read off here.
-/

namespace OpenFS.DiskManager

open ByteImage FileLog DiskFormatter WalManager

/-- The device offset of a data block. -/
def blockOffset (sb : DiskSuperBlock) (start : Nat) : Nat := sb.dataOffset.toNat + start * physicalBlockSize

/-- An open disk on a layout of `Format`, all of whose data blocks can be sought, and
whose log's first slot is blank. -/
structure Ready (d : DiskManager) : Prop where
  normal : d.state = .normal
  good : d.io.good = true
  laid : Laid d.superblock
  reach : blockOffset d.superblock d.superblock.dataBlocks.toNat ≤ 2 ^ 63
  numBlocks : d.bitmap.numBlocks = d.superblock.dataBlocks.toNat
  numbered : d.wal.Numbered
  blank : FirstBlank (d.world.files .wal)

/-! ## The layout -/

theorem bitmapOffset_lt {sb : DiskSuperBlock} (laid : Laid sb) : sb.bitmapOffset.toNat < 2 ^ 63 := by
  rw [laid.bitmapOffset]
  decide

theorem blockOffset_lt {sb : DiskSuperBlock} {start blocks : Nat} (reach : blockOffset sb blocks ≤ 2 ^ 63)
    (inside : start < blocks) : blockOffset sb start < 2 ^ 63 := by
  unfold blockOffset physicalBlockSize at *
  omega

theorem startBlock_blockOffset {sb : DiskSuperBlock} {start : Nat} (reach : blockOffset sb start ≤ 2 ^ 63) :
    startBlock sb (blockOffset sb start) = start := by
  have exact : (blockOffset sb start + 2 ^ 64 - sb.dataOffset.toNat) % 2 ^ 64 = start * physicalBlockSize := by
    unfold blockOffset physicalBlockSize at *
    omega
  unfold startBlock
  rw [show u64 (blockOffset sb start + 2 ^ 64 - sb.dataOffset.toNat) = start * physicalBlockSize from exact]
  exact Nat.mul_div_cancel _ (by decide)

/-! ## Reading and writing -/

theorem readAt_of_good {d : DiskManager} (good : d.io.good = true) {offset size : Nat} (seek : offset < 2 ^ 63)
    (inside : size = 0 ∨ offset + size ≤ (d.world.files .device).size) :
    d.readAt offset size = (.ok ((d.world.files .device).bytes offset size), d) := by
  unfold readAt
  rw [BlockIOEngine.readAt_of_good good seek inside]

theorem writeAt_of_good {d : DiskManager} (good : d.io.good = true) {offset : Nat} (seek : offset < 2 ^ 63)
    (data : List UInt8) :
    d.writeAt offset data = (.ok, { d with world := d.world.perform (.write .device offset data) }) := by
  unfold writeAt
  rw [BlockIOEngine.writeAt_of_good d.world .device data good seek]

/-- A write that cannot be served changes only the stream. -/
theorem writeAt_of_bad {d : DiskManager} {offset : Nat} (bad : ¬ (d.io.good = true ∧ offset < 2 ^ 63))
    (data : List UInt8) (access : Access := .whole) :
    ∃ io, d.writeAt offset data access = (.ioError, { d with io := io }) := by
  unfold writeAt
  by_cases isOpen : d.io.isOpen = true
  · rw [BlockIOEngine.writeAt_of_bad d.world .device data access isOpen bad]
    exact ⟨_, rfl⟩
  · unfold BlockIOEngine.writeAt
    rw [if_pos isOpen]
    exact ⟨_, rfl⟩

/-- A write, whatever the device file makes of it. -/
theorem writeAt_of_access {d : DiskManager} (good : d.io.good = true) {offset : Nat} (seek : offset < 2 ^ 63)
    (data : List UInt8) (access : Access) :
    ∃ s io, d.writeAt offset data access =
        (s, { d with io := io, world := d.world.perform (.write .device offset (access.reached data)) }) ∧
      (s = .ok ∧ access.Taken ∨ s = .ioError ∧ ¬ access.Taken) := by
  obtain ⟨s, io, result, outcome, -⟩ := BlockIOEngine.writeAt_of_access d.world .device data access good seek
  unfold writeAt
  rw [result]
  exact ⟨s, io, rfl, outcome⟩

theorem saveBitmap_of_good {d : DiskManager} (good : d.io.good = true) (laid : Laid d.superblock) :
    d.saveBitmap = (.ok, { d with
      world := d.world.perform (.write .device superBlockSize (savedBytes d.bitmap)) }) := by
  unfold saveBitmap
  rw [writeAt_of_good good (bitmapOffset_lt laid), laid.bitmapOffset]

/-- A write buffer begins with the 32 bytes of the header and the data: the data covers
the last 8 of the 40 header bytes. -/
theorem take_writeBuf {hdr : DiskBlockHeader} {physBlocks : Nat} {data : List UInt8}
    (fits : diskBlockHeaderSize + data.length ≤ u32 (physBlocks * physicalBlockSize)) :
    (writeBuf hdr physBlocks data).take (diskBlockHeaderSize + data.length) = hdr.used ++ data := by
  unfold writeBuf
  dsimp only
  generalize u32 (physBlocks * physicalBlockSize) = size at fits ⊢
  have apart : 0 + diskBlockHeaderSize ≤ diskBlockHeaderSize ∨ diskBlockHeaderSize + data.length ≤ 0 :=
    .inl (Nat.le_of_eq (Nat.zero_add _))
  have encoded : hdr.encode = hdr.used ++ (toLE 4 hdr.reserved2.toNat ++ List.replicate 4 0) :=
    List.append_assoc ..
  have short : diskBlockHeaderSize ≤ hdr.encode.length := by
    rw [encoded, List.length_append, DiskBlockHeader.length_used]
    exact Nat.le_add_right _ _
  have front : (((Image.zeros size).write 0 hdr.encode).write diskBlockHeaderSize data).bytes 0 diskBlockHeaderSize =
      hdr.used := by
    rw [Image.bytes_write_of_disjoint apart, ← Image.take_bytes _ _ _ _ short, Image.bytes_write_same, encoded]
    exact List.take_left' hdr.length_used
  rw [Image.take_bytes _ _ _ _ fits, Image.bytes_add, front, Nat.zero_add, Image.bytes_write_same]

theorem length_writeBuf (hdr : DiskBlockHeader) (physBlocks : Nat) (data : List UInt8) :
    (writeBuf hdr physBlocks data).length = u32 (physBlocks * physicalBlockSize) := Image.length_bytes ..

/-! ## The log -/

/-- An intent only writes behind the first slot. -/
theorem logIntent_effects {d : DiskManager} (numbered : d.wal.Numbered) (blockId dataOffset : UInt64)
    (dataSize crc32 : UInt32) :
    ∃ seq wal effects, d.logIntent blockId dataOffset dataSize crc32 =
        (seq, { d with wal := wal, world := d.world.performAll effects }) ∧
      wal.Numbered ∧ ∀ e ∈ effects, BehindFirst .wal e := by
  obtain ⟨r, wal, effects, result, numbered', behind⟩ :=
    append_effects numbered d.world .wal blockId dataOffset dataSize crc32
  unfold logIntent
  rw [if_pos numbered.isOpen, result]
  cases r with
  | ok seq => exact ⟨seq, wal, effects, rfl, numbered', behind⟩
  | error s => exact ⟨0, wal, effects, rfl, numbered', behind⟩

theorem commitIntent_effects {d : DiskManager} (numbered : d.wal.Numbered)
    (blank : FirstBlank (d.world.files .wal))
    (seq : Nat) :
    ∃ wal effects, d.commitIntent seq = { d with wal := wal, world := d.world.performAll effects } ∧
      wal.Numbered ∧ ∀ e ∈ effects, BehindFirst .wal e := by
  unfold commitIntent
  split
  · obtain ⟨r, wal, effects, result, numbered', behind⟩ := commit_effects numbered blank seq
    rw [result]
    exact ⟨wal, effects, rfl, numbered', behind⟩
  · exact ⟨d.wal, [], rfl, numbered, nofun⟩

/-- Effects on one file leave the other alone. -/
theorem performAll_of_other {w : World DiskFile} {f : DiskFile} {effects : List (Effect DiskFile)}
    (other : ∀ e ∈ effects, f ≠ e.file) : (w.performAll effects).files f = w.files f := by
  induction effects generalizing w with
  | nil => rfl
  | cons e effects ih =>
    rw [World.performAll_cons, ih fun e' member => other e' (List.mem_cons_of_mem _ member)]
    exact w.perform_files_of_other (other e List.mem_cons_self)

/-! ## The operations -/

theorem writeBlock_of_full {d : DiskManager} (normal : d.state = .normal) {dataSize : UInt32}
    (full : d.bitmap.allocate (calcPhysicalBlocks dataSize) = none) (blockId : UInt64) (level : BlkLevel)
    (data : List UInt8) (crc32 : UInt32) :
    d.writeBlock blockId level data dataSize crc32 = (.error .noSpace, d) := by
  unfold writeBlock
  rw [if_neg (by simp [normal])]
  simp only [full]

theorem seek_of_room {d : DiskManager} (ready : d.Ready) {count start : Nat} {bitmap : BlockBitmap}
    (room : d.bitmap.allocate count = some (start, bitmap)) : blockOffset d.superblock start < 2 ^ 63 := by
  obtain ⟨pos, inside, -, -⟩ := BlockBitmap.allocate_eq_some room
  apply blockOffset_lt ready.reach
  rw [← ready.numBlocks]
  omega

/-- A block that finds room: the intent, the block, the commit, the bitmap. -/
theorem writeBlock_of_room {d : DiskManager} (ready : d.Ready) {dataSize : UInt32} {start : Nat}
    {bitmap : BlockBitmap}
    (room : d.bitmap.allocate (calcPhysicalBlocks dataSize) = some (start, bitmap)) (blockId : UInt64)
    (level : BlkLevel) (data : List UInt8) (crc32 : UInt32) :
    ∃ wal intent commit, wal.Numbered ∧ (∀ e ∈ intent, BehindFirst .wal e) ∧ (∀ e ∈ commit, BehindFirst .wal e) ∧
      d.writeBlock blockId level data dataSize crc32 = (.ok (blockOffset d.superblock start), { d with
        bitmap := bitmap
        wal := wal
        world := d.world.performAll (intent ++
          [.write .device (blockOffset d.superblock start) (writeBuf (blockHeader blockId level dataSize crc32)
            (calcPhysicalBlocks dataSize) (data.take dataSize.toNat))] ++ commit ++
          [.write .device superBlockSize (savedBytes bitmap)]) }) := by
  have seek := seek_of_room ready room
  have offset : u64 (d.superblock.dataOffset.toNat + start * physicalBlockSize) = blockOffset d.superblock start :=
    Nat.mod_eq_of_lt (Nat.lt_trans seek (by decide))
  obtain ⟨seq, wal, intent, logged, numbered, behind⟩ := logIntent_effects (d := { d with bitmap := bitmap })
    ready.numbered blockId (UInt64.ofNat (blockOffset d.superblock start)) dataSize crc32
  let block : Effect DiskFile := .write .device (blockOffset d.superblock start)
    (writeBuf (blockHeader blockId level dataSize crc32) (calcPhysicalBlocks dataSize) (data.take dataSize.toNat))
  let written : DiskManager :=
    { d with bitmap := bitmap, wal := wal, world := (d.world.performAll intent).perform block }
  have blank : FirstBlank (written.world.files .wal) := by
    show FirstBlank (block.apply (d.world.performAll intent).files .wal)
    rw [apply_of_other (by nofun)]
    exact ready.blank.performAll behind
  obtain ⟨wal', commit, committed, numbered', behind'⟩ := commitIntent_effects (d := written) numbered blank seq
  refine ⟨wal', intent, commit, numbered', behind, behind', ?_⟩
  unfold writeBlock
  rw [if_neg (by simp [ready.normal])]
  simp only [room]
  rw [offset, logged]
  dsimp only
  rw [writeAt_of_good (by exact ready.good) seek]
  dsimp only
  rw [show DiskManager.mk d.superblock bitmap wal d.io d.state ((d.world.performAll intent).perform block)
    = written
    from rfl, committed, saveBitmap_of_good (by exact ready.good) (by exact ready.laid)]
  simp only [World.performAll_append, World.performAll_cons, World.performAll_nil, written, block]

/-- Deleting clears the block's bits and saves the bitmap. -/
theorem deleteBlock_of_ready {d : DiskManager} (ready : d.Ready) (offset : Nat) (dataSize : UInt32) :
    d.deleteBlock offset dataSize = (.ok, { d with
      bitmap := d.bitmap.free (startBlock d.superblock offset) (calcPhysicalBlocks dataSize)
      world := d.world.performAll [.write .device superBlockSize
        (savedBytes (d.bitmap.free (startBlock d.superblock offset) (calcPhysicalBlocks dataSize)))] }) := by
  unfold deleteBlock
  rw [if_neg (by simp [ready.normal])]
  dsimp only
  rw [saveBitmap_of_good (by exact ready.good) (by exact ready.laid)]
  rfl

/-- Nothing is rolled back; the bitmap is saved and the log made empty. -/
theorem recover_of_ready {d : DiskManager} (ready : d.Ready) :
    ∃ wal, wal.Numbered ∧ d.recover = (.ok, { d with
      wal := wal
      world := d.world.performAll
        [.write .device superBlockSize (savedBytes d.bitmap), .truncate .wal] }) := by
  obtain ⟨s, replayed, isOpen⟩ := ready.blank.replay ready.numbered
  have saved := saveBitmap_of_good (d := { d with wal := { d.wal with file := s } }) ready.good ready.laid
  have still : ({ d.wal with file := s } : WalManager).isOpen = true := isOpen
  obtain ⟨reset, numbered⟩ := numbered_reset still
    (d.world.perform (.write .device superBlockSize (savedBytes d.bitmap))) .wal
  refine ⟨_, numbered, ?_⟩
  unfold recover
  rw [if_neg (by simp [ready.numbered.isOpen]), replayed]
  dsimp only [rollBack, List.foldl_nil]
  rw [saved]
  dsimp only
  rw [reset]
  rfl

theorem close_of_ready {d : DiskManager} (ready : d.Ready) :
    d.close = { d with
      wal := d.wal.close
      io := d.io.close
      state := .unknown
      world := d.world.performAll [.write .device superBlockSize (savedBytes d.bitmap)] } := by
  unfold close
  rw [if_neg (by simp [ready.normal]), saveBitmap_of_good ready.good ready.laid]
  rfl

/-! ## Opening -/

/-- The bytes that `LoadBitmap` reads: their number is cut to 32 bits. -/
def loadedBytes (sb : DiskSuperBlock) : Nat := u32 (sb.bitmapBlocks.toNat * physicalBlockSize)

/-- A device that begins with the superblock and is long enough for what opening reads. -/
structure Openable (sb : DiskSuperBlock) (device : Image) : Prop where
  laid : Laid sb
  valid : validateSuperBlock sb = true
  header : device.bytes 0 108 = sb.used
  whole : DiskSuperBlock.bytes ≤ device.size
  bitmap : superBlockSize + loadedBytes sb ≤ device.size

theorem readSuperBlock_of_openable {sb : DiskSuperBlock} {device : Image} (openable : Openable sb device) :
    readSuperBlock device = .ok sb := by
  have whole := openable.whole
  have split : device.bytes 0 DiskSuperBlock.bytes = sb.used ++ device.bytes 108 4044 := by
    rw [← openable.header]
    exact Image.bytes_add device 0 108 4044
  unfold readSuperBlock
  rw [Stream.read_ok rfl (by decide) (by omega)]
  dsimp only
  rw [split, DiskSuperBlock.decode_used openable.laid.sized]

theorem openExisting_of_openable {d : DiskManager} (closed : d.io.isOpen = false) {sb : DiskSuperBlock}
    (openable : Openable sb (d.world.files .device)) :
    d.openExisting = (.ok, { d with
      superblock := sb
      bitmap := BlockBitmap.load ((d.world.files .device).bytes superBlockSize (loadedBytes sb))
        sb.dataBlocks.toNat
      wal := (d.wal.open' (d.world.files .wal) sb.walBlocks.toNat).2
      io := ⟨true, false⟩
      state := .normal }) := by
  have io : d.io.open' = ⟨true, false⟩ := by
    unfold Stream.open'
    rw [if_neg (by simp [closed])]
  have seek := bitmapOffset_lt openable.laid
  have inside := openable.bitmap
  unfold openExisting
  rw [readSuperBlock_of_openable openable]
  dsimp only
  rw [if_neg (by simp [openable.valid]), io]
  unfold loadBitmap
  rw [readAt_of_good rfl seek (.inr (by rw [openable.laid.bitmapOffset]; exact inside)),
    openable.laid.bitmapOffset]
  rfl

/-- A superblock of `Format` is valid. -/
theorem valid_newSuperBlock (totalBlocks walBlocks : Nat) (nodeId : UInt64) (diskIndex : UInt32)
    (uuid now : UInt64) :
    validateSuperBlock (newSuperBlock totalBlocks walBlocks nodeId diskIndex uuid now) = true := by
  unfold validateSuperBlock
  simp only [Bool.and_eq_true, beq_iff_eq]
  exact ⟨⟨⟨rfl, rfl⟩, rfl⟩, rfl⟩

/-! ## Reading a block -/

theorem readBlock_of_content {d : DiskManager} (good : d.io.good = true) {offset : Nat} {header : DiskBlockHeader}
    {data : List UInt8} (magic : header.magic = UInt32.ofNat diskBlockMagic)
    (size : header.dataSize.toNat = data.length) (seek : offset + diskBlockHeaderSize + data.length ≤ 2 ^ 63)
    (inside : offset + diskBlockHeaderSize + data.length ≤ (d.world.files .device).size)
    (content : (d.world.files .device).bytes offset (diskBlockHeaderSize + data.length) = header.used ++ data)
    (beyond : List UInt8) :
    d.readBlock offset beyond = (.ok (data, header.crc32, header.blockId), d) := by
  rw [Image.bytes_add] at content
  obtain ⟨front, back⟩ := List.append_inj content (by simp)
  have next : u64 (offset + diskBlockHeaderSize) = offset + diskBlockHeaderSize := by
    apply Nat.mod_eq_of_lt
    omega
  have before : offset < 2 ^ 63 := by
    unfold diskBlockHeaderSize at seek
    omega
  unfold readBlock
  rw [if_neg (by simp [Stream.isOpen_of_good good]), readAt_of_good good before (.inr (by omega)), front]
  dsimp only
  rw [DiskBlockHeader.decode_used, if_neg (by simp [magic])]
  dsimp only
  split
  · next some =>
    have pos : 0 < data.length := by
      rw [← size]
      exact some
    rw [next, readAt_of_good good (by omega) (.inr (by omega)), size, back]
  · next none =>
    have empty : data = [] := by
      rw [← List.length_eq_zero_iff, ← size]
      exact Nat.eq_zero_of_not_pos none
    rw [empty]

end OpenFS.DiskManager
