import OpenFS.Data.FreshDisk

/-!
# The write-ahead rule

`WriteBlock` logs its intent before it writes the block, and commits the entry
afterwards. A log that takes no more entries is passed over, and so is one whose file
refuses the entry, or loses it in a `flush` that nobody tests: the block is written
all the same, and the rule holds of such a write only where the log has an entry with
the same values besides.
-/

namespace OpenFS

open ByteImage FileLog

namespace WalManager

/-- The header in a slot of the file. -/
def headerAt (img : Image) (slot : Nat) : WalEntryHeader :=
  WalEntryHeader.decode (img.bytes (slot * walBlockSize) WalEntryHeader.bytes)

/-- Where the committed flag ends in a header. -/
def flagEnd : Nat := 33

/-- The file has an entry with these values in the slot. -/
structure EntryAt (img : Image) (slot : Nat) (blockId dataOffset : UInt64) (dataSize crc32 : UInt32) : Prop where
  whole : slot * walBlockSize + WalEntryHeader.bytes ≤ img.size
  magic : (headerAt img slot).magic = UInt32.ofNat walMagic
  blockId : (headerAt img slot).blockId = blockId
  dataOffset : (headerAt img slot).dataOffset = dataOffset
  dataSize : (headerAt img slot).dataSize = dataSize
  crc32 : (headerAt img slot).crc32 = crc32

/-- The entry is there and marked committed. -/
structure CommittedAt (img : Image) (slot : Nat) (blockId dataOffset : UInt64)
    (dataSize crc32 : UInt32) : Prop where
  entry : EntryAt img slot blockId dataOffset dataSize crc32
  committed : (headerAt img slot).committed = 1

/-- The entry of a header. -/
theorem EntryAt.of_header {img : Image} {slot : Nat} {hdr : WalEntryHeader}
    (whole : slot * walBlockSize + WalEntryHeader.bytes ≤ img.size) (header : headerAt img slot = hdr)
    (magic : hdr.magic = UInt32.ofNat walMagic) :
    EntryAt img slot hdr.blockId hdr.dataOffset hdr.dataSize hdr.crc32 := by
  subst header
  exact ⟨whole, magic, rfl, rfl, rfl, rfl⟩

/-- A header that was written can be read again. -/
theorem headerAt_write (img : Image) (slot : Nat) (hdr : WalEntryHeader) (reserved : hdr.reserved.length = 7) :
    headerAt (img.write (slot * walBlockSize) hdr.encode) slot = hdr ∧
      slot * walBlockSize + WalEntryHeader.bytes ≤ (img.write (slot * walBlockSize) hdr.encode).size := by
  have length := WalEntryHeader.length_encode reserved
  constructor
  · unfold headerAt
    rw [← length, Image.bytes_write_same, WalEntryHeader.decode_encode reserved]
  · rw [← length]
    apply Image.end_le_size_write
    intro none
    rw [none] at length
    cases length

variable {F : Type} [DecidableEq F]

/-- A commit that can read the header: what gets into the file of the marked one. -/
theorem commitEntry_of_read {wal : WalManager} (good : wal.file.good = true) {slot : Nat}
    (bounded : slot ≤ 2 ^ 51 + 2) (bound : fileOffset slot + walEntryHeaderSize ≤ wal.walSize)
    (seek : fileOffset slot < 2 ^ 63) {w : World F} {f : F}
    (whole : slot * walBlockSize + WalEntryHeader.bytes ≤ (w.files f).size)
    (magic : (headerAt (w.files f) slot).magic = UInt32.ofNat walMagic) (writing : Access) :
    ∃ s file, wal.commitEntry w f slot .whole writing = (s, { wal with file := file }, w.perform
        (.write f (slot * walBlockSize) (writing.reached { headerAt (w.files f) slot with committed := 1 }.encode))) ∧
      (writing = .whole → s = .ok ∧ file = wal.file) := by
  have place := fileOffset_of_bounded bounded
  have isOpen : wal.isOpen = true := Stream.isOpen_of_good good
  unfold commitEntry
  rw [if_neg (by simp [isOpen])]
  dsimp only
  rw [if_neg (by omega), Stream.read_ok good seek (by rw [place]; exact whole)]
  dsimp only
  rw [place]
  unfold headerAt at magic ⊢
  rw [if_neg (by simp [magic])]
  obtain ⟨ok, file, result, taken, -, cut⟩ := Stream.write_good w f
    { WalEntryHeader.decode ((w.files f).bytes (slot * walBlockSize) WalEntryHeader.bytes) with
      committed := 1 }.encode writing good (place ▸ seek)
  rw [result]
  cases ok with
  | true => exact ⟨.ok, file, rfl, fun through => ⟨rfl, (cut.resolve_right fun partly => partly.1 through).2⟩⟩
  | false => exact ⟨.ioError, file, rfl, fun through => nomatch taken.mpr (through ▸ Access.taken_whole)⟩

theorem commitEntry_of_header {wal : WalManager} (good : wal.file.good = true) {slot : Nat}
    (bounded : slot ≤ 2 ^ 51 + 2) (bound : fileOffset slot + walEntryHeaderSize ≤ wal.walSize)
    (seek : fileOffset slot < 2 ^ 63) {w : World F} {f : F}
    (whole : slot * walBlockSize + WalEntryHeader.bytes ≤ (w.files f).size)
    (magic : (headerAt (w.files f) slot).magic = UInt32.ofNat walMagic) :
    wal.commitEntry w f slot = (.ok, wal,
      w.perform (.write f (slot * walBlockSize) { headerAt (w.files f) slot with committed := 1 }.encode)) := by
  obtain ⟨s, file, result, exactly⟩ := commitEntry_of_read good bounded bound seek whole magic .whole
  obtain ⟨rfl, rfl⟩ := exactly rfl
  exact result

/-- A commit on a failed stream, or one whose read fails, leaves the file as it is. -/
theorem commitEntry_of_unread {wal : WalManager} {reading : Access}
    (unread : wal.file.failbit = true ∨ reading ≠ .whole) (w : World F) (f : F) (seq : Nat) (writing : Access) :
    (wal.commitEntry w f seq reading writing).2.2 = w := by
  have failed : wal.file.read (w.files f) (fileOffset seq) WalEntryHeader.bytes reading =
      (none, { wal.file with failbit := true }) := by
    apply if_neg
    rintro ⟨good, -, -, whole⟩
    rcases unread with failbit | not
    · simp [Stream.good, failbit] at good
    · exact not whole
  unfold commitEntry
  split
  · rfl
  · dsimp only
    rw [failed]
    split <;> rfl

/-- A commit changes the stream's flag at most, of the log's state. -/
theorem commitEntry_keeps (wal : WalManager) (w : World F) (f : F) (seq : Nat) (reading writing : Access) :
    ∃ file, (wal.commitEntry w f seq reading writing).2.1 = { wal with file := file } ∧
      file.isOpen = wal.file.isOpen := by
  unfold commitEntry
  split
  · exact ⟨wal.file, rfl, rfl⟩
  dsimp only
  split
  · exact ⟨wal.file, rfl, rfl⟩
  have isOpen := wal.file.read_isOpen (w.files f) (fileOffset seq) WalEntryHeader.bytes reading
  split
  · next s read => exact ⟨s, rfl, by rw [read] at isOpen; exact isOpen⟩
  · next bs s read =>
    rw [read] at isOpen
    split
    · exact ⟨s, rfl, isOpen⟩
    have same := s.write_isOpen w f (fileOffset seq) { WalEntryHeader.decode bs with committed := 1 }.encode writing
    split
    · next s' w' written => exact ⟨s', rfl, by rw [written] at same; exact same.trans isOpen⟩
    · next s' w' written => exact ⟨s', rfl, by rw [written] at same; exact same.trans isOpen⟩

/-- An entry that the log takes goes to the slot of the next sequence number, as far as the file
takes it; the stream has failed if that is not the whole entry. -/
theorem appendEntry_of_access {wal : WalManager} (accepts : wal.Accepts) (w : World F) (f : F)
    (blockId dataOffset : UInt64) (dataSize crc32 : UInt32) (access : Access) :
    ∃ r file seq, wal.appendEntry w f blockId dataOffset dataSize crc32 access =
        (r, { wal with file := file, nextSeq := seq }, w.perform (.write f (fileOffset wal.nextSeq)
          (access.reached (newHeader blockId dataOffset dataSize crc32).encode))) ∧
      (seq = wal.nextSeq ∨ seq = u64 (wal.nextSeq + 1)) ∧ file.isOpen = wal.file.isOpen ∧
      (access ≠ .whole → file.failbit = true) := by
  obtain ⟨good, bound, seek⟩ := accepts
  have isOpen : wal.isOpen = true := Stream.isOpen_of_good good
  obtain ⟨ok, file, result, -, same, cut⟩ := Stream.write_good w f
    (newHeader blockId dataOffset dataSize crc32).encode access good seek
  have failed : access ≠ .whole → file.failbit = true := fun partly =>
    (cut.resolve_left fun whole => partly whole.1).2
  unfold appendEntry
  rw [if_neg (by simp [isOpen]), if_neg (by omega), result]
  cases ok with
  | true => exact ⟨.ok wal.nextSeq, file, _, rfl, .inr rfl, same, failed⟩
  | false => exact ⟨.error .ioError, file, _, rfl, .inl rfl, same, failed⟩

end WalManager

namespace WriteAhead

open DiskManager WalManager

/-! ## One write -/

/-- Where a block of this size is written, and the bitmap with its blocks; none if the
call returns before, or the device's stream does not come to the write. -/
def target (d : DiskManager) (dataSize : UInt32) : Option (Nat × BlockBitmap) :=
  if d.state ≠ .normal then none
  else
    match d.bitmap.allocate (calcPhysicalBlocks dataSize) with
    | none => none
    | some (startBlock, bitmap) =>
      let offset := u64 (d.superblock.dataOffset.toNat + startBlock * physicalBlockSize)
      if d.io.good = true ∧ offset < 2 ^ 63 then some (offset, bitmap) else none

/-- The manager when it writes the block. -/
def atWrite (d : DiskManager) (bitmap : BlockBitmap) (offset : Nat) (blockId : UInt64) (dataSize crc32 : UInt32)
    (access : Access := .whole) : Nat × DiskManager :=
  logIntent { d with bitmap := bitmap } blockId (UInt64.ofNat offset) dataSize crc32 access

/-- The log's file then: with what gets into it of an entry that the log takes. -/
def logAtWrite (d : DiskManager) (offset : Nat) (blockId : UInt64) (dataSize crc32 : UInt32) (access : Access) :
    Image :=
  if d.wal.Accepts then
    (d.world.files .wal).write (fileOffset d.wal.nextSeq)
      (access.reached (newHeader blockId (UInt64.ofNat offset) dataSize crc32).encode)
  else d.world.files .wal

section
variable {d : DiskManager} {offset : Nat} {bitmap : BlockBitmap}

theorem io_logIntent (d : DiskManager) (blockId dataOffset : UInt64) (dataSize crc32 : UInt32) (access : Access) :
    (d.logIntent blockId dataOffset dataSize crc32 access).2.io = d.io := by
  unfold logIntent
  split
  · split <;> rfl
  · rfl

/-- Writes to the device leave the log alone. -/
theorem writeAt_log (d : DiskManager) (offset : Nat) (data : List UInt8) (access : Access) :
    (d.writeAt offset data access).2.wal = d.wal ∧
      (d.writeAt offset data access).2.world.files .wal = d.world.files .wal := by
  refine ⟨rfl, ?_⟩
  by_cases able : d.io.good = true ∧ offset < 2 ^ 63
  · obtain ⟨s, io, written, -⟩ := d.writeAt_of_access able.1 able.2 data access
    rw [written]
    exact World.perform_files_of_other _ nofun
  · obtain ⟨io, failed⟩ := writeAt_of_bad able data access
    rw [failed]

/-- `WriteBlock` writes its block exactly where `target` says: when that is not seen to fail, it
goes on with the commit and the bitmap and returns `kOk`. -/
theorem writeBlock_of_target {dataSize : UInt32} (found : target d dataSize = some (offset, bitmap))
    (blockId : UInt64) (level : BlkLevel) (data : List UInt8) (crc32 : UInt32) (accesses : WriteAccesses) :
    ∃ c : DiskManager, c.wal = (atWrite d bitmap offset blockId dataSize crc32 accesses.intent).2.wal ∧
      c.world.files .wal = (atWrite d bitmap offset blockId dataSize crc32 accesses.intent).2.world.files .wal ∧
      ((accesses.block.Taken ∧ d.writeBlock blockId level data dataSize crc32 accesses =
          (.ok offset, ((c.commitIntent (atWrite d bitmap offset blockId dataSize crc32 accesses.intent).1
            accesses.reading accesses.commit).saveBitmap accesses.bitmap).2)) ∨
        (¬ accesses.block.Taken ∧ ∃ s bitmap', d.writeBlock blockId level data dataSize crc32 accesses =
          (.error s, { c with bitmap := bitmap' }))) := by
  unfold target at found
  split at found
  · cases found
  next normal =>
  split at found
  · cases found
  next start bitmap' room =>
  dsimp only at found
  split at found
  · next inside =>
    cases found
    obtain ⟨good, seek⟩ := inside
    have same := io_logIntent { d with bitmap := bitmap } blockId
      (UInt64.ofNat (u64 (d.superblock.dataOffset.toNat + start * physicalBlockSize))) dataSize crc32
      accesses.intent
    unfold writeBlock atWrite
    rw [if_neg normal]
    dsimp only
    rw [room]
    dsimp only
    generalize logIntent { d with bitmap := bitmap } blockId
      (UInt64.ofNat (u64 (d.superblock.dataOffset.toNat + start * physicalBlockSize))) dataSize crc32
      accesses.intent = logged at same ⊢
    obtain ⟨seq, c⟩ := logged
    dsimp only at same ⊢
    generalize writeBuf (blockHeader blockId level dataSize crc32) (calcPhysicalBlocks dataSize)
      (data.take dataSize.toNat) = block
    have log := writeAt_log c (u64 (d.superblock.dataOffset.toNat + start * physicalBlockSize)) block accesses.block
    obtain ⟨s, io, written, outcome⟩ := c.writeAt_of_access (same ▸ good) seek block accesses.block
    rw [written] at log ⊢
    refine ⟨_, log.1, log.2, ?_⟩
    rcases outcome with ⟨rfl, taken⟩ | ⟨rfl, refused⟩
    · exact .inl ⟨taken, rfl⟩
    · exact .inr ⟨refused, _, _, rfl⟩
  · cases found

/-- A log that takes the entry has what gets into its file in the next slot. -/
theorem logIntent_of_access (accepts : d.wal.Accepts) (blockId dataOffset : UInt64) (dataSize crc32 : UInt32)
    (access : Access) :
    ∃ seq file next, d.logIntent blockId dataOffset dataSize crc32 access = (seq, { d with
        wal := { d.wal with file := file, nextSeq := next }
        world := d.world.perform (.write .wal (fileOffset d.wal.nextSeq)
          (access.reached (newHeader blockId dataOffset dataSize crc32).encode)) }) ∧
      (next = d.wal.nextSeq ∨ next = u64 (d.wal.nextSeq + 1)) ∧ file.isOpen = d.wal.file.isOpen ∧
      (access ≠ .whole → file.failbit = true) := by
  obtain ⟨r, file, next, appended, step, isOpen, failed⟩ :=
    appendEntry_of_access accepts d.world .wal blockId dataOffset dataSize crc32 access
  unfold logIntent
  rw [if_pos (show d.wal.isOpen = true from Stream.isOpen_of_good accepts.1), appended]
  cases r with
  | ok seq => exact ⟨seq, file, next, rfl, step, isOpen, failed⟩
  | error s => exact ⟨0, file, next, rfl, step, isOpen, failed⟩

/-- A log that does not take it stays as it is. -/
theorem logIntent_of_refused (refused : ¬ d.wal.Accepts) (blockId dataOffset : UInt64) (dataSize crc32 : UInt32)
    (access : Access) :
    ∃ file, file.isOpen = d.wal.file.isOpen ∧ d.logIntent blockId dataOffset dataSize crc32 access =
      (0, { d with wal := { d.wal with file := file } }) := by
  unfold logIntent
  by_cases isOpen : d.wal.isOpen = true
  · obtain ⟨s, file, result, same⟩ := appendEntry_of_refused refused d.world .wal blockId dataOffset
      dataSize crc32 access
    refine ⟨file, same, ?_⟩
    rw [if_pos isOpen, result]
  · exact ⟨d.wal.file, rfl, if_neg isOpen⟩

theorem logIntent_of_accepts (accepts : d.wal.Accepts) (blockId dataOffset : UInt64) (dataSize crc32 : UInt32) :
    d.logIntent blockId dataOffset dataSize crc32 = (d.wal.nextSeq, { d with
      wal := { d.wal with nextSeq := u64 (d.wal.nextSeq + 1) }
      world := d.world.perform (.write .wal (fileOffset d.wal.nextSeq)
        (newHeader blockId dataOffset dataSize crc32).encode) }) := by
  unfold logIntent
  rw [if_pos (show d.wal.isOpen = true from Stream.isOpen_of_good accepts.1), appendEntry_of_accepts accepts]

theorem atWrite_log (d : DiskManager) (bitmap : BlockBitmap) (offset : Nat) (blockId : UInt64)
    (dataSize crc32 : UInt32) (access : Access) :
    (atWrite d bitmap offset blockId dataSize crc32 access).2.world.files .wal =
      logAtWrite d offset blockId dataSize crc32 access := by
  unfold atWrite logAtWrite
  by_cases accepts : d.wal.Accepts
  · obtain ⟨seq, file, next, logged, -⟩ := logIntent_of_access (d := { d with bitmap := bitmap }) accepts blockId
      (UInt64.ofNat offset) dataSize crc32 access
    rw [logged, if_pos accepts]
    exact World.perform_write_files ..
  · obtain ⟨file, -, logged⟩ := logIntent_of_refused (d := { d with bitmap := bitmap }) accepts blockId
      (UInt64.ofNat offset) dataSize crc32 access
    rw [logged, if_neg accepts]

/-- Saving the bitmap leaves the log alone. -/
theorem saveBitmap_log (d : DiskManager) (access : Access) :
    (d.saveBitmap access).2.wal = d.wal ∧ (d.saveBitmap access).2.world.files .wal = d.world.files .wal :=
  writeAt_log d _ _ access

/-! ## The commit -/

/-- Without an entry, or on a failed stream, a commit does nothing to the files. -/
theorem commitIntent_of_stuck {seq : Nat} {reading : Access}
    (stuck : seq = 0 ∨ d.wal.file.failbit = true ∨ reading ≠ .whole) (writing : Access) :
    (d.commitIntent seq reading writing).world = d.world := by
  unfold commitIntent
  split
  · next able =>
    rcases stuck with rfl | unread
    · exact absurd able.2 (Nat.lt_irrefl 0)
    · exact commitEntry_of_unread unread d.world .wal seq writing
  · rfl

/-- A commit that reads the entry's header: what gets into the file of the marked one. -/
theorem commitIntent_of_read (good : d.wal.file.good = true) {slot : Nat} (pos : 0 < slot)
    (bounded : slot ≤ 2 ^ 51 + 2) (bound : fileOffset slot + walEntryHeaderSize ≤ d.wal.walSize)
    (seek : fileOffset slot < 2 ^ 63)
    (whole : slot * walBlockSize + WalEntryHeader.bytes ≤ (d.world.files .wal).size) {hdr : WalEntryHeader}
    (header : headerAt (d.world.files .wal) slot = hdr) (magic : hdr.magic = UInt32.ofNat walMagic)
    (writing : Access) :
    (d.commitIntent slot .whole writing).world.files .wal =
        (d.world.files .wal).write (slot * walBlockSize) (writing.reached { hdr with committed := 1 }.encode) ∧
      (writing = .whole → (d.commitIntent slot .whole writing).wal = d.wal) := by
  subst header
  have isOpen : d.wal.isOpen = true := Stream.isOpen_of_good good
  obtain ⟨s, file, result, exactly⟩ := commitEntry_of_read good bounded bound seek whole magic writing
  unfold commitIntent
  rw [if_pos ⟨isOpen, pos⟩, result]
  refine ⟨World.perform_write_files .., fun through => ?_⟩
  obtain ⟨-, rfl⟩ := exactly through
  rfl

/-- Marking an entry that was just written changes nothing, unless the flag gets into the file. -/
theorem write_committed (img : Image) (off : Nat) (hdr : WalEntryHeader) (writing : Access) :
    (writing.Reaches flagEnd ∧ (img.write off hdr.encode).write off
        (writing.reached { hdr with committed := 1 }.encode) = img.write off { hdr with committed := 1 }.encode) ∨
      (¬ writing.Reaches flagEnd ∧ (img.write off hdr.encode).write off
        (writing.reached { hdr with committed := 1 }.encode) = img.write off hdr.encode) := by
  obtain ⟨front, length, unmarked, marked⟩ := WalEntryHeader.encode_flag hdr
  rw [unmarked, marked]
  have same : (front ++ hdr.committed :: hdr.reserved).length = (front ++ 1 :: hdr.reserved).length := by simp
  have cut : ∀ n, (flagEnd ≤ n ∧ (img.write off (front ++ hdr.committed :: hdr.reserved)).write off
        ((front ++ 1 :: hdr.reserved).take n) = img.write off (front ++ 1 :: hdr.reserved)) ∨
      (¬ flagEnd ≤ n ∧ (img.write off (front ++ hdr.committed :: hdr.reserved)).write off
        ((front ++ 1 :: hdr.reserved).take n) = img.write off (front ++ hdr.committed :: hdr.reserved)) := by
    intro n
    by_cases passed : flagEnd ≤ n
    · refine .inl ⟨passed, img.write_take_of_drop off same ?_⟩
      obtain ⟨k, rfl⟩ := Nat.exists_eq_add_of_le passed
      unfold flagEnd
      rw [show 33 + k = front.length + (k + 1) by omega, List.drop_append, List.drop_append, Nat.add_sub_cancel_left]
      rfl
    · refine .inr ⟨passed, ?_⟩
      unfold flagEnd at passed
      have short : (front ++ 1 :: hdr.reserved).take n = (front ++ hdr.committed :: hdr.reserved).take n := by
        rw [List.take_append_of_le_length (by omega), List.take_append_of_le_length (by omega)]
      rw [short]
      exact img.write_take_of_drop off rfl rfl
  cases writing with
  | whole =>
    refine .inl ⟨trivial, ?_⟩
    have all := img.write_take_of_drop (n := (front ++ 1 :: hdr.reserved).length) off same (by simp)
    rwa [List.take_length] at all
  | refused n => exact cut n
  | lost n => exact cut n

/-! ## The log after a write -/

/-- What an entry that is there as a whole leaves for the commit to find. -/
theorem headerAt_logged (accepts : d.wal.Accepts) (numbered : d.wal.Numbered) (offset : Nat) (blockId : UInt64)
    (dataSize crc32 : UInt32) :
    logAtWrite d offset blockId dataSize crc32 .whole = (d.world.files .wal).write (d.wal.nextSeq * walBlockSize)
        (newHeader blockId (UInt64.ofNat offset) dataSize crc32).encode ∧
      headerAt (logAtWrite d offset blockId dataSize crc32 .whole) d.wal.nextSeq =
        newHeader blockId (UInt64.ofNat offset) dataSize crc32 ∧
      d.wal.nextSeq * walBlockSize + WalEntryHeader.bytes ≤
        (logAtWrite d offset blockId dataSize crc32 .whole).size := by
  have there : logAtWrite d offset blockId dataSize crc32 .whole = (d.world.files .wal).write
      (d.wal.nextSeq * walBlockSize) (newHeader blockId (UInt64.ofNat offset) dataSize crc32).encode := by
    unfold logAtWrite
    rw [if_pos accepts, fileOffset_of_bounded numbered.bounded]
    rfl
  rw [there]
  exact ⟨rfl, headerAt_write _ _ _ rfl⟩

/-- After an entry that the file took as a whole: it is marked if its header can be read again and
the flag gets into the file, and stays as it was if not. -/
theorem log_of_logged (numbered : d.wal.Numbered) (accepts : d.wal.Accepts) {dataSize : UInt32}
    (found : target d dataSize = some (offset, bitmap)) (blockId : UInt64) (level : BlkLevel) (data : List UInt8)
    (crc32 : UInt32) {accesses : WriteAccesses} (logged : accesses.intent = .whole) (taken : accesses.block.Taken) :
    (accesses.reading = .whole ∧ accesses.commit.Reaches flagEnd ∧
        (d.writeBlock blockId level data dataSize crc32 accesses).2.world.files .wal =
          (d.world.files .wal).write (d.wal.nextSeq * walBlockSize)
            { newHeader blockId (UInt64.ofNat offset) dataSize crc32 with committed := 1 }.encode) ∨
      (¬ (accesses.reading = .whole ∧ accesses.commit.Reaches flagEnd) ∧
        (d.writeBlock blockId level data dataSize crc32 accesses).2.world.files .wal =
          logAtWrite d offset blockId dataSize crc32 .whole) := by
  obtain ⟨c, wal, log, ⟨-, result⟩ | ⟨refused, -⟩⟩ := writeBlock_of_target found blockId level data crc32 accesses
  · obtain ⟨there, header, whole⟩ := headerAt_logged accepts numbered offset blockId dataSize crc32
    rw [result, (saveBitmap_log _ _).2]
    rw [logged] at wal log ⊢
    rw [atWrite_log] at log
    unfold atWrite at wal ⊢
    rw [logIntent_of_accepts (d := { d with bitmap := bitmap }) accepts] at wal ⊢
    dsimp only at wal ⊢
    by_cases read : accesses.reading = .whole
    · rw [read]
      obtain ⟨good, bound, seek⟩ := id accepts
      rw [← log] at header whole
      obtain ⟨committed, -⟩ := commitIntent_of_read (d := c) (by rw [wal]; exact good) numbered.first
        numbered.bounded (by rw [wal]; exact bound) seek whole header rfl accesses.commit
      rw [committed, log, there]
      rcases write_committed (d.world.files .wal) (d.wal.nextSeq * walBlockSize)
        (newHeader blockId (UInt64.ofNat offset) dataSize crc32) accesses.commit with ⟨reaches, same⟩ | ⟨not, same⟩
      · exact .inl ⟨rfl, reaches, same⟩
      · exact .inr ⟨fun both => not both.2, same⟩
    · refine .inr ⟨fun both => read both.1, ?_⟩
      rw [commitIntent_of_stuck (.inr (.inr read)), log]
  · exact absurd taken refused

/-- After an entry that is not there as a whole the log stays as the write found it. -/
theorem log_of_unlogged {accesses : WriteAccesses} (unlogged : ¬ (d.wal.Accepts ∧ accesses.intent = .whole))
    {dataSize : UInt32} (found : target d dataSize = some (offset, bitmap)) (blockId : UInt64) (level : BlkLevel)
    (data : List UInt8) (crc32 : UInt32) (taken : accesses.block.Taken) :
    (d.writeBlock blockId level data dataSize crc32 accesses).2.world.files .wal =
      logAtWrite d offset blockId dataSize crc32 accesses.intent := by
  obtain ⟨c, wal, log, ⟨-, result⟩ | ⟨refused, -⟩⟩ := writeBlock_of_target found blockId level data crc32 accesses
  · have stuck : (atWrite d bitmap offset blockId dataSize crc32 accesses.intent).1 = 0 ∨
        c.wal.file.failbit = true := by
      rw [wal]
      unfold atWrite
      by_cases accepts : d.wal.Accepts
      · obtain ⟨seq, file, next, intent, -, -, failed⟩ := logIntent_of_access (d := { d with bitmap := bitmap })
          accepts blockId (UInt64.ofNat offset) dataSize crc32 accesses.intent
        rw [intent]
        exact .inr (failed fun whole => unlogged ⟨accepts, whole⟩)
      · obtain ⟨file, -, intent⟩ := logIntent_of_refused (d := { d with bitmap := bitmap }) accepts blockId
          (UInt64.ofNat offset) dataSize crc32 accesses.intent
        rw [intent]
        exact .inl rfl
    rw [result, (saveBitmap_log _ _).2, commitIntent_of_stuck (stuck.imp_right .inl), log, atWrite_log]
  · exact absurd taken refused

/-- The log's state after a write that goes through. -/
theorem wal_of_accepts (numbered : d.wal.Numbered) (accepts : d.wal.Accepts) {dataSize : UInt32}
    (found : target d dataSize = some (offset, bitmap)) (blockId : UInt64) (level : BlkLevel) (data : List UInt8)
    (crc32 : UInt32) :
    (d.writeBlock blockId level data dataSize crc32).2.wal = { d.wal with nextSeq := d.wal.nextSeq + 1 } := by
  obtain ⟨c, wal, log, ⟨-, result⟩ | ⟨refused, -⟩⟩ := writeBlock_of_target found blockId level data crc32 {}
  · obtain ⟨there, header, whole⟩ := headerAt_logged accepts numbered offset blockId dataSize crc32
    obtain ⟨good, bound, seek⟩ := id accepts
    rw [result, (saveBitmap_log _ _).1]
    rw [atWrite_log] at log
    unfold atWrite at wal ⊢
    rw [logIntent_of_accepts (d := { d with bitmap := bitmap }) accepts] at wal ⊢
    dsimp only at wal ⊢
    rw [← log] at header whole
    obtain ⟨-, exactly⟩ := commitIntent_of_read (d := c) (by rw [wal]; exact good) numbered.first
      numbered.bounded (by rw [wal]; exact bound) seek whole header rfl .whole
    rw [exactly rfl, wal, (numbered.succ accepts).1]
  · exact absurd Access.taken_whole refused

/-! ## The numbering goes on -/

theorem numbered_logIntent (numbered : d.wal.Numbered) (blockId dataOffset : UInt64) (dataSize crc32 : UInt32)
    (access : Access) : (d.logIntent blockId dataOffset dataSize crc32 access).2.wal.Numbered := by
  by_cases accepts : d.wal.Accepts
  · obtain ⟨seq, file, next, logged, step, isOpen, -⟩ :=
      logIntent_of_access accepts blockId dataOffset dataSize crc32 access
    obtain ⟨succ, bounded⟩ := numbered.succ accepts
    rw [logged]
    refine ⟨isOpen.trans numbered.isOpen, ?_, ?_⟩
    · have first := numbered.first
      show 1 ≤ next
      omega
    · have old := numbered.bounded
      show next ≤ _
      omega
  · obtain ⟨file, isOpen, logged⟩ := logIntent_of_refused accepts blockId dataOffset dataSize crc32 access
    rw [logged]
    exact ⟨isOpen.trans numbered.isOpen, numbered.first, numbered.bounded⟩

theorem numbered_commitIntent (numbered : d.wal.Numbered) (seq : Nat) (reading writing : Access) :
    (d.commitIntent seq reading writing).wal.Numbered := by
  unfold commitIntent
  split
  · obtain ⟨file, result, isOpen⟩ := commitEntry_keeps d.wal d.world .wal seq reading writing
    show (d.wal.commitEntry d.world .wal seq reading writing).2.1.Numbered
    rw [result]
    exact ⟨isOpen.trans numbered.isOpen, numbered.first, numbered.bounded⟩
  · exact numbered

theorem numbered_writeBlock (numbered : d.wal.Numbered) (blockId : UInt64) (level : BlkLevel) (data : List UInt8)
    (dataSize crc32 : UInt32) (accesses : WriteAccesses) :
    (d.writeBlock blockId level data dataSize crc32 accesses).2.wal.Numbered := by
  unfold writeBlock
  split
  · exact numbered
  · dsimp only
    split
    · exact numbered
    · next start bitmap room =>
      have logged := numbered_logIntent (d := { d with bitmap := bitmap }) numbered blockId
        (UInt64.ofNat (u64 (d.superblock.dataOffset.toNat + start * physicalBlockSize))) dataSize crc32
        accesses.intent
      -- The write to the device keeps the log.
      split
      · next d' written =>
        have kept := congrArg (fun r => r.2.wal) written
        rw [(saveBitmap_log _ _).1]
        exact numbered_commitIntent (kept ▸ logged) ..
      · next s d' _ failed =>
        have kept := congrArg (fun r => r.2.wal) failed
        exact kept ▸ logged

end

/-! ## Runs -/

/-- The calls of a run, with what the files make of their accesses; `data` are the bytes behind
the pointer. -/
inductive Call
  | write (blockId : UInt64) (level : BlkLevel) (data : List UInt8) (dataSize crc32 : UInt32)
      (accesses : WriteAccesses)
  | delete (offset : Nat) (dataSize : UInt32) (access : Access)

def Call.exec (d : DiskManager) : Call → DiskManager
  | .write blockId level data dataSize crc32 accesses =>
    (d.writeBlock blockId level data dataSize crc32 accesses).2
  | .delete offset dataSize access => (d.deleteBlock offset dataSize access).2

/-- The rule: a block of which anything gets into the data area is only written when the log has
its entry, and that entry is committed when `WriteBlock` returns `kOk`. -/
def Ruled (d : DiskManager) : Call → Prop
  | .write blockId level data dataSize crc32 accesses => ∀ offset bitmap,
    target d dataSize = some (offset, bitmap) → accesses.block ≠ .refused 0 →
    ∃ slot, EntryAt ((atWrite d bitmap offset blockId dataSize crc32 accesses.intent).2.world.files .wal) slot
        blockId (UInt64.ofNat offset) dataSize crc32 ∧
      ((d.writeBlock blockId level data dataSize crc32 accesses).1 = .ok offset →
        CommittedAt ((d.writeBlock blockId level data dataSize crc32 accesses).2.world.files .wal) slot
          blockId (UInt64.ofNat offset) dataSize crc32)
  | .delete .. => True

/-- What a call must meet, in the state it finds and with what the files make of its accesses: a
block that is written finds a log that takes its entry and a file that takes all of it, and the
flag of the entry gets into the file too, unless the block is refused; or the log has an entry
with the same values, a committed one unless the block is refused. -/
def Allowed (d : DiskManager) : Call → Prop
  | .write blockId _ _ dataSize crc32 accesses => ∀ offset bitmap,
    target d dataSize = some (offset, bitmap) → accesses.block ≠ .refused 0 →
    (d.wal.Accepts ∧ accesses.intent = .whole ∧
        (accesses.block.Taken → accesses.reading = .whole ∧ accesses.commit.Reaches flagEnd)) ∨
      ∃ slot, EntryAt (logAtWrite d offset blockId dataSize crc32 accesses.intent) slot
          blockId (UInt64.ofNat offset) dataSize crc32 ∧
        (accesses.block.Taken → CommittedAt (logAtWrite d offset blockId dataSize crc32 accesses.intent) slot
          blockId (UInt64.ofNat offset) dataSize crc32)
  | .delete .. => True

/-- `P` holds of every call of the run, where it is made. -/
def EachCall (P : DiskManager → Call → Prop) : DiskManager → List Call → Prop
  | _, [] => True
  | d, call :: calls => P d call ∧ EachCall P (call.exec d) calls

variable {d : DiskManager}

theorem numbered_exec (numbered : d.wal.Numbered) (call : Call) : (call.exec d).wal.Numbered := by
  cases call with
  | write blockId level data dataSize crc32 accesses => exact numbered_writeBlock numbered ..
  | delete offset dataSize access =>
    unfold Call.exec deleteBlock
    dsimp only
    split
    · exact numbered
    · rw [(saveBitmap_log _ _).1]
      exact numbered

theorem ruled_iff (numbered : d.wal.Numbered) (call : Call) : Ruled d call ↔ Allowed d call := by
  cases call with
  | delete offset dataSize access => exact Iff.rfl
  | write blockId level data dataSize crc32 accesses =>
    apply forall_congr'
    intro offset
    apply forall_congr'
    intro bitmap
    apply imp_congr_right
    intro found
    apply imp_congr_right
    intro _
    rw [atWrite_log]
    -- `WriteBlock` returns `kOk` exactly if the block is not seen to be refused.
    have returned : (d.writeBlock blockId level data dataSize crc32 accesses).1 = .ok offset ↔
        accesses.block.Taken := by
      obtain ⟨c, -, -, ⟨taken, result⟩ | ⟨refused, s, bitmap', result⟩⟩ :=
        writeBlock_of_target found blockId level data crc32 accesses
      · exact iff_of_true (by rw [result]) taken
      · exact iff_of_false (by rw [result]; nofun) refused
    rw [returned]
    by_cases logged : d.wal.Accepts ∧ accesses.intent = .whole
    · obtain ⟨accepts, whole⟩ := logged
      rw [whole]
      obtain ⟨-, header, inside⟩ := headerAt_logged accepts numbered offset blockId dataSize crc32
      have entry : EntryAt (logAtWrite d offset blockId dataSize crc32 .whole) d.wal.nextSeq blockId
          (UInt64.ofNat offset) dataSize crc32 := .of_header inside header rfl
      by_cases taken : accesses.block.Taken
      · rcases log_of_logged numbered accepts found blockId level data crc32 whole taken with
          ⟨read, reaches, left⟩ | ⟨not, left⟩
        · refine iff_of_true ⟨d.wal.nextSeq, entry, fun _ => ?_⟩ (.inl ⟨accepts, rfl, fun _ => ⟨read, reaches⟩⟩)
          obtain ⟨header', inside'⟩ := headerAt_write (d.world.files .wal) d.wal.nextSeq
            { newHeader blockId (UInt64.ofNat offset) dataSize crc32 with committed := 1 } rfl
          rw [left]
          exact ⟨.of_header inside' header' rfl, by rw [header']⟩
        · rw [left]
          exact ⟨.inr, fun allowed => allowed.resolve_left fun through => not (through.2.2 taken)⟩
      · exact iff_of_true ⟨_, entry, fun able => absurd able taken⟩
          (.inl ⟨accepts, rfl, fun able => absurd able taken⟩)
    · constructor
      · rintro ⟨slot, entry, committed⟩
        refine .inr ⟨slot, entry, fun taken => ?_⟩
        rw [← log_of_unlogged logged found blockId level data crc32 taken]
        exact committed taken
      · rintro (⟨accepts, whole, -⟩ | ⟨slot, entry, committed⟩)
        · exact absurd ⟨accepts, whole⟩ logged
        · refine ⟨slot, entry, fun taken => ?_⟩
          rw [log_of_unlogged logged found blockId level data crc32 taken]
          exact committed taken

theorem numbered_of_open {closed : DiskManager} (opened : closed.openExisting = (.ok, d)) : d.wal.Numbered := by
  unfold openExisting at opened
  split at opened
  · next s unreadable =>
    cases opened
    unfold DiskFormatter.readSuperBlock at unreadable
    split at unreadable <;> cases unreadable
  · split at opened
    · cases opened
    · split at opened
      · cases opened
        exact numbered_open _ _ _
      · next failed _ =>
        cases opened
        exact absurd rfl failed

/-- **A block is written ahead** in exactly the runs whose calls are all allowed. -/
theorem ruled_run_iff {closed : DiskManager} (opened : closed.openExisting = (.ok, d)) (calls : List Call) :
    EachCall Ruled d calls ↔ EachCall Allowed d calls := by
  have numbered := numbered_of_open opened
  clear opened
  induction calls generalizing d with
  | nil => exact Iff.rfl
  | cons call calls ih => exact and_congr (ruled_iff numbered call) (ih (numbered_exec numbered call))

/-! ## The small disk -/

/-- A block that finds room on a disk that is ready is written there. -/
theorem target_of_room (ready : d.Ready) {dataSize : UInt32} {start : Nat} {bitmap : BlockBitmap}
    (room : d.bitmap.allocate (calcPhysicalBlocks dataSize) = some (start, bitmap)) :
    target d dataSize = some (blockOffset d.superblock start, bitmap) := by
  have seek := seek_of_room ready room
  have offset : u64 (d.superblock.dataOffset.toNat + start * physicalBlockSize) = blockOffset d.superblock start :=
    Nat.mod_eq_of_lt (Nat.lt_trans seek (by decide))
  unfold target
  rw [if_neg (by simp [ready.normal]), room]
  dsimp only
  rw [offset, if_pos ⟨ready.good, seek⟩]

/-- Its log has two slots, of which the second takes an entry. -/
theorem smallDisk_log : smallDisk.wal = { walBlocks := 2, nextSeq := 1, file := ⟨true, false⟩ } ∧
    smallDisk.world.files .wal = Image.empty.write 0 (List.replicate (2 * physicalBlockSize) 0) := by
  obtain ⟨wal, log⟩ := @freshDisk_log 40960 2 (by decide) (by decide)
  have two : (2 : UInt64).toNat = 2 := rfl
  rw [two] at wal log
  rw [smallDisk_eq]
  exact ⟨wal, log⟩

theorem smallDisk_accepts : smallDisk.wal.Accepts := by
  rw [smallDisk_log.1]
  decide

theorem smallDisk_opened : openExisting { world := freshWorld 40960 2 } = (.ok, smallDisk) := by
  rw [smallDisk_eq]
  exact (@freshDisk_spec 40960 2 (by decide) (by decide)).1

/-- A block whose entry is committed, a deletion, and a block that the device file refuses. -/
theorem ruled_smallDisk : EachCall Ruled smallDisk [.write 5 .l0 [7, 8] 2 9 {}, .delete 8192 2 .whole,
    .write 6 .l0 [] 0 0 { block := .refused 0 }] :=
  (ruled_run_iff smallDisk_opened _).mpr
    ⟨fun _ _ _ _ => .inl ⟨smallDisk_accepts, rfl, fun _ => ⟨rfl, trivial⟩⟩, trivial,
      fun _ _ _ writes => absurd rfl writes, trivial⟩

/-- The two slots after an entry was written to the second: nothing, and the entry. -/
theorem slots_of_entry {img : Image} {hdr : WalEntryHeader} (reserved : hdr.reserved.length = 7)
    (log : img = (Image.empty.write 0 (List.replicate (2 * physicalBlockSize) 0)).write (1 * walBlockSize) hdr.encode)
    {slot : Nat} (whole : slot * walBlockSize + WalEntryHeader.bytes ≤ img.size) :
    (headerAt img slot).magic ≠ UInt32.ofNat walMagic ∨ headerAt img slot = hdr := by
  have zeros := Image.write_size_of_end Image.empty (List.replicate (2 * physicalBlockSize) 0)
  rw [show Image.empty.size = 0 from rfl, List.length_replicate, Nat.zero_add] at zeros
  have blank : FirstBlank (Image.empty.write 0 (List.replicate (2 * physicalBlockSize) 0)) :=
    fun i _ => Image.byte_write_zeros _ (Nat.zero_le _) i
  generalize Image.empty.write 0 (List.replicate (2 * physicalBlockSize) 0) = start at log zeros blank
  have size : img.size = 2 * physicalBlockSize := by
    rw [log, Image.write_size_of_inside, zeros]
    rw [WalEntryHeader.length_encode reserved, zeros]
    decide
  rw [size] at whole
  rcases Nat.lt_or_ge slot 1 with first | later
  · left
    have zero : slot = 0 := by omega
    subst zero
    have still := blank.write hdr.encode (Nat.le_of_eq (Nat.one_mul walBlockSize).symm)
    rw [← log] at still
    exact still.no_magic
  · right
    have one : slot = 1 := by
      unfold walBlockSize physicalBlockSize WalEntryHeader.bytes at whole
      omega
    subst one
    rw [log]
    exact (headerAt_write _ 1 _ reserved).1

/-- The second block on the small disk is written without an entry. -/
theorem full_log_passed_over : ¬ ∀ closed d : DiskManager, closed.openExisting = (.ok, d) → 2 ≤ d.wal.walBlocks →
    ∀ calls, EachCall Ruled d calls := by
  intro claim
  obtain ⟨closed, fresh, opened, ⟨started, modest, blocks⟩, accepts, wal, log⟩ : ∃ closed fresh : DiskManager,
      closed.openExisting = (.ok, fresh) ∧ (Started fresh ∧ Modest fresh.superblock ∧
        fresh.superblock.dataBlocks.toNat = 6) ∧ fresh.wal.Accepts ∧
        fresh.wal = { walBlocks := 2, nextSeq := 1, file := ⟨true, false⟩ } ∧
        fresh.world.files .wal = Image.empty.write 0 (List.replicate (2 * physicalBlockSize) 0) :=
    ⟨_, smallDisk, smallDisk_opened, smallDisk_spec, smallDisk_accepts, smallDisk_log⟩
  have numbered := numbered_of_open opened
  have ruled := claim _ _ opened (Nat.le_of_eq (congrArg WalManager.walBlocks wal).symm)
    [.write 5 .l0 [] 0 0 {}, .write 6 .l0 [] 0 0 {}]
  -- The first block takes the second slot of the log.
  obtain ⟨holds, blank, -⟩ := started.holds modest
  have room := BlockBitmap.allocate_of_blank (b := fresh.bitmap) (by decide : 0 < calcPhysicalBlocks 0)
    (Nat.le_trans (by decide : _ ≤ 6) (Nat.le_of_eq (blocks.symm.trans holds.ready.numBlocks.symm))) blank
  have found := target_of_room holds.ready room
  have wal' := wal_of_accepts numbered accepts found 5 .l0 [] 0
  obtain ⟨-, -, log'⟩ := (@log_of_logged _ _ _ numbered accepts _ found 5 .l0 [] 0 {} rfl Access.taken_whole).resolve_right
    fun lost => lost.1 ⟨rfl, trivial⟩
  obtain ⟨b, d, result, -, -, superblock, bits, holds'⟩ := started.write modest (by omega) 5
  rw [result, wal] at wal'
  rw [result, wal, log] at log'
  -- The second one finds it full, and no entry of its own.
  obtain ⟨start, bitmap, room'⟩ := @BlockBitmap.allocate_of_free d.bitmap _ 1
    (by decide : 0 < calcPhysicalBlocks 0) (Nat.le_trans (by decide : _ ≤ 6)
      (Nat.le_of_eq (by rw [holds'.ready.numBlocks, superblock, blocks])))
    fun j after _ => by rw [bits, decide_eq_false (by omega)]
  have second := (ruled_iff (numbered_exec numbered (.write 5 .l0 [] 0 0 {})) _).mp ruled.2.1
  rw [show Call.exec fresh (.write 5 .l0 [] 0 0 {}) = d from congrArg Prod.snd result] at second
  have full : ¬ d.wal.Accepts := by
    rw [wal']
    decide
  rcases second _ _ (target_of_room holds'.ready room') nofun with ⟨accepts', -⟩ | ⟨slot, entry, -⟩
  · exact full accepts'
  · rw [logAtWrite, if_neg full] at entry
    rcases slots_of_entry rfl log' entry.whole with none | five
    · exact none entry.magic
    · have six := entry.blockId
      rw [five] at six
      exact absurd (show (5 : UInt64) = 6 from six) (by decide)

end WriteAhead

end OpenFS
