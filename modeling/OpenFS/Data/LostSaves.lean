import OpenFS.Data.FreshDisk

/-!
# Writes of the device that fail

`WriteBlock` and `DeleteBlock` when each `WriteAt` may fail. The status of the block's
write is looked at, and an allocation that comes to nothing is taken back. That of
`SaveBitmap` is not, so a call is acknowledged whether or not the device knows.
-/

namespace OpenFS

open ByteImage FileLog

/-! ## An allocation that is taken back -/

namespace BlockBitmap

theorem eq_of_getBit {bm bm' : List UInt8} (length : bm.length = bm'.length)
    (bits : ∀ j, getBit bm j = getBit bm' j) : bm = bm' := by
  apply List.ext_getElem length
  intro i h h'
  rw [← UInt8.toNat_inj]
  apply Nat.eq_of_testBit_eq
  intro k
  by_cases inside : k < 8
  · have bit := bits (8 * i + k)
    unfold getBit at bit
    rw [show (8 * i + k) / 8 = i by omega, show (8 * i + k) % 8 = k by omega] at bit
    simpa [List.getD_eq_getElem?_getD, h, h'] using bit
  · have big : 2 ^ 8 ≤ 2 ^ k := Nat.pow_le_pow_right (by decide) (by omega)
    rw [Nat.testBit_lt_two_pow (Nat.lt_of_lt_of_le bm[i].toNat_lt big),
      Nat.testBit_lt_two_pow (Nat.lt_of_lt_of_le bm'[i].toNat_lt big)]

/-- Freeing what was just allocated gives the old bitmap. -/
theorem free_of_allocate {b b' : BlockBitmap} (wf : b.Wf) (short : b.numBlocks ≤ 2 ^ 64) {count start : Nat}
    (room : b.allocate count = some (start, b')) : b'.free start count = b := by
  obtain ⟨-, inside, isFree, rfl⟩ := allocate_eq_some room
  have same : clearRange (setRange b.bitmap start count) b.numBlocks start count = b.bitmap := by
    apply eq_of_getBit
    · rw [length_clearRange, length_setRange]
    · intro j
      rw [getBit_clearRange (by omega), getBit_setRange (by unfold Wf at wf; omega)]
      by_cases within : start ≤ j ∧ j < start + count
      · have below : j < b.numBlocks := by omega
        simp [isFree j within.1 within.2, within, below]
      · have outside : ¬ (start ≤ j ∧ j < start + count ∧ j < b.numBlocks) := fun all => within ⟨all.1, all.2.1⟩
        simp only [within, outside, decide_false, Bool.or_false, Bool.not_false, Bool.and_true]
  unfold free
  rw [same]

end BlockBitmap

/-! ## The operations over any device -/

namespace DiskManager

/-- What may stand for `WriteAt`. -/
abbrev DeviceWrite := DiskManager → Nat → List UInt8 → Status × DiskManager

def saveBitmapWith (save : DeviceWrite) (d : DiskManager) : Status × DiskManager :=
  save d d.superblock.bitmapOffset.toNat (savedBytes d.bitmap)

/-- `WriteBlock`, for the write of the block and that of the bitmap. -/
def writeBlockWith (write save : DeviceWrite) (d : DiskManager) (blockId : UInt64) (level : BlkLevel)
    (data : List UInt8) (dataSize crc32 : UInt32) : Except Status Nat × DiskManager :=
  if d.state ≠ .normal then (.error .internal, d)
  else
    let physBlocks := calcPhysicalBlocks dataSize
    match d.bitmap.allocate physBlocks with
    | none => (.error .noSpace, d)
    | some (startBlock, bitmap) =>
      let offset := u64 (d.superblock.dataOffset.toNat + startBlock * physicalBlockSize)
      let (seq, d) := logIntent { d with bitmap := bitmap } blockId (UInt64.ofNat offset) dataSize crc32
      match write d offset
        (writeBuf (blockHeader blockId level dataSize crc32) physBlocks (data.take dataSize.toNat)) with
      | (.ok, d) => (.ok offset, ((d.commitIntent seq).saveBitmapWith save).2)
      | (s, d) => (.error s, { d with bitmap := d.bitmap.free startBlock physBlocks })

def deleteBlockWith (save : DeviceWrite) (d : DiskManager) (offset : Nat) (dataSize : UInt32) :
    Status × DiskManager :=
  if d.state ≠ .normal then (.internal, d)
  else
    let d := { d with bitmap := d.bitmap.free (startBlock d.superblock offset) (calcPhysicalBlocks dataSize) }
    (.ok, (d.saveBitmapWith save).2)

/-- With the block IO engine they are the operations of the disk. -/
theorem writeBlockWith_writeAt (d : DiskManager) (blockId : UInt64) (level : BlkLevel) (data : List UInt8)
    (dataSize crc32 : UInt32) :
    writeBlockWith writeAt writeAt d blockId level data dataSize crc32 =
      d.writeBlock blockId level data dataSize crc32 :=
  rfl

theorem deleteBlockWith_writeAt (d : DiskManager) (offset : Nat) (dataSize : UInt32) :
    deleteBlockWith writeAt d offset dataSize = d.deleteBlock offset dataSize := rfl

/-- A `WriteAt` that is applied as a whole, or fails without a trace. -/
def outcome (applied : Bool) : DeviceWrite := fun d offset data =>
  if applied then (.ok, { d with world := d.world.perform (.write .device offset data) }) else (.ioError, d)

end DiskManager

namespace LostSaves

open DiskManager DiskFormatter

/-- A call, and which of its device writes are applied. A block of more bytes than the
condition leaves has no buffer that it fits into. -/
inductive Call
  | write (blockId : UInt64) (level : BlkLevel) (data : List UInt8) (dataSize crc32 : UInt32)
      (fits : diskBlockHeaderSize + dataSize.toNat + physicalBlockSize ≤ 2 ^ 32) (written saved : Bool)
  | delete (offset : UInt64) (dataSize : UInt32) (saved : Bool)

namespace Call

def exec (d : DiskManager) : Call → DiskManager
  | .write blockId level data dataSize crc32 _ written saved =>
    (d.writeBlockWith (outcome written) (outcome saved) blockId level data dataSize crc32).2
  | .delete offset dataSize saved => (d.deleteBlockWith (outcome saved) offset.toNat dataSize).2

end Call

/-- A disk that is open on a layout with a bit for every data block. -/
structure Formed (d : DiskManager) : Prop where
  suitable : Suitable d.superblock
  numBlocks : d.bitmap.numBlocks = d.superblock.dataBlocks.toNat
  length : d.bitmap.bitmap.length = bitmapLength d.superblock

/-- The block lies at the offset, and its bits are set on the device. -/
structure OnDevice (sb : DiskSuperBlock) (device : Image) (offset : Nat) (hdr : DiskBlockHeader)
    (payload : List UInt8) (count : Nat) : Prop where
  content : device.bytes offset (diskBlockHeaderSize + payload.length) = hdr.used ++ payload
  bits : ∀ j, startBlock sb offset ≤ j → j < startBlock sb offset + count → deviceBit device j = true

/-- What the status of a call promises. -/
def Promised (d : DiskManager) : Call → Prop
  | .write blockId level data dataSize crc32 _ written saved =>
    (∀ offset d', d.writeBlockWith (outcome written) (outcome saved) blockId level data dataSize crc32 =
      (.ok offset, d') →
      OnDevice d.superblock (d'.world.files .device) offset (blockHeader blockId level dataSize crc32)
        (data.take dataSize.toNat) (calcPhysicalBlocks dataSize)) ∧
    (∀ s d', d.writeBlockWith (outcome written) (outcome saved) blockId level data dataSize crc32 =
      (.error s, d') →
      d'.bitmap = d.bitmap)
  | .delete offset dataSize saved =>
    ∀ d', d.deleteBlockWith (outcome saved) offset.toNat dataSize = (.ok, d') →
      ∀ j, startBlock d.superblock offset.toNat ≤ j →
        j < startBlock d.superblock offset.toNat + calcPhysicalBlocks dataSize →
          j < d.superblock.dataBlocks.toNat →
        deviceBit (d'.world.files .device) j = false

/-- The bit is among those that are saved. -/
def Reached (d : DiskManager) (saved : Bool) (j : Nat) : Prop := saved = true ∧ j < 8 * u32 d.bitmap.bitmap.length

/-- The device learns the bits that a call changes, or has them already. -/
def Recorded (d : DiskManager) : Call → Prop
  | .write _ _ _ dataSize _ _ written saved =>
    d.state = .normal → written = true →
      ∀ start bitmap, d.bitmap.allocate (calcPhysicalBlocks dataSize) = some (start, bitmap) →
      ∀ j, start ≤ j → j < start + calcPhysicalBlocks dataSize →
        Reached d saved j ∨ deviceBit (d.world.files .device) j = true
  | .delete offset dataSize saved =>
    d.state = .normal → ∀ j, startBlock d.superblock offset.toNat ≤ j →
      j < startBlock d.superblock offset.toNat + calcPhysicalBlocks dataSize → j < d.superblock.dataBlocks.toNat →
        Reached d saved j ∨ deviceBit (d.world.files .device) j = false

/-- `P` holds of every call of a run, in the state in which it is made. -/
def Throughout (P : DiskManager → Call → Prop) (d : DiskManager) : List Call → Prop
  | [] => True
  | c :: calls => P d c ∧ Throughout P (c.exec d) calls

/-! ## One call -/

section
variable {d : DiskManager}

theorem logIntent_device (d : DiskManager) (blockId dataOffset : UInt64) (dataSize crc32 : UInt32) :
    ∃ seq wal w, d.logIntent blockId dataOffset dataSize crc32 = (seq, { d with wal := wal, world := w }) ∧
      w.files .device = d.world.files .device := by
  unfold logIntent
  split
  · by_cases accepts : d.wal.Accepts
    · rw [WalManager.appendEntry_of_accepts accepts]
      exact ⟨_, _, _, rfl, d.world.perform_files_of_other (by nofun)⟩
    · obtain ⟨s, file, refused, -⟩ := WalManager.appendEntry_of_refused accepts d.world .wal blockId dataOffset
        dataSize crc32
      rw [refused]
      exact ⟨_, _, _, rfl, rfl⟩
  · exact ⟨0, d.wal, d.world, rfl, rfl⟩

theorem commitIntent_device (d : DiskManager) (seq : Nat) :
    ∃ wal w, d.commitIntent seq = { d with wal := wal, world := w } ∧ w.files .device = d.world.files .device := by
  unfold commitIntent
  split
  · obtain ⟨s, file, effects, result, -, log⟩ := d.wal.commitEntry_cases d.world .wal seq
    rw [result]
    refine ⟨_, _, rfl, performAll_of_other ?_⟩
    rcases log with ⟨-, rfl⟩ | ⟨-, -, -, rfl⟩
    · exact List.forall_mem_nil _
    · exact List.forall_mem_singleton.mpr (by nofun)
  · exact ⟨d.wal, d.world, rfl, rfl⟩

theorem saveBitmap_device (d : DiskManager) (laid : Laid d.superblock) (saved : Bool) :
    ∃ w, (d.saveBitmapWith (outcome saved)).2 = { d with world := w } ∧ w.files .device =
      if saved then (d.world.files .device).write superBlockSize (savedBytes d.bitmap)
        else d.world.files .device := by
  unfold saveBitmapWith outcome
  rw [laid.bitmapOffset]
  cases saved with
  | true => exact ⟨_, rfl, World.perform_write_files ..⟩
  | false => exact ⟨d.world, rfl, rfl⟩

/-- What a write makes of the disk that has room for it. -/
theorem write_of_room (formed : Formed d) (normal : d.state = .normal) {dataSize : UInt32} {start : Nat}
    {bitmap : BlockBitmap} (room : d.bitmap.allocate (calcPhysicalBlocks dataSize) = some (start, bitmap))
    (blockId : UInt64) (level : BlkLevel) (data : List UInt8) (crc32 : UInt32) (written saved : Bool) :
    ∃ wal w, d.writeBlockWith (outcome written) (outcome saved) blockId level data dataSize crc32 =
        (if written then .ok (blockOffset d.superblock start) else .error .ioError,
          { d with bitmap := if written then bitmap else d.bitmap, wal := wal, world := w }) ∧
      (written = true → w.files .device =
        let device := (d.world.files .device).write (blockOffset d.superblock start)
          (writeBuf (blockHeader blockId level dataSize crc32) (calcPhysicalBlocks dataSize)
            (data.take dataSize.toNat))
        if saved then device.write superBlockSize (savedBytes bitmap) else device) := by
  have laid := formed.suitable.laid
  have blocks := dataBlocks_le laid
  obtain ⟨-, inside, -, -⟩ := BlockBitmap.allocate_eq_some room
  have seek : blockOffset d.superblock start < 2 ^ 63 := by
    apply blockOffset_lt formed.suitable.reach
    rw [← formed.numBlocks]
    obtain ⟨pos, -, -, -⟩ := BlockBitmap.allocate_eq_some room
    omega
  have offset : u64 (d.superblock.dataOffset.toNat + start * physicalBlockSize) = blockOffset d.superblock start :=
    Nat.mod_eq_of_lt (Nat.lt_trans seek (by decide))
  obtain ⟨seq, wal, w, logged, device⟩ := logIntent_device { d with bitmap := bitmap } blockId
    (UInt64.ofNat (blockOffset d.superblock start)) dataSize crc32
  unfold writeBlockWith
  rw [if_neg (by simp [normal])]
  simp only [room]
  rw [offset, logged]
  cases written with
  | false =>
    have back : bitmap.free start (calcPhysicalBlocks dataSize) = d.bitmap := by
      refine BlockBitmap.free_of_allocate ?_ ?_ room
      · unfold BlockBitmap.Wf
        rw [formed.numBlocks, formed.length]
        exact blocks
      · have small := laid.blocks
        rw [formed.numBlocks]
        omega
    refine ⟨wal, w, ?_, nofun⟩
    unfold outcome
    simp only [Bool.false_eq_true, if_false, back]
  | true =>
    unfold outcome
    simp only [if_true]
    obtain ⟨wal', w', committed, device'⟩ := commitIntent_device
      { d with bitmap := bitmap, wal := wal, world := w.perform (.write .device (blockOffset d.superblock start)
        (writeBuf (blockHeader blockId level dataSize crc32) (calcPhysicalBlocks dataSize)
          (data.take dataSize.toNat))) } seq
    rw [committed]
    obtain ⟨w'', stored, device''⟩ := saveBitmap_device
      { d with bitmap := bitmap, wal := wal', world := w' } laid saved
    unfold outcome at stored
    rw [stored]
    refine ⟨wal', w'', rfl, fun _ => ?_⟩
    rw [device'']
    dsimp only
    rw [device', World.perform_write_files, device]

/-- Deleting does the same with the bits it clears. -/
theorem delete_of_normal (formed : Formed d) (normal : d.state = .normal) (offset : Nat) (dataSize : UInt32)
    (saved : Bool) :
    let bitmap := d.bitmap.free (startBlock d.superblock offset) (calcPhysicalBlocks dataSize)
    ∃ w, d.deleteBlockWith (outcome saved) offset dataSize = (.ok, { d with bitmap := bitmap, world := w }) ∧
      w.files .device =
        if saved then (d.world.files .device).write superBlockSize (savedBytes bitmap)
          else d.world.files .device := by
  intro bitmap
  obtain ⟨w, stored, device⟩ := saveBitmap_device { d with bitmap := bitmap } formed.suitable.laid saved
  refine ⟨w, ?_, device⟩
  unfold deleteBlockWith
  rw [if_neg (by simp [normal])]
  dsimp only
  rw [stored]

theorem deviceBit_write_of_outside (device : Image) {off : Nat} {bs : List UInt8} {j : Nat}
    (outside : superBlockSize + j / 8 < off ∨ off + bs.length ≤ superBlockSize + j / 8) :
    deviceBit (device.write off bs) j = deviceBit device j := by
  unfold deviceBit
  rw [Image.write_byte_of_outside outside]

/-- The bits on the device after the bitmap was saved, or not. -/
theorem deviceBit_save (device : Image) {b : BlockBitmap} (length : b.bitmap.length = d.bitmap.bitmap.length)
    (saved : Bool) (j : Nat) :
    (Reached d saved j →
      deviceBit (if saved then device.write superBlockSize (savedBytes b) else device) j =
        BlockBitmap.getBit b.bitmap j) ∧
    (¬ Reached d saved j →
      deviceBit (if saved then device.write superBlockSize (savedBytes b) else device) j =
        deviceBit device j) := by
  have bytes : (savedBytes b).length = u32 d.bitmap.bitmap.length := by
    unfold savedBytes
    rw [List.length_take, length]
    exact Nat.min_eq_left (Nat.mod_le _ _)
  unfold Reached
  cases saved with
  | false => exact ⟨fun reached => absurd reached.1 (by decide), fun _ => rfl⟩
  | true =>
    refine ⟨fun reached => deviceBit_saved device b (by omega), fun beyond => ?_⟩
    have past : ¬ j < 8 * u32 d.bitmap.bitmap.length := fun inside => beyond ⟨rfl, inside⟩
    exact deviceBit_write_of_outside device (.inr (by omega))

/-- The bits of the blocks lie in front of the data area. -/
theorem bit_before (suitable : Suitable d.superblock) {j start : Nat}
    (inside : j < d.superblock.dataBlocks.toNat) :
    superBlockSize + j / 8 < blockOffset d.superblock start := by
  have roomy := suitable.roomy
  have layout := suitable.laid.dataOffset
  have area := @dataOffset_le d.superblock start
  omega

/-- The block is where the write put it: the bitmap ends in front of it. -/
theorem content_of_write (formed : Formed d) (device : Image) {b : BlockBitmap}
    (length : b.bitmap.length = d.bitmap.bitmap.length) {hdr : DiskBlockHeader} {physBlocks : Nat}
    {payload : List UInt8}
    (fits : diskBlockHeaderSize + payload.length ≤ u32 (physBlocks * physicalBlockSize)) (start : Nat)
    (saved : Bool) :
    let written := device.write (blockOffset d.superblock start) (writeBuf hdr physBlocks payload)
    (if saved then written.write superBlockSize (savedBytes b) else written).bytes (blockOffset d.superblock start)
      (diskBlockHeaderSize + payload.length) = hdr.used ++ payload := by
  intro written
  have whole : written.bytes (blockOffset d.superblock start) (diskBlockHeaderSize + payload.length) =
      hdr.used ++ payload := by
    have block := Image.bytes_write_same device (blockOffset d.superblock start) (writeBuf hdr physBlocks payload)
    rw [length_writeBuf] at block
    rw [← take_writeBuf fits, ← block, Image.take_bytes _ _ _ _ fits]
  cases saved with
  | false => exact whole
  | true =>
    have bytes := length_savedBytes (length.trans formed.length)
    have cut : u32 (bitmapLength d.superblock) ≤ bitmapLength d.superblock := Nat.mod_le _ _
    have region := bitmapLength_le formed.suitable
    have layout := formed.suitable.laid.dataOffset
    have area := @dataOffset_le d.superblock start
    simp only [if_true]
    rw [Image.bytes_write_of_disjoint (.inr (by omega))]
    exact whole

theorem payload_fits {dataSize : UInt32} (fits : diskBlockHeaderSize + dataSize.toNat + physicalBlockSize ≤ 2 ^ 32)
    (data : List UInt8) : diskBlockHeaderSize + (data.take dataSize.toNat).length ≤
      u32 (calcPhysicalBlocks dataSize * physicalBlockSize) := by
  have short := List.length_take_le dataSize.toNat data
  unfold calcPhysicalBlocks u32
  unfold diskBlockHeaderSize physicalBlockSize at *
  omega

theorem room_cases (d : DiskManager) (dataSize : UInt32) :
    (d.state = .normal → d.bitmap.allocate (calcPhysicalBlocks dataSize) = none) ∨
      d.state = .normal ∧
        ∃ start bitmap, d.bitmap.allocate (calcPhysicalBlocks dataSize) = some (start, bitmap) := by
  cases room : d.bitmap.allocate (calcPhysicalBlocks dataSize) with
  | none => exact .inl fun _ => rfl
  | some found =>
    by_cases normal : d.state = .normal
    · exact .inr ⟨normal, found.1, found.2, rfl⟩
    · exact .inl fun isNormal => absurd isNormal normal

/-- A call that finds no room, or a disk that is not open, changes nothing. -/
theorem write_refused {dataSize : UInt32} (refused : d.state = .normal →
    d.bitmap.allocate (calcPhysicalBlocks dataSize) = none) (write save : DeviceWrite) (blockId : UInt64)
    (level : BlkLevel) (data : List UInt8) (crc32 : UInt32) :
    ∃ s, d.writeBlockWith write save blockId level data dataSize crc32 = (.error s, d) := by
  unfold writeBlockWith
  by_cases normal : d.state = .normal
  · rw [if_neg (by simp [normal])]
    simp only [refused normal]
    exact ⟨_, rfl⟩
  · exact ⟨_, if_pos normal⟩

/-- The bits of a block that was written. -/
theorem bits_of_write (formed : Formed d) {dataSize : UInt32} {start : Nat} {bitmap : BlockBitmap}
    (room : d.bitmap.allocate (calcPhysicalBlocks dataSize) = some (start, bitmap)) (block : List UInt8)
    (saved : Bool)
    {j : Nat} (low : start ≤ j) (high : j < start + calcPhysicalBlocks dataSize) :
    let device := (d.world.files .device).write (blockOffset d.superblock start) block
    deviceBit (if saved then device.write superBlockSize (savedBytes bitmap) else device) j = true ↔
      Reached d saved j ∨ deviceBit (d.world.files .device) j = true := by
  intro device
  obtain ⟨-, inside, -, rfl⟩ := BlockBitmap.allocate_eq_some room
  have blocks := dataBlocks_le formed.suitable.laid
  rw [formed.numBlocks] at inside
  have set : BlockBitmap.getBit (BlockBitmap.setRange d.bitmap.bitmap start (calcPhysicalBlocks dataSize))
      j = true := by
    rw [BlockBitmap.getBit_setRange (by rw [formed.length]; omega)]
    simp [low, high]
  have before := @bit_before d formed.suitable j start (by omega)
  obtain ⟨reached, beyond⟩ := @deviceBit_save d device
    { d.bitmap with bitmap := BlockBitmap.setRange d.bitmap.bitmap start (calcPhysicalBlocks dataSize) }
    (BlockBitmap.length_setRange ..) saved j
  by_cases learned : Reached d saved j
  · rw [reached learned, set]
    exact ⟨fun _ => .inl learned, fun _ => rfl⟩
  · rw [beyond learned, deviceBit_write_of_outside _ (.inl before)]
    exact ⟨.inr, fun all => all.resolve_left learned⟩

/-- The bits of a block that was deleted. -/
theorem bits_of_delete (formed : Formed d) {start count : Nat} (short : start + count ≤ 2 ^ 64) (device : Image)
    (saved : Bool) {j : Nat} (low : start ≤ j) (high : j < start + count)
    (inside : j < d.superblock.dataBlocks.toNat) :
    deviceBit (if saved then device.write superBlockSize (savedBytes (d.bitmap.free start count))
      else device) j = false ↔
      Reached d saved j ∨ deviceBit device j = false := by
  have cleared : BlockBitmap.getBit (d.bitmap.free start count).bitmap j = false := by
    unfold BlockBitmap.free
    dsimp only
    rw [BlockBitmap.getBit_clearRange short, formed.numBlocks]
    simp [low, high, inside]
  obtain ⟨reached, beyond⟩ := @deviceBit_save d device (d.bitmap.free start count)
    (BlockBitmap.length_clearRange ..)
    saved j
  by_cases learned : Reached d saved j
  · rw [reached learned, cleared]
    exact ⟨fun _ => .inl learned, fun _ => rfl⟩
  · rw [beyond learned]
    exact ⟨.inr, fun all => all.resolve_left learned⟩

theorem promised_write_iff (formed : Formed d) (blockId : UInt64) (level : BlkLevel) (data : List UInt8)
    (dataSize crc32 : UInt32) (fits : diskBlockHeaderSize + dataSize.toNat + physicalBlockSize ≤ 2 ^ 32)
    (written saved : Bool) : Promised d (.write blockId level data dataSize crc32 fits written saved) ↔
      Recorded d (.write blockId level data dataSize crc32 fits written saved) := by
  rcases room_cases d dataSize with refused | ⟨normal, start, bitmap, room⟩
  · obtain ⟨s, result⟩ := write_refused refused (outcome written) (outcome saved) blockId level data crc32
    refine ⟨fun _ normal _ start bitmap room => ?_, fun _ => ⟨fun offset d' same => ?_, fun s' d' same => ?_⟩⟩
    · rw [refused normal] at room
      cases room
    · rw [result] at same
      cases same
    · rw [result] at same
      cases same
      rfl
  · obtain ⟨wal, w, result, device⟩ := write_of_room formed normal room blockId level data crc32 written saved
    obtain ⟨pos, inside, -, made⟩ := BlockBitmap.allocate_eq_some room
    rw [formed.numBlocks] at inside
    have first : startBlock d.superblock (blockOffset d.superblock start) = start :=
      startBlock_blockOffset (Nat.le_of_lt (blockOffset_lt formed.suitable.reach (by omega)))
    have length : bitmap.bitmap.length = d.bitmap.bitmap.length := by rw [made, BlockBitmap.length_setRange]
    cases written with
    | false =>
      refine ⟨fun _ _ no => (by cases no), fun _ => ⟨fun offset d' same => ?_, fun s' d' same => ?_⟩⟩
      · rw [result] at same
        cases same
      · rw [result] at same
        cases same
        rfl
    | true =>
      constructor
      · rintro ⟨durable, -⟩ - - start' bitmap' same j low high
        cases room.symm.trans same
        have set := (durable _ _ result).bits j (by omega) (by omega)
        rw [device rfl] at set
        exact (bits_of_write formed room _ saved low high).mp set
      · intro recorded
        refine ⟨fun offset d' same => ?_, fun s' d' same => ?_⟩
        · rw [result] at same
          cases same
          rw [device rfl]
          refine ⟨content_of_write formed _ length (payload_fits fits data) start saved, fun j low high => ?_⟩
          rw [first] at low high
          exact (bits_of_write formed room _ saved low high).mpr
            (recorded normal rfl start bitmap room j low high)
        · rw [result] at same
          cases same

theorem promised_delete_iff (formed : Formed d) (offset : UInt64) (dataSize : UInt32) (saved : Bool) :
    Promised d (.delete offset dataSize saved) ↔ Recorded d (.delete offset dataSize saved) := by
  by_cases normal : d.state = .normal
  · obtain ⟨w, result, device⟩ := delete_of_normal formed normal offset.toNat dataSize saved
    have short : startBlock d.superblock offset.toNat + calcPhysicalBlocks dataSize ≤ 2 ^ 64 := by
      have first : startBlock d.superblock offset.toNat < 2 ^ 63 :=
        Nat.div_lt_of_lt_mul (Nat.lt_trans (Nat.mod_lt _ (by decide))
          (by decide : 2 ^ 64 < physicalBlockSize * 2 ^ 63))
      have count : calcPhysicalBlocks dataSize < 2 ^ 32 := Nat.mod_lt _ (by decide)
      omega
    constructor
    · intro promised _ j low high inside
      have clear := promised _ result j low high inside
      rw [device] at clear
      exact (bits_of_delete formed short _ saved low high inside).mp clear
    · intro recorded d' same j low high inside
      rw [result] at same
      cases same
      rw [device]
      exact (bits_of_delete formed short _ saved low high inside).mpr (recorded normal j low high inside)
  · have refused : d.deleteBlockWith (outcome saved) offset.toNat dataSize = (.internal, d) := if_pos normal
    refine ⟨fun _ isNormal => absurd isNormal normal, fun _ d' same => ?_⟩
    rw [refused] at same
    cases same

/-- A call keeps its promise exactly if the device learns its bits, or has them. -/
theorem promised_iff (formed : Formed d) (c : Call) : Promised d c ↔ Recorded d c := by
  cases c with
  | write blockId level data dataSize crc32 fits written saved => exact promised_write_iff formed ..
  | delete offset dataSize saved => exact promised_delete_iff formed ..

/-! ## A run -/

/-- The calls leave the layout and the sizes of the bitmap. -/
theorem Formed.exec (formed : Formed d) (c : Call) : Formed (c.exec d) := by
  have laid := formed.suitable.laid
  cases c with
  | write blockId level data dataSize crc32 fits written saved =>
    show Formed (d.writeBlockWith (outcome written) (outcome saved) blockId level data dataSize crc32).2
    rcases room_cases d dataSize with refused | ⟨normal, start, bitmap, room⟩
    · obtain ⟨s, result⟩ := write_refused refused (outcome written) (outcome saved) blockId level data crc32
      rw [result]
      exact formed
    · obtain ⟨wal, w, result, -⟩ := write_of_room formed normal room blockId level data crc32 written saved
      obtain ⟨-, -, -, made⟩ := BlockBitmap.allocate_eq_some room
      rw [result]
      cases written with
      | false => exact ⟨formed.suitable, formed.numBlocks, formed.length⟩
      | true =>
        refine ⟨formed.suitable, ?_, ?_⟩
        · show bitmap.numBlocks = _
          rw [made]
          exact formed.numBlocks
        · show bitmap.bitmap.length = _
          rw [made, BlockBitmap.length_setRange]
          exact formed.length
  | delete offset dataSize saved =>
    show Formed (d.deleteBlockWith (outcome saved) offset.toNat dataSize).2
    by_cases normal : d.state = .normal
    · obtain ⟨w, result, -⟩ := delete_of_normal formed normal offset.toNat dataSize saved
      rw [result]
      exact ⟨formed.suitable, formed.numBlocks, (BlockBitmap.length_clearRange ..).trans formed.length⟩
    · rw [show d.deleteBlockWith (outcome saved) offset.toNat dataSize = (.internal, d) from if_pos normal]
      exact formed

/-- Opening a device gives such a disk, whatever its bitmap and its data are. -/
theorem formed_of_open {sb : DiskSuperBlock} (suitable : Suitable sb) (closed : d.io.isOpen = false)
    (openable : Openable sb (d.world.files .device)) : d.openExisting.1 = .ok ∧ Formed d.openExisting.2 := by
  rw [openExisting_of_openable closed openable]
  exact ⟨rfl, suitable, rfl, length_load _⟩

/-- **Through a run every status is kept exactly if** each call finds the device informed
of its bits, by the save or from before. -/
theorem kept_through_run_iff (formed : Formed d) (calls : List Call) :
    Throughout Promised d calls ↔ Throughout Recorded d calls := by
  induction calls generalizing d with
  | nil => exact Iff.rfl
  | cons c calls ih => exact and_congr (promised_iff formed c) (ih (formed.exec c))

end

theorem formed_smallDisk : Formed smallDisk := by
  obtain ⟨started, modest, -⟩ := smallDisk_spec
  obtain ⟨holds, -, -⟩ := started.holds modest
  exact ⟨holds.suitable, holds.ready.numBlocks, holds.length⟩

/-- A block that is written and saved. -/
theorem kept_on_smallDisk :
    Throughout Promised smallDisk [.write 5 .l0 [] 0 0 (by decide) true true] ↔
      Throughout Recorded smallDisk [.write 5 .l0 [] 0 0 (by decide) true true] :=
  kept_through_run_iff formed_smallDisk _

/-- On a fresh disk the block is written and its bit is not. -/
theorem acknowledged_without_bitmap :
    ¬ ∀ (d : DiskManager) (calls : List Call), Formed d → Throughout Promised d calls := by
  intro claim
  obtain ⟨started, modest, blocks⟩ := smallDisk_spec
  obtain ⟨holds, blank, zeros⟩ := started.holds modest
  have promised := (claim smallDisk [.write 5 .l0 [] 0 0 (by decide) true false] formed_smallDisk).1
  have recorded := (promised_iff formed_smallDisk _).mp promised
  have fits : 1 ≤ smallDisk.bitmap.numBlocks := by
    rw [holds.ready.numBlocks, blocks]
    decide
  have room : smallDisk.bitmap.allocate (calcPhysicalBlocks 0) = _ :=
    BlockBitmap.allocate_of_blank (by decide : 0 < 1) fits blank
  rcases recorded holds.ready.normal rfl 0 _ room 0 (Nat.le_refl _) (by decide) with ⟨saved, -⟩ | set
  · cases saved
  · unfold deviceBit at set
    rw [zeros _ (by decide)] at set
    cases set

end LostSaves

end OpenFS
