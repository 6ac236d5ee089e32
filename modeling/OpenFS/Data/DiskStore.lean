import OpenFS.Data.Ledger

/-!
# A disk keeps its ledger

`Holds` ties a disk that is open to the ledger of its blocks: the files hold them,
and their bits are set in memory. Each operation keeps it, and each one's effects are
safe for the blocks that have to survive it.
-/

namespace OpenFS

open ByteImage FileLog DiskManager DiskFormatter

structure Holds (live : List StoredBlock) (d : DiskManager) : Prop where
  ready : d.Ready
  suitable : Suitable d.superblock
  placed : Placed d.superblock live
  stored : Stored d.superblock live d.world.files
  length : d.bitmap.bitmap.length = bitmapLength d.superblock
  marked : ∀ b ∈ live, ∀ j, b.Covers d.superblock j → BlockBitmap.getBit d.bitmap.bitmap j = true

/-! ## The bitmap on the device -/

section
variable {sb : DiskSuperBlock} {live : List StoredBlock}

theorem needed_eq (laid : Laid sb) : BlockBitmap.needed sb.dataBlocks.toNat = (sb.dataBlocks.toNat + 7) / 8 := by
  have blocks := laid.blocks
  unfold BlockBitmap.needed
  rw [show u64 (sb.dataBlocks.toNat + 7) = sb.dataBlocks.toNat + 7 from Nat.mod_eq_of_lt (by omega)]

theorem bitmapLength_le (suitable : Suitable sb) :
    bitmapLength sb ≤ sb.bitmapBlocks.toNat * physicalBlockSize := by
  have loaded : loadedBytes sb ≤ sb.bitmapBlocks.toNat * physicalBlockSize := Nat.mod_le _ _
  have needed := needed_eq suitable.laid
  have roomy := suitable.roomy
  unfold bitmapLength
  omega

theorem dataBlocks_le (laid : Laid sb) : sb.dataBlocks.toNat ≤ 8 * bitmapLength sb := by
  have needed := needed_eq laid
  unfold bitmapLength
  omega

theorem length_savedBytes {b : BlockBitmap} (length : b.bitmap.length = bitmapLength sb) :
    (savedBytes b).length = u32 (bitmapLength sb) := by
  unfold savedBytes
  rw [List.length_take, length]
  exact Nat.min_eq_left (Nat.mod_le _ _)

/-- A bitmap in which all blocks are marked may be saved. -/
theorem safe_bitmap (suitable : Suitable sb) {b : BlockBitmap} (length : b.bitmap.length = bitmapLength sb)
    (marked : ∀ c ∈ live, ∀ j, c.Covers sb j → BlockBitmap.getBit b.bitmap j = true) :
    Safe sb live (.write .device superBlockSize (savedBytes b)) := by
  have saved := length_savedBytes length
  have cut : u32 (bitmapLength sb) ≤ bitmapLength sb := Nat.mod_le _ _
  refine .bitmap (Nat.le_trans (by omega) (bitmapLength_le suitable)) fun c member j covers below => ?_
  have slot : j / 8 < (savedBytes b).length := by
    unfold persistedBits at below
    omega
  refine ⟨by omega, ?_⟩
  have set := marked c member j covers
  unfold BlockBitmap.getBit at set ⊢
  unfold savedBytes at slot ⊢
  rw [List.length_take] at slot
  rwa [List.getD_eq_getElem?_getD, List.getElem?_take_of_lt (by omega), ← List.getD_eq_getElem?_getD]

/-- A bitmap that was saved can be found on the device. -/
theorem deviceBit_saved (device : Image) (b : BlockBitmap) {j : Nat} (inside : j / 8 < (savedBytes b).length) :
    deviceBit (device.write superBlockSize (savedBytes b)) j = BlockBitmap.getBit b.bitmap j := by
  unfold deviceBit BlockBitmap.getBit
  rw [Image.write_byte_of_inside inside]
  unfold savedBytes at inside ⊢
  rw [List.length_take] at inside
  rw [List.getElem_take, List.getD_eq_getElem?_getD, List.getElem?_eq_getElem (by omega), Option.getD_some]

/-- The bits of a bitmap that was loaded are those on the device, as far as it was read. -/
theorem getBit_load (device : Image) (length numBlocks j : Nat) :
    BlockBitmap.getBit (BlockBitmap.load (device.bytes superBlockSize length) numBlocks).bitmap j =
      (decide (j < 8 * length) && deviceBit device j) := by
  unfold BlockBitmap.getBit deviceBit
  rw [BlockBitmap.getD_load, List.getD_eq_getElem?_getD]
  by_cases inside : j < 8 * length
  · rw [List.getElem?_eq_getElem (by rw [Image.length_bytes]; omega), Option.getD_some, Image.getElem_bytes,
      decide_eq_true inside, Bool.true_and]
  · rw [List.getElem?_eq_none (by rw [Image.length_bytes]; omega), decide_eq_false inside, Bool.false_and]
    exact Nat.zero_testBit _

theorem length_load (device : Image) :
    (BlockBitmap.load (device.bytes superBlockSize (loadedBytes sb)) sb.dataBlocks.toNat).bitmap.length =
      bitmapLength sb := by
  unfold BlockBitmap.load bitmapLength
  dsimp only
  rw [Image.length_bytes]
  split
  · rw [List.length_append, List.length_replicate, Image.length_bytes]
    omega
  · rw [Image.length_bytes]
    omega

end

/-! ## Opening and reading -/

/-- Files that hold the ledger can be opened, if all its bits have been saved. -/
theorem holds_of_open {sb : DiskSuperBlock} {live : List StoredBlock} {d : DiskManager} (suitable : Suitable sb)
    (placed : Placed sb live) (stored : Stored sb live d.world.files) (closed : d.io.isOpen = false)
    (persisted : ∀ b ∈ live, ∀ j, b.Covers sb j → j < persistedBits sb) :
    ∃ d', d.openExisting = (.ok, d') ∧ d'.superblock = sb ∧ d'.world = d.world ∧ Holds live d' ∧
      ∀ j, BlockBitmap.getBit d'.bitmap.bitmap j =
        (decide (j < 8 * loadedBytes sb) && deviceBit (d.world.files .device) j) := by
  have size := stored.size
  have loaded : loadedBytes sb ≤ sb.bitmapBlocks.toNat * physicalBlockSize := Nat.mod_le _ _
  have blocks : (sb.bitmapBlocks.toNat + sb.dataBlocks.toNat) * physicalBlockSize =
      sb.bitmapBlocks.toNat * physicalBlockSize + sb.dataBlocks.toNat * physicalBlockSize := Nat.add_mul ..
  have openable : Openable sb (d.world.files .device) := by
    refine ⟨suitable.laid, suitable.valid, stored.header, by omega, ?_⟩
    have : superBlockSize ≤ DiskSuperBlock.bytes := by decide
    omega
  refine ⟨_, openExisting_of_openable closed openable, rfl, rfl, ?_, fun j => getBit_load _ _ _ j⟩
  refine ⟨⟨rfl, rfl, suitable.laid, suitable.reach, rfl, ?_, stored.blank⟩, suitable, placed, stored,
    length_load _, fun b member j covers => ?_⟩
  · exact WalManager.numbered_open _ _ _
  · have below := persisted b member j covers
    have set := stored.saved b member j covers below
    dsimp only
    rw [getBit_load, set, Bool.and_true, decide_eq_true_eq]
    unfold persistedBits at below
    omega

section
variable {live : List StoredBlock} {d : DiskManager}

theorem Holds.end_le (h : Holds live d) {b : StoredBlock} (member : b ∈ live) :
    b.offset + b.content.length ≤ 2 ^ 63 ∧ b.offset + b.content.length ≤ (d.world.files .device).size := by
  have ends := end_le_blockOffset (h.placed.aligned b member)
  have inside := @blockOffset_mono d.superblock _ _ (h.placed.inside b member)
  have reach := h.suitable.reach
  have size := h.stored.size
  have layout := h.suitable.laid.dataOffset
  refine ⟨by omega, ?_⟩
  unfold blockOffset at inside ends
  unfold superBlockSize at layout
  unfold DiskSuperBlock.bytes at size
  rw [Nat.add_mul] at size
  omega

/-- A block of the ledger is read as it was written. -/
theorem Holds.read (h : Holds live d) {b : StoredBlock} (member : b ∈ live) (beyond : List UInt8) :
    d.readBlock b.offset beyond = (.ok (b.data, b.crc32, b.blockId), d) := by
  obtain ⟨seek, inside⟩ := h.end_le member
  have content := h.stored.content b member
  rw [StoredBlock.length_content] at seek inside content
  rw [← Nat.add_assoc] at seek inside
  exact readBlock_of_content h.ready.good rfl b.toNat_dataSize seek inside content beyond

/-! ## Writing -/

/-- The device after the effects of a write. -/
theorem device_of_write {w : World DiskFile} {intent commit : List (Effect DiskFile)}
    (intends : ∀ e ∈ intent, WalManager.BehindFirst .wal e) (commits : ∀ e ∈ commit, WalManager.BehindFirst .wal e)
    (off : Nat) (block bitmap : List UInt8) :
    (w.performAll (intent ++ [.write .device off block] ++ commit ++
      [.write .device superBlockSize bitmap])).files .device =
      ((w.files .device).write off block).write superBlockSize bitmap := by
  have other : ∀ e, WalManager.BehindFirst DiskFile.wal e → DiskFile.device ≠ e.file := by
    rintro _ ⟨_, _, rfl, -⟩
    nofun
  have intended : (w.performAll intent).files .device = w.files .device :=
    performAll_of_other fun e member => other e (intends e member)
  simp only [World.performAll_append, World.performAll_cons, World.performAll_nil, World.perform_write_files]
  rw [performAll_of_other fun e member => other e (commits e member), World.perform_write_files, intended]

/-- The bits after an allocation. -/
theorem Holds.getBit_allocate (h : Holds live d) {count start : Nat} {bitmap : BlockBitmap}
    (room : d.bitmap.allocate count = some (start, bitmap)) (j : Nat) :
    BlockBitmap.getBit bitmap.bitmap j =
      (BlockBitmap.getBit d.bitmap.bitmap j || decide (start ≤ j ∧ j < start + count)) := by
  obtain ⟨-, inside, -, rfl⟩ := BlockBitmap.allocate_eq_some room
  have blocks := dataBlocks_le h.suitable.laid
  apply BlockBitmap.getBit_setRange
  rw [h.length]
  rw [h.ready.numBlocks] at inside
  exact Nat.le_trans inside blocks

/-- A block on a run that was free shares no physical block with the others. -/
theorem Holds.apart_of_allocate (h : Holds live d) {b : StoredBlock} {bitmap : BlockBitmap}
    (room : d.bitmap.allocate b.count = some (b.start d.superblock, bitmap)) :
    ∀ c ∈ live, StoredBlock.Apart d.superblock b c := by
  obtain ⟨-, -, isFree, -⟩ := BlockBitmap.allocate_eq_some room
  rintro c member j ⟨⟨low, high⟩, covers⟩
  have set := h.marked c member j covers
  rw [isFree j low high] at set
  cases set

theorem Holds.placed_allocate (h : Holds live d) {b : StoredBlock} {bitmap : BlockBitmap}
    (room : d.bitmap.allocate b.count = some (b.start d.superblock, bitmap))
    (aligned : b.offset = blockOffset d.superblock (b.start d.superblock)) : Placed d.superblock (b :: live) := by
  obtain ⟨-, inside, -, -⟩ := BlockBitmap.allocate_eq_some room
  rw [h.ready.numBlocks] at inside
  exact ⟨List.forall_mem_cons.mpr ⟨aligned, h.placed.aligned⟩, List.forall_mem_cons.mpr ⟨inside, h.placed.inside⟩,
    List.pairwise_cons.mpr ⟨h.apart_of_allocate room, h.placed.apart⟩⟩

theorem Holds.marked_allocate (h : Holds live d) {b : StoredBlock} {bitmap : BlockBitmap}
    (room : d.bitmap.allocate b.count = some (b.start d.superblock, bitmap)) :
    ∀ c ∈ b :: live, ∀ j, c.Covers d.superblock j → BlockBitmap.getBit bitmap.bitmap j = true := by
  intro c member j covers
  rw [h.getBit_allocate room, Bool.or_eq_true, decide_eq_true_eq]
  rcases List.mem_cons.mp member with rfl | old
  · exact .inr covers
  · exact .inl (h.marked c old j covers)

/-- The bitmap is saved in front of the block. -/
theorem content_of_saved {sb : DiskSuperBlock} (suitable : Suitable sb) {b : StoredBlock}
    (aligned : b.offset = blockOffset sb (b.start sb)) (device : Image) {saved : List UInt8}
    (length : saved.length = u32 (bitmapLength sb)) :
    ((device.write b.offset b.buffer).write superBlockSize saved).bytes b.offset b.content.length = b.content := by
  have cut : u32 (bitmapLength sb) ≤ bitmapLength sb := Nat.mod_le _ _
  have region := bitmapLength_le suitable
  have layout := suitable.laid.dataOffset
  have area := @dataOffset_le sb (b.start sb)
  rw [← aligned] at area
  have fits := b.content_fits.1
  rw [← b.length_buffer] at fits
  rw [Image.bytes_write_of_disjoint (.inr (by omega)), ← Image.take_bytes _ _ _ _ fits, Image.bytes_write_same,
    b.take_buffer]

theorem Holds.write (h : Holds live d) (blockId : UInt64) (level : BlkLevel) {data : List UInt8} (crc32 : UInt32)
    (small : data.length < 2 ^ 31) {start : Nat} {bitmap : BlockBitmap}
    (room : d.bitmap.allocate (calcPhysicalBlocks (UInt32.ofNat data.length)) = some (start, bitmap)) :
    ∃ (b : StoredBlock) (effects : List (Effect DiskFile)) (d' : DiskManager),
      b = ⟨blockId, level, data, crc32, blockOffset d.superblock start, small⟩ ∧ b.start d.superblock = start ∧
      d.writeBlock blockId level data (UInt32.ofNat data.length) crc32 = (.ok b.offset, d') ∧
      d'.world = d.world.performAll effects ∧ (∀ e ∈ effects, Safe d.superblock live e) ∧
      d'.superblock = d.superblock ∧ d'.bitmap = bitmap ∧
      d'.world.files .device = ((d.world.files .device).write b.offset b.buffer).write superBlockSize
        (savedBytes bitmap) ∧ Holds (b :: live) d' := by
  obtain ⟨wal, intent, commit, numbered, intends, commits, result⟩ :=
    writeBlock_of_room h.ready room blockId level data crc32
  obtain ⟨pos, inside, -, same⟩ := BlockBitmap.allocate_eq_some room
  rw [h.ready.numBlocks] at inside
  let b : StoredBlock := ⟨blockId, level, data, crc32, blockOffset d.superblock start, small⟩
  have first : b.start d.superblock = start :=
    startBlock_blockOffset (Nat.le_of_lt (blockOffset_lt h.suitable.reach (by omega)))
  have aligned : b.offset = blockOffset d.superblock (b.start d.superblock) := by rw [first]
  have taken : data.take (UInt32.ofNat data.length).toNat = data := by
    rw [show (UInt32.ofNat data.length).toNat = data.length from b.toNat_dataSize]
    exact List.take_length
  have room' : d.bitmap.allocate b.count = some (b.start d.superblock, bitmap) := by rwa [first]
  have marked := h.marked_allocate room'
  have length : bitmap.bitmap.length = bitmapLength d.superblock := by
    rw [same, BlockBitmap.length_setRange, h.length]
  have safe : ∀ e ∈ intent ++ [.write .device b.offset b.buffer] ++ commit ++
      [.write .device superBlockSize (savedBytes bitmap)], Safe d.superblock live e := by
    intro e member
    simp only [List.mem_append, List.mem_singleton] at member
    rcases member with ((intend | rfl) | commit) | rfl
    · exact .log (intends e intend)
    · exact .block aligned (h.apart_of_allocate room')
    · exact .log (commits e commit)
    · exact safe_bitmap h.suitable length fun c old => marked c (List.mem_cons_of_mem _ old)
  have device := @device_of_write d.world _ _ intends commits b.offset b.buffer (savedBytes bitmap)
  rw [taken] at result
  refine ⟨b, _, _, rfl, first, result, rfl, safe, rfl, rfl, device, ?_⟩
  have kept := h.stored.replay h.suitable h.placed safe
  rw [← World.performAll_files] at kept
  have saved := length_savedBytes length
  refine ⟨⟨h.ready.normal, h.ready.good, h.suitable.laid, h.suitable.reach, ?_, numbered, kept.blank⟩, h.suitable,
    h.placed_allocate room' aligned, ⟨kept.header, kept.size, List.forall_mem_cons.mpr ⟨?_, kept.content⟩,
      List.forall_mem_cons.mpr ⟨?_, kept.saved⟩, kept.blank⟩, length, marked⟩
  · show bitmap.numBlocks = _
    rw [same]
    exact h.ready.numBlocks
  · have content := content_of_saved h.suitable aligned (d.world.files .device) saved
    rw [← device] at content
    exact content
  · intro j covers below
    have below : j < persistedBits d.superblock := below
    unfold persistedBits at below
    have set := deviceBit_saved ((d.world.files .device).write b.offset b.buffer) bitmap
      (show j / 8 < (savedBytes bitmap).length by omega)
    rw [← device, marked b List.mem_cons_self j covers] at set
    exact set

/-! ## Deleting and recovering -/

theorem Placed.sublist {sb : DiskSuperBlock} {live rest : List StoredBlock} (placed : Placed sb live)
    (sub : rest.Sublist live) : Placed sb rest :=
  ⟨fun b member => placed.aligned b (sub.subset member), fun b member => placed.inside b (sub.subset member),
    placed.apart.sublist sub⟩

theorem Stored.sublist {sb : DiskSuperBlock} {live rest : List StoredBlock} {files : DiskFile → Image}
    (stored : Stored sb live files) (sub : rest.Sublist live) : Stored sb rest files :=
  ⟨stored.header, stored.size, fun b member => stored.content b (sub.subset member),
    fun b member => stored.saved b (sub.subset member), stored.blank⟩

/-- A block has nothing in common with the others. -/
theorem Placed.apart_erase {sb : DiskSuperBlock} (placed : Placed sb live) {b c : StoredBlock} (member : b ∈ live)
    (other : c ∈ live.erase b) : StoredBlock.Apart sb b c := by
  have apart : (b :: live.erase b).Pairwise (StoredBlock.Apart sb) :=
    placed.apart.perm (List.perm_cons_erase member) fun h => h.symm
  exact (List.pairwise_cons.mp apart).1 c other

/-- Deleting a block takes it out of the ledger. -/
theorem Holds.delete (h : Holds live d) {b : StoredBlock} (member : b ∈ live) :
    ∃ d', d.deleteBlock b.offset b.dataSize = (.ok, d') ∧
      d'.world = d.world.performAll [.write .device superBlockSize (savedBytes d'.bitmap)] ∧
      Safe d.superblock (live.erase b) (.write .device superBlockSize (savedBytes d'.bitmap)) ∧
      d'.superblock = d.superblock ∧
      (∀ j, BlockBitmap.getBit d'.bitmap.bitmap j = true ↔
        BlockBitmap.getBit d.bitmap.bitmap j = true ∧ ¬ (b.Covers d.superblock j)) ∧
      Holds (live.erase b) d' := by
  have sub : (live.erase b).Sublist live := List.erase_sublist
  have inside := h.placed.inside b member
  have reach := h.suitable.laid.blocks
  have bits : ∀ j, BlockBitmap.getBit (d.bitmap.free (b.start d.superblock) b.count).bitmap j = true ↔
      BlockBitmap.getBit d.bitmap.bitmap j = true ∧ ¬ b.Covers d.superblock j := by
    intro j
    unfold BlockBitmap.free
    dsimp only
    rw [BlockBitmap.getBit_clearRange (by omega), h.ready.numBlocks]
    unfold StoredBlock.Covers
    simp only [Bool.and_eq_true, Bool.not_eq_true', decide_eq_false_iff_not]
    apply and_congr_right
    intro _
    omega
  have marked : ∀ c ∈ live.erase b, ∀ j, c.Covers d.superblock j →
      BlockBitmap.getBit (d.bitmap.free (b.start d.superblock) b.count).bitmap j = true := by
    intro c other j covers
    rw [bits]
    exact ⟨h.marked c (sub.subset other) j covers, fun both => h.placed.apart_erase member other j ⟨both, covers⟩⟩
  have length : (d.bitmap.free (b.start d.superblock) b.count).bitmap.length = bitmapLength d.superblock := by
    show (BlockBitmap.clearRange _ _ _ _).length = _
    rw [BlockBitmap.length_clearRange, h.length]
  have safe := safe_bitmap h.suitable length marked
  have stored := (h.stored.sublist sub).replay h.suitable (h.placed.sublist sub)
    (List.forall_mem_singleton.mpr safe)
  rw [← World.performAll_files] at stored
  refine ⟨_, deleteBlock_of_ready h.ready _ _, rfl, safe, rfl, bits, ?_⟩
  exact ⟨⟨h.ready.normal, h.ready.good, h.ready.laid, h.ready.reach, h.ready.numBlocks, h.ready.numbered,
    stored.blank⟩,
    h.suitable, h.placed.sublist sub, stored, length, marked⟩

/-- Recovering changes nothing but the log. -/
theorem Holds.recover (h : Holds live d) :
    ∃ d', d.recover = (.ok, d') ∧
      d'.world = d.world.performAll [.write .device superBlockSize (savedBytes d.bitmap), .truncate .wal] ∧
      (∀ e ∈ [Effect.write .device superBlockSize (savedBytes d.bitmap), .truncate .wal],
        Safe d.superblock live e) ∧
      d'.superblock = d.superblock ∧ d'.bitmap = d.bitmap ∧ Holds live d' := by
  obtain ⟨wal, numbered, result⟩ := recover_of_ready h.ready
  have safe : ∀ e ∈ [Effect.write .device superBlockSize (savedBytes d.bitmap), .truncate .wal],
      Safe d.superblock live e := by
    intro e member
    simp only [List.mem_cons, List.not_mem_nil, or_false] at member
    rcases member with rfl | rfl
    · exact safe_bitmap h.suitable h.length h.marked
    · exact .emptyLog
  have stored := h.stored.replay h.suitable h.placed safe
  rw [← World.performAll_files] at stored
  refine ⟨_, result, rfl, safe, rfl, rfl, ?_⟩
  exact ⟨⟨h.ready.normal, h.ready.good, h.ready.laid, h.ready.reach, h.ready.numBlocks, numbered, stored.blank⟩,
    h.suitable, h.placed, stored, h.length, h.marked⟩

/-- Closing leaves the files as they are, but for the bitmap. -/
theorem Holds.close (h : Holds live d) :
    Stored d.superblock live d.close.world.files ∧ d.close.io.isOpen = false := by
  have safe := safe_bitmap h.suitable h.length h.marked
  have stored := h.stored.replay h.suitable h.placed (List.forall_mem_singleton.mpr safe)
  rw [← World.performAll_files] at stored
  rw [close_of_ready h.ready]
  exact ⟨stored, rfl⟩

end

end OpenFS
