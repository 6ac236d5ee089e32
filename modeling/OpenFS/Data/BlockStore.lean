import OpenFS.Data.CrashSafety

/-!
# The disk as a block store

Runs without crashes: writes, deletions, reads, recoveries, and closing and opening
the disk again. Besides what `Holds` says, no bit is set that belongs to no block of
the ledger.
-/

namespace OpenFS

open ByteImage FileLog DiskManager

/-- No bits but those of the ledger, in memory and, as far as they are loaded, on the device. -/
structure Exact (live : List StoredBlock) (d : DiskManager) : Prop where
  used : ∀ j, BlockBitmap.getBit d.bitmap.bitmap j = true → ∃ b ∈ live, b.Covers d.superblock j
  saved : ∀ j, j < 8 * loadedBytes d.superblock → deviceBit (d.world.files .device) j =
    (decide (j < persistedBits d.superblock) && BlockBitmap.getBit d.bitmap.bitmap j)

/-! ## What saving the bitmap leaves on the device -/

section
variable {sb : DiskSuperBlock} {live : List StoredBlock} {d : DiskManager}

/-- Bits that are not saved stay clear. -/
theorem saved_of_write {device : Image} {b : BlockBitmap} (length : b.bitmap.length = bitmapLength sb)
    (clear : ∀ j, j < 8 * loadedBytes sb → ¬ j < persistedBits sb → deviceBit device j = false) (j : Nat)
    (loaded : j < 8 * loadedBytes sb) :
    deviceBit (device.write superBlockSize (savedBytes b)) j =
      (decide (j < persistedBits sb) && BlockBitmap.getBit b.bitmap j) := by
  have saved := length_savedBytes length
  by_cases inside : j / 8 < (savedBytes b).length
  · have below : j < persistedBits sb := by
      unfold persistedBits
      omega
    rw [deviceBit_saved device b inside, decide_eq_true below, Bool.true_and]
  · have above : ¬ j < persistedBits sb := by
      unfold persistedBits
      omega
    have same := clear j loaded above
    rw [decide_eq_false above, Bool.false_and, ← same]
    unfold deviceBit
    rw [Image.write_byte_of_outside (.inr (by omega))]

theorem Exact.clear (tight : Exact live d) (j : Nat) (loaded : j < 8 * loadedBytes d.superblock)
    (above : ¬ j < persistedBits d.superblock) : deviceBit (d.world.files .device) j = false := by
  rw [tight.saved j loaded, decide_eq_false above, Bool.false_and]

/-- A block lies behind the bitmap. -/
theorem deviceBit_write_block (suitable : Suitable sb) {device : Image} {off : Nat}
    (behind : sb.dataOffset.toNat ≤ off)
    (bs : List UInt8) {j : Nat} (loaded : j < 8 * loadedBytes sb) :
    deviceBit (device.write off bs) j = deviceBit device j := by
  have region : loadedBytes sb ≤ sb.bitmapBlocks.toNat * physicalBlockSize := Nat.mod_le _ _
  have layout := suitable.laid.dataOffset
  unfold deviceBit
  rw [Image.write_byte_of_outside (.inl (by omega))]

/-! ## The operations -/

theorem Started.exact (started : Started d) (modest : Modest d.superblock) : Exact [] d := by
  obtain ⟨-, blank, zero⟩ := started.holds modest
  refine ⟨fun j set => ?_, fun j _ => ?_⟩
  · rw [blank] at set
    cases set
  · unfold deviceBit
    rw [zero _ (Nat.le_trans (by decide) (Nat.le_add_right _ _)), blank, Bool.and_false]
    exact Nat.zero_testBit _

theorem Exact.exec (tight : Exact live d) (h : Holds live d) (op : DiskOp) (names : op.Names live) :
    Exact (op.acknowledged d live) (op.exec d) := by
  cases op with
  | write blockId level data crc32 small =>
    unfold DiskOp.acknowledged DiskOp.exec
    dsimp only
    cases room : d.bitmap.allocate (calcPhysicalBlocks (UInt32.ofNat data.length)) with
    | none =>
      rw [writeBlock_of_full h.ready.normal room]
      exact tight
    | some found =>
      obtain ⟨start, bitmap⟩ := found
      obtain ⟨b, log, d', rfl, first, result, -, -, superblock, rfl, device, holds⟩ :=
        h.write blockId level crc32 small room
      rw [result]
      refine ⟨fun j set => ?_, fun j loaded => ?_⟩
      · rw [superblock]
        rw [h.getBit_allocate room, Bool.or_eq_true, decide_eq_true_eq] at set
        rcases set with old | new
        · obtain ⟨c, member, covers⟩ := tight.used j old
          exact ⟨c, List.mem_cons_of_mem _ member, covers⟩
        · refine ⟨_, List.mem_cons_self, ?_⟩
          unfold StoredBlock.Covers
          rwa [first]
      · have length := holds.length
        rw [superblock] at loaded length ⊢
        rw [device]
        apply saved_of_write length _ j loaded
        intro k inside above
        rw [deviceBit_write_block h.suitable (dataOffset_le _) _ inside]
        exact tight.clear k inside above
  | delete b =>
    obtain ⟨d', result, world, -, superblock, bits, holds⟩ := h.delete names
    unfold DiskOp.acknowledged DiskOp.exec
    dsimp only
    rw [result]
    refine ⟨fun j set => ?_, fun j loaded => ?_⟩
    · obtain ⟨old, other⟩ := (bits j).mp set
      obtain ⟨c, member, covers⟩ := tight.used j old
      rw [superblock]
      refine ⟨c, (List.mem_erase_of_ne ?_).mpr member, covers⟩
      rintro rfl
      exact other covers
    · have length := holds.length
      rw [superblock] at loaded length ⊢
      rw [world, World.performAll_cons, World.performAll_nil, World.perform_write_files]
      exact saved_of_write length tight.clear j loaded

/-- Recovering saves the bitmap as it is. -/
theorem Exact.recover (tight : Exact live d) (h : Holds live d) : Exact live d.recover.2 := by
  obtain ⟨d', result, world, -, superblock, bitmap, holds⟩ := h.recover
  rw [result]
  refine ⟨fun j set => ?_, fun j loaded => ?_⟩
  · rw [bitmap] at set
    rw [superblock]
    exact tight.used j set
  · have device : d'.world.files .device = (d.world.files .device).write superBlockSize (savedBytes d.bitmap) := by
      rw [world, World.performAll_cons, World.performAll_cons, World.performAll_nil,
        World.perform_files_of_other (e := .truncate .wal) (f := DiskFile.device) _ nofun,
          World.perform_write_files]
    rw [superblock] at loaded ⊢
    rw [device, bitmap]
    exact saved_of_write h.length tight.clear j loaded

/-- Closing and opening again gets the ledger back, if all its bits were saved. -/
theorem Exact.reopen (tight : Exact live d) (h : Holds live d) (persisted : Persisted d.superblock live) :
    Holds live d.close.openExisting.2 ∧ Exact live d.close.openExisting.2 := by
  obtain ⟨stored, closed⟩ := h.close
  obtain ⟨d', opened, superblock, world, holds, bits⟩ :=
    holds_of_open h.suitable h.placed stored closed persisted
  have device : d.close.world.files .device =
      (d.world.files .device).write superBlockSize (savedBytes d.bitmap) := by
    rw [close_of_ready h.ready]
    exact World.perform_write_files ..
  have saved := saved_of_write h.length tight.clear
  rw [← device] at saved
  rw [opened]
  refine ⟨holds, fun j set => ?_, fun j loaded => ?_⟩
  · rw [bits, Bool.and_eq_true, decide_eq_true_eq] at set
    obtain ⟨loaded, set⟩ := set
    rw [saved j loaded, Bool.and_eq_true] at set
    rw [superblock]
    exact tight.used j set.2
  · rw [superblock] at loaded ⊢
    rw [world, bits, decide_eq_true loaded, Bool.true_and, saved j loaded, ← Bool.and_assoc, Bool.and_self]

end

/-! ## Runs -/

/-- Runs from a fresh disk, with the live blocks; `admits` holds of them whenever the disk is opened again. -/
inductive StoreRun (admits : DiskSuperBlock → List StoredBlock → Prop) :
    List StoredBlock → DiskManager → Prop where
  | start {d : DiskManager} (started : Started d) (modest : Modest d.superblock) : StoreRun admits [] d
  | call {live : List StoredBlock} {d : DiskManager} (before : StoreRun admits live d) (op : DiskOp)
      (names : op.Names live) : StoreRun admits (op.acknowledged d live) (op.exec d)
  | read {live : List StoredBlock} {d : DiskManager} (before : StoreRun admits live d) (b : StoredBlock)
      (member : b ∈ live) (beyond : List UInt8) : StoreRun admits live (d.readBlock b.offset beyond).2
  | reopen {live : List StoredBlock} {d : DiskManager} (before : StoreRun admits live d)
      (admitted : admits d.superblock live) : StoreRun admits live d.close.openExisting.2
  | recover {live : List StoredBlock} {d : DiskManager} (before : StoreRun admits live d) :
      StoreRun admits live d.recover.2

/-- What the store promises of its live blocks. -/
structure Consistent (live : List StoredBlock) (d : DiskManager) : Prop where
  apart : live.Pairwise (StoredBlock.Apart d.superblock)
  inside : ∀ b ∈ live, b.offset = blockOffset d.superblock (b.start d.superblock) ∧
    b.start d.superblock + b.count ≤ d.superblock.dataBlocks.toNat
  bits : ∀ j, BlockBitmap.getBit d.bitmap.bitmap j = true ↔ ∃ b ∈ live, b.Covers d.superblock j
  reads : ∀ b ∈ live, ∀ beyond, (d.readBlock b.offset beyond).1 = .ok (b.data, b.crc32, b.blockId)

theorem StoreRun.keeps {live : List StoredBlock} {d : DiskManager} (run : StoreRun Persisted live d) :
    Holds live d ∧ Exact live d := by
  induction run with
  | start started modest => exact ⟨(started.holds modest).1, started.exact modest⟩
  | call before op names ih =>
    obtain ⟨holds, tight⟩ := ih
    exact ⟨(holds.exec op names).1, tight.exec holds op names⟩
  | read before b member beyond ih =>
    rw [ih.1.read member beyond]
    exact ih
  | reopen before persisted ih => exact ih.2.reopen ih.1 persisted
  | recover before ih =>
    obtain ⟨holds, tight⟩ := ih
    obtain ⟨d', result, -, -, -, -, holds'⟩ := holds.recover
    have tight' := tight.recover holds
    rw [result] at tight' ⊢
    exact ⟨holds', tight'⟩

/-- **A disk is a block store** in every run in which, whenever it is opened again, all
bits of the live blocks are among those saved and loaded. -/
theorem consistent_of_run {live : List StoredBlock} {d : DiskManager} (run : StoreRun Persisted live d) :
    Consistent live d := by
  obtain ⟨holds, tight⟩ := run.keeps
  refine ⟨holds.placed.apart, fun b member => ⟨holds.placed.aligned b member, holds.placed.inside b member⟩,
    fun j => ⟨tight.used j, ?_⟩, fun b member beyond => by rw [holds.read member beyond]⟩
  rintro ⟨b, member, covers⟩
  exact holds.marked b member j covers

/-- Two blocks are written, the first is deleted, and the disk is closed, opened again and recovered. -/
theorem consistent_of_run_smallDisk : ∃ (b c : StoredBlock) (d d' : DiskManager),
    (DiskOp.write 5 .l0 [7, 8] 9 (by decide)).acknowledged smallDisk [] = [b] ∧
      (DiskOp.write 5 .l0 [7, 8] 9 (by decide)).exec smallDisk = d ∧
      (DiskOp.write 6 .l0 [1] 3 (by decide)).acknowledged d [b] = [c, b] ∧
      (DiskOp.write 6 .l0 [1] 3 (by decide)).exec d = d' ∧ (DiskOp.delete b).acknowledged d' [c, b] = [c] ∧
      Consistent [c] ((DiskOp.delete b).exec d').close.openExisting.2.recover.2 := by
  obtain ⟨b, d, result, eq, superblock, bits, holds⟩ := smallDisk_write
  have fits : 2 ≤ d.bitmap.numBlocks := by
    rw [holds.ready.numBlocks, superblock, smallDisk_spec.2.2]
    decide
  obtain ⟨start, bitmap, room⟩ := @BlockBitmap.allocate_of_free d.bitmap
    (calcPhysicalBlocks (UInt32.ofNat ([1] : List UInt8).length)) 1 (by decide) fits fun j after _ => by
      rw [bits, decide_eq_false (by omega)]
  obtain ⟨c, log, d', eq', -, result', -, -, superblock', -, -, holds'⟩ := holds.write 6 .l0 3 (by decide) room
  obtain ⟨acknowledged, exec⟩ := @DiskOp.write_acknowledged _ _ 5 .l0 [7, 8] 9 _ result (by decide) []
  obtain ⟨acknowledged', exec'⟩ := @DiskOp.write_acknowledged _ _ 6 .l0 [1] 3 _ result' (by decide) [b]
  rw [← eq] at acknowledged
  rw [show c.offset = blockOffset d.superblock start from congrArg StoredBlock.offset eq', ← eq'] at acknowledged'
  have other : c ≠ b := by
    rw [eq', eq]
    exact fun same => absurd (show (6 : UInt64) = 5 from congrArg StoredBlock.blockId same) (by decide)
  have erased : (DiskOp.delete b).acknowledged d' [c, b] = [c] := by
    simp [DiskOp.acknowledged, other]
  have first : StoreRun Persisted [b] d := by
    rw [← acknowledged, ← exec]
    exact .call (.start smallDisk_spec.1 smallDisk_spec.2.1) _ trivial
  have second : StoreRun Persisted [c, b] d' := by
    rw [← acknowledged', ← exec']
    exact .call first _ trivial
  have run : StoreRun Persisted [c] ((DiskOp.delete b).exec d') := by
    rw [← erased]
    exact .call second _ (by simp [DiskOp.Names])
  have same : ((DiskOp.delete b).exec d').superblock = smallDisk.superblock := by
    rw [(holds'.exec (.delete b) (by simp [DiskOp.Names])).2.1, superblock', superblock]
  have persisted : Persisted ((DiskOp.delete b).exec d').superblock [c] := by
    rw [same]
    exact smallDisk_persisted (same ▸ run.keeps.1.placed)
  exact ⟨b, c, d, d', acknowledged, exec, acknowledged', exec', erased,
    consistent_of_run (.recover (.reopen run persisted))⟩

/-- A disk whose bitmap has 2^32 bytes forgets its blocks when it is opened again. -/
theorem reopen_forgets_blocks :
    ¬ ∀ live d, StoreRun (fun _ _ => True) live d → Consistent live d := by
  intro claim
  obtain ⟨fresh, op, b, started, modest, only, acknowledged, none, covers, holds⟩ := exists_forgetful
  have run : StoreRun (fun _ _ => True) (op.acknowledged fresh []) (op.exec fresh) :=
    .call (.start started modest) op (only []).1
  rw [acknowledged] at run
  have after := claim _ _ (.reopen run trivial)
  obtain ⟨stored, closed⟩ := holds.close
  obtain ⟨d', opened, same, -, blank⟩ := lost_of_open holds.suitable stored closed none
  rw [opened] at after
  have set := (after.bits 0).mpr ⟨b, List.mem_singleton_self b, by rw [same]; exact covers⟩
  rw [blank] at set
  cases set

end OpenFS
