import OpenFS.Data.FreshDisk

/-!
# Crashes

Runs of writes and deletions with crashes in between, each followed by opening the
disk and recovering it, which may be interrupted again. What was acknowledged
survives, as long as its bits are among those that are saved and loaded again.
-/

namespace OpenFS

open ByteImage FileLog DiskManager DiskFormatter

/-! ## Runs with crashes -/

/-- The effects of a call that takes `d` to `d'`. -/
def effects (d d' : DiskManager) : List (Effect DiskFile) := d'.world.log.drop d.world.log.length

/-- The disk may stop while the call is under way, and leave these files. -/
def CrashIn (d d' : DiskManager) (files : DiskFile → Image) : Prop := Crash d.world.files (effects d d') files

/-- A manager made anew on some files. -/
def anew (files : DiskFile → Image) : DiskManager := { world := ⟨files, []⟩ }

/-- The files are opened and the disk recovered, at once or after attempts that were
interrupted; `admits` holds of the ledger at each opening. -/
inductive Recovered (admits : DiskSuperBlock → List StoredBlock → Prop) (sb : DiskSuperBlock)
    (live : List StoredBlock) : (DiskFile → Image) → DiskManager → Prop where
  | done {files : DiskFile → Image} (admitted : admits sb live) :
      Recovered admits sb live files (anew files).openExisting.2.recover.2
  | again {files left : DiskFile → Image} {d : DiskManager} (admitted : admits sb live)
      (crash : CrashIn (anew files).openExisting.2 (anew files).openExisting.2.recover.2 left)
      (later : Recovered admits sb live left d) : Recovered admits sb live files d

/-- A call of the run. -/
inductive DiskOp
  | write (blockId : UInt64) (level : BlkLevel) (data : List UInt8) (crc32 : UInt32) (small : data.length < 2 ^ 31)
  | delete (b : StoredBlock)

namespace DiskOp

/-- A deletion names a live block. -/
def Names (live : List StoredBlock) : DiskOp → Prop
  | .write .. => True
  | .delete b => b ∈ live

/-- The manager after the call. -/
def exec (d : DiskManager) : DiskOp → DiskManager
  | .write blockId level data crc32 _ => (d.writeBlock blockId level data (UInt32.ofNat data.length) crc32).2
  | .delete b => (d.deleteBlock b.offset b.dataSize).2

/-- What the ledger keeps from the moment of the call. -/
def kept (live : List StoredBlock) : DiskOp → List StoredBlock
  | .write .. => live
  | .delete b => live.erase b

/-- The ledger after the call: with the block, if it was acknowledged. -/
def acknowledged (d : DiskManager) (live : List StoredBlock) : DiskOp → List StoredBlock
  | .write blockId level data crc32 small =>
    match (d.writeBlock blockId level data (UInt32.ofNat data.length) crc32).1 with
    | .ok offset => ⟨blockId, level, data, crc32, offset, small⟩ :: live
    | .error _ => live
  | .delete b => live.erase b

/-- An acknowledged write is put into the ledger. -/
theorem write_acknowledged {d d' : DiskManager} {blockId : UInt64} {level : BlkLevel} {data : List UInt8}
    {crc32 : UInt32} {offset : Nat}
    (result : d.writeBlock blockId level data (UInt32.ofNat data.length) crc32 = (.ok offset, d'))
    (small : data.length < 2 ^ 31) (live : List StoredBlock) :
    (DiskOp.write blockId level data crc32 small).acknowledged d live =
        ⟨blockId, level, data, crc32, offset, small⟩ :: live ∧
      (DiskOp.write blockId level data crc32 small).exec d = d' := by
  unfold acknowledged exec
  dsimp only
  rw [result]
  exact ⟨rfl, rfl⟩

end DiskOp

/-- Runs from a fresh disk, with the blocks that were acknowledged and not deleted. -/
inductive CrashRun (admits : DiskSuperBlock → List StoredBlock → Prop) :
    List StoredBlock → DiskManager → Prop where
  | start {d : DiskManager} (started : Started d) (modest : Modest d.superblock) : CrashRun admits [] d
  | call {live : List StoredBlock} {d : DiskManager} (before : CrashRun admits live d) (op : DiskOp)
      (names : op.Names live) : CrashRun admits (op.acknowledged d live) (op.exec d)
  | crash {live : List StoredBlock} {d d' : DiskManager} {left : DiskFile → Image}
      (before : CrashRun admits live d) (op : DiskOp) (names : op.Names live) (crash : CrashIn d (op.exec d) left)
      (recovered : Recovered admits d.superblock (op.kept live) left d') : CrashRun admits (op.kept live) d'

/-- Every block has its physical blocks and reads as it was written. -/
def Survives (live : List StoredBlock) (d : DiskManager) : Prop :=
  ∀ b ∈ live, (∀ j, b.Covers d.superblock j → d.bitmap.isAllocated j = true) ∧
    ∀ beyond, (d.readBlock b.offset beyond).1 = .ok (b.data, b.crc32, b.blockId)

theorem Holds.survives {live : List StoredBlock} {d : DiskManager} (h : Holds live d) : Survives live d := by
  intro b member
  refine ⟨fun j covers => ?_, fun beyond => by rw [h.read member beyond]⟩
  have inside := h.placed.inside b member
  unfold BlockBitmap.isAllocated
  rw [h.marked b member j covers, Bool.and_true, decide_eq_true_eq, h.ready.numBlocks]
  exact Nat.lt_of_lt_of_le covers.2 inside

theorem crashIn_iff {d d' : DiskManager} {log : List (Effect DiskFile)} (same : d'.world = d.world.performAll log)
    (files : DiskFile → Image) : CrashIn d d' files ↔ Crash d.world.files log files := by
  unfold CrashIn effects
  rw [same, World.performAll_log, List.drop_left]

/-- One call keeps the ledger, and so does a crash in it. -/
theorem Holds.exec {live : List StoredBlock} {d : DiskManager} (h : Holds live d) (op : DiskOp)
    (names : op.Names live) :
    Holds (op.acknowledged d live) (op.exec d) ∧ (op.exec d).superblock = d.superblock ∧
      ∀ left, CrashIn d (op.exec d) left →
        Placed d.superblock (op.kept live) ∧ Stored d.superblock (op.kept live) left := by
  cases op with
  | write blockId level data crc32 small =>
    unfold DiskOp.acknowledged DiskOp.exec DiskOp.kept
    dsimp only
    cases room : d.bitmap.allocate (calcPhysicalBlocks (UInt32.ofNat data.length)) with
    | none =>
      rw [writeBlock_of_full h.ready.normal room]
      refine ⟨h, rfl, fun left crash => ⟨h.placed, ?_⟩⟩
      rw [crashIn_iff (World.performAll_nil _).symm] at crash
      exact h.stored.crash h.suitable h.placed (List.forall_mem_nil _) crash
    | some found =>
      obtain ⟨start, bitmap⟩ := found
      obtain ⟨b, log, d', rfl, -, result, world, safe, superblock, -, -, holds⟩ :=
        h.write blockId level crc32 small room
      rw [result]
      refine ⟨holds, superblock, fun left crash => ⟨h.placed, ?_⟩⟩
      rw [crashIn_iff world] at crash
      exact h.stored.crash h.suitable h.placed safe crash
  | delete b =>
    obtain ⟨d', result, world, safe, superblock, -, holds⟩ := h.delete names
    have sub : (live.erase b).Sublist live := List.erase_sublist
    unfold DiskOp.acknowledged DiskOp.exec DiskOp.kept
    dsimp only
    rw [result]
    refine ⟨holds, superblock, fun left crash => ⟨h.placed.sublist sub, ?_⟩⟩
    rw [crashIn_iff world] at crash
    exact (h.stored.sublist sub).crash h.suitable (h.placed.sublist sub) (List.forall_mem_singleton.mpr safe) crash

/-- Recovering gets the ledger back, however often it is interrupted. -/
theorem Recovered.holds {sb : DiskSuperBlock} {live : List StoredBlock} {files : DiskFile → Image}
    {d : DiskManager}
    (suitable : Suitable sb) (placed : Placed sb live) (recovered : Recovered Persisted sb live files d)
    (stored : Stored sb live files) : Holds live d ∧ d.superblock = sb := by
  induction recovered with
  | @done files persisted =>
    obtain ⟨d, opened, rfl, -, holds, -⟩ := holds_of_open (d := anew files) suitable placed stored rfl persisted
    obtain ⟨d', recovered, -, -, superblock, -, holds'⟩ := holds.recover
    rw [opened, recovered]
    exact ⟨holds', superblock⟩
  | @again files left d persisted crash later ih =>
    obtain ⟨d, opened, rfl, -, holds, -⟩ := holds_of_open (d := anew files) suitable placed stored rfl persisted
    obtain ⟨d', recovered, world, safe, superblock, -, holds'⟩ := holds.recover
    rw [opened, recovered] at crash
    rw [crashIn_iff world] at crash
    exact ih (holds.stored.crash suitable placed safe crash)

theorem CrashRun.holds {live : List StoredBlock} {d : DiskManager} (run : CrashRun Persisted live d) :
    Holds live d := by
  induction run with
  | start started modest => exact (started.holds modest).1
  | call before op names ih => exact (ih.exec op names).1
  | crash before op names crash recovered ih =>
    obtain ⟨placed, stored⟩ := (ih.exec op names).2.2 _ crash
    exact (recovered.holds ih.suitable placed stored).1

/-- **Acknowledged blocks survive crashes** in every run in which, at each opening, all
their bits are among those saved and loaded again. -/
theorem survives_of_run {live : List StoredBlock} {d : DiskManager} (run : CrashRun Persisted live d) :
    Survives live d :=
  run.holds.survives

/-- A block is written, and the disk stops when all effects of a second write are there, but not
its answer; the recovery stops between its two effects and is made again. -/
theorem survives_of_run_smallDisk : ∃ (b : StoredBlock) (left left' : DiskFile → Image),
    (DiskOp.write 5 .l0 [7, 8] 9 (by decide)).acknowledged smallDisk [] = [b] ∧
      CrashIn ((DiskOp.write 5 .l0 [7, 8] 9 (by decide)).exec smallDisk)
        ((DiskOp.write 6 .l0 [1] 3 (by decide)).exec ((DiskOp.write 5 .l0 [7, 8] 9 (by decide)).exec smallDisk))
        left ∧
      CrashIn (anew left).openExisting.2 (anew left).openExisting.2.recover.2 left' ∧
      Survives [b] (anew left').openExisting.2.recover.2 := by
  obtain ⟨b, d, result, eq, superblock, -, holds⟩ := smallDisk_write
  obtain ⟨acknowledged, exec⟩ := @DiskOp.write_acknowledged _ _ 5 .l0 [7, 8] 9 _ result (by decide) []
  rw [← eq] at acknowledged
  have run : CrashRun Persisted [b] d := by
    rw [← acknowledged, ← exec]
    exact .call (.start smallDisk_spec.1 smallDisk_spec.2.1) _ trivial
  have persisted : Persisted d.superblock [b] := by
    rw [superblock]
    exact smallDisk_persisted (superblock ▸ holds.placed)
  -- The second write is interrupted.
  have second : CrashIn d ((DiskOp.write 6 .l0 [1] 3 (by decide)).exec d)
      (replay d.world.files (effects d ((DiskOp.write 6 .l0 [1] 3 (by decide)).exec d))) :=
    .between (List.append_nil _).symm
  obtain ⟨placed, stored⟩ := (holds.exec (.write 6 .l0 [1] 3 (by decide)) trivial).2.2 _ second
  generalize replay d.world.files _ = left at second stored
  -- The recovery is interrupted when the bitmap is saved, and the log not yet emptied.
  obtain ⟨opened, result', -, -, holds', -⟩ :=
    holds_of_open (d := anew left) holds.suitable placed stored rfl persisted
  obtain ⟨recovered, result'', world, -⟩ := holds'.recover
  have again : CrashIn (anew left).openExisting.2 (anew left).openExisting.2.recover.2
      (replay opened.world.files [.write .device superBlockSize (savedBytes opened.bitmap)]) := by
    rw [result', result'', crashIn_iff world]
    exact .between (List.singleton_append).symm
  refine ⟨b, left, _, acknowledged, by rw [exec]; exact second, again, ?_⟩
  exact survives_of_run (.crash run (.write 6 .l0 [1] 3 (by decide)) trivial second
    (.again persisted again (.done persisted)))

/-- A block is written to a disk of whose bitmap nothing is loaded. -/
theorem exists_forgetful : ∃ (fresh : DiskManager) (op : DiskOp) (b : StoredBlock),
    Started fresh ∧ Modest fresh.superblock ∧ (∀ live, op.Names live ∧ op.kept live = live) ∧
      op.acknowledged fresh [] = [b] ∧ loadedBytes (op.exec fresh).superblock = 0 ∧
      b.Covers (op.exec fresh).superblock 0 ∧ Holds [b] (op.exec fresh) := by
  obtain ⟨fresh, started, modest, blocks, none⟩ : ∃ d, Started d ∧ Modest d.superblock ∧
      d.superblock.dataBlocks.toNat = 2 ^ 35 - 8 ∧ loadedBytes d.superblock = 0 := ⟨hugeDisk, hugeDisk_spec⟩
  obtain ⟨b, d, result, eq, covers, superblock, -, holds⟩ := started.write modest (by omega) 5
  obtain ⟨acknowledged, exec⟩ := @DiskOp.write_acknowledged _ _ 5 .l0 [] 0 _ result (by decide) []
  rw [← eq] at acknowledged
  refine ⟨fresh, .write 5 .l0 [] 0 (by decide), b, started, modest, fun _ => ⟨trivial, rfl⟩, acknowledged,
    ?_, ?_, ?_⟩
  · rw [exec, superblock, none]
  · rw [exec, superblock]
    exact covers
  · rw [exec]
    exact holds

/-- A disk whose bitmap has 2^32 bytes comes up with an empty one, and gives the blocks of
acknowledged data away. -/
theorem crash_loses_blocks :
    ¬ ∀ live d, CrashRun (fun _ _ => True) live d → Survives live d := by
  intro claim
  obtain ⟨fresh, op, b, started, modest, only, acknowledged, none, covers, holds⟩ := exists_forgetful
  have run : CrashRun (fun _ _ => True) (op.acknowledged fresh []) (op.exec fresh) :=
    .call (.start started modest) op (only []).1
  rw [acknowledged] at run
  -- The next write is interrupted before its first effect.
  have crash : CrashIn (op.exec fresh) (op.exec (op.exec fresh)) (op.exec fresh).world.files :=
    .between (List.nil_append _).symm
  have kept : b ∈ op.kept [b] := by
    rw [(only [b]).2]
    exact List.mem_singleton_self b
  have after := claim _ _ (.crash run op (only _).1 crash (.done trivial)) b kept
  obtain ⟨d', opened, same, holds', blank⟩ := lost_of_open (d := anew (op.exec fresh).world.files)
    holds.suitable holds.stored rfl none
  obtain ⟨d'', recovered, -, -, same', bitmap, -⟩ := holds'.recover
  rw [opened, recovered] at after
  have set := after.1 0 (by rw [same', same]; exact covers)
  unfold BlockBitmap.isAllocated at set
  rw [bitmap, blank, Bool.and_false] at set
  cases set

end OpenFS
