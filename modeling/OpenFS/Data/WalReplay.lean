import OpenFS.Data.WalInvariant

/-!
# What the log replays

The first sequence number is 1 and its entry goes to the second slot, while
`Open` and `Replay` start at the first slot and stop at a header without the
magic number. The first slot is never written, so `Replay` returns nothing and
`Open` always starts at sequence number 1 again. A run is `Quiet` as long as
there was nothing to return and nothing to overwrite.
-/

namespace OpenFS.WalReplay

open ByteImage FileLog WalManager

/-- The calls of a run; `reopen` is `Close` and then `Open` with the same arguments. -/
inductive Op
  | append (blockId dataOffset : UInt64) (dataSize crc32 : UInt32)
  | commit (seq : Nat)
  | reopen

/-- A log with its file, and the history of the run: the accepted entries in
append order, and whether one of them went to the slot of an earlier one. -/
structure Run where
  wal : WalManager
  world : World Unit
  appended : List WalEntry
  overwrote : Prop

namespace Run

/-- The entries once `CommitEntry(seq)` returned `kOk`. -/
def markCommitted (seq : Nat) (entries : List WalEntry) : List WalEntry :=
  entries.map fun e => if e.seq = seq then { e with committed := true } else e

/-- The slot that the next accepted entry goes to has an accepted entry already. -/
def SlotTaken (r : Run) : Prop := ∃ e ∈ r.appended, fileOffset e.seq = fileOffset r.wal.nextSeq

def step (r : Run) : Op → Run
  | .append blockId dataOffset dataSize crc32 =>
    match r.wal.appendEntry r.world () blockId dataOffset dataSize crc32 with
    | (.ok seq, wal, world) =>
      { wal := wal, world := world,
        appended := r.appended ++ [{ seq := seq, blockId := blockId, dataOffset := dataOffset,
                                     dataSize := dataSize, crc32 := crc32, committed := false }],
        overwrote := r.overwrote ∨ r.SlotTaken }
    | (.error _, wal, world) => { r with wal := wal, world := world }
  | .commit seq =>
    match r.wal.commitEntry r.world () seq with
    | (.ok, wal, world) => { r with wal := wal, world := world, appended := markCommitted seq r.appended }
    | (_, wal, world) => { r with wal := wal, world := world }
  | .reopen => { r with wal := (r.wal.close.open' (r.world.files ()) r.wal.walBlocks).2 }

def run (r : Run) (ops : List Op) : Run := ops.foldl step r

/-- `Replay` returns the accepted entries with a block id, in append order, and
none of them has been overwritten. -/
def Correct (r : Run) : Prop :=
  (r.wal.replay (r.world.files ())).1 = .ok (r.appended.filter fun e => 0 < e.blockId) ∧ ¬ r.overwrote

/-- A log that was just `Reset`, or freshly opened on a file of zeros. -/
inductive Start : Run → Prop where
  | reset {wal : WalManager} {world : World Unit} (isOpen : wal.isOpen = true) :
      Start { wal := (wal.reset world ()).2.1, world := (wal.reset world ()).2.2,
              appended := [], overwrote := False }
  | opened (walBlocks n : Nat) (log : List (Effect Unit)) :
      Start { wal := (({} : WalManager).open' (Image.zeros n) walBlocks).2,
              world := ⟨fun _ => Image.zeros n, log⟩, appended := [], overwrote := False }

/-- What holds throughout: nothing goes to the first slot, and it is blank. -/
structure Inv (r : Run) : Prop where
  numbered : r.wal.Numbered
  blank : FirstBlank (r.world.files ())

/-- Nothing to replay, nothing overwritten. -/
def Quiet (r : Run) : Prop := (∀ e ∈ r.appended, e.blockId = 0) ∧ ¬ r.overwrote

theorem Start.inv {r : Run} (h : Start r) : r.Inv := by
  cases h with
  | @reset wal world isOpen =>
    obtain ⟨result, numbered⟩ := numbered_reset isOpen world ()
    rw [result]
    refine ⟨numbered, fun i _ => ?_⟩
    show (Function.update world.files () Image.empty ()).byte i = 0
    rw [Function.update_self]
    rfl
  | opened walBlocks n log => exact ⟨numbered_open _ _ _, fun _ _ => rfl⟩

theorem inv_append {r : Run} (inv : r.Inv) (blockId dataOffset : UInt64) (dataSize crc32 : UInt32) :
    (r.step (.append blockId dataOffset dataSize crc32)).Inv := by
  obtain ⟨outcome, wal, effects, result, numbered, behind⟩ :=
    append_effects inv.numbered r.world () blockId dataOffset dataSize crc32
  have blank := inv.blank.performAll behind
  simp only [step, result]
  split
  · next accepted => cases accepted; exact ⟨numbered, blank⟩
  · next refused => cases refused; exact ⟨numbered, blank⟩

theorem inv_commit {r : Run} (inv : r.Inv) (seq : Nat) : (r.step (.commit seq)).Inv := by
  obtain ⟨outcome, wal, effects, result, numbered, behind⟩ := commit_effects inv.numbered inv.blank seq
  have blank := inv.blank.performAll behind
  simp only [step, result]
  split
  · next accepted => cases accepted; exact ⟨numbered, blank⟩
  · next refused => cases refused; exact ⟨numbered, blank⟩

theorem inv_reopen {r : Run} (inv : r.Inv) : (r.step .reopen).Inv :=
  ⟨numbered_open _ _ _, inv.blank⟩

theorem inv_step {r : Run} (inv : r.Inv) (op : Op) : (r.step op).Inv := by
  cases op with
  | append blockId dataOffset dataSize crc32 => exact inv_append inv ..
  | commit seq => exact inv_commit inv seq
  | reopen => exact inv_reopen inv

theorem inv_run {r : Run} (inv : r.Inv) (ops : List Op) : (r.run ops).Inv := by
  induction ops generalizing r with
  | nil => exact inv
  | cons op ops ih => exact ih (inv_step inv op)

/-- `Replay` returns nothing, whatever was appended. -/
theorem replay_nil {r : Run} (inv : r.Inv) : (r.wal.replay (r.world.files ())).1 = .ok [] := by
  obtain ⟨s, replayed, -⟩ := inv.blank.replay inv.numbered
  rw [replayed]

theorem correct_iff_quiet {r : Run} (inv : r.Inv) : r.Correct ↔ r.Quiet := by
  unfold Correct Quiet
  rw [replay_nil inv, Except.ok.injEq]
  apply and_congr_left
  intro _
  rw [eq_comm, List.filter_eq_nil_iff]
  apply forall_congr'
  intro e
  apply imp_congr_right
  intro _
  simp only [decide_eq_true_eq, UInt64.not_lt, UInt64.le_zero_iff]

end Run

/-- What a step must meet, in the state it finds, for the run to stay correct: an
append is refused, or has no block id and a free slot. -/
def Harmless (r : Run) : Op → Prop
  | .append blockId _ _ _ => r.wal.Accepts → blockId = 0 ∧ ¬ r.SlotTaken
  | _ => True

/-- Every step of the run is harmless where it is taken. -/
def EachHarmless : Run → List Op → Prop
  | _, [] => True
  | r, op :: ops => Harmless r op ∧ EachHarmless (r.step op) ops

theorem step_append {r : Run} (accepts : r.wal.Accepts) (blockId dataOffset : UInt64) (dataSize crc32 : UInt32) :
    (r.step (.append blockId dataOffset dataSize crc32)).wal = { r.wal with nextSeq := u64 (r.wal.nextSeq + 1) } ∧
      (r.step (.append blockId dataOffset dataSize crc32)).appended = r.appended ++
        [{ seq := r.wal.nextSeq, blockId := blockId, dataOffset := dataOffset, dataSize := dataSize,
           crc32 := crc32, committed := false }] := by
  simp only [Run.step, appendEntry_of_accepts accepts, and_self]

theorem quiet_step_iff (r : Run) (op : Op) : (r.step op).Quiet ↔ r.Quiet ∧ Harmless r op := by
  cases op with
  | append blockId dataOffset dataSize crc32 =>
    by_cases accepts : r.wal.Accepts
    · simp only [Run.step, appendEntry_of_accepts accepts, Run.Quiet, Harmless, accepts, List.mem_append,
        List.mem_singleton]
      constructor
      · rintro ⟨ids, kept⟩
        exact ⟨⟨fun e member => ids e (.inl member), fun before => kept (.inl before)⟩,
          fun _ => ⟨ids _ (.inr rfl), fun taken => kept (.inr taken)⟩⟩
      · rintro ⟨⟨ids, kept⟩, harmless⟩
        obtain ⟨id, free⟩ := harmless trivial
        refine ⟨?_, ?_⟩
        · rintro e (member | rfl)
          · exact ids e member
          · exact id
        · rintro (before | taken)
          · exact kept before
          · exact free taken
    · obtain ⟨s, file, result, -⟩ :=
        appendEntry_of_refused accepts r.world () blockId dataOffset dataSize crc32
      simp only [Run.step, result, Run.Quiet, Harmless, accepts, false_implies, and_true]
  | commit seq =>
    have marked : (∀ e ∈ Run.markCommitted seq r.appended, e.blockId = 0) ↔ ∀ e ∈ r.appended, e.blockId = 0 := by
      simp only [Run.markCommitted, List.forall_mem_map]
      apply forall_congr'
      intro e
      apply imp_congr_right
      intro _
      split <;> rfl
    simp only [Run.step, Harmless, and_true]
    split <;> simp only [Run.Quiet, marked]
  | reopen => simp only [Run.step, Run.Quiet, Harmless, and_true]

theorem quiet_run_iff (r : Run) (ops : List Op) : (r.run ops).Quiet ↔ r.Quiet ∧ EachHarmless r ops := by
  induction ops generalizing r with
  | nil => simp [Run.run, EachHarmless]
  | cons op ops ih =>
    rw [show r.run (op :: ops) = (r.step op).run ops from rfl, ih, quiet_step_iff, EachHarmless, and_assoc]

/-- **Replay returns what was logged** exactly in the runs whose appends are all
harmless. -/
theorem correct_run_iff {r : Run} (start : r.Start) (ops : List Op) :
    (r.run ops).Correct ↔ EachHarmless r ops := by
  have nothing : r.Quiet := by
    cases start <;> exact ⟨nofun, id⟩
  rw [Run.correct_iff_quiet (Run.inv_run start.inv ops), quiet_run_iff]
  exact and_iff_right nothing

/-- Three slots of zeros, freshly opened. -/
def threeSlots : Run :=
  { wal := (({} : WalManager).open' (Image.zeros 12288) 3).2, world := ⟨fun _ => Image.zeros 12288, []⟩,
    appended := [], overwrote := False }

theorem start_threeSlots : threeSlots.Start := .opened 3 12288 []

theorem threeSlots_wal : ∃ s, threeSlots.wal = { walBlocks := 3, nextSeq := 1, file := s } ∧ s.good = true := by
  refine ⟨⟨true, false⟩, ?_, rfl⟩
  unfold threeSlots WalManager.open'
  rw [scan]
  decide

/-- The numbers 1 and 2 are within its bounds, and no others. -/
theorem accepts_iff {wal : WalManager} {s : Stream} {seq : Nat}
    (state : wal = { walBlocks := 3, nextSeq := seq, file := s }) (good : s.good = true) (small : seq ≤ 3) :
    wal.Accepts ↔ seq < 3 := by
  subst state
  have size : WalManager.walSize { walBlocks := 3, nextSeq := seq, file := s } = 3 * walBlockSize := by
    show u64 (3 * walBlockSize) = _
    decide
  have place : fileOffset seq = seq * walBlockSize := fileOffset_of_bounded (by omega)
  unfold Accepts
  rw [size, place]
  unfold walBlockSize walEntryHeaderSize
  constructor
  · rintro ⟨-, bound, -⟩
    omega
  · intro below
    exact ⟨good, by omega, by omega⟩

/-- Two entries without a block id fill the log, a third one with an id is refused. -/
theorem correct_threeSlots : (threeSlots.run [.append 0 4096 100 9, .append 0 8192 100 9, .append 7 8192 100 9,
    .commit 1, .reopen]).Correct := by
  obtain ⟨s, fresh, good⟩ := threeSlots_wal
  have first : (threeSlots.step (.append 0 4096 100 9)).wal = { walBlocks := 3, nextSeq := 2, file := s } ∧
      (threeSlots.step (.append 0 4096 100 9)).appended =
        [{ seq := 1, dataOffset := 4096, dataSize := 100, crc32 := 9 }] := by
    have stepped := step_append ((accepts_iff fresh good (by decide)).mpr (by decide)) 0 4096 100 9
    rwa [fresh] at stepped
  have second : ((threeSlots.step (.append 0 4096 100 9)).step (.append 0 8192 100 9)).wal =
      { walBlocks := 3, nextSeq := 3, file := s } := by
    have stepped := step_append ((accepts_iff first.1 good (by decide)).mpr (by decide)) 0 8192 100 9
    rw [first.1] at stepped
    exact stepped.1
  refine (correct_run_iff start_threeSlots _).mpr ⟨fun _ => ⟨rfl, ?_⟩, fun _ => ⟨rfl, ?_⟩, fun accepts => ?_,
    trivial, trivial, trivial⟩
  · rintro ⟨e, member, -⟩
    cases member
  · rintro ⟨e, member, same⟩
    rw [first.2] at member
    rw [first.1] at same
    cases List.mem_singleton.mp member
    exact absurd (show fileOffset 1 = fileOffset 2 from same) (by decide)
  · exact absurd ((accepts_iff second good (by decide)).mp accepts) (by decide)

/-- One accepted entry is not replayed. -/
theorem append_not_replayed : ¬ ∀ (r : Run), r.Start → ∀ ops, (r.run ops).Correct := by
  intro claim
  have correct := claim threeSlots start_threeSlots [.append 7 4096 100 0]
  rw [Run.correct_iff_quiet (Run.inv_run start_threeSlots.inv _), quiet_run_iff] at correct
  obtain ⟨-, harmless, -⟩ := correct
  obtain ⟨s, fresh, good⟩ := threeSlots_wal
  exact absurd (harmless ((accepts_iff fresh good (by decide)).mpr (by decide))).1 (by decide)

end OpenFS.WalReplay
