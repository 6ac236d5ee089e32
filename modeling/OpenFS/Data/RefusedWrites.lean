import OpenFS.Data.SegmentReopen

/-!
# Blocks that fit in no segment

A segment that refuses a block is taken for a full one: it is sealed and another one is
begun. A block too large for an empty segment is refused by that one as well, and the
engine stays with it.
-/

namespace OpenFS

open OutFile

/-! ## The fill of a segment -/

/-- A segment whose data ends before the place of the footer. -/
structure SegmentWriter.Filling (w : SegmentWriter) (segmentSize : Nat) : Prop where
  size : w.maxSize = segmentSize
  unsealed : w.sealed_ = false
  begun : segmentHeaderSize ≤ w.currentOffset
  room : w.currentOffset ≤ segmentSize - segmentFooterSize

namespace SegmentWriter

section
variable {w : SegmentWriter} {n : Nat}

/-- The new place and the sum of `WriteBlock` do not wrap around. -/
theorem aligned_eq (low : w.currentOffset < 2 ^ 63) :
    aligned w.currentOffset = (w.currentOffset + 4095) / 4096 * 4096 := by
  unfold aligned blockAlignment
  rw [u64, Nat.mod_eq_of_lt (by omega)]
  rfl

theorem noSpaceFor_iff (filling : w.Filling n) (large : 8192 ≤ n) (small : n < 2 ^ 63) (dataSize : UInt32) :
    w.noSpaceFor dataSize = true ↔
      n - segmentFooterSize < aligned w.currentOffset + blockHeaderSize + dataSize.toNat := by
  obtain ⟨size, -, -, room⟩ := filling
  have short := dataSize.toNat_lt
  unfold segmentFooterSize at room
  have place := aligned_eq (w := w) (by omega)
  unfold noSpaceFor footerPos segmentFooterSize blockHeaderSize
  rw [size, if_pos (by omega), place, u64, Nat.mod_eq_of_lt (by omega)]
  simp

/-- A block too large for an empty segment is too large at any fill. -/
theorem noSpaceFor_of_tooLarge (filling : w.Filling n) (large : 8192 ≤ n) (small : n < 2 ^ 63) {dataSize : UInt32}
    (tooLarge : n - segmentFooterSize < segmentHeaderSize + blockHeaderSize + dataSize.toNat) :
    w.noSpaceFor dataSize = true := by
  apply (noSpaceFor_iff filling large small dataSize).mpr
  have room := filling.room
  have begun := filling.begun
  unfold segmentFooterSize segmentHeaderSize at *
  rw [aligned_eq (by omega)]
  omega

theorem pad_place (w : SegmentWriter) (files : Files Str) :
    (w.pad files).1.maxSize = w.maxSize ∧ (w.pad files).1.segmentId = w.segmentId ∧
      w.currentOffset ≤ (w.pad files).1.currentOffset ∧
      (w.pad files).1.currentOffset ≤ max w.currentOffset (aligned w.currentOffset) := by
  unfold pad
  generalize w.file.write files _ = o
  split
  next further =>
    dsimp only
    split
    · exact ⟨rfl, rfl, Nat.le_refl _, Nat.le_max_left _ _⟩
    · exact ⟨rfl, rfl, Nat.le_of_lt further, Nat.le_max_right _ _⟩
  next => exact ⟨rfl, rfl, Nat.le_refl _, Nat.le_max_left _ _⟩

/-- `WriteBlock` writes in the room of the segment. -/
theorem writeBlock_filling (filling : w.Filling n) (large : 8192 ≤ n) (small : n < 2 ^ 63) (files : Files Str)
    (b : SegmentBlock) :
    (w.writeBlock files b.blockId b.level b.data b.dataSize b.crc32).2.1.Filling n ∧
      (w.writeBlock files b.blockId b.level b.data b.dataSize b.crc32).2.1.segmentId = w.segmentId := by
  have fits := noSpaceFor_iff filling large small b.dataSize
  have sealing := SegmentEngine.pad_sealed w files
  have padded := pad_place w files
  obtain ⟨size, unsealed, begun, room⟩ := filling
  unfold writeBlock
  rw [if_neg (by simp [unsealed])]
  by_cases full : w.noSpaceFor b.dataSize = true
  · rw [if_pos full]
    exact ⟨⟨size, unsealed, begun, room⟩, rfl⟩
  rw [if_neg full]
  rw [fits] at full
  generalize w.pad files = p at sealing padded ⊢
  obtain ⟨size', id', further, within⟩ := padded
  have before : p.1.currentOffset + blockHeaderSize + b.dataSize.toNat ≤ n - segmentFooterSize := by
    have past : w.currentOffset ≤ aligned w.currentOffset := by
      rw [aligned_eq (by omega)]
      omega
    omega
  dsimp only
  generalize p.1.file.write p.2 _ = o
  split
  · exact ⟨⟨size'.trans size, sealing.trans unsealed, by dsimp only; omega, by dsimp only; omega⟩, id'⟩
  generalize o.1.write o.2 _ = q
  split
  · exact ⟨⟨size'.trans size, sealing.trans unsealed, by dsimp only; omega, by dsimp only; omega⟩, id'⟩
  · exact ⟨⟨size'.trans size, sealing.trans unsealed, by dsimp only; omega, by dsimp only; omega⟩, id'⟩

end

end SegmentWriter

/-! ## Calls -/

namespace SegmentEngine

/-- A segment that the engine can append to: the latest one. -/
structure Appends (e : SegmentEngine) (n : Nat) (w : SegmentWriter) : Prop where
  filling : w.Filling n
  latest : w.segmentId + 1 = e.nextSegmentId
  size : e.segmentSize = n

section
variable {e : SegmentEngine} {w : SegmentWriter} {n : Nat}

theorem filling_of_like (large : 8192 ≤ n) (like : w.Like (fresh n)) : w.Filling n := by
  refine ⟨like.size, like.unsealed, Nat.le_of_eq like.place.symm, ?_⟩
  rw [like.place]
  unfold fresh segmentHeaderSize segmentFooterSize
  dsimp only
  omega

theorem create_id (files : Files Str) (id : UInt64) (path : Str) (maxSize : Nat) :
    (SegmentWriter.create files id path maxSize).1.segmentId = id := by
  unfold SegmentWriter.create SegmentWriter.writeHeader
  dsimp only
  split <;> rfl

theorem createNewSegment_appends (large : 8192 ≤ n) (size : e.segmentSize = n) (files : Files Str) :
    (e.createNewSegment files).2.1.Appends n (e.createNewSegment files).1 := by
  subst size
  unfold createNewSegment
  exact ⟨filling_of_like large (create_like ..), by dsimp only; rw [create_id], rfl⟩

theorem rotate_appends (large : 8192 ≤ n) (size : e.segmentSize = n) (w : SegmentWriter) (files : Files Str) :
    (e.rotate w files).2.1.Appends n (e.rotate w files).1 := by
  unfold rotate
  exact createNewSegment_appends large size _

theorem begin_appends (large : 8192 ≤ n) (size : e.segmentSize = n)
    (active : ∀ w, e.activeWriter = some w → e.Appends n w) (files : Files Str) :
    (e.begin_ files).2.1.Appends n (e.begin_ files).1 := by
  unfold begin_
  cases writer : e.activeWriter with
  | none => exact createNewSegment_appends large size files
  | some w => exact active w writer

theorem leaveFull_appends (large : 8192 ≤ n) (appends : e.Appends n w) (files : Files Str) :
    (e.leaveFull w files).2.1.Appends n (e.leaveFull w files).1 := by
  unfold leaveFull
  split
  · exact rotate_appends large appends.size w files
  · exact appends

theorem append_appends (large : 8192 ≤ n) (small : n < 2 ^ 63) (appends : e.Appends n w) (files : Files Str)
    (b : SegmentBlock) :
    (e.append w files b.blockId b.level b.data b.dataSize b.crc32).2.2.1.Appends n
      (e.append w files b.blockId b.level b.data b.dataSize b.crc32).2.1 := by
  obtain ⟨filling, id⟩ := SegmentWriter.writeBlock_filling appends.filling large small files b
  unfold append
  generalize w.writeBlock files b.blockId b.level b.data b.dataSize b.crc32 = o at filling id
  obtain ⟨r, w₁, files₁⟩ := o
  have same : e.Appends n w₁ := ⟨filling, id ▸ appends.latest, appends.size⟩
  have rotated := rotate_appends large appends.size w₁ files₁
  obtain ⟨filling', id'⟩ :=
    SegmentWriter.writeBlock_filling rotated.filling large small (e.rotate w₁ files₁).2.2 b
  have again : (e.rotate w₁ files₁).2.1.Appends n ((e.rotate w₁ files₁).1.writeBlock (e.rotate w₁ files₁).2.2
      b.blockId b.level b.data b.dataSize b.crc32).2.1 := ⟨filling', id' ▸ rotated.latest, rotated.size⟩
  cases r with
  | ok _ => exact same
  | error s =>
    cases s with
    | noSpace => exact again
    | _ => exact same

/-- Both the old segment and the new one refuse the block. -/
theorem append_refused (large : 8192 ≤ n) (small : n < 2 ^ 63) (appends : e.Appends n w) (files : Files Str)
    {b : SegmentBlock}
    (tooLarge : n - segmentFooterSize < segmentHeaderSize + blockHeaderSize + b.dataSize.toNat) :
    (e.append w files b.blockId b.level b.data b.dataSize b.crc32).1 = .error .noSpace := by
  have full := SegmentWriter.noSpaceFor_of_tooLarge appends.filling large small tooLarge
  have rotated := rotate_appends large appends.size w files
  have full' := SegmentWriter.noSpaceFor_of_tooLarge rotated.filling large small tooLarge
  unfold append
  rw [SegmentWriter.writeBlock_refused appends.filling.unsealed files b full]
  dsimp only
  rw [SegmentWriter.writeBlock_refused rotated.filling.unsealed _ b full']

/-- A call keeps the engine with a segment that it can append to. -/
theorem writeBlock_appends (large : 8192 ≤ n) (small : n < 2 ^ 63) (size : e.segmentSize = n)
    (active : ∀ w, e.activeWriter = some w → e.Appends n w) (files : Files Str) (b : SegmentBlock) :
    ∃ w, (e.writeBlock files b.blockId b.level b.data b.dataSize b.crc32).2.1.activeWriter = some w ∧
      (e.writeBlock files b.blockId b.level b.data b.dataSize b.crc32).2.1.Appends n w := by
  have begun := begin_appends large size active files
  unfold writeBlock
  dsimp only
  generalize e.begin_ files = o at begun
  have left := leaveFull_appends large begun o.2.2
  generalize o.2.1.leaveFull o.1 o.2.2 = q at left
  obtain ⟨filling, latest, size'⟩ := append_appends large small left q.2.2 b
  generalize q.2.1.append q.1 q.2.2 b.blockId b.level b.data b.dataSize b.crc32 = a at filling latest size'
  obtain ⟨r, w, e', files'⟩ := a
  cases r with
  | error _ => exact ⟨w, rfl, filling, latest, size'⟩
  | ok _ => exact ⟨w, rfl, filling, latest, size'⟩

/-- A block that fits in no segment is refused, at a price of one segment at least. -/
theorem writeBlock_tooLarge (large : 8192 ≤ n) (small : n < 2 ^ 63) (size : e.segmentSize = n)
    (active : ∀ w, e.activeWriter = some w → e.Appends n w) (files : Files Str) {b : SegmentBlock}
    (tooLarge : n - segmentFooterSize < segmentHeaderSize + blockHeaderSize + b.dataSize.toNat) :
    (e.writeBlock files b.blockId b.level b.data b.dataSize b.crc32).1 = .error .noSpace ∧
      0 < e.takes b.dataSize := by
  have begun := begin_appends large size active files
  have writer : (e.activeWriter.getD (fresh n)).Filling n := by
    cases writer : e.activeWriter with
    | none => exact filling_of_like large ⟨rfl, rfl, rfl⟩
    | some w => exact (active w writer).filling
  refine ⟨?_, ?_⟩
  · unfold writeBlock
    dsimp only
    generalize e.begin_ files = o at begun
    have left := leaveFull_appends large begun o.2.2
    generalize o.2.1.leaveFull o.1 o.2.2 = q at left
    have refused := append_refused large small left q.2.2 tooLarge
    generalize q.2.1.append q.1 q.2.2 b.blockId b.level b.data b.dataSize b.crc32 = a at refused
    obtain ⟨r, w, e', files'⟩ := a
    cases refused
    rfl
  · have last : (if (e.activeWriter.getD (fresh n)).isFull then fresh n
        else e.activeWriter.getD (fresh n)).noSpaceFor b.dataSize = true := by
      split
      · exact SegmentWriter.noSpaceFor_of_tooLarge (filling_of_like large ⟨rfl, rfl, rfl⟩) large small tooLarge
      · exact SegmentWriter.noSpaceFor_of_tooLarge writer large small tooLarge
    unfold takes
    rw [size]
    dsimp only
    rw [if_pos last]
    omega

end

end SegmentEngine

/-! ## Runs -/

namespace SegmentStore

/-- The block fits in no segment of this size. -/
def TooLarge (segmentSize : Nat) (b : SegmentBlock) : Prop :=
  segmentSize - segmentFooterSize < segmentHeaderSize + blockHeaderSize + b.data.length

/-- What `WriteBlock` returns. -/
def result (s : SegmentStore) (b : SegmentBlock) : Except Status (UInt64 × Nat) :=
  (s.engine.writeBlock s.files b.blockId b.level b.data b.dataSize b.crc32).1

/-- The active segment: its id, whether it is sealed, and its fill. -/
def activeSegment (s : SegmentStore) : Option (UInt64 × Bool × Nat) :=
  s.engine.activeWriter.map fun w => (w.segmentId, w.sealed_, w.currentOffset)

/-- The second state has the active segment, the next id and the files of the first one. -/
structure LeftAlone (s s' : SegmentStore) : Prop where
  active : s'.activeSegment = s.activeSegment
  next : s'.engine.nextSegmentId = s.engine.nextSegmentId
  names : ∀ path, (s'.files path).isSome = (s.files path).isSome

/-- A refused block leaves the state alone. -/
structure CostsNothing (s : SegmentStore) (b : SegmentBlock) : Prop where
  refused : s.result b = .error .noSpace
  leftAlone : s.LeftAlone (s.write b)

/-- The active segment, if there is one, can be appended to. -/
structure Open (s : SegmentStore) (n : Nat) : Prop where
  size : s.engine.segmentSize = n
  active : ∀ w, s.engine.activeWriter = some w → s.engine.Appends n w

section
variable {s : SegmentStore} {n : Nat} {b : SegmentBlock}

theorem dataSize_toNat (b : SegmentBlock) : b.dataSize.toNat = b.data.length := by
  unfold SegmentBlock.dataSize
  exact UInt32.toNat_ofNat_of_lt' b.short

theorem write_engine (s : SegmentStore) (b : SegmentBlock) : (s.write b).engine =
    (s.engine.writeBlock s.files b.blockId b.level b.data b.dataSize b.crc32).2.1 := by
  unfold write
  dsimp only

theorem open_write (large : 8192 ≤ n) (small : n < 2 ^ 63) (isOpen : s.Open n) (b : SegmentBlock) :
    (s.write b).Open n := by
  obtain ⟨w, writer, appends⟩ :=
    SegmentEngine.writeBlock_appends large small isOpen.size isOpen.active s.files b
  rw [← write_engine] at writer appends
  refine ⟨appends.size, fun w' active => ?_⟩
  cases writer.symm.trans active
  exact appends

/-- Any run of calls keeps it. -/
theorem open_run (large : 8192 ≤ n) (small : n < 2 ^ 63) (isOpen : s.Open n) (blocks : List SegmentBlock) :
    (s.run blocks).Open n := by
  induction blocks generalizing s with
  | nil => exact isOpen
  | cons b blocks ih =>
    rw [run_cons]
    exact ih (open_write large small isOpen b)

theorem open_start (files : Files Str) (dataDir : Str) (n : Nat) : (start files dataDir n).Open n :=
  ⟨rfl, fun _ active => (by cases active)⟩

/-- Only segments of less than 5 GiB have blocks that are too large. -/
theorem small_of_tooLarge (tooLarge : TooLarge n b) : n < 2 ^ 63 := by
  have short := b.short
  unfold TooLarge segmentFooterSize segmentHeaderSize blockHeaderSize at tooLarge
  omega

/-- What the call does: one to three ids are used up. -/
theorem write_tooLarge (large : 8192 ≤ n) (isOpen : s.Open n) (tooLarge : TooLarge n b) :
    s.result b = .error .noSpace ∧ ∃ k, 0 < k ∧ k ≤ 3 ∧
      (s.write b).engine.nextSegmentId = s.engine.nextSegmentId + UInt64.ofNat k := by
  have small := small_of_tooLarge tooLarge
  have tooLarge' : n - segmentFooterSize < segmentHeaderSize + blockHeaderSize + b.dataSize.toNat := by
    rw [dataSize_toNat]
    exact tooLarge
  obtain ⟨refused, positive⟩ :=
    SegmentEngine.writeBlock_tooLarge large small isOpen.size isOpen.active s.files tooLarge'
  have unsealed : ∀ w, s.engine.activeWriter = some w → w.sealed_ = false :=
    fun w active => (isOpen.active w active).filling.unsealed
  generalize wrote : s.engine.writeBlock s.files b.blockId b.level b.data b.dataSize b.crc32 = o at refused
  obtain ⟨r, e', files'⟩ := o
  obtain ⟨next, -⟩ := SegmentEngine.writeBlock_takes unsealed s.files b wrote
  rw [write_engine]
  unfold result
  rw [wrote]
  exact ⟨refused, s.engine.takes b.dataSize, positive, SegmentEngine.takes_le .., next⟩

theorem add_small_ne {k : Nat} (positive : 0 < k) (small : k ≤ 3) (i : UInt64) : i + UInt64.ofNat k ≠ i := by
  intro same
  have zero : UInt64.ofNat k = UInt64.ofNat 0 := by
    apply (UInt64.add_right_inj i).mp
    exact same.trans (UInt64.add_zero _).symm
  have values := congrArg UInt64.toNat zero
  rw [UInt64.toNat_ofNat_of_lt' (show k < 2 ^ 64 by omega)] at values
  have : k = 0 := values
  omega

/-- The engine has left its segment for another one. -/
theorem segment_left (large : 8192 ≤ n) (isOpen : s.Open n) (tooLarge : TooLarge n b) {w w' : SegmentWriter}
    (active : s.engine.activeWriter = some w) (active' : (s.write b).engine.activeWriter = some w') :
    w'.segmentId ≠ w.segmentId := by
  intro same
  obtain ⟨-, k, positive, few, next⟩ := write_tooLarge large isOpen tooLarge
  have latest := (isOpen.active w active).latest
  have latest' := ((open_write large (small_of_tooLarge tooLarge) isOpen b).active w' active').latest
  rw [next, same, latest] at latest'
  exact add_small_ne positive few _ latest'.symm

theorem not_leftAlone (large : 8192 ≤ n) (isOpen : s.Open n) (tooLarge : TooLarge n b) :
    ¬ s.LeftAlone (s.write b) := by
  intro alone
  obtain ⟨-, k, positive, few, next⟩ := write_tooLarge large isOpen tooLarge
  exact add_small_ne positive few _ (next.symm.trans alone.next)

/-- Refused blocks add up: each of them has begun a segment. -/
theorem created_run_refused (large : 8192 ≤ n) (isOpen : s.Open n) (blocks : List SegmentBlock)
    (tooLarge : ∀ b ∈ blocks, TooLarge n b) : s.created + blocks.length ≤ (s.run blocks).created := by
  induction blocks generalizing s with
  | nil => exact Nat.le_refl _
  | cons b blocks ih =>
    obtain ⟨first, rest⟩ := List.forall_mem_cons.mp tooLarge
    obtain ⟨-, k, positive, few, next⟩ := write_tooLarge large isOpen first
    have one : (s.write b).created = s.created + k := by
      have same : (s.write b).created =
          s.created + ((s.write b).engine.nextSegmentId - s.engine.nextSegmentId).toNat := by
        rw [write_engine]
        unfold write
        dsimp only
      rw [same, next, UInt64.add_comm, UInt64.add_sub_cancel, UInt64.toNat_ofNat_of_lt' (show k < 2 ^ 64 by omega)]
    have more := ih (open_write large (small_of_tooLarge first) isOpen b) rest
    rw [run_cons, List.length_cons]
    omega

end

/-- **A block that fits in no segment is refused at a cost**, after every run: the next id is
another one, and so is the active segment. The costs of further ones add up. -/
theorem refused_write_costs (files : Files Str) (dataDir : Str) (segmentSize : Nat) (large : 8192 ≤ segmentSize)
    (blocks : List SegmentBlock) (s : SegmentStore) (ran : (start files dataDir segmentSize).run blocks = s)
    (b : SegmentBlock) (tooLarge : TooLarge segmentSize b) :
    s.result b = .error .noSpace ∧ ¬ s.CostsNothing b ∧
      (s.write b).engine.nextSegmentId ≠ s.engine.nextSegmentId ∧
      (∀ w w', s.engine.activeWriter = some w → (s.write b).engine.activeWriter = some w' →
        w'.segmentId ≠ w.segmentId) ∧
      ∀ more, (∀ b ∈ more, TooLarge segmentSize b) → s.created + more.length ≤ (s.run more).created := by
  have isOpen := open_run large (small_of_tooLarge tooLarge) (open_start files dataDir segmentSize) blocks
  rw [ran] at isOpen
  obtain ⟨refused, k, positive, few, next⟩ := write_tooLarge large isOpen tooLarge
  refine ⟨refused, fun nothing => not_leftAlone large isOpen tooLarge nothing.leftAlone, ?_, ?_,
    created_run_refused large isOpen⟩
  · rw [next]
    exact add_small_ne positive few _
  · intro w w' active active'
    exact segment_left large isOpen tooLarge active active'

/-- A block of so many zeros. -/
def zeros (n : Nat) (short : n < 2 ^ 32) : SegmentBlock :=
  { data := List.replicate n 0, short := by rw [List.length_replicate]; exact short }

/-- A block as large as its segment does not fit. -/
theorem zeros_tooLarge {n : Nat} (short : n < 2 ^ 32) : TooLarge n (zeros n short) := by
  unfold TooLarge zeros segmentFooterSize segmentHeaderSize blockHeaderSize
  rw [List.length_replicate]
  omega

/-- An engine with one block, and one of 4 MiB. -/
theorem refused_write_costs_second :
    ((start (fun _ => none) [] 4194304).run [nothing]).result (zeros 4194304 (by decide)) = .error .noSpace ∧
      ¬ ((start (fun _ => none) [] 4194304).run [nothing]).CostsNothing (zeros 4194304 (by decide)) :=
  have whole := refused_write_costs (fun _ => none) [] 4194304 (by decide) [nothing] _ rfl
    (zeros 4194304 (by decide)) (zeros_tooLarge (by decide))
  ⟨whole.1, whole.2.1⟩

/-- 4 MiB do not fit in a segment of 4 MiB, and the refusal begins segments. -/
theorem refusal_begins_segments :
    ¬ ∀ (files : Files Str) (dataDir : Str) (segmentSize : Nat), 8192 ≤ segmentSize →
      ∀ (blocks : List SegmentBlock) (b : SegmentBlock), TooLarge segmentSize b →
        ((start files dataDir segmentSize).run blocks).CostsNothing b := by
  intro claim
  have short : 4194304 < 2 ^ 32 := by decide
  have tooLarge := zeros_tooLarge short
  have free := claim (fun _ => none) [] 4194304 (by decide) [] (zeros 4194304 short) tooLarge
  exact not_leftAlone (by decide) (open_start (fun _ => none) [] 4194304) tooLarge free.leftAlone

end SegmentStore

end OpenFS
