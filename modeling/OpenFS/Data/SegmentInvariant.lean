import OpenFS.Data.SegmentRecords

/-!
# Runs of the segment engine

A run of `WriteBlock` calls keeps all records, those of the run and those that the
directory had before, as long as no segment is created under an id that has records:
creating a segment empties its file.
-/

namespace OpenFS

open ByteImage OutFile

/-! ## One call -/

/-- The second state is the first one with so many ids taken. -/
structure SegmentEngine.Advance (e e' : SegmentEngine) (k : Nat) : Prop where
  next : e'.nextSegmentId = e.nextSegmentId + UInt64.ofNat k
  dir : e'.dataDir = e.dataDir
  size : e'.segmentSize = e.segmentSize

/-- The next ids have no records. -/
def Unused (records : List Record) (id : UInt64) (k : Nat) : Prop :=
  ∀ i < k, ∀ a ∈ records, a.segmentId ≠ id + UInt64.ofNat i

theorem Unused.left {records : List Record} {id : UInt64} {k l : Nat}
    (unused : Unused records id (k + l)) : Unused records id k :=
  fun i below => unused i (by omega)

theorem Unused.right {records : List Record} {id : UInt64} {k l : Nat}
    (unused : Unused records id (k + l)) : Unused records (id + UInt64.ofNat k) l := by
  intro i below a member
  rw [UInt64.add_assoc, ← UInt64.ofNat_add]
  exact unused (k + i) (by omega) a member

/-- The writer of the engine, which has the latest id. -/
structure Ready (e : SegmentEngine) (w : SegmentWriter) (files : Files Str) (records : List Record) : Prop where
  writing : Writing e.dataDir files records w
  size : w.maxSize = e.segmentSize
  latest : w.segmentId + 1 = e.nextSegmentId

/-- Where a record lies in a segment. -/
def PlacedIn (maxSize offset length : Nat) : Prop :=
  offset % blockAlignment = 0 ∧ segmentHeaderSize ≤ offset ∧
    u64 (offset + blockHeaderSize + length) ≤ SegmentWriter.footerPos maxSize ∧ offset < 2 ^ 63

namespace SegmentEngine

section
variable {e e' e'' : SegmentEngine} {w w' : SegmentWriter} {files files' : Files Str}
  {records : List Record} {k l : Nat}

theorem Advance.refl (e : SegmentEngine) : e.Advance e 0 := ⟨(UInt64.add_zero _).symm, rfl, rfl⟩

theorem Advance.trans (first : e.Advance e' k) (second : e'.Advance e'' l) : e.Advance e'' (k + l) :=
  ⟨by rw [second.next, first.next, UInt64.ofNat_add, UInt64.add_assoc], second.dir.trans first.dir,
    second.size.trans first.size⟩

/-- Begin a segment: the next id is taken, and the writer is ready if it has no records. -/
theorem createNewSegment_spec (e : SegmentEngine) (files : Files Str) (records : List Record) :
    e.Advance (e.createNewSegment files).2.1 1 ∧ ((∀ a ∈ records, a.In e.dataDir files) →
      records.Pairwise Record.Apart → Unused records e.nextSegmentId 1 →
        Ready (e.createNewSegment files).2.1 (e.createNewSegment files).1
          (e.createNewSegment files).2.2 records) := by
  refine ⟨⟨rfl, rfl, rfl⟩, fun stored apart unused => ?_⟩
  have free : ∀ a ∈ records, a.segmentId ≠ e.nextSegmentId := fun a member => by
    have other := unused 0 Nat.one_pos a member
    rwa [show UInt64.ofNat 0 = 0 from rfl, UInt64.add_zero] at other
  have begun := SegmentWriter.create_writing stored apart free e.segmentSize
  unfold createNewSegment
  unfold SegmentReader.segmentPath at begun
  dsimp only
  generalize SegmentWriter.create files e.nextSegmentId _ e.segmentSize = o at begun
  obtain ⟨writing, id, size⟩ := begun
  exact ⟨writing, size, by rw [id]⟩

theorem rotate_spec (e : SegmentEngine) (w : SegmentWriter) (files : Files Str) (records : List Record) :
    e.Advance (e.rotate w files).2.1 1 ∧ (Ready e w files records → Unused records e.nextSegmentId 1 →
      Ready (e.rotate w files).2.1 (e.rotate w files).1 (e.rotate w files).2.2 records) := by
  obtain ⟨advance, ready'⟩ := createNewSegment_spec { e with activeWriter := some (w.seal_ files).2.1 }
    (w.seal_ files).2.2 records
  exact ⟨⟨advance.next, advance.dir, advance.size⟩, fun ready =>
    ready' (SegmentWriter.seal_stored ready.writing) ready.writing.apart⟩

/-- The records are in their files, and the active writer is ready. -/
structure Sound (e : SegmentEngine) (files : Files Str) (records : List Record) : Prop where
  stored : ∀ a ∈ records, a.In e.dataDir files
  apart : records.Pairwise Record.Apart
  active : ∀ w, e.activeWriter = some w → Ready e w files records

theorem begin_spec (e : SegmentEngine) (files : Files Str) (records : List Record) :
    ∃ k ≤ 1, e.Advance (e.begin_ files).2.1 k ∧ (e.activeWriter = none → k = 1) ∧
      (Sound e files records → Unused records e.nextSegmentId k →
        Ready (e.begin_ files).2.1 (e.begin_ files).1 (e.begin_ files).2.2 records) := by
  unfold begin_
  cases active : e.activeWriter with
  | none =>
    obtain ⟨advance, ready⟩ := createNewSegment_spec e files records
    exact ⟨1, Nat.le_refl _, advance, fun _ => rfl, fun sound => ready sound.stored sound.apart⟩
  | some w =>
    exact ⟨0, Nat.zero_le _, .refl e, (fun none => by cases none), fun sound _ => sound.active w active⟩

theorem leaveFull_spec (e : SegmentEngine) (w : SegmentWriter) (files : Files Str) (records : List Record) :
    ∃ k ≤ 1, e.Advance (e.leaveFull w files).2.1 k ∧ (Ready e w files records → Unused records e.nextSegmentId k →
      Ready (e.leaveFull w files).2.1 (e.leaveFull w files).1 (e.leaveFull w files).2.2 records) := by
  unfold leaveFull
  by_cases full : w.isFull = true
  · rw [if_pos full]
    obtain ⟨advance, ready⟩ := rotate_spec e w files records
    exact ⟨1, Nat.le_refl _, advance, ready⟩
  · rw [if_neg full]
    exact ⟨0, Nat.zero_le _, .refl e, fun ready _ => ready⟩

/-- The record is added in the segment of the writer, or in a new one. -/
theorem append_spec (e : SegmentEngine) (w : SegmentWriter) (files : Files Str) (records : List Record)
    (b : SegmentBlock) {r : Except Status Nat}
    (appended : e.append w files b.blockId b.level b.data b.dataSize b.crc32 = (r, w', e', files')) :
    ∃ k ≤ 1, e.Advance e' k ∧ (Ready e w files records → Unused records e.nextSegmentId k →
      Ready e' w' files' (w'.added b records r) ∧
        ∀ offset, r = .ok offset → PlacedIn e.segmentSize offset b.data.length) := by
  unfold append at appended
  generalize first : w.writeBlock files b.blockId b.level b.data b.dataSize b.crc32 = o at appended
  obtain ⟨r₁, w₁, files₁⟩ := o
  have plain : (r₁, w₁, e, files₁) = (r, w', e', files') → ∃ k ≤ 1, e.Advance e' k ∧
      (Ready e w files records → Unused records e.nextSegmentId k → Ready e' w' files' (w'.added b records r) ∧
        ∀ offset, r = .ok offset → PlacedIn e.segmentSize offset b.data.length) := by
    intro same
    cases same
    refine ⟨0, Nat.zero_le _, .refl _, fun ready _ => ?_⟩
    obtain ⟨writing, id, size, placed⟩ := SegmentWriter.writeBlock_spec ready.writing b first
    refine ⟨⟨?_, size.trans ready.size, by rw [id, ready.latest]⟩, ?_⟩
    · unfold SegmentWriter.added at writing ⊢
      rwa [id]
    · intro offset ok
      rw [← ready.size]
      exact placed offset ok
  cases r₁ with
  | ok offset =>
    dsimp only at appended
    exact plain appended
  | error s =>
    by_cases full : s = .noSpace
    · subst full
      obtain ⟨advance, ready₂⟩ := rotate_spec e w₁ files₁ records
      dsimp only at appended
      generalize e.rotate w₁ files₁ = o at appended advance ready₂
      generalize second : o.1.writeBlock o.2.2 b.blockId b.level b.data b.dataSize b.crc32 = q at appended
      obtain ⟨r₃, w₃, files₃⟩ := q
      cases appended
      refine ⟨1, Nat.le_refl _, advance, fun ready unused => ?_⟩
      obtain ⟨writing, id, size, -⟩ := SegmentWriter.writeBlock_spec ready.writing b first
      have ready₂ := ready₂ ⟨writing, size.trans ready.size, by rw [id, ready.latest]⟩ unused
      obtain ⟨writing', id', size', placed'⟩ := SegmentWriter.writeBlock_spec ready₂.writing b second
      refine ⟨⟨?_, size'.trans ready₂.size, by rw [id', ready₂.latest]⟩, ?_⟩
      · unfold SegmentWriter.added at writing' ⊢
        rwa [id']
      · intro offset ok
        rw [← advance.size, ← ready₂.size]
        exact placed' offset ok
    · have same : (Except.error s, w₁, e, files₁) = (r, w', e', files') := by
        cases s with
        | noSpace => exact absurd rfl full
        | _ =>
          dsimp only at appended
          exact appended
      exact plain same

/-- The records after a call. -/
def recorded (b : SegmentBlock) (records : List Record) : Except Status (UInt64 × Nat) → List Record
  | .ok (segmentId, offset) => ⟨segmentId, offset, b.data, b.crc32⟩ :: records
  | .error _ => records

/-- A call takes at most three ids, and keeps all records if these have none. -/
theorem writeBlock_spec (e : SegmentEngine) (files : Files Str) (records : List Record) (b : SegmentBlock)
    {r : Except Status (UInt64 × Nat)}
    (wrote : e.writeBlock files b.blockId b.level b.data b.dataSize b.crc32 = (r, e', files')) :
    ∃ k ≤ 3, e.Advance e' k ∧ e'.activeWriter.isSome ∧ (e.activeWriter = none → 0 < k) ∧
      (Sound e files records → Unused records e.nextSegmentId k → Sound e' files' (recorded b records r) ∧
        ∀ segmentId offset, r = .ok (segmentId, offset) →
          segmentId + 1 = e'.nextSegmentId ∧ PlacedIn e.segmentSize offset b.data.length) := by
  obtain ⟨k₁, one₁, advance₁, first, ready₁⟩ := begin_spec e files records
  unfold writeBlock at wrote
  dsimp only at wrote
  generalize e.begin_ files = begun at advance₁ ready₁ wrote
  obtain ⟨w₁, e₁, files₁⟩ := begun
  dsimp only at advance₁ ready₁ wrote
  obtain ⟨k₂, one₂, advance₂, ready₂⟩ := leaveFull_spec e₁ w₁ files₁ records
  generalize e₁.leaveFull w₁ files₁ = left at advance₂ ready₂ wrote
  obtain ⟨w₂, e₂, files₂⟩ := left
  dsimp only at advance₂ ready₂ wrote
  generalize appended : e₂.append w₂ files₂ b.blockId b.level b.data b.dataSize b.crc32 = o at wrote
  obtain ⟨r₃, w₃, e₃, files₃⟩ := o
  obtain ⟨k₃, one₃, advance₃, ready₃⟩ := append_spec e₂ w₂ files₂ records b appended
  have advance := (advance₁.trans advance₂).trans advance₃
  have chain : Sound e files records → Unused records e.nextSegmentId (k₁ + k₂ + k₃) →
      Ready e₃ w₃ files₃ (w₃.added b records r₃) ∧
        ∀ offset, r₃ = .ok offset → PlacedIn e.segmentSize offset b.data.length := by
    intro sound unused
    have ready := ready₁ sound unused.left.left
    have next₂ := unused.left.right
    have next₃ := unused.right
    rw [← advance₁.next] at next₂
    rw [← (advance₁.trans advance₂).next] at next₃
    have done := ready₃ (ready₂ ready next₂) next₃
    rwa [advance₂.size, advance₁.size] at done
  cases r₃ with
  | error s =>
    cases wrote
    refine ⟨k₁ + k₂ + k₃, by omega, ⟨advance.next, advance.dir, advance.size⟩, rfl, fun none => ?_,
      fun sound unused => ?_⟩
    · have := first none
      omega
    · obtain ⟨ready, -⟩ := chain sound unused
      refine ⟨⟨ready.writing.stored, ready.writing.apart, fun w active => ?_⟩, fun _ _ ok => by cases ok⟩
      cases active
      exact ⟨ready.writing, ready.size, ready.latest⟩
  | ok offset =>
    cases wrote
    refine ⟨k₁ + k₂ + k₃, by omega, ⟨advance.next, advance.dir, advance.size⟩, rfl, fun none => ?_,
      fun sound unused => ?_⟩
    · have := first none
      omega
    · obtain ⟨ready, placed⟩ := chain sound unused
      refine ⟨⟨ready.writing.stored, ready.writing.apart, fun w active => ?_⟩, fun _ _ ok => ?_⟩
      · cases active
        exact ⟨ready.writing, ready.size, ready.latest⟩
      · cases ok
        exact ⟨ready.latest, placed _ rfl⟩

end

end SegmentEngine

/-! ## Runs -/

/-- An engine and the files, what its calls have returned, the latest first, and how many
segments it has created. -/
structure SegmentStore where
  files : Files Str
  engine : SegmentEngine
  records : List Record := []
  created : Nat := 0

namespace SegmentStore

/-- A new engine on a directory. -/
def start (files : Files Str) (dataDir : Str) (segmentSize : Nat) : SegmentStore :=
  { files := files, engine := { dataDir := dataDir, segmentSize := segmentSize } }

def write (s : SegmentStore) (b : SegmentBlock) : SegmentStore :=
  let o := s.engine.writeBlock s.files b.blockId b.level b.data b.dataSize b.crc32
  { files := o.2.2
    engine := o.2.1
    records := SegmentEngine.recorded b s.records o.1
    created := s.created + (o.2.1.nextSegmentId - s.engine.nextSegmentId).toNat }

def run (s : SegmentStore) (blocks : List SegmentBlock) : SegmentStore := blocks.foldl write s

theorem run_cons (s : SegmentStore) (b : SegmentBlock) (blocks : List SegmentBlock) :
    s.run (b :: blocks) = (s.write b).run blocks := by
  unfold run
  rw [List.foldl_cons]

theorem created_le_write (s : SegmentStore) (b : SegmentBlock) : s.created ≤ (s.write b).created := by
  unfold write
  exact Nat.le_add_right _ _

/-- The segments that the engine has created: it counts them from 1. -/
def segmentIds (s : SegmentStore) : List UInt64 := (List.range s.created).map fun j => 1 + UInt64.ofNat j

/-- What a run keeps, next to records that the directory had before. -/
structure Inv (s : SegmentStore) (old : List Record) : Prop where
  sound : s.engine.Sound s.files (s.records ++ old)
  next : s.engine.nextSegmentId = 1 + UInt64.ofNat s.created
  begun : s.engine.activeWriter ≠ none → 0 < s.created
  ids : ∀ a ∈ s.records, a.segmentId ∈ s.segmentIds
  placed : ∀ a ∈ s.records, PlacedIn s.engine.segmentSize a.offset a.data.length

section
variable {s : SegmentStore} {old : List Record}

theorem mem_segmentIds {id : UInt64} : id ∈ s.segmentIds ↔ ∃ j < s.created, id = 1 + UInt64.ofNat j := by
  unfold segmentIds
  simp only [List.mem_map, List.mem_range]
  exact exists_congr fun j => and_congr_right fun _ => eq_comm

theorem recorded_append (b : SegmentBlock) (records : List Record) (r : Except Status (UInt64 × Nat)) :
    SegmentEngine.recorded b (records ++ old) r = SegmentEngine.recorded b records r ++ old := by
  cases r <;> rfl

/-- Different counts below `2 ^ 64` are different ids. -/
theorem id_inj {i j : Nat} (hi : i < 2 ^ 64) (hj : j < 2 ^ 64)
    (same : 1 + UInt64.ofNat i = 1 + UInt64.ofNat j) : i = j := by
  have values := congrArg UInt64.toNat ((UInt64.add_right_inj 1).mp same)
  rwa [UInt64.toNat_ofNat_of_lt' hi, UInt64.toNat_ofNat_of_lt' hj] at values

theorem inv_write (inv : Inv s old) (b : SegmentBlock) (few : (s.write b).created ≤ 2 ^ 64)
    (spared : ∀ a ∈ old, a.segmentId ∉ (s.write b).segmentIds) :
    Inv (s.write b) old ∧ (s.write b).engine.dataDir = s.engine.dataDir ∧
      (s.write b).engine.segmentSize = s.engine.segmentSize := by
  generalize wrote : s.engine.writeBlock s.files b.blockId b.level b.data b.dataSize b.crc32 = o
  obtain ⟨r, e', files'⟩ := o
  obtain ⟨k, small, advance, active, first, keeps⟩ :=
    SegmentEngine.writeBlock_spec s.engine s.files (s.records ++ old) b wrote
  have after : s.write b = ⟨files', e', SegmentEngine.recorded b s.records r, s.created + k⟩ := by
    unfold write
    rw [wrote]
    dsimp only
    rw [advance.next, UInt64.add_comm, UInt64.add_sub_cancel, UInt64.toNat_ofNat_of_lt' (show k < 2 ^ 64 by omega)]
  rw [after] at few spared ⊢
  dsimp only at few
  have unused : Unused (s.records ++ old) s.engine.nextSegmentId k := by
    intro i below a member same
    rw [inv.next, UInt64.add_assoc, ← UInt64.ofNat_add] at same
    rcases List.mem_append.mp member with own | older
    · obtain ⟨j, before, id⟩ := mem_segmentIds.mp (inv.ids a own)
      have := id_inj (by omega) (by omega) (id.symm.trans same)
      omega
    · exact spared a older (mem_segmentIds.mpr ⟨s.created + i, by dsimp only; omega, same⟩)
  obtain ⟨sound, placed⟩ := keeps inv.sound unused
  rw [recorded_append] at sound
  have some : 0 < s.created + k := by
    by_cases none : s.engine.activeWriter = none
    · have := first none
      omega
    · have := inv.begun none
      omega
  have next : e'.nextSegmentId = 1 + UInt64.ofNat (s.created + k) := by
    rw [advance.next, inv.next, UInt64.add_assoc, ← UInt64.ofNat_add]
  refine ⟨⟨sound, next, fun _ => some, ?_, ?_⟩, advance.dir, advance.size⟩
  · have older : ∀ a ∈ s.records, ∃ j < s.created + k, a.segmentId = 1 + UInt64.ofNat j := fun a member => by
      obtain ⟨j, before, id⟩ := mem_segmentIds.mp (inv.ids a member)
      exact ⟨j, by omega, id⟩
    intro a member
    refine mem_segmentIds.mpr ?_
    cases r with
    | error _ => exact older a member
    | ok place =>
      rcases List.mem_cons.mp member with rfl | later
      · obtain ⟨latest, -⟩ := placed _ _ rfl
        refine ⟨s.created + k - 1, by dsimp only; omega, ?_⟩
        obtain ⟨n, count⟩ : ∃ n, s.created + k = n + 1 := ⟨s.created + k - 1, by omega⟩
        rw [next, count, UInt64.ofNat_add, ← UInt64.add_assoc] at latest
        rw [count, Nat.add_sub_cancel]
        exact (UInt64.add_left_inj 1).mp latest
      · exact older a later
  · intro a member
    rw [advance.size]
    cases r with
    | error _ => exact inv.placed a member
    | ok place =>
      rcases List.mem_cons.mp member with rfl | later
      · exact (placed _ _ rfl).2
      · exact inv.placed a later

theorem created_le_run (s : SegmentStore) (blocks : List SegmentBlock) : s.created ≤ (s.run blocks).created := by
  induction blocks generalizing s with
  | nil => exact Nat.le_refl _
  | cons b blocks ih =>
    rw [run_cons]
    exact Nat.le_trans (created_le_write s b) (ih (s.write b))

/-- A run keeps all records if it creates no segment that has one from before. -/
theorem inv_run (inv : Inv s old) (blocks : List SegmentBlock) (few : (s.run blocks).created ≤ 2 ^ 64)
    (spared : ∀ a ∈ old, a.segmentId ∉ (s.run blocks).segmentIds) :
    Inv (s.run blocks) old ∧ (s.run blocks).engine.dataDir = s.engine.dataDir ∧
      (s.run blocks).engine.segmentSize = s.engine.segmentSize := by
  induction blocks generalizing s with
  | nil => exact ⟨inv, rfl, rfl⟩
  | cons b blocks ih =>
    rw [run_cons] at few spared ⊢
    have grows := created_le_run (s.write b) blocks
    have spared₁ : ∀ a ∈ old, a.segmentId ∉ (s.write b).segmentIds := by
      intro a member early
      obtain ⟨j, before, id⟩ := mem_segmentIds.mp early
      exact spared a member (mem_segmentIds.mpr ⟨j, Nat.lt_of_lt_of_le before grows, id⟩)
    obtain ⟨inv₁, dir₁, size₁⟩ := inv_write inv b (Nat.le_trans grows few) spared₁
    obtain ⟨inv', dir', size'⟩ := ih inv₁ few spared
    exact ⟨inv', dir'.trans dir₁, size'.trans size₁⟩

end

end SegmentStore

end OpenFS
