import OpenFS.Data.SegmentRoundTrip

/-!
# Opening a segment directory again

A new engine counts its segments from 1 again and empties their files. So it keeps the
records of an earlier engine as long as it begins no segment that has one of them. How
many segments a call begins can be told before it.
-/

namespace OpenFS

open OutFile

/-! ## The segments that a call begins -/

/-- A writer that is not sealed and is at the same place as another one. -/
structure SegmentWriter.Like (w w' : SegmentWriter) : Prop where
  size : w.maxSize = w'.maxSize
  place : w.currentOffset = w'.currentOffset
  unsealed : w.sealed_ = false

/-- A segment without room refuses a block, and is as it was. -/
theorem SegmentWriter.writeBlock_refused {w : SegmentWriter} (unsealed : w.sealed_ = false) (files : Files Str)
    (b : SegmentBlock) (full : w.noSpaceFor b.dataSize = true) :
    w.writeBlock files b.blockId b.level b.data b.dataSize b.crc32 = (.error .noSpace, w, files) := by
  unfold writeBlock
  rw [if_neg (by simp [unsealed]), if_pos full]

namespace SegmentEngine

/-- What the tests see of a new writer. -/
def fresh (segmentSize : Nat) : SegmentWriter :=
  { segmentId := 0, path := [], maxSize := segmentSize, currentOffset := segmentHeaderSize,
    file := { path := [] } }

/-- A first segment, one in place of a full one, and one for a block that does not fit. -/
def takes (e : SegmentEngine) (dataSize : UInt32) : Nat :=
  let w := e.activeWriter.getD (fresh e.segmentSize)
  let w' := if w.isFull then fresh e.segmentSize else w
  (if e.activeWriter.isNone then 1 else 0) + (if w.isFull then 1 else 0) +
    (if w'.noSpaceFor dataSize then 1 else 0)

section
variable {e : SegmentEngine} {w w' : SegmentWriter} {files : Files Str}

theorem isFull_like (like : w.Like w') : w.isFull = w'.isFull := by
  unfold SegmentWriter.isFull
  rw [like.size, like.place]

theorem noSpaceFor_like (like : w.Like w') (dataSize : UInt32) :
    w.noSpaceFor dataSize = w'.noSpaceFor dataSize := by
  unfold SegmentWriter.noSpaceFor
  rw [like.size, like.place]

theorem create_like (files : Files Str) (id : UInt64) (path : Str) (maxSize : Nat) :
    (SegmentWriter.create files id path maxSize).1.Like (fresh maxSize) := by
  have low : 0 + (SegmentWriter.headerBuf id).length < 2 ^ 63 := by
    rw [SegmentWriter.length_headerBuf]
    decide
  unfold SegmentWriter.create SegmentWriter.writeHeader openTrunc
  dsimp only
  rw [write_eq rfl low, if_neg (by simp)]
  exact ⟨rfl, rfl, rfl⟩

theorem rotate_like (e : SegmentEngine) (w : SegmentWriter) (files : Files Str) :
    (e.rotate w files).1.Like (fresh e.segmentSize) := create_like ..

theorem pad_sealed (w : SegmentWriter) (files : Files Str) : (w.pad files).1.sealed_ = w.sealed_ := by
  unfold SegmentWriter.pad
  generalize w.file.write files _ = o
  split
  · dsimp only
    split
    · rfl
    · rfl
  · rfl

theorem writeBlock_like (like : w.Like w') (files : Files Str) (blockId : UInt64) (level : BlkLevel)
    (data : List UInt8) (dataSize crc32 : UInt32) :
    ((w.writeBlock files blockId level data dataSize crc32).1 = .error .noSpace ↔ w'.noSpaceFor dataSize = true) ∧
      (w.writeBlock files blockId level data dataSize crc32).2.1.sealed_ = false := by
  rw [← noSpaceFor_like like]
  unfold SegmentWriter.writeBlock
  rw [if_neg (by simp [like.unsealed])]
  by_cases full : w.noSpaceFor dataSize = true
  · rw [if_pos full]
    exact ⟨⟨fun _ => full, fun _ => rfl⟩, like.unsealed⟩
  · rw [if_neg full]
    have unsealed := (pad_sealed w files).trans like.unsealed
    generalize w.pad files = p at unsealed ⊢
    dsimp only
    generalize p.1.file.write p.2 _ = o
    split
    · exact ⟨⟨fun same => (by cases same), fun yes => absurd yes full⟩, unsealed⟩
    generalize o.1.write o.2 _ = q
    split
    · exact ⟨⟨fun same => (by cases same), fun yes => absurd yes full⟩, unsealed⟩
    · exact ⟨⟨fun same => (by cases same), fun yes => absurd yes full⟩, unsealed⟩

/-- A block that does not fit takes the next id. -/
theorem append_takes (e : SegmentEngine) (like : w.Like w') (files : Files Str) (b : SegmentBlock) :
    (e.append w files b.blockId b.level b.data b.dataSize b.crc32).2.2.1.nextSegmentId =
        e.nextSegmentId + UInt64.ofNat (if w'.noSpaceFor b.dataSize then 1 else 0) ∧
      (e.append w files b.blockId b.level b.data b.dataSize b.crc32).2.1.sealed_ = false := by
  obtain ⟨refused, unsealed⟩ := writeBlock_like like files b.blockId b.level b.data b.dataSize b.crc32
  unfold append
  generalize w.writeBlock files b.blockId b.level b.data b.dataSize b.crc32 = o at refused unsealed
  obtain ⟨r, w₁, files₁⟩ := o
  by_cases full : w'.noSpaceFor b.dataSize = true
  · cases refused.mpr full
    rw [if_pos full]
    dsimp only
    exact ⟨rfl, (writeBlock_like (rotate_like e w₁ files₁) _ b.blockId b.level b.data b.dataSize b.crc32).2⟩
  · rw [if_neg full]
    have zero : e.nextSegmentId = e.nextSegmentId + UInt64.ofNat 0 := (UInt64.add_zero _).symm
    cases r with
    | ok _ => exact ⟨zero, unsealed⟩
    | error s =>
      cases s with
      | noSpace => exact absurd (refused.mp rfl) full
      | _ => exact ⟨zero, unsealed⟩

theorem begin_takes (unsealed : ∀ w, e.activeWriter = some w → w.sealed_ = false) (files : Files Str) :
    (e.begin_ files).1.Like (e.activeWriter.getD (fresh e.segmentSize)) ∧
      (e.begin_ files).2.1.nextSegmentId =
        e.nextSegmentId + UInt64.ofNat (if e.activeWriter.isNone then 1 else 0) ∧
      (e.begin_ files).2.1.segmentSize = e.segmentSize := by
  unfold begin_
  cases active : e.activeWriter with
  | none => exact ⟨create_like .., rfl, rfl⟩
  | some w => exact ⟨⟨rfl, rfl, unsealed w active⟩, (UInt64.add_zero _).symm, rfl⟩

theorem leaveFull_takes (like : w.Like w') (files : Files Str) :
    (e.leaveFull w files).1.Like (if w'.isFull then fresh e.segmentSize else w') ∧
      (e.leaveFull w files).2.1.nextSegmentId = e.nextSegmentId + UInt64.ofNat (if w'.isFull then 1 else 0) := by
  unfold leaveFull
  rw [isFull_like like]
  by_cases full : w'.isFull = true
  · rw [if_pos full, if_pos full, if_pos full]
    exact ⟨rotate_like .., rfl⟩
  · rw [if_neg full, if_neg full, if_neg full]
    exact ⟨like, (UInt64.add_zero _).symm⟩

/-- The ids that a call takes are those that `takes` tells before it. -/
theorem writeBlock_takes (unsealed : ∀ w, e.activeWriter = some w → w.sealed_ = false) (files : Files Str)
    (b : SegmentBlock) {r : Except Status (UInt64 × Nat)} {e' : SegmentEngine} {files' : Files Str}
    (wrote : e.writeBlock files b.blockId b.level b.data b.dataSize b.crc32 = (r, e', files')) :
    e'.nextSegmentId = e.nextSegmentId + UInt64.ofNat (e.takes b.dataSize) ∧
      ∀ w, e'.activeWriter = some w → w.sealed_ = false := by
  obtain ⟨like₁, next₁, size₁⟩ := begin_takes unsealed files
  unfold writeBlock at wrote
  dsimp only at wrote
  generalize e.begin_ files = begun at like₁ next₁ size₁ wrote
  obtain ⟨w₁, e₁, files₁⟩ := begun
  dsimp only at like₁ next₁ size₁ wrote
  obtain ⟨like₂, next₂⟩ := leaveFull_takes (e := e₁) like₁ files₁
  rw [size₁] at like₂
  generalize e₁.leaveFull w₁ files₁ = left at like₂ next₂ wrote
  obtain ⟨w₂, e₂, files₂⟩ := left
  dsimp only at like₂ next₂ wrote
  obtain ⟨next₃, unsealed₃⟩ := append_takes e₂ like₂ files₂ b
  generalize e₂.append w₂ files₂ b.blockId b.level b.data b.dataSize b.crc32 = o at next₃ unsealed₃ wrote
  obtain ⟨r₃, w₃, e₃, files₃⟩ := o
  have next : e₃.nextSegmentId = e.nextSegmentId + UInt64.ofNat (e.takes b.dataSize) := by
    unfold takes
    dsimp only at next₃ ⊢
    rw [next₃, next₂, next₁, UInt64.ofNat_add, UInt64.ofNat_add, UInt64.add_assoc, UInt64.add_assoc,
      UInt64.add_assoc]
  cases r₃ with
  | error _ =>
    cases wrote
    exact ⟨next, fun w active => (by cases active; exact unsealed₃)⟩
  | ok _ =>
    cases wrote
    exact ⟨next, fun w active => (by cases active; exact unsealed₃)⟩

theorem takes_le (e : SegmentEngine) (dataSize : UInt32) : e.takes dataSize ≤ 3 := by
  unfold takes
  dsimp only
  split <;> split <;> split <;> omega

end

end SegmentEngine

/-! ## Two engines, one after the other -/

namespace SegmentStore

/-- Each call begins segments only under ids that no block has been returned under. -/
def Spares (old : List Record) : SegmentStore → List SegmentBlock → Prop
  | _, [] => True
  | s, b :: blocks =>
    Unused (s.records ++ old) s.engine.nextSegmentId (s.engine.takes b.dataSize) ∧ Spares old (s.write b) blocks

/-- The second engine reads back what the first has written, and returns other places. -/
structure Keeps (first second : SegmentStore) : Prop where
  readBack : ∀ a ∈ first.records, second.engine.readBlock second.files a.segmentId a.offset = .ok (a.data, a.crc32)
  apart : ∀ a ∈ first.records, ∀ b ∈ second.records, (a.segmentId, a.offset) ≠ (b.segmentId, b.offset)

/-- A block of one byte. -/
def byte : SegmentBlock := { data := [7], short := by decide }

end SegmentStore

end OpenFS
