import OpenFS.Common.Types
import OpenFS.Lib.FirstFit

/-!
# The block bitmap

One bit for each physical block of the data area, 1 for a block in use. The
lemmas reduce each operation to what it does to single bits.
-/

namespace OpenFS

structure BlockBitmap where
  numBlocks : Nat := 0
  bitmap : List UInt8 := []
  deriving DecidableEq, Repr

namespace BlockBitmap

def getBit (bm : List UInt8) (index : Nat) : Bool := (bm.getD (index / 8) 0).toNat.testBit (index % 8)

def setBit (bm : List UInt8) (index : Nat) : List UInt8 :=
  bm.set (index / 8) (bm.getD (index / 8) 0 ||| UInt8.ofNat (1 <<< (index % 8)))

def clearBit (bm : List UInt8) (index : Nat) : List UInt8 :=
  bm.set (index / 8) (bm.getD (index / 8) 0 &&& ~~~ UInt8.ofNat (1 <<< (index % 8)))

/-- The constructor: `num_blocks` free blocks. -/
def ofSize (numBlocks : Nat) : BlockBitmap :=
  { numBlocks := numBlocks, bitmap := List.replicate (u64 (numBlocks + 7) / 8) 0 }

def findConsecutiveFree (b : BlockBitmap) (count : Nat) : Option Nat :=
  FirstFit.find (fun i => !getBit b.bitmap i) count b.numBlocks

/-- The loop of `SetBit` calls in `Allocate`. -/
def setRange (bm : List UInt8) (start count : Nat) : List UInt8 :=
  (List.range count).foldl (fun bm i => setBit bm (start + i)) bm

/-- `none` is `kInvalidBlockIndex`. -/
def allocate (b : BlockBitmap) (count : Nat) : Option (Nat × BlockBitmap) :=
  if count = 0 then none
  else
    match b.findConsecutiveFree count with
    | none => none
    | some start => some (start, { b with bitmap := setRange b.bitmap start count })

/-- The loop of `ClearBit` calls in `Free`, which passes over indices outside the disk. -/
def clearRange (bm : List UInt8) (numBlocks start count : Nat) : List UInt8 :=
  (List.range count).foldl
    (fun bm i => if u64 (start + i) < numBlocks then clearBit bm (u64 (start + i)) else bm) bm

def free (b : BlockBitmap) (startBlock count : Nat) : BlockBitmap :=
  { b with bitmap := clearRange b.bitmap b.numBlocks startBlock count }

def isAllocated (b : BlockBitmap) (index : Nat) : Bool := decide (index < b.numBlocks) && getBit b.bitmap index

def setAllocated (b : BlockBitmap) (index : Nat) : BlockBitmap :=
  if index < b.numBlocks then { b with bitmap := setBit b.bitmap index } else b

def setFree (b : BlockBitmap) (index : Nat) : BlockBitmap :=
  if index < b.numBlocks then { b with bitmap := clearBit b.bitmap index } else b

def freeBlocks (b : BlockBitmap) : Nat := b.numBlocks - (List.range b.numBlocks).countP (getBit b.bitmap)

/-- Bytes needed for `numBlocks` bits. -/
def needed (numBlocks : Nat) : Nat := u64 (numBlocks + 7) / 8

/-- Raw bytes become the bitmap; too few are filled up with zeros. -/
def load (data : List UInt8) (numBlocks : Nat) : BlockBitmap :=
  { numBlocks := numBlocks,
    bitmap := if data.length < needed numBlocks then data ++ List.replicate (needed numBlocks - data.length) 0
      else data }

/-! ## Single bits -/

theorem testBit_or_shift (b : UInt8) (k m : Nat) (h : k < 8) :
    (b ||| UInt8.ofNat (1 <<< k)).toNat.testBit m = (b.toNat.testBit m || decide (k = m)) := by
  have small : 2 ^ k < 256 := Nat.lt_of_lt_of_le (Nat.pow_lt_pow_right (by decide) h) (by decide)
  rw [UInt8.toNat_or, Nat.testBit_or, UInt8.toNat_ofNat', Nat.one_shiftLeft, Nat.mod_eq_of_lt small,
    Nat.testBit_two_pow]

theorem testBit_and_not_shift (b : UInt8) (k m : Nat) (h : k < 8) :
    (b &&& ~~~ UInt8.ofNat (1 <<< k)).toNat.testBit m = (b.toNat.testBit m && decide (k ≠ m)) := by
  have small : 2 ^ k < 256 := Nat.lt_of_lt_of_le (Nat.pow_lt_pow_right (by decide) h) (by decide)
  rw [UInt8.toNat_and, Nat.testBit_and, UInt8.toNat_not, UInt8.toNat_ofNat', Nat.one_shiftLeft,
    Nat.mod_eq_of_lt small]
  show (_ && (2 ^ 8 - 1 - 2 ^ k).testBit m) = _
  rw [show 2 ^ 8 - 1 - 2 ^ k = 2 ^ 8 - (2 ^ k + 1) by omega, Nat.testBit_two_pow_sub_succ small,
    Nat.testBit_two_pow]
  by_cases big : m < 8
  · simp [big]
  · have none : b.toNat.testBit m = false :=
      Nat.testBit_lt_two_pow (Nat.lt_of_lt_of_le b.toNat_lt (Nat.pow_le_pow_right (by decide) (by omega)))
    simp [none]

@[simp] theorem length_setBit (bm : List UInt8) (i : Nat) : (setBit bm i).length = bm.length := by simp [setBit]

@[simp] theorem length_clearBit (bm : List UInt8) (i : Nat) : (clearBit bm i).length = bm.length := by
  simp [clearBit]

theorem getBit_setBit {bm : List UInt8} {i : Nat} (h : i < 8 * bm.length) (j : Nat) :
    getBit (setBit bm i) j = (getBit bm j || decide (i = j)) := by
  have inside : i / 8 < bm.length := by omega
  unfold getBit setBit
  by_cases same : i / 8 = j / 8
  · rw [← same, List.getD_eq_getElem?_getD, List.getElem?_set_self inside, Option.getD_some,
      testBit_or_shift _ _ _ (Nat.mod_lt _ (by decide))]
    congr 1
    rw [decide_eq_decide]
    omega
  · rw [List.getD_eq_getElem?_getD, List.getElem?_set_ne same, ← List.getD_eq_getElem?_getD]
    have apart : i ≠ j := by rintro rfl; exact same rfl
    simp [apart]

theorem getBit_clearBit (bm : List UInt8) (i j : Nat) :
    getBit (clearBit bm i) j = (getBit bm j && decide (i ≠ j)) := by
  unfold getBit clearBit
  by_cases inside : i / 8 < bm.length
  · by_cases same : i / 8 = j / 8
    · rw [← same, List.getD_eq_getElem?_getD, List.getElem?_set_self inside, Option.getD_some,
        testBit_and_not_shift _ _ _ (Nat.mod_lt _ (by decide))]
      congr 1
      rw [decide_eq_decide]
      omega
    · rw [List.getD_eq_getElem?_getD, List.getElem?_set_ne same, ← List.getD_eq_getElem?_getD]
      have apart : i ≠ j := by rintro rfl; exact same rfl
      simp [apart]
  · rw [List.set_eq_of_length_le (by omega)]
    by_cases same : i = j
    · subst same
      rw [List.getD_eq_getElem?_getD, List.getElem?_eq_none (by omega)]
      simp
    · simp [same]

/-! ## Ranges of bits -/

theorem length_setRange (bm : List UInt8) (start count : Nat) : (setRange bm start count).length = bm.length := by
  induction count with
  | zero => rfl
  | succ n ih =>
    unfold setRange at ih ⊢
    rw [List.range_succ, List.foldl_append, List.foldl_cons, List.foldl_nil, length_setBit, ih]

theorem getBit_setRange {bm : List UInt8} {start count : Nat} (h : start + count ≤ 8 * bm.length) (j : Nat) :
    getBit (setRange bm start count) j = (getBit bm j || decide (start ≤ j ∧ j < start + count)) := by
  induction count with
  | zero =>
    have none : ¬ (start ≤ j ∧ j < start + 0) := by omega
    show getBit bm j = _
    rw [decide_eq_false none, Bool.or_false]
  | succ n ih =>
    have step : setRange bm start (n + 1) = setBit (setRange bm start n) (start + n) := by
      unfold setRange
      rw [List.range_succ, List.foldl_append, List.foldl_cons, List.foldl_nil]
    rw [step, getBit_setBit (by rw [length_setRange]; omega), ih (by omega), Bool.or_assoc]
    congr 1
    rw [← Bool.decide_or, decide_eq_decide]
    omega

@[simp] theorem numBlocks_free (b : BlockBitmap) (start count : Nat) :
    (b.free start count).numBlocks = b.numBlocks := rfl

theorem clearRange_succ (bm : List UInt8) (numBlocks start count : Nat) :
    clearRange bm numBlocks start (count + 1) =
      if u64 (start + count) < numBlocks then clearBit (clearRange bm numBlocks start count) (u64 (start + count))
      else clearRange bm numBlocks start count := by
  unfold clearRange
  rw [List.range_succ, List.foldl_append, List.foldl_cons, List.foldl_nil]

@[simp] theorem length_clearRange (bm : List UInt8) (numBlocks start count : Nat) :
    (clearRange bm numBlocks start count).length = bm.length := by
  induction count with
  | zero => rfl
  | succ n ih =>
    rw [clearRange_succ]
    split
    · rw [length_clearBit, ih]
    · exact ih

theorem getBit_clearRange {bm : List UInt8} {numBlocks start count : Nat} (h : start + count ≤ 2 ^ 64) (j : Nat) :
    getBit (clearRange bm numBlocks start count) j =
      (getBit bm j && !decide (start ≤ j ∧ j < start + count ∧ j < numBlocks)) := by
  induction count with
  | zero =>
    have none : ¬ (start ≤ j ∧ j < start + 0 ∧ j < numBlocks) := by omega
    show getBit bm j = _
    rw [decide_eq_false none, Bool.not_false, Bool.and_true]
  | succ n ih =>
    have exact : u64 (start + n) = start + n := Nat.mod_eq_of_lt (by omega)
    rw [clearRange_succ, exact]
    have more : decide (start ≤ j ∧ j < start + (n + 1) ∧ j < numBlocks) =
        (decide (start ≤ j ∧ j < start + n ∧ j < numBlocks) || decide (start + n = j ∧ j < numBlocks)) := by
      rw [← Bool.decide_or, decide_eq_decide]
      omega
    split
    · next inside =>
      rw [getBit_clearBit, ih (by omega), more, Bool.not_or, Bool.and_assoc]
      congr 2
      rw [← decide_not, decide_eq_decide]
      omega
    · next outside =>
      have none : ¬ (start + n = j ∧ j < numBlocks) := by omega
      rw [ih (by omega), more, decide_eq_false none, Bool.or_false]

/-- Every bit below `numBlocks` lies in the bytes. -/
def Wf (b : BlockBitmap) : Prop := b.numBlocks ≤ 8 * b.bitmap.length

/-- An allocation takes the first free run and sets its bits. -/
theorem allocate_eq_some {b b' : BlockBitmap} {count start : Nat} (h : b.allocate count = some (start, b')) :
    0 < count ∧ start + count ≤ b.numBlocks ∧ (∀ j, start ≤ j → j < start + count → getBit b.bitmap j = false) ∧
      b' = { b with bitmap := setRange b.bitmap start count } := by
  unfold allocate at h
  split at h
  · cases h
  · next some =>
    have pos : 0 < count := Nat.pos_of_ne_zero some
    split at h
    · cases h
    · next start found =>
      cases h
      obtain ⟨run, inside, -⟩ := FirstFit.find_eq_some pos found
      refine ⟨pos, inside, fun j from_start to_end => ?_, rfl⟩
      have isFree := run (j - start) (by omega)
      rw [show start + (j - start) = j by omega] at isFree
      simpa using isFree

/-- On a blank bitmap the first block is allocated. -/
theorem allocate_of_blank {b : BlockBitmap} {count : Nat} (pos : 0 < count) (fits : count ≤ b.numBlocks)
    (blank : ∀ j, getBit b.bitmap j = false) :
    b.allocate count = some (0, { b with bitmap := setRange b.bitmap 0 count }) := by
  have found : b.findConsecutiveFree count = some 0 :=
    FirstFit.find_of_free pos fits fun k _ => by simp [blank k]
  unfold allocate
  rw [if_neg (by omega), found]

/-- Where enough blocks in a row are free, some are allocated. -/
theorem allocate_of_free {b : BlockBitmap} {count start : Nat} (pos : 0 < count)
    (fits : start + count ≤ b.numBlocks)
    (isFree : ∀ j, start ≤ j → j < start + count → getBit b.bitmap j = false) :
    ∃ found b', b.allocate count = some (found, b') := by
  unfold allocate
  rw [if_neg (by omega)]
  cases search : b.findConsecutiveFree count with
  | none =>
    refine absurd (fun k inside => ?_) (FirstFit.find_eq_none pos search start fits)
    show (!getBit b.bitmap (start + k)) = true
    rw [isFree (start + k) (by omega) (by omega)]
    rfl
  | some found => exact ⟨found, _, rfl⟩

/-- Where all is free from some bit on, an allocation begins there at the latest. -/
theorem allocate_of_clear {b : BlockBitmap} {count p : Nat} (pos : 0 < count) (fits : p + count ≤ b.numBlocks)
    (clear : ∀ j, p ≤ j → getBit b.bitmap j = false) :
    ∃ start b', b.allocate count = some (start, b') ∧ start ≤ p := by
  have run : FirstFit.IsRun (fun i => !getBit b.bitmap i) count p := fun k _ => by
    simp [clear (p + k) (Nat.le_add_right p k)]
  unfold allocate
  rw [if_neg (by omega)]
  cases search : b.findConsecutiveFree count with
  | none => exact absurd run (FirstFit.find_eq_none pos search p fits)
  | some start =>
    obtain ⟨-, -, least⟩ := FirstFit.find_eq_some pos search
    exact ⟨start, _, rfl, Nat.le_of_not_lt fun later => least p later run⟩

/-- Filling up with zeros does not show. -/
theorem getD_load (data : List UInt8) (numBlocks i : Nat) :
    (load data numBlocks).bitmap.getD i 0 = data.getD i 0 := by
  unfold load
  dsimp only
  split
  · simp only [List.getD_eq_getElem?_getD, List.getElem?_append, List.getElem?_replicate]
    split
    · rfl
    · next past =>
      rw [List.getElem?_eq_none (by omega)]
      split <;> rfl
  · rfl

end BlockBitmap

end OpenFS
