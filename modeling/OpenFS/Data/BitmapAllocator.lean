import Mathlib.Data.Finset.Sort
import Mathlib.Order.Interval.Finset.Nat
import OpenFS.Data.BlockBitmap

/-!
# The bitmap as a first-fit allocator

A bitmap stands for the set of its blocks in use. On that set `Allocate` is first fit,
and the other calls are unions and differences, as long as every block has its bit in
the bytes. The constructor and `Load` see to that, but for the last seven sizes, where
rounding up to whole bytes wraps.
-/

namespace OpenFS

namespace BlockBitmap

/-! ## The allocator on sets -/

/-- `count` blocks from `s` on lie below `n` and outside the set. -/
def FreeRun (used : Finset Nat) (n count s : Nat) : Prop := s + count ≤ n ∧ ∀ i, s ≤ i → i < s + count → i ∉ used

/-- The blocks in use. -/
def used (b : BlockBitmap) : Finset Nat := (Finset.range b.numBlocks).filter fun i => getBit b.bitmap i = true

/-! ## The calls -/

inductive Call
  | allocate (count : UInt32)
  | free (startBlock : UInt64) (count : UInt32)
  | setAllocated (index : UInt64)
  | setFree (index : UInt64)
  | isAllocated (index : UInt64)
  | freeBlocks

def Call.exec (b : BlockBitmap) : Call → BlockBitmap
  | .allocate count =>
    match b.allocate count.toNat with
    | none => b
    | some (_, b) => b
  | .free startBlock count => b.free startBlock.toNat count.toNat
  | .setAllocated index => b.setAllocated index.toNat
  | .setFree index => b.setFree index.toNat
  | .isAllocated _ => b
  | .freeBlocks => b

/-- The bits that a call reads or writes. -/
def Call.touched (b : BlockBitmap) : Call → List Nat
  | .allocate count =>
    if count.toNat = 0 then []
    else
      FirstFit.probes (fun i => !getBit b.bitmap i) count.toNat b.numBlocks 0 0 ++
        match b.findConsecutiveFree count.toNat with
        | none => []
        | some start => (List.range count.toNat).map fun i => start + i
  | .free startBlock count =>
    ((List.range count.toNat).map fun i => u64 (startBlock.toNat + i)).filter fun j => j < b.numBlocks
  | .setAllocated index => if index.toNat < b.numBlocks then [index.toNat] else []
  | .setFree index => if index.toNat < b.numBlocks then [index.toNat] else []
  | .isAllocated index => if index.toNat < b.numBlocks then [index.toNat] else []
  | .freeBlocks => List.range b.numBlocks

/-- The range of `Free` does not wrap. -/
def Call.Proper : Call → Prop
  | .free startBlock count => startBlock.toNat + count.toNat ≤ 2 ^ 64
  | _ => True

def run (b : BlockBitmap) (calls : List Call) : BlockBitmap := calls.foldl Call.exec b

/-- How a bitmap comes about. -/
inductive Origin
  | constructed (numBlocks : UInt64)
  | loaded (data : List UInt8) (numBlocks : UInt64)

def Origin.bitmap : Origin → BlockBitmap
  | .constructed numBlocks => ofSize numBlocks.toNat
  | .loaded data numBlocks => load data numBlocks.toNat

/-- The bitmap does what an allocator on the set of its blocks in use does. -/
structure Allocator (b : BlockBitmap) : Prop where
  found : ∀ (count : UInt32) (s : Nat) (b' : BlockBitmap), b.allocate count.toNat = some (s, b') →
    IsLeast {s | FreeRun b.used b.numBlocks count.toNat s} s ∧ b'.numBlocks = b.numBlocks ∧
      b'.used = b.used ∪ Finset.Ico s (s + count.toNat)
  refused : ∀ count : UInt32, 0 < count.toNat →
    (b.allocate count.toNat = none ↔ ¬ ∃ s, FreeRun b.used b.numBlocks count.toNat s)
  free : ∀ startBlock count, (Call.free startBlock count).Proper →
    (b.free startBlock.toNat count.toNat).used =
      b.used \ Finset.Ico startBlock.toNat (startBlock.toNat + count.toNat)
  setAllocated : ∀ index : UInt64, index.toNat < b.numBlocks →
    (b.setAllocated index.toNat).used = insert index.toNat b.used
  setFree : ∀ index : UInt64, (b.setFree index.toNat).used = b.used.erase index.toNat
  freeBlocks : b.freeBlocks + b.used.card = b.numBlocks
  inRange : ∀ call : Call, ∀ i ∈ call.touched b, i / 8 < b.bitmap.length
  reloaded : (load b.bitmap b.numBlocks).used = b.used

/-! ## What the calls do to the set -/

theorem mem_used {b : BlockBitmap} {i : Nat} : i ∈ b.used ↔ i < b.numBlocks ∧ getBit b.bitmap i = true := by
  unfold used
  rw [Finset.mem_filter, Finset.mem_range]

/-- The scan looks for free runs. -/
theorem isRun_iff {b : BlockBitmap} {count s : Nat} (inside : s + count ≤ b.numBlocks) :
    FirstFit.IsRun (fun i => !getBit b.bitmap i) count s ↔ FreeRun b.used b.numBlocks count s := by
  unfold FirstFit.IsRun FreeRun
  constructor
  · intro run
    refine ⟨inside, fun i low high member => ?_⟩
    have bit : (!getBit b.bitmap (s + (i - s))) = true := run (i - s) (by omega)
    rw [Nat.add_sub_cancel' low, (mem_used.mp member).2] at bit
    cases bit
  · rintro ⟨-, clear⟩ k short
    have outside := clear (s + k) (Nat.le_add_right s k) (by omega)
    rw [mem_used] at outside
    simpa using fun bit => outside ⟨by omega, bit⟩

section
variable {b : BlockBitmap}

theorem Wf.found (wf : b.Wf) {count s : Nat} {b' : BlockBitmap} (result : b.allocate count = some (s, b')) :
    IsLeast {s | FreeRun b.used b.numBlocks count s} s ∧ b'.numBlocks = b.numBlocks ∧
      b'.used = b.used ∪ Finset.Ico s (s + count) := by
  obtain ⟨pos, inside, -, rfl⟩ := allocate_eq_some result
  have search : b.findConsecutiveFree count = some s := by
    unfold allocate at result
    rw [if_neg (by omega)] at result
    cases search : b.findConsecutiveFree count with
    | none =>
      rw [search] at result
      cases result
    | some start =>
      rw [search] at result
      cases result
      rfl
  obtain ⟨run, -, least⟩ := FirstFit.find_eq_some pos search
  refine ⟨⟨(isRun_iff inside).mp run, fun s' run' => ?_⟩, rfl, ?_⟩
  · by_contra earlier
    exact least s' (by omega) ((isRun_iff run'.1).mpr run')
  · unfold Wf at wf
    ext j
    rw [Finset.mem_union, mem_used, mem_used, Finset.mem_Ico]
    dsimp only
    rw [getBit_setRange (by omega), Bool.or_eq_true, decide_eq_true_eq]
    constructor
    · rintro ⟨low, bit | here⟩
      · exact .inl ⟨low, bit⟩
      · exact .inr here
    · rintro (⟨low, bit⟩ | here)
      · exact ⟨low, .inl bit⟩
      · exact ⟨by omega, .inr here⟩

theorem allocate_eq_none {count : Nat} (pos : 0 < count) :
    b.allocate count = none ↔ ¬ ∃ s, FreeRun b.used b.numBlocks count s := by
  constructor
  · rintro failed ⟨s, run⟩
    unfold allocate at failed
    rw [if_neg (by omega)] at failed
    cases search : b.findConsecutiveFree count with
    | none => exact FirstFit.find_eq_none pos search s run.1 ((isRun_iff run.1).mpr run)
    | some start =>
      rw [search] at failed
      cases failed
  · intro full
    cases result : b.allocate count with
    | none => rfl
    | some found =>
      obtain ⟨s, b'⟩ := found
      obtain ⟨-, inside, isFree, -⟩ := allocate_eq_some result
      refine absurd ⟨s, inside, fun i low high member => ?_⟩ full
      have bit := isFree i low high
      rw [(mem_used.mp member).2] at bit
      cases bit

theorem used_free {startBlock count : Nat} (short : startBlock + count ≤ 2 ^ 64) :
    (b.free startBlock count).used = b.used \ Finset.Ico startBlock (startBlock + count) := by
  ext j
  rw [Finset.mem_sdiff, mem_used, mem_used, Finset.mem_Ico]
  unfold free
  dsimp only
  rw [getBit_clearRange short, Bool.and_eq_true, Bool.not_eq_true', decide_eq_false_iff_not]
  constructor
  · rintro ⟨low, bit, outside⟩
    exact ⟨⟨low, bit⟩, fun here => outside ⟨here.1, here.2, low⟩⟩
  · rintro ⟨⟨low, bit⟩, outside⟩
    exact ⟨low, bit, fun here => outside ⟨here.1, here.2.1⟩⟩

theorem Wf.used_setAllocated (wf : b.Wf) {index : Nat} (inside : index < b.numBlocks) :
    (b.setAllocated index).used = insert index b.used := by
  unfold Wf at wf
  unfold setAllocated
  rw [if_pos inside]
  ext j
  rw [Finset.mem_insert, mem_used, mem_used]
  dsimp only
  rw [getBit_setBit (by omega), Bool.or_eq_true, decide_eq_true_eq]
  constructor
  · rintro ⟨low, bit | rfl⟩
    · exact .inr ⟨low, bit⟩
    · exact .inl rfl
  · rintro (rfl | ⟨low, bit⟩)
    · exact ⟨inside, .inr rfl⟩
    · exact ⟨low, .inl bit⟩

theorem used_setFree (index : Nat) : (b.setFree index).used = b.used.erase index := by
  unfold setFree
  ext j
  rw [Finset.mem_erase, mem_used]
  split
  · rw [mem_used]
    dsimp only
    rw [getBit_clearBit, Bool.and_eq_true, decide_eq_true_eq]
    constructor
    · rintro ⟨low, bit, other⟩
      exact ⟨Ne.symm other, low, bit⟩
    · rintro ⟨other, low, bit⟩
      exact ⟨low, bit, Ne.symm other⟩
  · next outside =>
    rw [mem_used]
    constructor
    · rintro ⟨low, bit⟩
      exact ⟨by omega, low, bit⟩
    · exact fun here => here.2

theorem card_used : b.used.card = (List.range b.numBlocks).countP (getBit b.bitmap) := by
  have same : b.used = ((List.range b.numBlocks).filter (getBit b.bitmap)).toFinset := by
    ext j
    rw [mem_used, List.mem_toFinset, List.mem_filter, List.mem_range]
  rw [same, List.toFinset_card_of_nodup (List.nodup_range.filter _), List.countP_eq_length_filter]

theorem freeBlocks_add_card : b.freeBlocks + b.used.card = b.numBlocks := by
  have few : (List.range b.numBlocks).countP (getBit b.bitmap) ≤ b.numBlocks := by
    have bound := List.countP_le_length (p := getBit b.bitmap) (l := List.range b.numBlocks)
    rwa [List.length_range] at bound
  rw [card_used]
  unfold freeBlocks
  omega

/-- Every bit that is touched is a block's. -/
theorem lt_of_touched {call : Call} {i : Nat} (member : i ∈ call.touched b) : i < b.numBlocks := by
  cases call with
  | allocate count =>
    unfold Call.touched at member
    dsimp only at member
    split at member
    · cases member
    · next some =>
      rcases List.mem_append.mp member with looked | set
      · have := FirstFit.lt_of_mem_probes looked
        omega
      · cases search : b.findConsecutiveFree count.toNat with
        | none =>
          rw [search] at set
          cases set
        | some start =>
          rw [search] at set
          obtain ⟨-, inside, -⟩ := FirstFit.find_eq_some (Nat.pos_of_ne_zero some) search
          obtain ⟨k, short, rfl⟩ := List.mem_map.mp set
          have := List.mem_range.mp short
          omega
  | free startBlock count => exact of_decide_eq_true (List.mem_filter.mp member).2
  | setAllocated index =>
    unfold Call.touched at member
    dsimp only at member
    split at member
    · next inside => rwa [List.mem_singleton.mp member]
    · cases member
  | setFree index =>
    unfold Call.touched at member
    dsimp only at member
    split at member
    · next inside => rwa [List.mem_singleton.mp member]
    · cases member
  | isAllocated index =>
    unfold Call.touched at member
    dsimp only at member
    split at member
    · next inside => rwa [List.mem_singleton.mp member]
    · cases member
  | freeBlocks => exact List.mem_range.mp member

/-- A bitmap with a bit for each block is an allocator. -/
theorem Wf.allocator (wf : b.Wf) : Allocator b := by
  constructor
  · exact fun count s b' result => wf.found result
  · exact fun count pos => allocate_eq_none pos
  · exact fun startBlock count proper => used_free proper
  · exact fun index inside => wf.used_setAllocated inside
  · exact fun index => used_setFree index.toNat
  · exact freeBlocks_add_card
  · intro call i touched
    have inside := lt_of_touched touched
    unfold Wf at wf
    omega
  · ext j
    rw [mem_used, mem_used]
    apply and_congr_right
    intro _
    show getBit (load b.bitmap b.numBlocks).bitmap j = true ↔ _
    unfold getBit
    rw [getD_load]

/-! ## Runs -/

/-- The calls keep the number of blocks and the number of bytes. -/
theorem exec_sizes (b : BlockBitmap) (call : Call) :
    (call.exec b).numBlocks = b.numBlocks ∧ (call.exec b).bitmap.length = b.bitmap.length := by
  cases call with
  | allocate count =>
    unfold Call.exec
    dsimp only
    cases result : b.allocate count.toNat with
    | none => exact ⟨rfl, rfl⟩
    | some found =>
      obtain ⟨s, b'⟩ := found
      obtain ⟨-, -, -, rfl⟩ := allocate_eq_some result
      exact ⟨rfl, length_setRange ..⟩
  | free startBlock count => exact ⟨rfl, length_clearRange ..⟩
  | setAllocated index =>
    unfold Call.exec setAllocated
    dsimp only
    split
    · exact ⟨rfl, length_setBit ..⟩
    · exact ⟨rfl, rfl⟩
  | setFree index =>
    unfold Call.exec setFree
    dsimp only
    split
    · exact ⟨rfl, length_clearBit ..⟩
    · exact ⟨rfl, rfl⟩
  | isAllocated index => exact ⟨rfl, rfl⟩
  | freeBlocks => exact ⟨rfl, rfl⟩

theorem Wf.run (wf : b.Wf) (calls : List Call) : (b.run calls).Wf := by
  induction calls generalizing b with
  | nil => exact wf
  | cons call calls ih =>
    obtain ⟨blocks, bytes⟩ := exec_sizes b call
    apply ih
    unfold Wf
    rw [blocks, bytes]
    exact wf

end

/-- Rounding up to whole bytes does not wrap, or the bytes are there already. -/
def Origin.Covered : Origin → Prop
  | .constructed numBlocks => numBlocks.toNat + 7 < 2 ^ 64
  | .loaded data numBlocks => numBlocks.toNat + 7 < 2 ^ 64 ∨ numBlocks.toNat ≤ 8 * data.length

/-- The bytes of a new bitmap. -/
theorem length_load (data : List UInt8) (numBlocks : Nat) :
    (load data numBlocks).bitmap.length = max data.length (needed numBlocks) := by
  unfold load
  dsimp only
  split
  · rw [List.length_append, List.length_replicate]
    omega
  · omega

theorem wf_origin_iff (o : Origin) : o.bitmap.Wf ↔ o.Covered := by
  cases o with
  | constructed numBlocks =>
    have bound := numBlocks.toNat_lt
    unfold Origin.bitmap Origin.Covered Wf ofSize
    dsimp only
    rw [List.length_replicate]
    unfold u64
    omega
  | loaded data numBlocks =>
    have bound := numBlocks.toNat_lt
    unfold Origin.bitmap Origin.Covered Wf
    dsimp only
    rw [length_load]
    unfold needed u64
    show numBlocks.toNat ≤ _ ↔ _
    omega

/-- **A bitmap is a first-fit allocator through all calls exactly if** its bytes cover its blocks. -/
theorem allocator_iff (o : Origin) :
    (∀ calls : List Call, (∀ call ∈ calls, call.Proper) → Allocator (o.bitmap.run calls)) ↔ o.Covered := by
  rw [← wf_origin_iff]
  constructor
  · intro all
    have inRange := (all [] (List.forall_mem_nil _)).inRange .freeBlocks
    unfold Wf
    by_contra short
    have last := inRange (o.bitmap.numBlocks - 1) (List.mem_range.mpr (by show _ < o.bitmap.numBlocks; omega))
    have last : (o.bitmap.numBlocks - 1) / 8 < o.bitmap.bitmap.length := last
    omega
  · intro wf calls _
    exact (wf.run calls).allocator

/-- The constructor gives `2 ^ 64 - 1` blocks no bytes at all. -/
theorem no_bytes_for_last_sizes :
    ¬ ∀ (o : Origin) (calls : List Call), (∀ call ∈ calls, call.Proper) → Allocator (o.bitmap.run calls) := by
  intro claim
  have inRange := (claim (.constructed (UInt64.ofNat (2 ^ 64 - 1))) [] (List.forall_mem_nil _)).inRange
    .freeBlocks 0
    (List.mem_range.mpr (by decide))
  have none : 0 / 8 < (0 : Nat) := inRange
  cases none

end BlockBitmap

end OpenFS
