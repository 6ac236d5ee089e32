import Mathlib.Data.List.Basic
import Mathlib.Data.List.Count
import OpenFS.Common.Types

/-!
# The heat of blocks

`meta/heat_tracker.cpp`: accesses are counted, and a scan halves what was counted. Halves are rounded
down at each scan, but no differently than once: what is counted is each access divided by two for
each scan since, summed up and rounded down at the end.
-/

namespace OpenFS

structure HeatEntry where
  blockId : UInt64 := 0
  accessCount : UInt32 := 0
  recentAccesses : UInt32 := 0
  lastAccessTime : UInt64 := 0
  isHot : Bool := false
  deriving DecidableEq, Repr

/-- `heatMap` lists the entries in the order in which the hash map is walked. The decay factor is its
default, a half. -/
structure HeatTracker where
  heatMap : List (UInt64 × HeatEntry) := []
  hotThreshold : UInt32 := 10
  coldThreshold : UInt32 := 2

namespace HeatTracker

def count (now blockId : UInt64) (entry : HeatEntry) : HeatEntry :=
  { entry with
    blockId := blockId
    accessCount := entry.accessCount + 1
    recentAccesses := entry.recentAccesses + 1
    lastAccessTime := now }

def onBlockAccess (tracker : HeatTracker) (now blockId : UInt64) : HeatTracker :=
  match tracker.heatMap.lookup blockId with
  | some _ => { tracker with heatMap := tracker.heatMap.map fun kv =>
      if kv.1 = blockId then (kv.1, count now blockId kv.2) else kv }
  | none => { tracker with heatMap := (blockId, count now blockId {}) :: tracker.heatMap }

def getHeatInfo (tracker : HeatTracker) (blockId : UInt64) : HeatEntry :=
  (tracker.heatMap.lookup blockId).getD {}

def getHotBlocks (tracker : HeatTracker) : List UInt64 :=
  (tracker.heatMap.filter fun kv => kv.2.isHot).map Prod.fst

def getColdBlocks (tracker : HeatTracker) : List UInt64 :=
  (tracker.heatMap.filter fun kv => !kv.2.isHot && decide
    (kv.2.recentAccesses < tracker.coldThreshold)).map Prod.fst

/-- The decay of one entry; a `uint32_t` times 0.5 is exact, and is cut off at the point. -/
def decay (hotThreshold : UInt32) (entry : HeatEntry) : HeatEntry :=
  { entry with
    recentAccesses := entry.recentAccesses / 2
    isHot := decide (hotThreshold ≤ entry.recentAccesses / 2) }

def applyHeatDecay (tracker : HeatTracker) : HeatTracker :=
  { tracker with heatMap := tracker.heatMap.map fun kv => (kv.1, decay tracker.hotThreshold kv.2) }

/-- What a tracker sees; a scan of `ScanLoop` changes no more than the decay does. -/
inductive Event
  | access (now blockId : UInt64)
  | scan

def exec (tracker : HeatTracker) : Event → HeatTracker
  | .access now blockId => tracker.onBlockAccess now blockId
  | .scan => tracker.applyHeatDecay

/-- A run of events, the latest first. -/
def run (tracker : HeatTracker) : List Event → HeatTracker
  | [] => tracker
  | e :: earlier => (tracker.run earlier).exec e

/-! ## Weights -/

def Event.Accesses (b : UInt64) : Event → Prop
  | .access _ blockId => blockId = b
  | .scan => False

instance (b : UInt64) : DecidablePred (Event.Accesses b)
  | .access _ blockId => inferInstanceAs (Decidable (blockId = b))
  | .scan => .isFalse id

def Event.IsScan : Event → Prop
  | .access .. => False
  | .scan => True

instance : DecidablePred Event.IsScan
  | .access .. => .isFalse id
  | .scan => .isTrue trivial

def accesses (b : UInt64) (events : List Event) : Nat := events.countP fun e => decide (e.Accesses b)

def scans (events : List Event) : Nat := events.countP fun e => decide e.IsScan

/-- An access weighs twice as much as one before the scan before it. -/
def weight (b : UInt64) : List Event → Nat
  | [] => 0
  | e :: earlier => weight b earlier + if e.Accesses b then 2 ^ scans earlier else 0

/-- The accesses since the last scan. -/
def window (b : UInt64) (events : List Event) : Nat :=
  accesses b (events.takeWhile fun e => decide (¬ e.IsScan))

/-- The last scan found the block hot. -/
def Heated (hotThreshold : UInt32) (b : UInt64) (events : List Event) : Prop :=
  ∃ later earlier, events = later ++ .scan :: earlier ∧ (∀ e ∈ later, ¬ e.IsScan) ∧ 0 < accesses b earlier ∧
    hotThreshold.toNat * 2 ^ (scans earlier + 1) ≤ weight b earlier

/-! ## Entries -/

section
variable {tracker : HeatTracker} {b now blockId : UInt64} {events earlier : List Event}

theorem lookup_map_values {f : UInt64 → HeatEntry → HeatEntry} (entries : List (UInt64 × HeatEntry)) (b : UInt64) :
    (entries.map fun kv => (kv.1, f kv.1 kv.2)).lookup b = (entries.lookup b).map (f b) := by
  induction entries with
  | nil => rfl
  | cons kv rest ih =>
    obtain ⟨k, v⟩ := kv
    rw [List.map_cons, List.lookup_cons, List.lookup_cons]
    by_cases same : b = k
    · subst same
      simp
    · rw [beq_eq_false_iff_ne.mpr same]
      exact ih

theorem lookup_eq_some_iff_mem {entries : List (UInt64 × HeatEntry)} (distinct : (entries.map Prod.fst).Nodup)
    {entry : HeatEntry} : entries.lookup b = some entry ↔ (b, entry) ∈ entries := by
  induction entries with
  | nil => simp
  | cons kv rest ih =>
    obtain ⟨k, v⟩ := kv
    rw [List.map_cons, List.nodup_cons] at distinct
    rw [List.lookup_cons, List.mem_cons]
    by_cases same : b = k
    · subst same
      have absent : (b, entry) ∉ rest := fun member => distinct.1 (List.mem_map.mpr ⟨_, member, rfl⟩)
      simp [absent, eq_comm]
    · rw [beq_eq_false_iff_ne.mpr same, Prod.mk.injEq, ← ih distinct.2]
      simp [same]

theorem lookup_onBlockAccess (tracker : HeatTracker) (now blockId b : UInt64) :
    (tracker.onBlockAccess now blockId).heatMap.lookup b =
      if b = blockId then some (count now blockId ((tracker.heatMap.lookup blockId).getD {}))
      else tracker.heatMap.lookup b := by
  unfold onBlockAccess
  cases found : tracker.heatMap.lookup blockId with
  | none =>
    dsimp only
    rw [List.lookup_cons]
    by_cases same : b = blockId
    · simp [same]
    · rw [beq_eq_false_iff_ne.mpr same, if_neg same]
  | some entry =>
    dsimp only
    have each : (fun kv : UInt64 × HeatEntry => if kv.1 = blockId then (kv.1, count now blockId kv.2) else kv) =
        fun kv => (kv.1, if kv.1 = blockId then count now blockId kv.2 else kv.2) := by
      funext kv
      split <;> rfl
    rw [each, lookup_map_values (f := fun k v => if k = blockId then count now blockId v else v)]
    by_cases same : b = blockId
    · subst same
      simp [found]
    · simp [same]

theorem lookup_applyHeatDecay (tracker : HeatTracker) (b : UInt64) :
    tracker.applyHeatDecay.heatMap.lookup b = (tracker.heatMap.lookup b).map (decay tracker.hotThreshold) :=
  lookup_map_values (f := fun _ v => decay tracker.hotThreshold v) tracker.heatMap b

/-- Each block has one entry, and the thresholds stay. -/
structure Kept (tracker tracker' : HeatTracker) : Prop where
  distinct : (tracker'.heatMap.map Prod.fst).Nodup
  hot : tracker'.hotThreshold = tracker.hotThreshold
  cold : tracker'.coldThreshold = tracker.coldThreshold

theorem Kept.exec {first : HeatTracker} (kept : Kept first tracker) (e : Event) : Kept first (tracker.exec e) := by
  cases e with
  | access now blockId =>
    show Kept first (tracker.onBlockAccess now blockId)
    unfold onBlockAccess
    cases found : tracker.heatMap.lookup blockId with
    | none =>
      refine ⟨List.nodup_cons.mpr ⟨fun member => ?_, kept.distinct⟩, kept.hot, kept.cold⟩
      obtain ⟨⟨k, entry⟩, there, rfl⟩ := List.mem_map.mp member
      rw [(lookup_eq_some_iff_mem kept.distinct).mpr there] at found
      cases found
    | some entry =>
      refine ⟨?_, kept.hot, kept.cold⟩
      have keys : (tracker.heatMap.map fun kv =>
          if kv.1 = blockId then (kv.1, count now blockId kv.2) else kv).map Prod.fst =
            tracker.heatMap.map Prod.fst := by
        rw [List.map_map]
        refine List.map_congr_left fun kv _ => ?_
        rw [Function.comp_apply]
        split <;> rfl
      rw [keys]
      exact kept.distinct
  | scan =>
    refine ⟨?_, kept.hot, kept.cold⟩
    show (List.map Prod.fst (tracker.heatMap.map _)).Nodup
    rw [List.map_map]
    exact kept.distinct

theorem kept_run (empty : tracker.heatMap = []) (events : List Event) : Kept tracker (tracker.run events) := by
  induction events with
  | nil => exact ⟨by rw [run, empty]; exact List.nodup_nil, rfl, rfl⟩
  | cons e earlier ih => exact ih.exec e

/-! ## What the weights come to -/

@[simp] theorem accesses_access : accesses b (.access now blockId :: earlier) =
    accesses b earlier + if blockId = b then 1 else 0 := by
  unfold accesses
  rw [List.countP_cons]
  by_cases same : blockId = b <;> simp [Event.Accesses, same]

@[simp] theorem accesses_scan : accesses b (.scan :: earlier) = accesses b earlier := by
  unfold accesses
  rw [List.countP_cons_of_neg]
  exact fun now => of_decide_eq_true now

@[simp] theorem scans_access : scans (.access now blockId :: earlier) = scans earlier := by
  unfold scans
  rw [List.countP_cons_of_neg]
  exact fun now => of_decide_eq_true now

@[simp] theorem scans_scan : scans (.scan :: earlier) = scans earlier + 1 := by
  unfold scans
  rw [List.countP_cons_of_pos]
  exact decide_eq_true trivial

@[simp] theorem weight_access : weight b (.access now blockId :: earlier) =
    weight b earlier + if blockId = b then 2 ^ scans earlier else 0 := rfl

@[simp] theorem weight_scan : weight b (.scan :: earlier) = weight b earlier := rfl

theorem weight_le (b : UInt64) (events : List Event) : weight b events ≤ accesses b events * 2 ^ scans events := by
  induction events with
  | nil => exact Nat.le_refl 0
  | cons e earlier ih =>
    cases e with
    | access now blockId =>
      rw [weight_access, accesses_access, scans_access, Nat.add_mul]
      refine Nat.add_le_add ih ?_
      split <;> simp
    | scan =>
      rw [weight_scan, accesses_scan, scans_scan, Nat.pow_succ, ← Nat.mul_assoc]
      omega

theorem heated_access {hot : UInt32} : Heated hot b (.access now blockId :: earlier) ↔ Heated hot b earlier := by
  constructor
  · rintro ⟨later, before, split, quiet, rest⟩
    cases later with
    | nil => cases split
    | cons e later =>
      obtain ⟨rfl, apart⟩ := List.cons.inj split
      exact ⟨later, before, apart, fun e member => quiet e (List.mem_cons_of_mem _ member), rest⟩
  · rintro ⟨later, before, rfl, quiet, rest⟩
    exact ⟨_ :: later, before, rfl, List.forall_mem_cons.mpr ⟨id, quiet⟩, rest⟩

theorem heated_scan {hot : UInt32} : Heated hot b (.scan :: earlier) ↔ 0 < accesses b earlier ∧
    hot.toNat * 2 ^ (scans earlier + 1) ≤ weight b earlier := by
  constructor
  · rintro ⟨later, before, split, quiet, rest⟩
    cases later with
    | nil =>
      cases split
      exact rest
    | cons e later =>
      obtain ⟨rfl, split⟩ := List.cons.inj split
      exact absurd trivial (quiet _ List.mem_cons_self)
  · exact fun rest => ⟨[], earlier, rfl, List.forall_mem_nil _, rest⟩

/-- What an entry says after a run. -/
structure Weighs (hot : UInt32) (b : UInt64) (events : List Event) (entry : HeatEntry) : Prop where
  total : entry.accessCount.toNat = accesses b events
  recent : entry.recentAccesses.toNat = weight b events / 2 ^ scans events
  hot_iff : entry.isHot = true ↔ Heated hot b events

theorem Weighs.count {hot : UInt32} {entry : HeatEntry} (weighs : Weighs hot b earlier entry) (now : UInt64)
    (few : accesses b earlier + 1 < 2 ^ 32) :
    Weighs hot b (.access now b :: earlier) (count now b entry) := by
  have small : weight b earlier / 2 ^ scans earlier ≤ accesses b earlier :=
    Nat.div_le_of_le_mul (by rw [Nat.mul_comm]; exact weight_le b earlier)
  have next : ∀ {n : UInt32}, n.toNat + 1 < 2 ^ 32 → (n + 1).toNat = n.toNat + 1 := by
    intro n room
    rw [UInt32.toNat_add]
    exact Nat.mod_eq_of_lt room
  refine ⟨?_, ?_, ?_⟩
  · show (entry.accessCount + 1).toNat = _
    rw [next (by rw [weighs.total]; exact few), weighs.total, accesses_access, if_pos rfl]
  · show (entry.recentAccesses + 1).toNat = _
    rw [next (by rw [weighs.recent]; omega), weighs.recent, weight_access, if_pos rfl, scans_access,
      Nat.add_div_right _ (Nat.two_pow_pos _)]
  · rw [heated_access]
    exact weighs.hot_iff

theorem Weighs.other {hot : UInt32} {entry : HeatEntry} (weighs : Weighs hot b earlier entry)
    (other : blockId ≠ b) : Weighs hot b (.access now blockId :: earlier) entry := by
  refine ⟨?_, ?_, ?_⟩
  · rw [accesses_access, if_neg other]
    exact weighs.total
  · rw [weight_access, if_neg other, scans_access]
    exact weighs.recent
  · rw [heated_access]
    exact weighs.hot_iff

theorem Weighs.decay {hot : UInt32} {entry : HeatEntry} (weighs : Weighs hot b earlier entry)
    (seen : 0 < accesses b earlier) : Weighs hot b (.scan :: earlier) (decay hot entry) := by
  have halved : (entry.recentAccesses / 2).toNat = weight b earlier / 2 ^ (scans earlier + 1) := by
    rw [UInt32.toNat_div, weighs.recent, Nat.pow_succ]
    exact Nat.div_div_eq_div_mul ..
  refine ⟨?_, ?_, ?_⟩
  · rw [accesses_scan]
    exact weighs.total
  · rw [weight_scan, scans_scan]
    exact halved
  · rw [heated_scan]
    show decide (hot ≤ entry.recentAccesses / 2) = true ↔ _
    rw [decide_eq_true_iff, UInt32.le_iff_toNat_le, halved, Nat.le_div_iff_mul_le (Nat.two_pow_pos _)]
    exact ⟨fun heavy => ⟨seen, heavy⟩, fun both => both.2⟩

theorem weighs_unseen {hot : UInt32} (unseen : accesses b events = 0) : Weighs hot b events {} := by
  have light := weight_le b events
  rw [unseen, Nat.zero_mul, Nat.le_zero] at light
  refine ⟨unseen.symm, ?_, ?_⟩
  · rw [light, Nat.zero_div]
    rfl
  · refine iff_of_false (by decide) ?_
    rintro ⟨later, before, rfl, -, seen, -⟩
    unfold accesses at seen unseen
    rw [List.countP_append, List.countP_cons] at unseen
    omega

/-- The entry of a block is there once the block was accessed. -/
theorem lookup_run (empty : tracker.heatMap = []) (few : accesses b events < 2 ^ 32) :
    Weighs tracker.hotThreshold b events ((tracker.run events).getHeatInfo b) ∧
      ((tracker.run events).heatMap.lookup b = none ↔ accesses b events = 0) := by
  induction events with
  | nil =>
    have absent : (tracker.run []).heatMap.lookup b = none := by
      rw [run, empty]
      rfl
    refine ⟨?_, iff_of_true absent rfl⟩
    rw [getHeatInfo, absent]
    exact weighs_unseen rfl
  | cons e earlier ih =>
    cases e with
    | access now blockId =>
      rw [accesses_access] at few ⊢
      have step := lookup_onBlockAccess (tracker.run earlier) now blockId b
      change (tracker.run (.access now blockId :: earlier)).heatMap.lookup b = _ at step
      obtain ⟨weighs, found⟩ := ih (by omega)
      unfold getHeatInfo at weighs ⊢
      rw [step]
      by_cases mine : blockId = b
      · subst mine
        rw [if_pos rfl] at few ⊢
        rw [if_pos rfl]
        exact ⟨weighs.count now few, iff_of_false (by simp) (by omega)⟩
      · rw [if_neg (Ne.symm mine), if_neg mine]
        exact ⟨weighs.other mine, found⟩
    | scan =>
      rw [accesses_scan] at few ⊢
      have step := lookup_applyHeatDecay (tracker.run earlier) b
      change (tracker.run (.scan :: earlier)).heatMap.lookup b = _ at step
      obtain ⟨weighs, found⟩ := ih few
      rw [(kept_run empty earlier).hot] at step
      unfold getHeatInfo at weighs ⊢
      rw [step]
      cases entry : (tracker.run earlier).heatMap.lookup b with
      | none =>
        have unseen := found.mp entry
        exact ⟨weighs_unseen (accesses_scan.trans unseen), iff_of_true rfl unseen⟩
      | some entry' =>
        rw [entry] at weighs found
        have seen : accesses b earlier ≠ 0 := fun none => by cases found.mpr none
        exact ⟨weighs.decay (Nat.pos_of_ne_zero seen), iff_of_false (by simp) seen⟩

theorem mem_blocks {chosen : HeatEntry → Bool} (empty : tracker.heatMap = []) :
    b ∈ ((tracker.run events).heatMap.filter fun kv => chosen kv.2).map Prod.fst ↔
      ∃ entry, (tracker.run events).heatMap.lookup b = some entry ∧ chosen entry = true := by
  have distinct := (kept_run empty events).distinct
  constructor
  · intro member
    obtain ⟨⟨k, entry⟩, inside, rfl⟩ := List.mem_map.mp member
    obtain ⟨there, fine⟩ := List.mem_filter.mp inside
    exact ⟨entry, (lookup_eq_some_iff_mem distinct).mpr there, fine⟩
  · rintro ⟨entry, found, fine⟩
    exact List.mem_map.mpr ⟨_, List.mem_filter.mpr ⟨(lookup_eq_some_iff_mem distinct).mp found, fine⟩, rfl⟩

/-- **What the tracker says of a block**, after any accesses and scans. -/
structure Told (tracker : HeatTracker) (b : UInt64) (events : List Event) : Prop where
  total : ((tracker.run events).getHeatInfo b).accessCount.toNat = accesses b events
  recent : ((tracker.run events).getHeatInfo b).recentAccesses.toNat = weight b events / 2 ^ scans events
  hot : b ∈ (tracker.run events).getHotBlocks ↔ Heated tracker.hotThreshold b events
  cold : b ∈ (tracker.run events).getColdBlocks ↔ 0 < accesses b events ∧
    ¬ Heated tracker.hotThreshold b events ∧ weight b events < tracker.coldThreshold.toNat * 2 ^ scans events

theorem told_of_run (tracker : HeatTracker) (empty : tracker.heatMap = []) (events : List Event) (b : UInt64)
    (few : accesses b events < 2 ^ 32) : Told tracker b events := by
  obtain ⟨weighs, found⟩ := lookup_run empty few
  refine ⟨weighs.total, weighs.recent, ?_, ?_⟩
  · unfold getHotBlocks
    rw [mem_blocks empty, ← weighs.hot_iff, getHeatInfo]
    cases entry : (tracker.run events).heatMap.lookup b with
    | none => simp
    | some entry' => simp
  · have fraction : ((tracker.run events).getHeatInfo b).recentAccesses < tracker.coldThreshold ↔
        weight b events < tracker.coldThreshold.toNat * 2 ^ scans events := by
      rw [UInt32.lt_iff_toNat_lt, weighs.recent, Nat.div_lt_iff_lt_mul (Nat.two_pow_pos _)]
    refine (@mem_blocks tracker b events (fun entry => !entry.isHot && decide (entry.recentAccesses <
      (tracker.run events).coldThreshold)) empty).trans ?_
    rw [← weighs.hot_iff, ← fraction, getHeatInfo, (kept_run empty events).cold]
    cases entry : (tracker.run events).heatMap.lookup b with
    | none => simp [found.mp entry]
    | some entry' =>
      have seen : 0 < accesses b events := Nat.pos_of_ne_zero fun none => by
        rw [found.mpr none] at entry
        cases entry
      simp [seen]

/-- Twenty accesses and a scan. -/
theorem told_of_run_twenty : Told {} 7 (.scan :: List.replicate 20 (.access 0 7)) :=
  told_of_run {} rfl _ 7 (by decide)

/-! ## Rates -/

@[simp] theorem window_access : window b (.access now blockId :: earlier) =
    window b earlier + if blockId = b then 1 else 0 := by
  unfold window
  rw [List.takeWhile_cons_of_pos, accesses_access]
  exact decide_eq_true id

@[simp] theorem window_scan : window b (.scan :: earlier) = 0 := by
  unfold window
  rw [List.takeWhile_cons_of_neg]
  · rfl
  · exact fun quiet => of_decide_eq_true quiet trivial

theorem window_mul_le (b : UInt64) (events : List Event) :
    window b events * 2 ^ scans events ≤ weight b events := by
  induction events with
  | nil => exact Nat.le_refl 0
  | cons e earlier ih =>
    cases e with
    | access now blockId =>
      rw [window_access, scans_access, weight_access, Nat.add_mul]
      refine Nat.add_le_add ih ?_
      split <;> simp
    | scan =>
      rw [window_scan, Nat.zero_mul]
      exact Nat.zero_le _

/-- Where no window has more than `n` accesses, they never weigh up to more. -/
theorem weight_le_windows {n : Nat} (calm : ∀ before, before <:+ events → window b before ≤ n) :
    weight b events + n ≤ (n + window b events) * 2 ^ scans events := by
  induction events with
  | nil =>
    show 0 + n ≤ (n + 0) * 1
    omega
  | cons e earlier ih =>
    have before := ih fun before suffix => calm before (suffix.trans (List.suffix_cons _ _))
    cases e with
    | access now blockId =>
      rw [window_access, scans_access, weight_access, ← Nat.add_assoc n, Nat.add_mul]
      have step : (if blockId = b then 2 ^ scans earlier else 0) =
          (if blockId = b then 1 else 0) * 2 ^ scans earlier := by
        split <;> simp
      rw [step]
      omega
    | scan =>
      have few := calm earlier (List.suffix_cons _ _)
      have doubled : (n + window b earlier) * 2 ^ scans earlier ≤ (n + n) * 2 ^ scans earlier :=
        Nat.mul_le_mul_right _ (by omega)
      rw [window_scan, scans_scan, weight_scan, Nat.pow_succ, Nat.add_zero, Nat.mul_comm (2 ^ scans earlier) 2,
        ← Nat.mul_assoc, Nat.mul_two]
      omega

/-- **How fast is hot**: a block is only hot when some window between scans had more accesses than the
threshold, and surely when the last one had twice as many. -/
structure Rates (tracker : HeatTracker) (b : UInt64) (events : List Event) : Prop where
  calm : (∀ before, before <:+ events → window b before ≤ tracker.hotThreshold.toNat) →
    b ∉ (tracker.run events).getHotBlocks
  busy : ∀ later earlier, events = later ++ .scan :: earlier → (∀ e ∈ later, ¬ e.IsScan) →
    2 * tracker.hotThreshold.toNat ≤ window b earlier → b ∈ (tracker.run events).getHotBlocks

theorem rates_of_run (tracker : HeatTracker) (empty : tracker.heatMap = []) (some : 0 < tracker.hotThreshold)
    (events : List Event) (b : UInt64) (few : accesses b events < 2 ^ 32) : Rates tracker b events := by
  have told := told_of_run tracker empty events b few
  have threshold : 0 < tracker.hotThreshold.toNat := UInt32.lt_iff_toNat_lt.mp some
  refine ⟨fun calm hot => ?_, fun later earlier split quiet busy => ?_⟩
  · obtain ⟨later, before, split, -, -, heavy⟩ := told.hot.mp hot
    have suffix : before <:+ events := by
      rw [split]
      exact (List.suffix_cons _ _).trans (List.suffix_append _ _)
    have light := weight_le_windows (b := b) fun before' inside => calm before' (inside.trans suffix)
    have last := Nat.mul_le_mul_right (2 ^ scans before) (Nat.add_le_add_left (calm before suffix)
      tracker.hotThreshold.toNat)
    rw [Nat.pow_succ, Nat.mul_comm (2 ^ scans before) 2, ← Nat.mul_assoc, Nat.mul_two] at heavy
    omega
  · have heavy := window_mul_le b earlier
    have enough := Nat.mul_le_mul_right (2 ^ scans earlier) busy
    refine told.hot.mpr ⟨later, earlier, split, quiet, ?_, ?_⟩
    · have positive := Nat.two_pow_pos (scans earlier)
      have light := weight_le b earlier
      by_contra unseen
      have none : accesses b earlier = 0 := by omega
      rw [none, Nat.zero_mul] at light
      have all := Nat.mul_pos (Nat.mul_pos Nat.two_pos threshold) positive
      omega
    · rw [Nat.pow_succ, Nat.mul_comm (2 ^ scans earlier) 2, ← Nat.mul_assoc, Nat.mul_comm _ 2]
      omega

theorem rates_of_run_twenty : Rates {} 7 (.scan :: List.replicate 20 (.access 0 7)) :=
  rates_of_run {} rfl (by decide) _ 7 (by decide)

end

end HeatTracker

end OpenFS
