import Mathlib.Algebra.Order.BigOperators.Group.List
import Mathlib.Algebra.Order.Ring.Nat
import OpenFS.Data.L2CacheInvariant

/-!
# The capacity of the block cache

`Put` of a new block evicts others, or the block itself, until the cache fits again. `Put`
of a cached block replaces its data and evicts nothing. So the cache stays within its
capacity as long as no block grows beyond what the others leave.
-/

namespace OpenFS

open NodeList

namespace L2Cache

/-- The bytes of all blocks but this one. -/
def others (c : L2Cache) (blockId : UInt64) : Nat := bytesOf (c.nodes.filter fun n => n.val.blockId ≠ blockId)

/-- A cached block that is put, with its new data, fits beside the others. What is left by
`Remove` does so too, unless the blocks have so many bytes that the count has wrapped. -/
def Call.Fits (c : L2Cache) : Call → Prop
  | .put blockId data => c.contains blockId = true → u64 (c.others blockId + data.length) ≤ c.capacity
  | .remove blockId => u64 (c.others blockId) ≤ c.capacity
  | _ => True

/-- The cache is within its capacity before and after each call. -/
def WithinCapacity (c : L2Cache) : List Call → Prop
  | [] => c.size ≤ c.capacity
  | call :: calls => c.size ≤ c.capacity ∧ WithinCapacity (call.exec c).1 calls

section
variable {c : L2Cache} {it : Nat} {e : CacheEntry} {rest : List (Node CacheEntry)} {blockId : UInt64}

/-! ## The capacity stays -/

theorem capacity_addSize (c : L2Cache) (n : Nat) : (c.addSize n).capacity = c.capacity := by
  obtain ⟨_, -, same⟩ := c.addSize_eq n
  rw [same]
  rfl

theorem capacity_subSize (c : L2Cache) (n : Nat) : (c.subSize n).capacity = c.capacity := by
  obtain ⟨_, -, same⟩ := c.subSize_eq n
  rw [same]
  rfl

theorem capacity_assign (c : L2Cache) (it : Nat) (f : CacheEntry → CacheEntry) :
    (c.assign it f).capacity = c.capacity := rfl

/-- An entry that is changed in place. -/
theorem capacity_reassign (c : L2Cache) (it n m : Nat) (f : CacheEntry → CacheEntry) :
    (((c.subSize n).assign it f).addSize m).capacity = c.capacity :=
  (capacity_addSize ..).trans ((capacity_assign ..).trans (capacity_subSize ..))

/-- A move is made within the lists. -/
theorem sized_scanErase (c : L2Cache) (segment : Segment) (blockId : UInt64) :
    (c.scanErase segment blockId).1.capacity = c.capacity ∧ (c.scanErase segment blockId).1.size = c.size := by
  unfold scanErase
  split
  · exact ⟨rfl, rfl⟩
  · exact ⟨rfl, rfl⟩

theorem sized_moveToProtected (c : L2Cache) (it : Nat) :
    (c.moveToProtected it).1.capacity = c.capacity ∧ (c.moveToProtected it).1.size = c.size := by
  unfold moveToProtected
  split
  · exact ⟨rfl, rfl⟩
  · next entry _ =>
    obtain ⟨capacity₁, size₁⟩ := sized_scanErase (c.assign it fun e => { e with data := [] })
      .probationary entry.blockId
    obtain ⟨capacity₂, size₂⟩ := sized_scanErase
      ((c.assign it fun e => { e with data := [] }).scanErase .probationary entry.blockId).1 .protected_
        entry.blockId
    exact ⟨capacity₂.trans capacity₁, size₂.trans size₁⟩

theorem sized_get (c : L2Cache) (blockId : UInt64) (stale : List UInt8) :
    (c.get blockId stale).2.1.capacity = c.capacity ∧ (c.get blockId stale).2.1.size = c.size := by
  unfold get
  split
  · exact ⟨rfl, rfl⟩
  · split
    · exact ⟨rfl, rfl⟩
    · dsimp only
      split
      · exact sized_moveToProtected _ _
      · exact ⟨rfl, rfl⟩

theorem capacity_evictBack {c' : L2Cache} (evicted : c.evictBack = some c') : c'.capacity = c.capacity := by
  unfold evictBack at evicted
  split at evicted
  · next n _ =>
    obtain ⟨_, -, same⟩ := c.subSize_eq n.val.data.length
    rw [same] at evicted
    cases evicted
    rfl
  · split at evicted
    · next n _ =>
      obtain ⟨_, -, same⟩ := c.subSize_eq n.val.data.length
      rw [same] at evicted
      cases evicted
      rfl
    · cases evicted

theorem capacity_evictLoop (fuel : Nat) (c : L2Cache) : (evictLoop fuel c).capacity = c.capacity := by
  induction fuel generalizing c with
  | zero => rfl
  | succ fuel ih =>
    unfold evictLoop
    split
    · cases evicted : c.evictBack with
      | none => rfl
      | some c' => exact (ih c').trans (capacity_evictBack evicted)
    · rfl

theorem capacity_put (c : L2Cache) (blockId : UInt64) (data : List UInt8) :
    (c.put blockId data).1.capacity = c.capacity := by
  unfold put
  cases find c.index blockId with
  | none =>
    dsimp only
    generalize pushed : ({ c with
      probationary := ⟨c.nextNode, { blockId := blockId, data := data, accessCount := 1 }⟩ :: c.probationary
      index := insert c.index blockId c.nextNode
      nextNode := c.nextNode + 1 } : L2Cache) = c'
    have same : c'.capacity = c.capacity := by
      rw [← pushed]
      rfl
    exact (capacity_evictLoop ..).trans ((capacity_addSize ..).trans same)
  | some it =>
    dsimp only
    cases c.entry it with
    | none => rfl
    | some e =>
      dsimp only
      generalize changed : ((c.subSize e.data.length).assign it fun _ =>
        { e with data := data, accessCount := intSucc e.accessCount }).addSize data.length = c'
      have same : c'.capacity = c.capacity := by
        rw [← changed]
        exact capacity_reassign ..
      split
      · exact (sized_moveToProtected c' it).1.trans same
      · exact same

theorem capacity_remove (c : L2Cache) (blockId : UInt64) : (c.remove blockId).1.capacity = c.capacity := by
  unfold remove
  cases find c.index blockId with
  | none => rfl
  | some it =>
    dsimp only
    cases c.entry it with
    | none => rfl
    | some e =>
      dsimp only
      rw [if_pos (by decide)]
      obtain ⟨_, -, shrunk⟩ := c.subSize_eq e.data.length
      rw [shrunk]
      rfl

theorem capacity_exec (c : L2Cache) (call : Call) : (call.exec c).1.capacity = c.capacity := by
  cases call with
  | put blockId data => exact capacity_put c blockId data
  | get blockId stale => exact (sized_get c blockId stale).1
  | remove blockId => exact capacity_remove c blockId
  | clear => rfl

/-! ## The size after a call -/

/-- The others are those in the rest. -/
theorem others_eq (rep : Rep c) (split : c.nodes.Perm (⟨it, e⟩ :: rest)) (named : e.blockId = blockId) :
    c.others blockId = bytesOf rest := by
  have keys := (rep.indexed.perm split).keys
  rw [List.map_cons, List.nodup_cons] at keys
  have apart : ∀ n ∈ rest, n.val.blockId ≠ blockId := fun n member same =>
    keys.1 (List.mem_map.mpr ⟨n, member, by rw [same, named]⟩)
  have filtered := split.filter fun n => decide (n.val.blockId ≠ blockId)
  have kept : rest.filter (fun n => decide (n.val.blockId ≠ blockId)) = rest :=
    List.filter_eq_self.mpr fun n member => by simpa using apart n member
  rw [List.filter_cons_of_neg (by simpa using named), kept] at filtered
  exact bytesOf_perm filtered

theorem others_of_not_cached (rep : Rep c) (absent : find c.index blockId = none) :
    c.others blockId = bytesOf c.nodes := by
  have apart := rep.indexed.find_none_iff.mp absent
  unfold others
  rw [List.filter_eq_self.mpr fun n member => by simpa using apart n member]

theorem size_eq (rep : Rep c) : c.size = u64 (bytesOf c.nodes) := rep.size

/-- A cached block that is put. -/
theorem size_put_cached (rep : Rep c) (found : find c.index blockId = some it) (data : List UInt8) :
    (c.put blockId data).1.size = u64 (c.others blockId + data.length) := by
  obtain ⟨e, rest, there, named, split⟩ := rep.found found
  obtain ⟨rep', -, -⟩ := put_spec rep blockId data
  rw [size_eq rep', others_eq rep split named]
  unfold put
  rw [found]
  dsimp only
  rw [there]
  dsimp only
  let e' : CacheEntry := { e with data := data, accessCount := intSucc e.accessCount }
  obtain ⟨rep'', split'⟩ := reassign_spec rep split (show e'.blockId = e.blockId from rfl)
  have total : bytesOf rest + data.length = bytesOf (⟨it, e'⟩ :: rest) := Nat.add_comm _ _
  split
  · obtain ⟨c', erased, result, -, moved, -, -⟩ := moveToProtected_spec rep'' split'
    rw [result, bytesOf_perm moved, total]
    rfl
  · rw [bytesOf_perm split', total]

/-- A new block makes room. -/
theorem size_put_new (rep : Rep c) (absent : find c.index blockId = none) (data : List UInt8) :
    (c.put blockId data).1.size ≤ (c.put blockId data).1.capacity := by
  obtain ⟨rep', -, -⟩ := put_spec rep blockId data
  have made : (c.put blockId data).1 = ((c.pushed blockId data).addSize data.length).evictIfNeeded := by
    unfold put
    rw [absent]
    rfl
  rw [made] at rep' ⊢
  obtain ⟨grown, -⟩ := push_spec rep (rep.indexed.find_none_iff.mp absent) data
  rcases evictIfNeeded_done grown with fits | empty
  · exact fits
  · rw [size_eq rep', empty]
    exact Nat.zero_le _

theorem size_remove (rep : Rep c) (blockId : UInt64) : (c.remove blockId).1.size = u64 (c.others blockId) := by
  unfold remove
  cases found : find c.index blockId with
  | none =>
    rw [others_of_not_cached rep found]
    exact rep.size
  | some it =>
    obtain ⟨e, rest, there, named, split⟩ := rep.found found
    rw [others_eq rep split named]
    dsimp only
    rw [there]
    dsimp only
    rw [if_pos (by decide)]
    obtain ⟨less, value, shrunk⟩ := c.subSize_eq e.data.length
    rw [shrunk]
    show less = _
    rw [value, rep.size, bytesOf_perm split, bytesOf_cons]
    exact u64_sub _ _

/-- Whether the cache is within its capacity after a call can be told before it. -/
theorem fits_iff (rep : Rep c) (within : c.size ≤ c.capacity) (call : Call) :
    (call.exec c).1.size ≤ (call.exec c).1.capacity ↔ call.Fits c := by
  cases call with
  | put blockId data =>
    show (c.put blockId data).1.size ≤ _ ↔ (c.contains blockId = true → _)
    unfold contains
    cases found : find c.index blockId with
    | none =>
      refine ⟨fun _ cached => (by cases cached), fun _ => size_put_new rep found data⟩
    | some it =>
      rw [capacity_exec, size_put_cached rep found]
      exact ⟨fun fits _ => fits, fun fits => fits rfl⟩
  | get blockId stale =>
    refine ⟨fun _ => trivial, fun _ => ?_⟩
    rw [capacity_exec]
    exact Nat.le_trans (Nat.le_of_eq (sized_get c blockId stale).2) within
  | remove blockId =>
    show (c.remove blockId).1.size ≤ _ ↔ _
    rw [capacity_exec, size_remove rep]
    exact Iff.rfl
  | clear => exact ⟨fun _ => trivial, fun _ => Nat.zero_le _⟩

theorem WithinCapacity.now {calls : List Call} (within : WithinCapacity c calls) : c.size ≤ c.capacity := by
  cases calls with
  | nil => exact within
  | cons call calls => exact within.1

theorem withinCapacity_iff (rep : Rep c) (within : c.size ≤ c.capacity) (calls : List Call) :
    WithinCapacity c calls ↔ Along (fun c call => call.Fits c) c calls := by
  induction calls generalizing c with
  | nil => exact ⟨fun _ => trivial, fun _ => within⟩
  | cons call calls ih =>
    have step := fits_iff rep within call
    have rep' := (exec_spec rep call).1
    unfold WithinCapacity Along
    constructor
    · rintro ⟨-, later⟩
      exact ⟨step.mp later.now, (ih rep' later.now).mp later⟩
    · rintro ⟨fits, later⟩
      exact ⟨within, (ih rep' (step.mpr fits)).mpr later⟩

end

/-- **The cache stays within its capacity through a run exactly if** no block that is cached
is put with more data than the others leave room for. -/
theorem within_capacity_iff (maxSizeBytes : UInt64) (calls : List Call) :
    WithinCapacity (new maxSizeBytes) calls ↔ Along (fun c call => call.Fits c) (new maxSizeBytes) calls :=
  withinCapacity_iff (rep_new maxSizeBytes) (Nat.zero_le _) calls

/-- A block of one byte is put again with eleven. -/
theorem cached_block_grows :
    ¬ ∀ (maxSizeBytes : UInt64) (calls : List Call), WithinCapacity (new maxSizeBytes) calls := by
  intro claim
  have within := claim 10 [.put 7 [1], .put 7 (List.replicate 11 2)]
  have size : ((Call.put 7 (List.replicate 11 2)).exec ((Call.put 7 [1]).exec (new 10)).1).1.size = 11 := by
    decide +kernel
  have last : _ ≤ _ := within.2.2
  rw [size, capacity_exec, capacity_exec] at last
  exact absurd last (by decide)

end L2Cache

end OpenFS
