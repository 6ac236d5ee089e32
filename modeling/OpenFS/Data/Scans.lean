import OpenFS.Data.CacheCapacity

/-!
# Scans

A scan puts blocks that are not cached, each once. Eviction takes from the probationary
list first, and stops when that is empty if the protected list alone fits. So a scan only
drives out its own blocks and those that were accessed once.
-/

namespace OpenFS.L2Cache

open NodeList

/-- What `Put`, `Get` and `Clear` make of a new cache. -/
inductive Reached (maxSizeBytes : UInt64) : L2Cache → Prop
  | new : Reached maxSizeBytes (new maxSizeBytes)
  | put {c : L2Cache} (reached : Reached maxSizeBytes c) (blockId : UInt64) (data : List UInt8) :
    Reached maxSizeBytes (c.put blockId data).1
  | get {c : L2Cache} (reached : Reached maxSizeBytes c) (blockId : UInt64) (stale : List UInt8) :
    Reached maxSizeBytes (c.get blockId stale).2.1
  | clear {c : L2Cache} (reached : Reached maxSizeBytes c) : Reached maxSizeBytes c.clear

/-- The cache after the blocks of a scan have been put. -/
def scan (c : L2Cache) (blocks : List (UInt64 × List UInt8)) : L2Cache :=
  blocks.foldl (fun c b => (c.put b.1 b.2).1) c

/-- The protected list stays as it is, and each put ends within the capacity. -/
structure Unpolluted (c : L2Cache) (blocks : List (UInt64 × List UInt8)) : Prop where
  protected_ : (c.scan blocks).protected_ = c.protected_
  evicted : ∀ before b after, blocks = before ++ b :: after →
    (((c.scan before).put b.1 b.2).1).currentSizeBytes ≤ c.maxSizeBytes

theorem Reached.rep {maxSizeBytes : UInt64} {c : L2Cache} (reached : Reached maxSizeBytes c) :
    Rep c ∧ c.maxSizeBytes = maxSizeBytes.toNat := by
  induction reached with
  | new => exact ⟨rep_new maxSizeBytes, rfl⟩
  | put _ blockId data ih => exact ⟨(put_spec ih.1 blockId data).1, (capacity_put _ _ _).trans ih.2⟩
  | get _ blockId stale ih => exact ⟨(get_spec ih.1 blockId stale).1, (sized_get _ _ _).1.trans ih.2⟩
  | clear _ ih => exact ⟨clear_spec _, ih.2⟩

section
variable {c c' : L2Cache}

/-! ## Eviction -/

/-- Where the protected list fits, one round takes from the probationary list. -/
theorem evictBack_protected (rep : Rep c) (fits : bytesOf c.protected_ ≤ c.maxSizeBytes)
    (small : c.maxSizeBytes < 2 ^ 64)
    (many : c.maxSizeBytes < c.currentSizeBytes) (evicted : c.evictBack = some c') :
    c'.protected_ = c.protected_ := by
  unfold evictBack at evicted
  split at evicted
  · next n _ =>
    obtain ⟨_, -, same⟩ := c.subSize_eq n.val.data.length
    rw [same] at evicted
    cases evicted
    rfl
  · next empty =>
    -- the probationary list is empty, so the size is that of the protected list
    exfalso
    have alone : c.nodes = c.protected_ := by
      unfold nodes
      rw [List.getLast?_eq_none_iff.mp empty, List.nil_append]
    have size := rep.size
    rw [alone, u64, Nat.mod_eq_of_lt (Nat.lt_of_le_of_lt fits small)] at size
    omega

theorem evictLoop_protected (fuel : Nat) (rep : Rep c) (fits : bytesOf c.protected_ ≤ c.maxSizeBytes)
    (small : c.maxSizeBytes < 2 ^ 64) : (evictLoop fuel c).protected_ = c.protected_ := by
  induction fuel generalizing c with
  | zero => rfl
  | succ fuel ih =>
    unfold evictLoop
    split
    · next many =>
      cases evicted : c.evictBack with
      | none => rfl
      | some c' =>
        have same := evictBack_protected rep fits small many evicted
        have capacity : c'.maxSizeBytes = c.maxSizeBytes := capacity_evictBack evicted
        exact (ih (evictBack_spec rep evicted).1 (same ▸ capacity ▸ fits) (capacity ▸ small)).trans same
    · rfl

/-! ## One put -/

theorem put_of_not_cached {blockId : UInt64} (absent : find c.index blockId = none) (data : List UInt8) :
    (c.put blockId data).1 = ((c.pushed blockId data).addSize data.length).evictIfNeeded := by
  unfold put
  rw [absent]
  rfl

theorem put_protected (rep : Rep c) (fits : bytesOf c.protected_ ≤ c.maxSizeBytes)
    (small : c.maxSizeBytes < 2 ^ 64)
    {blockId : UInt64} (absent : find c.index blockId = none) (data : List UInt8) :
    (c.put blockId data).1.protected_ = c.protected_ := by
  obtain ⟨grown, -⟩ := push_spec rep (rep.indexed.find_none_iff.mp absent) data
  obtain ⟨_, -, same⟩ := (c.pushed blockId data).addSize_eq data.length
  rw [put_of_not_cached absent, evictIfNeeded, same]
  rw [same] at grown
  exact evictLoop_protected _ grown fits small

/-- A put makes no other block cached. -/
theorem put_absent (rep : Rep c) (blockId : UInt64) (data : List UInt8) {other : UInt64} (apart : other ≠ blockId)
    (absent : find c.index other = none) : find (c.put blockId data).1.index other = none := by
  obtain ⟨rep', -, nodes⟩ := put_spec rep blockId data
  apply rep'.indexed.find_none_iff.mpr
  intro n member same
  rcases nodes n member with ⟨own, -⟩ | ⟨-, old⟩
  · exact apart (same.symm.trans own)
  · exact rep.indexed.find_none_iff.mp absent n old same

/-! ## Scans -/

theorem unpolluted_of_absent (rep : Rep c) (fits : bytesOf c.protected_ ≤ c.maxSizeBytes)
    (small : c.maxSizeBytes < 2 ^ 64)
    {blocks : List (UInt64 × List UInt8)} (distinct : (blocks.map Prod.fst).Nodup)
    (absent : ∀ b ∈ blocks, find c.index b.1 = none) : Unpolluted c blocks := by
  induction blocks generalizing c with
  | nil =>
    constructor
    · rfl
    · intro before b after split
      simp at split
  | cons b blocks ih =>
    rw [List.map_cons, List.nodup_cons] at distinct
    rw [List.forall_mem_cons] at absent
    have kept := put_protected rep fits small absent.1 b.2
    have capacity : (c.put b.1 b.2).1.maxSizeBytes = c.maxSizeBytes := capacity_put c b.1 b.2
    have rest : Unpolluted (c.put b.1 b.2).1 blocks := by
      apply ih (put_spec rep b.1 b.2).1 (kept ▸ capacity ▸ fits) (capacity ▸ small) distinct.2
      intro b' later
      apply put_absent rep _ _ _ (absent.2 b' later)
      intro same
      exact distinct.1 (same ▸ List.mem_map_of_mem later)
    constructor
    · exact rest.protected_.trans kept
    · intro before b' after split
      cases before with
      | nil =>
        obtain ⟨rfl, -⟩ := List.cons.inj split
        exact capacity ▸ size_put_new rep absent.1 b.2
      | cons first before =>
        obtain ⟨rfl, later⟩ := List.cons.inj split
        exact capacity ▸ rest.evicted before b' after later

/-- A scan of blocks that are not cached leaves the protected list as it is. -/
theorem scan_keeps_protected (maxSizeBytes : UInt64) (c : L2Cache) (reached : Reached maxSizeBytes c)
    (fits : bytesOf c.protected_ ≤ maxSizeBytes.toNat) (blocks : List (UInt64 × List UInt8))
    (distinct : (blocks.map Prod.fst).Nodup) (absent : ∀ b ∈ blocks, c.contains b.1 = false) :
    Unpolluted c blocks := by
  obtain ⟨rep, capacity⟩ := reached.rep
  apply unpolluted_of_absent rep (capacity ▸ fits) (capacity ▸ maxSizeBytes.toNat_lt) distinct
  intro b member
  simpa [contains] using absent b member

/-- Two new blocks, the second larger than the cache, beside one that was put twice. -/
theorem scan_keeps_block : Unpolluted ((((new 4).put 7 [1]).1.put 7 [2]).1) [(8, [3]), (9, [1, 2, 3, 4, 5])] :=
  scan_keeps_protected 4 _ ((Reached.new.put 7 [1]).put 7 [2]) (by decide +kernel) _ (by decide)
    (by decide +kernel)

end

end OpenFS.L2Cache
