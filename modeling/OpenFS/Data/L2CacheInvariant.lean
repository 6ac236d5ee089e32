import Mathlib.Algebra.BigOperators.Group.List.Basic
import Mathlib.Algebra.GroupWithZero.Nat
import OpenFS.Data.L2Cache

/-!
# The representation of the block cache

Each block id has one node in the two lists together, the index leads to it, and the
size is that of the data in the lists. Every call keeps this, and every erase is of an
own iterator, but for `Remove` of a block in the protected list, which is erased from
the probationary one.
-/

namespace OpenFS

open NodeList

namespace L2Cache

def bytesOf (nodes : List (Node CacheEntry)) : Nat := (nodes.map fun n => n.val.data.length).sum

structure Rep (c : L2Cache) : Prop where
  /-- No id twice, and for each node one key, which leads to it. -/
  indexed : Indexed CacheEntry.blockId c.nodes c.index c.nextNode
  size : c.currentSizeBytes = u64 (bytesOf c.nodes)

section
variable {c : L2Cache} {it : Nat} {e : CacheEntry} {rest : List (Node CacheEntry)}

theorem bytesOf_cons (n : Node CacheEntry) (nodes : List (Node CacheEntry)) :
    bytesOf (n :: nodes) = n.val.data.length + bytesOf nodes := rfl

theorem bytesOf_perm {nodes nodes' : List (Node CacheEntry)} (same : nodes.Perm nodes') :
    bytesOf nodes = bytesOf nodes' := (same.map _).sum_eq

/-! ## Sizes -/

theorem u64_sub (total n : Nat) : u64 (u64 (n + total) + 2 ^ 64 - u64 n) = u64 total := by
  unfold u64
  omega

theorem u64_add (total n : Nat) : u64 (u64 total + n) = u64 (n + total) := by
  unfold u64
  omega

/-! ## Nodes -/

theorem addSize_eq (c : L2Cache) (n : Nat) :
    ∃ size, size = u64 (c.currentSizeBytes + n) ∧ c.addSize n = { c with currentSizeBytes := size } := by
  unfold addSize
  exact ⟨_, rfl, rfl⟩

theorem subSize_eq (c : L2Cache) (n : Nat) :
    ∃ size, size = u64 (c.currentSizeBytes + 2 ^ 64 - u64 n) ∧
      c.subSize n = { c with currentSizeBytes := size } := by
  unfold subSize
  exact ⟨_, rfl, rfl⟩

theorem nodes_assign (c : L2Cache) (it : Nat) (f : CacheEntry → CacheEntry) :
    (c.assign it f).nodes = NodeList.assign c.nodes it f := (assign_append ..).symm

theorem nodes_eraseFrom (c : L2Cache) (segment : Segment) (it : Nat) :
    (c.eraseFrom segment it).1.nodes = unlink c.nodes it := (unlink_append ..).symm

theorem list_subset_nodes (c : L2Cache) (segment : Segment) : c.list segment ⊆ c.nodes := by
  cases segment with
  | probationary => exact List.subset_append_left _ _
  | protected_ => exact List.subset_append_right _ _

/-- What the index finds is a node with the id. -/
theorem Rep.found (rep : Rep c) {blockId : UInt64} (found : find c.index blockId = some it) :
    ∃ e rest, c.entry it = some e ∧ e.blockId = blockId ∧ c.nodes.Perm (⟨it, e⟩ :: rest) := by
  obtain ⟨e, member, same⟩ := rep.indexed.find_iff.mp found
  exact ⟨e, _, (deref_eq_some_iff rep.indexed.ids).mpr member, same, perm_cons_unlink rep.indexed.ids member⟩

/-- The only node with its id. -/
theorem eq_of_blockId (indexed : Indexed CacheEntry.blockId c.nodes c.index c.nextNode) {n m : Node CacheEntry}
    (n_mem : n ∈ c.nodes) (m_mem : m ∈ c.nodes) (same : n.val.blockId = m.val.blockId) : n = m :=
  List.inj_on_of_nodup_map indexed.keys n_mem m_mem same

/-! ## Erasing -/

theorem own_eraseFrom {segment : Segment} (member : ⟨it, e⟩ ∈ c.list segment) :
    (c.eraseFrom segment it).2 = ⟨segment, true⟩ := by
  have own : ((c.list segment).any fun n => n.id = it) = true := List.any_eq_true.mpr ⟨_, member, by simp⟩
  unfold eraseFrom
  rw [own]

theorem scanErase_of_mem (indexed : Indexed CacheEntry.blockId c.nodes c.index c.nextNode) {segment : Segment}
    (member : ⟨it, e⟩ ∈ c.list segment) :
    c.scanErase segment e.blockId = ((c.eraseFrom segment it).1, [⟨segment, true⟩]) := by
  unfold scanErase
  cases search : (c.list segment).find? fun n => n.val.blockId = e.blockId with
  | none =>
    have other := List.find?_eq_none.mp search _ member
    simp at other
  | some pit =>
    have same : pit.val.blockId = e.blockId := by simpa using List.find?_some search
    have inside := List.mem_of_find?_eq_some search
    obtain rfl : pit = ⟨it, e⟩ :=
      eq_of_blockId indexed (c.list_subset_nodes segment inside) (c.list_subset_nodes segment member) same
    dsimp only
    rw [own_eraseFrom member]

theorem scanErase_of_not_mem {segment : Segment} {blockId : UInt64}
    (other : ∀ n ∈ c.list segment, n.val.blockId ≠ blockId) : c.scanErase segment blockId = (c, []) := by
  unfold scanErase
  rw [List.find?_eq_none.mpr fun n member => by simpa using other n member]

/-- The two scans of a move take out the node, which is in one of the lists. -/
theorem scans_of_mem (indexed : Indexed CacheEntry.blockId c.nodes c.index c.nextNode)
    (member : ⟨it, e⟩ ∈ c.nodes) :
    ∃ segment between erased erased', c.scanErase .probationary e.blockId = (between, erased) ∧
      between.scanErase .protected_ e.blockId = ((c.eraseFrom segment it).1, erased') ∧
      erased ++ erased' = [⟨segment, true⟩] := by
  rcases List.mem_append.mp member with first | second
  · have gone : ∀ n ∈ (c.eraseFrom .probationary it).1.list .protected_, n.val.blockId ≠ e.blockId := by
      intro n there same
      have inside := List.mem_filter.mp there
      have twin := eq_of_blockId indexed (List.mem_append_right _ inside.1) member same
      rw [twin] at inside
      simp at inside
    exact ⟨_, _, _, _, scanErase_of_mem indexed first, scanErase_of_not_mem gone, rfl⟩
  · have apart : ∀ n ∈ c.list .probationary, n.val.blockId ≠ e.blockId := by
      intro n there same
      have twin := eq_of_blockId indexed (List.mem_append_left _ there) member same
      rw [twin] at there
      have ids := indexed.ids
      unfold nodes at ids
      rw [List.map_append, List.nodup_append] at ids
      exact ids.2.2 _ (List.mem_map_of_mem there) _ (List.mem_map_of_mem second) rfl
    exact ⟨_, _, _, _, scanErase_of_not_mem apart, scanErase_of_mem indexed second, rfl⟩

/-- Moving an entry gives it a new node, and frees the old one. -/
theorem moveToProtected_spec (rep : Rep c) (split : c.nodes.Perm (⟨it, e⟩ :: rest)) :
    ∃ c' erased, c.moveToProtected it = (c', erased) ∧ Rep c' ∧ c'.nodes.Perm (⟨c.nextNode, e⟩ :: rest) ∧
      (∀ er ∈ erased, er.own = true) ∧ c'.entry it = none := by
  have indexed := rep.indexed.perm split
  have member : ⟨it, e⟩ ∈ c.nodes := split.symm.subset List.mem_cons_self
  have there : c.entry it = some e := (deref_eq_some_iff rep.indexed.ids).mpr member
  have older : it < c.nextNode := rep.indexed.fresh _ member
  have emptied : (c.assign it fun e => { e with data := [] }).nodes.Perm
      (⟨it, { e with data := [] }⟩ :: rest) := by
    rw [nodes_assign]
    exact assign_perm indexed.ids split _
  have hollow : Indexed CacheEntry.blockId (⟨it, { e with data := [] }⟩ :: rest) c.index c.nextNode :=
    indexed.assign rfl
  obtain ⟨segment, between, erased, erased', first, second, one⟩ :=
    scans_of_mem (c := c.assign it fun e => { e with data := [] }) (hollow.perm emptied.symm)
      (emptied.symm.subset List.mem_cons_self)
  let hole := ((c.assign it fun e => { e with data := [] }).eraseFrom segment it).1
  have unlinked : hole.nodes.Perm rest := by
    rw [nodes_eraseFrom]
    exact unlink_perm hollow.ids emptied
  let full : L2Cache := { hole with
    protected_ := ⟨c.nextNode, e⟩ :: hole.protected_
    index := insert c.index e.blockId c.nextNode
    nextNode := c.nextNode + 1 }
  have moved : full.nodes.Perm (⟨c.nextNode, e⟩ :: rest) := List.perm_middle.trans (unlinked.cons _)
  have size : c.currentSizeBytes = u64 (bytesOf full.nodes) := by
    rw [rep.size, bytesOf_perm split, bytesOf_perm moved]
    rfl
  have result : c.moveToProtected it = (full, erased ++ erased') := by
    unfold moveToProtected
    rw [there]
    dsimp only
    rw [first]
    dsimp only
    rw [second]
    rfl
  refine ⟨full, _, result, ⟨indexed.move.perm moved.symm, size⟩, moved, ?_, ?_⟩
  · rw [one]
    simp
  · refine deref_eq_none_iff.mpr fun n there => ?_
    rcases List.mem_cons.mp (moved.subset there) with rfl | other
    · exact Nat.ne_of_gt older
    · exact ids_of_cons indexed.ids n other

/-! ## Evicting -/

/-- A node leaves the lists with its entry in the index and its bytes. -/
theorem Rep.leave (rep : Rep c) {it : Nat} {e : CacheEntry} {rest : List (Node CacheEntry)}
    (split : c.nodes.Perm (⟨it, e⟩ :: rest)) {c' : L2Cache} (nodes : c'.nodes = rest)
    (index : c'.index = erase c.index e.blockId) (next : c'.nextNode = c.nextNode)
    (size : c'.currentSizeBytes = (c.subSize e.data.length).currentSizeBytes) :
    Rep c' ∧ ∃ n, c.nodes.Perm (n :: c'.nodes) := by
  rw [← nodes] at split
  refine ⟨⟨?_, ?_⟩, _, split⟩
  · rw [index, next]
    exact (rep.indexed.perm split).drop
  · obtain ⟨less, value, same⟩ := c.subSize_eq e.data.length
    rw [size, same]
    dsimp only
    rw [value, rep.size, bytesOf_perm split, bytesOf_cons]
    exact u64_sub _ _

/-- An eviction takes out one node. -/
theorem evictBack_spec (rep : Rep c) {c' : L2Cache} (evicted : c.evictBack = some c') :
    Rep c' ∧ ∃ n, c.nodes.Perm (n :: c'.nodes) := by
  unfold evictBack at evicted
  split at evicted
  · next n back =>
    obtain ⟨front, probationary⟩ := List.getLast?_eq_some_iff.mp back
    obtain ⟨less, -, same⟩ := c.subSize_eq n.val.data.length
    have split : c.nodes.Perm (n :: (c.probationary.dropLast ++ c.protected_)) := by
      unfold nodes
      rw [probationary, List.dropLast_concat, List.append_assoc]
      exact List.perm_middle
    cases evicted
    exact rep.leave split (by rw [same]; rfl) rfl (by rw [same]) rfl
  · next empty =>
    split at evicted
    · next n back =>
      obtain ⟨front, protected'⟩ := List.getLast?_eq_some_iff.mp back
      obtain ⟨less, -, same⟩ := c.subSize_eq n.val.data.length
      have split : c.nodes.Perm (n :: (c.probationary ++ c.protected_.dropLast)) := by
        unfold nodes
        rw [protected', List.dropLast_concat, ← List.append_assoc]
        exact List.perm_append_comm
      cases evicted
      exact rep.leave split (by rw [same]; rfl) rfl (by rw [same]) rfl
    · cases evicted

/-- The loop takes out some nodes. -/
theorem evictLoop_spec (fuel : Nat) (rep : Rep c) :
    Rep (evictLoop fuel c) ∧ (evictLoop fuel c).nodes ⊆ c.nodes := by
  induction fuel generalizing c with
  | zero => exact ⟨rep, List.Subset.refl _⟩
  | succ fuel ih =>
    unfold evictLoop
    split
    · cases evicted : c.evictBack with
      | none => exact ⟨rep, List.Subset.refl _⟩
      | some c' =>
        obtain ⟨rep', n, split⟩ := evictBack_spec rep evicted
        obtain ⟨rep'', sub⟩ := ih rep'
        exact ⟨rep'', fun m member => split.symm.subset (List.mem_cons_of_mem _ (sub member))⟩
    · exact ⟨rep, List.Subset.refl _⟩

/-- It ends because the cache fits, or because it is empty. -/
theorem evictIfNeeded_done (rep : Rep c) :
    c.evictIfNeeded.currentSizeBytes ≤ c.evictIfNeeded.maxSizeBytes ∨ c.evictIfNeeded.nodes = [] := by
  have loop : ∀ fuel (c : L2Cache), Rep c → c.nodes.length ≤ fuel →
      (evictLoop fuel c).currentSizeBytes ≤ (evictLoop fuel c).maxSizeBytes ∨ (evictLoop fuel c).nodes = [] := by
    intro fuel
    induction fuel with
    | zero => exact fun c _ short => .inr (List.length_eq_zero_iff.mp (Nat.le_zero.mp short))
    | succ fuel ih =>
      intro c rep short
      unfold evictLoop
      split
      · cases evicted : c.evictBack with
        | none =>
          right
          unfold evictBack at evicted
          split at evicted
          · cases evicted
          · next first =>
            split at evicted
            · cases evicted
            · next second =>
              dsimp only
              unfold nodes
              rw [List.getLast?_eq_none_iff.mp first, List.getLast?_eq_none_iff.mp second]
              rfl
        | some c' =>
          obtain ⟨rep', n, split⟩ := evictBack_spec rep evicted
          have length := split.length_eq
          rw [List.length_cons] at length
          exact ih c' rep' (by omega)
      · next fits => exact .inl (Nat.le_of_not_lt fits)
  exact loop _ c rep (Nat.le_refl _)

/-! ## The calls -/

/-- An entry that is changed in place, with its size. -/
theorem reassign_spec (rep : Rep c) (split : c.nodes.Perm (⟨it, e⟩ :: rest)) {e' : CacheEntry}
    (same : e'.blockId = e.blockId) :
    Rep (((c.subSize e.data.length).assign it fun _ => e').addSize e'.data.length) ∧
      (((c.subSize e.data.length).assign it fun _ => e').addSize e'.data.length).nodes.Perm
        (⟨it, e'⟩ :: rest) := by
  have indexed := rep.indexed.perm split
  obtain ⟨less, value, shrunk⟩ := c.subSize_eq e.data.length
  obtain ⟨more, value', grown⟩ := ((c.subSize e.data.length).assign it fun _ => e').addSize_eq e'.data.length
  rw [grown]
  rw [shrunk] at value' ⊢
  have changed : (L2Cache.assign { c with currentSizeBytes := less } it fun _ =>
      e').nodes.Perm (⟨it, e'⟩ :: rest) := by
    rw [nodes_assign]
    exact assign_perm indexed.ids split _
  refine ⟨⟨(indexed.assign same).perm changed.symm, ?_⟩, changed⟩
  rw [value']
  have left : less = u64 (bytesOf rest) := by
    rw [value, rep.size, bytesOf_perm split, bytesOf_cons]
    exact u64_sub _ _
  show u64 (less + e'.data.length) = u64 (bytesOf (L2Cache.assign { c with currentSizeBytes := less }
    it fun _ => e').nodes)
  rw [bytesOf_perm changed, bytesOf_cons, left]
  exact u64_add _ _

/-- A new block at the front of the probationary list. -/
def pushed (c : L2Cache) (blockId : UInt64) (data : List UInt8) : L2Cache :=
  { c with
    probationary := ⟨c.nextNode, { blockId := blockId, data := data, accessCount := 1 }⟩ :: c.probationary
    index := insert c.index blockId c.nextNode
    nextNode := c.nextNode + 1 }

theorem push_spec (rep : Rep c) {blockId : UInt64} (new : ∀ n ∈ c.nodes, n.val.blockId ≠ blockId)
    (data : List UInt8) :
    Rep ((c.pushed blockId data).addSize data.length) ∧ ((c.pushed blockId data).addSize data.length).nodes =
      ⟨c.nextNode, { blockId := blockId, data := data, accessCount := 1 }⟩ :: c.nodes := by
  obtain ⟨more, value, grown⟩ := (c.pushed blockId data).addSize_eq data.length
  rw [grown]
  let e : CacheEntry := { blockId := blockId, data := data, accessCount := 1 }
  have indexed : Indexed CacheEntry.blockId (⟨c.nextNode, e⟩ :: c.nodes) (insert c.index e.blockId c.nextNode)
      (c.nextNode + 1) := rep.indexed.push new
  refine ⟨⟨indexed, ?_⟩, rfl⟩
  show more = u64 (data.length + bytesOf c.nodes)
  have before : (c.pushed blockId data).currentSizeBytes = u64 (bytesOf c.nodes) := rep.size
  rw [value, before]
  exact u64_add _ _

/-- What `Put` leaves: the block with its data, and some of the others. -/
theorem put_spec (rep : Rep c) (blockId : UInt64) (data : List UInt8) :
    Rep (c.put blockId data).1 ∧ (∀ er ∈ (c.put blockId data).2, er.own = true) ∧
      ∀ n ∈ (c.put blockId data).1.nodes,
        (n.val.blockId = blockId ∧ n.val.data = data) ∨ (n.val.blockId ≠ blockId ∧ n ∈ c.nodes) := by
  unfold put
  cases found : find c.index blockId with
  | some it =>
    obtain ⟨e, rest, there, named, split⟩ := rep.found found
    have others : ∀ n ∈ rest, n.val.blockId ≠ blockId ∧ n ∈ c.nodes := by
      intro n member
      refine ⟨fun same => ?_, split.symm.subset (List.mem_cons_of_mem _ member)⟩
      have keys := (rep.indexed.perm split).keys
      rw [List.map_cons, List.nodup_cons] at keys
      exact keys.1 (List.mem_map.mpr ⟨n, member, by rw [same, named]⟩)
    dsimp only
    rw [there]
    dsimp only
    let e' : CacheEntry := { e with data := data, accessCount := intSucc e.accessCount }
    obtain ⟨rep', split'⟩ := reassign_spec rep split (show e'.blockId = e.blockId from rfl)
    split
    · obtain ⟨c', erased, result, rep'', moved, own, -⟩ := moveToProtected_spec rep' split'
      rw [result]
      refine ⟨rep'', own, fun n member => ?_⟩
      rcases List.mem_cons.mp (moved.subset member) with rfl | other
      · exact .inl ⟨named, rfl⟩
      · exact .inr (others n other)
    · refine ⟨rep', List.forall_mem_nil _, fun n member => ?_⟩
      rcases List.mem_cons.mp (split'.subset member) with rfl | other
      · exact .inl ⟨named, rfl⟩
      · exact .inr (others n other)
  | none =>
    have new := rep.indexed.find_none_iff.mp found
    obtain ⟨rep', nodes⟩ := push_spec rep new data
    obtain ⟨rep'', sub⟩ := evictLoop_spec ((c.pushed blockId data).addSize data.length).nodes.length rep'
    refine ⟨rep'', List.forall_mem_nil _, fun n member => ?_⟩
    have member := sub member
    rw [nodes] at member
    rcases List.mem_cons.mp member with rfl | old
    · exact .inl ⟨rfl, rfl⟩
    · exact .inr ⟨new n old, old⟩

/-- What a hit hands out depends on whether the entry is moved first; the cached blocks stay. -/
theorem get_spec (rep : Rep c) (blockId : UInt64) (stale : List UInt8) :
    Rep (c.get blockId stale).2.1 ∧ (∀ er ∈ (c.get blockId stale).2.2, er.own = true) ∧
      (∀ n ∈ (c.get blockId stale).2.1.nodes, ∃ m ∈ c.nodes, m.val.blockId = n.val.blockId ∧
        m.val.data = n.val.data) ∧
      ∀ hit, (c.get blockId stale).1 = some hit → ∃ it e, find c.index blockId = some it ∧ c.entry it = some e ∧
        e.blockId = blockId ∧ hit = if 2 ≤ intSucc e.accessCount then ⟨stale, false⟩ else ⟨e.data, true⟩ := by
  unfold get
  cases found : find c.index blockId with
  | none =>
    refine ⟨⟨rep.indexed, rep.size⟩, List.forall_mem_nil _, fun n member => ⟨n, member, rfl, rfl⟩,
      fun hit some => ?_⟩
    cases some
  | some it =>
    obtain ⟨e, rest, there, named, split⟩ := rep.found found
    have indexed := rep.indexed.perm split
    dsimp only
    rw [there]
    dsimp only
    let e' : CacheEntry := { e with accessCount := intSucc e.accessCount }
    have split' : (c.assign it fun _ => e').nodes.Perm (⟨it, e'⟩ :: rest) := by
      rw [nodes_assign]
      exact assign_perm indexed.ids split _
    have rep' : Rep (c.assign it fun _ => e') := by
      refine ⟨(indexed.assign (show e'.blockId = e.blockId from rfl)).perm split'.symm, ?_⟩
      show c.currentSizeBytes = _
      rw [rep.size, bytesOf_perm split, bytesOf_perm split']
      rfl
    have kept : ∀ n ∈ (⟨it, e'⟩ : Node CacheEntry) :: rest,
        ∃ m ∈ c.nodes, m.val.blockId = n.val.blockId ∧ m.val.data = n.val.data := by
      intro n member
      rcases List.mem_cons.mp member with rfl | other
      · exact ⟨⟨it, e⟩, split.symm.subset List.mem_cons_self, rfl, rfl⟩
      · exact ⟨n, split.symm.subset (List.mem_cons_of_mem _ other), rfl, rfl⟩
    by_cases often : 2 ≤ intSucc e.accessCount
    · obtain ⟨c', erased, result, rep'', moved, own, gone⟩ := moveToProtected_spec rep' split'
      rw [if_pos often, result]
      dsimp only
      rw [gone]
      refine ⟨⟨rep''.indexed, rep''.size⟩, own, fun n member => ?_, fun hit some => ?_⟩
      · rcases List.mem_cons.mp (moved.subset member) with rfl | other
        · exact kept ⟨it, e'⟩ List.mem_cons_self
        · exact kept n (List.mem_cons_of_mem _ other)
      · cases some
        exact ⟨it, e, rfl, there, named, by rw [if_pos often]⟩
    · have still : (c.assign it fun _ => e').entry it = some e' :=
        (deref_eq_some_iff rep'.indexed.ids).mpr (split'.symm.subset List.mem_cons_self)
      rw [if_neg often]
      dsimp only
      rw [still]
      refine ⟨⟨rep'.indexed, rep'.size⟩, List.forall_mem_nil _, fun n member => kept n (split'.subset member),
        fun hit some => ?_⟩
      cases some
      exact ⟨it, e, rfl, there, named, by rw [if_neg often]⟩

/-- `Remove` erases from the probationary list, wherever the block is. -/
theorem remove_spec (rep : Rep c) (blockId : UInt64) :
    Rep (c.remove blockId).1 ∧ (c.remove blockId).1.nodes ⊆ c.nodes ∧
      ((∀ er ∈ (c.remove blockId).2, er.own = true) ↔
        ∀ it, find c.index blockId = some it → ∃ n ∈ c.probationary, n.id = it) := by
  unfold remove
  cases found : find c.index blockId with
  | none => exact ⟨rep, List.Subset.refl _, by simp⟩
  | some it =>
    obtain ⟨e, rest, there, named, split⟩ := rep.found found
    have indexed := rep.indexed.perm split
    dsimp only
    rw [there]
    dsimp only
    rw [if_pos (by decide)]
    obtain ⟨less, value, shrunk⟩ := c.subSize_eq e.data.length
    rw [shrunk]
    let e' : CacheEntry := { e with accessCount := 0 }
    generalize marked : (L2Cache.assign { c with currentSizeBytes := less } it fun _ => e') = c'
    have changed : c'.nodes.Perm (⟨it, e'⟩ :: rest) := by
      rw [← marked, nodes_assign]
      exact assign_perm indexed.ids split _
    have left : (c'.eraseFrom .probationary it).1.nodes.Perm rest := by
      rw [nodes_eraseFrom]
      exact unlink_perm (indexed.assign (show e'.blockId = e.blockId from rfl)).ids changed
    have names : ((c'.list .probationary).any fun n => n.id = it) = c.probationary.any fun n => n.id = it := by
      rw [← marked]
      show (NodeList.assign c.probationary it fun _ => e').any _ = _
      unfold NodeList.assign
      rw [List.any_map]
      congr 1
      funext n
      show decide ((if n.id = it then _ else n : Node CacheEntry).id = it) = _
      split
      · rfl
      · rfl
    refine ⟨⟨?_, ?_⟩, fun n member => ?_, ?_⟩
    · show Indexed CacheEntry.blockId (c'.eraseFrom .probationary it).1.nodes (erase c'.index blockId) c'.nextNode
      rw [← named, ← marked]
      rw [← marked] at left
      exact indexed.drop.perm left.symm
    · show c'.currentSizeBytes = u64 (bytesOf (c'.eraseFrom .probationary it).1.nodes)
      rw [bytesOf_perm left, ← marked]
      show less = _
      rw [value, rep.size, bytesOf_perm split, bytesOf_cons]
      exact u64_sub _ _
    · have member : n ∈ (c'.eraseFrom .probationary it).1.nodes := member
      exact split.symm.subset (List.mem_cons_of_mem _ (left.subset member))
    · rw [List.forall_mem_singleton]
      show ((c'.list .probationary).any fun n => n.id = it) = true ↔ _
      rw [names, List.any_eq_true]
      simp only [decide_eq_true_eq, Option.some.injEq, forall_eq']

theorem clear_spec (c : L2Cache) : Rep c.clear := ⟨.nil _, rfl⟩

end

/-! ## Runs -/

/-- A block that is removed is not cached, or in the probationary list. -/
def Call.Spares (c : L2Cache) : Call → Prop
  | .remove blockId => ∀ it, find c.index blockId = some it → ∃ n ∈ c.probationary, n.id = it
  | _ => True

/-- Each call of the run meets the condition in the state before it. -/
def Along (holds : L2Cache → Call → Prop) (c : L2Cache) : List Call → Prop
  | [] => True
  | call :: calls => holds c call ∧ Along holds (call.exec c).1 calls

/-- The representation is right before and after each call, and each erase is given an own iterator. -/
def Sound (c : L2Cache) : List Call → Prop
  | [] => Rep c
  | call :: calls => Rep c ∧ (∀ er ∈ (call.exec c).2, er.own = true) ∧ Sound (call.exec c).1 calls

theorem exec_spec {c : L2Cache} (rep : Rep c) (call : Call) :
    Rep (call.exec c).1 ∧ ((∀ er ∈ (call.exec c).2, er.own = true) ↔ call.Spares c) := by
  cases call with
  | put blockId data =>
    obtain ⟨rep', own, -⟩ := put_spec rep blockId data
    exact ⟨rep', fun _ => trivial, fun _ => own⟩
  | get blockId stale =>
    obtain ⟨rep', own, -⟩ := get_spec rep blockId stale
    exact ⟨rep', fun _ => trivial, fun _ => own⟩
  | remove blockId =>
    obtain ⟨rep', -, own⟩ := remove_spec rep blockId
    exact ⟨rep', own⟩
  | clear => exact ⟨clear_spec c, fun _ => trivial, fun _ => List.forall_mem_nil _⟩

theorem sound_iff {c : L2Cache} (rep : Rep c) (calls : List Call) :
    Sound c calls ↔ Along (fun c call => call.Spares c) c calls := by
  induction calls generalizing c with
  | nil => exact ⟨fun _ => trivial, fun _ => rep⟩
  | cons call calls ih =>
    obtain ⟨rep', own⟩ := exec_spec rep call
    unfold Sound Along
    rw [own, ih rep']
    exact ⟨fun sound => sound.2, fun spares => ⟨rep, spares⟩⟩

/-- A new cache. -/
def new (maxSizeBytes : UInt64) : L2Cache := { maxSizeBytes := maxSizeBytes.toNat }

theorem rep_new (maxSizeBytes : UInt64) : Rep (new maxSizeBytes) := ⟨.nil _, rfl⟩

/-- **The representation is sound through a run exactly if** no block of the protected list is removed. -/
theorem sound_run_iff (maxSizeBytes : UInt64) (calls : List Call) :
    Sound (new maxSizeBytes) calls ↔ Along (fun c call => call.Spares c) (new maxSizeBytes) calls :=
  sound_iff (rep_new maxSizeBytes) calls

/-- A block that was put twice is removed. -/
theorem protected_block_erased_from_probationary :
    ¬ ∀ (maxSizeBytes : UInt64) (calls : List Call), Sound (new maxSizeBytes) calls := by
  intro claim
  have sound := claim 100 [.put 7 [1], .put 7 [2], .remove 7]
  have erased : ((Call.remove 7).exec ((Call.put 7 [2]).exec ((Call.put 7 [1]).exec (new 100)).1).1).2 =
      [⟨.probationary, false⟩] := by decide +kernel
  have own := sound.2.2.2.2.2.1
  rw [erased] at own
  exact absurd (own _ List.mem_cons_self) (by decide)

end L2Cache

end OpenFS
