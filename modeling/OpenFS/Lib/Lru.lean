import OpenFS.Lib.NodeList

/-!
# Least recently used lists

A cache keeps its entries in a linked list, the most recently used one in front, and an
index of the list by key. What matters to its users is `lookup`, the value that the index
leads to; each operation comes with what it does to that.
-/

open NodeList

/-- The list, its index, and the name of the next node. -/
structure Lru (κ α : Type) where
  list : List (Node (κ × α)) := []
  index : List (κ × Nat) := []
  nextNode : Nat := 0

namespace Lru

variable {κ α : Type}

/-- The node is moved to the front. -/
def splice (list : List (Node (κ × α))) (it : Nat) : List (Node (κ × α)) :=
  match deref list it with
  | none => list
  | some e => ⟨it, e⟩ :: unlink list it

theorem splice_perm {list : List (Node (κ × α))} (ids : (list.map Node.id).Nodup) (it : Nat) :
    (splice list it).Perm list := by
  unfold splice
  cases search : deref list it with
  | none => exact .refl _
  | some e => exact (perm_cons_unlink ids ((deref_eq_some_iff ids).mp search)).symm

/-- The index leads to the nodes. -/
def Rep (c : Lru κ α) : Prop := Indexed Prod.fst c.list c.index c.nextNode

theorem rep_empty : Rep ({} : Lru κ α) := Indexed.nil 0

variable [DecidableEq κ]

/-- The value under a key. -/
def lookup (c : Lru κ α) (k : κ) : Option α :=
  (find c.index k).bind fun it => (deref c.list it).map Prod.snd

/-- The entry of a key is taken out of list and index. -/
def remove (c : Lru κ α) (k : κ) : Lru κ α :=
  match find c.index k with
  | none => c
  | some it => { c with list := unlink c.list it, index := erase c.index k }

/-- A hit moves the entry to the front, an expired one is removed. -/
def get (c : Lru κ α) (expired : α → Bool) (k : κ) : Option α × Lru κ α :=
  match find c.index k with
  | none => (none, c)
  | some it =>
    match deref c.list it with
    | none => (none, c)
    | some e =>
      if expired e.2 then (none, { c with list := unlink c.list it, index := erase c.index k })
      else (some e.2, { c with list := splice c.list it })

/-- The entry at the back goes. -/
def evictBack (c : Lru κ α) : Option ((κ × α) × Lru κ α) :=
  c.list.getLast?.map fun n => (n.val, { c with list := c.list.dropLast, index := erase c.index n.val.1 })

/-- Entries go from the back while there are too many, for so many nodes. -/
def evict (maxEntries : Nat) : Nat → Lru κ α → List (κ × α) × Lru κ α
  | 0, c => ([], c)
  | fuel + 1, c =>
    if maxEntries < c.index.length then
      match c.evictBack with
      | none => ([], c)
      | some (e, c) =>
        let (es, c) := evict maxEntries fuel c
        (e :: es, c)
    else ([], c)

/-- The value of a key is replaced and moved to the front, or put there. Together with the
entries that had to go. -/
def put (c : Lru κ α) (maxEntries : Nat) (k : κ) (v : α) : List (κ × α) × Lru κ α :=
  match find c.index k with
  | some it => ([], { c with list := splice (assign c.list it fun e => (e.1, v)) it })
  | none =>
    evict maxEntries (c.list.length + 1) { c with
      list := ⟨c.nextNode, (k, v)⟩ :: c.list
      index := insert c.index k c.nextNode
      nextNode := c.nextNode + 1 }

/-! ## The index -/

section
variable {c : Lru κ α} {k k' : κ} {v : α}

theorem lookup_eq_some_iff (rep : Rep c) : c.lookup k = some v ↔ ∃ it, ⟨it, (k, v)⟩ ∈ c.list := by
  unfold lookup
  simp only [Option.bind_eq_some_iff, Option.map_eq_some_iff]
  constructor
  · rintro ⟨it, found, e, there, rfl⟩
    obtain ⟨e', member, rfl⟩ := rep.find_iff.mp found
    cases ((deref_eq_some_iff rep.ids).mpr member).symm.trans there
    exact ⟨it, member⟩
  · rintro ⟨it, member⟩
    exact ⟨it, rep.find_iff.mpr ⟨_, member, rfl⟩, _, (deref_eq_some_iff rep.ids).mpr member, rfl⟩

theorem lookup_eq_none_iff (rep : Rep c) : c.lookup k = none ↔ ∀ n ∈ c.list, n.val.1 ≠ k := by
  constructor
  · rintro missing n member rfl
    have there := (lookup_eq_some_iff rep).mpr ⟨n.id, member⟩
    cases missing.symm.trans there
  · intro other
    by_contra present
    obtain ⟨v, there⟩ := Option.ne_none_iff_exists'.mp present
    obtain ⟨it, member⟩ := (lookup_eq_some_iff rep).mp there
    exact other _ member rfl

/-- Lists with the same entries answer alike. -/
theorem lookup_congr {c' : Lru κ α} (rep : Rep c) (rep' : Rep c')
    (same : ∀ v, (∃ it, ⟨it, (k, v)⟩ ∈ c.list) ↔ ∃ it, ⟨it, (k, v)⟩ ∈ c'.list) : c'.lookup k = c.lookup k := by
  apply Option.ext
  intro v
  rw [lookup_eq_some_iff rep', lookup_eq_some_iff rep]
  exact (same v).symm

/-- What the index finds heads a rearrangement of the list. -/
theorem Rep.found {it : Nat} (rep : Rep c) (found : find c.index k = some it) :
    ∃ v, deref c.list it = some (k, v) ∧ c.lookup k = some v ∧ c.list.Perm (⟨it, (k, v)⟩ :: unlink c.list it) := by
  obtain ⟨⟨_, v⟩, member, rfl⟩ := rep.find_iff.mp found
  exact ⟨v, (deref_eq_some_iff rep.ids).mpr member, (lookup_eq_some_iff rep).mpr ⟨it, member⟩,
    perm_cons_unlink rep.ids member⟩

theorem lookup_of_find_none (missing : find c.index k = none) : c.lookup k = none := by
  unfold lookup
  rw [missing]
  rfl

/-- Taking the first of the nodes and its key out. -/
theorem lookup_drop {c' : Lru κ α} {it : Nat} (rep : Rep c) (split : c.list.Perm (⟨it, (k, v)⟩ :: c'.list))
    (rep' : Rep c') (k' : κ) : c'.lookup k' = if k' = k then none else c.lookup k' := by
  have keys := (split.map fun n => n.val.1).nodup rep.keys
  rw [List.map_cons, List.nodup_cons] at keys
  by_cases this : k' = k
  · rw [if_pos this, lookup_eq_none_iff rep', this]
    exact fun n member same => keys.1 (List.mem_map.mpr ⟨n, member, same⟩)
  · rw [if_neg this]
    refine lookup_congr rep rep' fun w => exists_congr fun it' => ?_
    rw [split.mem_iff, List.mem_cons]
    constructor
    · rintro (same | later)
      · cases same
        exact absurd rfl this
      · exact later
    · exact .inr

/-! ## The operations -/

theorem remove_spec (rep : Rep c) (k : κ) :
    Rep (c.remove k) ∧ ∀ k', (c.remove k).lookup k' = if k' = k then none else c.lookup k' := by
  unfold remove
  cases search : find c.index k with
  | none =>
    refine ⟨rep, fun k' => ?_⟩
    by_cases this : k' = k
    · rw [if_pos this, this]
      exact lookup_of_find_none search
    · rw [if_neg this]
  | some it =>
    obtain ⟨v, -, -, split⟩ := rep.found search
    have rep' : Rep { c with list := unlink c.list it, index := erase c.index k } := (rep.perm split).drop
    exact ⟨rep', lookup_drop rep split rep'⟩

theorem get_spec (rep : Rep c) (expired : α → Bool) (k : κ) :
    Rep (c.get expired k).2 ∧ (c.get expired k).1 = (c.lookup k).filter (fun v => !expired v) ∧
      ∀ k', (c.get expired k).2.lookup k' =
        if k' = k then (c.lookup k).filter (fun v => !expired v) else c.lookup k' := by
  unfold get
  cases search : find c.index k with
  | none =>
    have missing := lookup_of_find_none search
    refine ⟨rep, by rw [missing]; rfl, fun k' => ?_⟩
    dsimp only
    split
    · subst k'
      rw [missing]
      rfl
    · rfl
  | some it =>
    obtain ⟨v, there, value, split⟩ := rep.found search
    dsimp only
    rw [there, value]
    dsimp only
    by_cases old : expired v = true
    · rw [if_pos old]
      have rep' : Rep { c with list := unlink c.list it, index := erase c.index k } := (rep.perm split).drop
      have rest := lookup_drop rep split rep'
      have gone : (some v).filter (fun v => !expired v) = none := by simp [Option.filter, old]
      rw [gone]
      exact ⟨rep', rfl, rest⟩
    · rw [if_neg old]
      have moved := splice_perm rep.ids it
      have rep' : Rep { c with list := splice c.list it } := rep.perm moved.symm
      have kept : (some v).filter (fun v => !expired v) = some v := by simp [Option.filter, old]
      rw [kept]
      refine ⟨rep', rfl, fun k' => ?_⟩
      have same : Lru.lookup { c with list := splice c.list it } k' = c.lookup k' :=
        lookup_congr rep rep' fun w => exists_congr fun it' => moved.symm.mem_iff
      dsimp only
      rw [same]
      split
      · subst k'
        exact value
      · rfl

/-- The entries that go are gone, the others stay. -/
theorem evict_spec (maxEntries : Nat) (fuel : Nat) (rep : Rep c) :
    Rep (evict maxEntries fuel c).2 ∧ ∀ k', (evict maxEntries fuel c).2.lookup k' =
      if k' ∈ (evict maxEntries fuel c).1.map Prod.fst then none else c.lookup k' := by
  induction fuel generalizing c with
  | zero => exact ⟨rep, fun k' => by simp [evict]⟩
  | succ fuel ih =>
    unfold evict
    by_cases many : maxEntries < c.index.length
    · rw [if_pos many]
      unfold evictBack
      cases last : c.list.getLast? with
      | none => exact ⟨rep, fun k' => by simp⟩
      | some n =>
        have split : c.list.Perm (n :: c.list.dropLast) := by
          have whole := List.dropLast_append_getLast? n last
          exact (List.Perm.of_eq whole.symm).trans List.perm_append_comm
        let c₁ : Lru κ α := { c with list := c.list.dropLast, index := erase c.index n.val.1 }
        have rep₁ : Rep c₁ := (rep.perm split).drop
        have first : ∀ k', c₁.lookup k' = if k' = n.val.1 then none else c.lookup k' :=
          lookup_drop rep split rep₁
        obtain ⟨rep', rest⟩ := ih rep₁
        refine ⟨rep', fun k' => ?_⟩
        show (evict maxEntries fuel c₁).2.lookup k' = _
        rw [rest k', first k']
        show _ = if k' ∈ n.val.1 :: (evict maxEntries fuel c₁).1.map Prod.fst then none else _
        simp only [List.mem_cons]
        split_ifs <;> simp_all
    · rw [if_neg many]
      exact ⟨rep, fun k' => by simp⟩

theorem put_spec (rep : Rep c) (maxEntries : Nat) (k : κ) (v : α) :
    Rep (c.put maxEntries k v).2 ∧ ∀ k', (c.put maxEntries k v).2.lookup k' =
      if k' ∈ (c.put maxEntries k v).1.map Prod.fst then none
      else if k' = k then some v else c.lookup k' := by
  unfold put
  cases search : find c.index k with
  | none =>
    have other := rep.find_none_iff.mp search
    let c₁ : Lru κ α := { c with
      list := ⟨c.nextNode, (k, v)⟩ :: c.list
      index := insert c.index k c.nextNode
      nextNode := c.nextNode + 1 }
    have rep₁ : Rep c₁ := rep.push (v := (k, v)) other
    have dropped : ∀ k', c.lookup k' = if k' = k then none else c₁.lookup k' := lookup_drop rep₁ (.refl _) rep
    have here : c₁.lookup k = some v := (lookup_eq_some_iff rep₁).mpr ⟨_, List.mem_cons_self⟩
    obtain ⟨rep', rest⟩ := evict_spec maxEntries (c.list.length + 1) rep₁
    refine ⟨rep', fun k' => ?_⟩
    show (evict maxEntries (c.list.length + 1) c₁).2.lookup k' = _
    rw [rest k']
    have pushed : c₁.lookup k' = if k' = k then some v else c.lookup k' := by
      split
      · subst k'
        exact here
      · rw [dropped k', if_neg ‹_›]
    rw [pushed]
  | some it =>
    obtain ⟨old, there, value, split⟩ := rep.found search
    have changed := assign_perm (rep.perm split).ids split fun e => (e.1, v)
    have fresh : Indexed Prod.fst (⟨it, (k, v)⟩ :: unlink c.list it) c.index c.nextNode :=
      (rep.perm split).assign rfl
    have moved := (splice_perm ((changed.symm.map Node.id).nodup fresh.ids) it).trans changed
    have rep' : Rep { c with list := splice (assign c.list it fun e => (e.1, v)) it } := fresh.perm moved.symm
    refine ⟨rep', fun k' => ?_⟩
    dsimp only
    rw [if_neg (by simp)]
    let hole : Lru κ α := { c with list := unlink c.list it, index := erase c.index k }
    have rest : Rep hole := (rep.perm split).drop
    have before : hole.lookup k' = _ := lookup_drop rep split rest k'
    have after : hole.lookup k' = _ := lookup_drop rep' moved rest k'
    split
    · subst k'
      exact (lookup_eq_some_iff rep').mpr ⟨it, moved.symm.subset List.mem_cons_self⟩
    · rw [if_neg ‹_›] at before after
      rw [← after, before]

end

end Lru
