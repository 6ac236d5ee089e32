import OpenFS.Lib.Lru

/-!
# Entries by last use

What a least recently used list stands for: entries in the order of their last use, the
most recent one in front, without nodes and without an index. Each operation of the list
does to its entries what the reference does.
-/

namespace Recency

variable {κ α β : Type} [DecidableEq κ]

/-- The first entry of a key. -/
def entry (k : κ) (l : List (κ × α)) : Option (κ × α) := l.find? fun e => e.1 = k

/-- The entries of the other keys. -/
def without (k : κ) (l : List (κ × α)) : List (κ × α) := l.filter fun e => e.1 ≠ k

/-- A hit comes to the front, an expired entry is dropped. -/
def get (expired : α → Bool) (k : κ) (l : List (κ × α)) : Option α × List (κ × α) :=
  match entry k l with
  | none => (none, l)
  | some e => if expired e.2 then (none, without k l) else (some e.2, e :: without k l)

/-- The entry of a known key is replaced and comes to the front. A new one is put there, and
the list is cut. -/
def put (maxEntries : Nat) (k : κ) (v : α) (l : List (κ × α)) : List (κ × α) :=
  if (entry k l).isSome then (k, v) :: without k l else ((k, v) :: l).take maxEntries

/-! ## Lengths -/

section
variable {k : κ} {v : α} {l : List (κ × α)} {e : κ × α}

theorem mem_of_entry (found : entry k l = some e) : e ∈ l ∧ e.1 = k :=
  ⟨List.mem_of_find?_eq_some found, by simpa using List.find?_some found⟩

theorem without_of_entry_none (missing : entry k l = none) : without k l = l := by
  apply List.filter_eq_self.mpr
  intro e member
  simpa using List.find?_eq_none.mp missing e member

theorem length_without_le (k : κ) (l : List (κ × α)) : (without k l).length ≤ l.length := List.length_filter_le _ _

theorem length_without_lt (found : entry k l = some e) : (without k l).length < l.length := by
  obtain ⟨member, same⟩ := mem_of_entry found
  apply List.length_filter_lt_length_iff_exists.mpr
  exact ⟨e, member, by simp [same]⟩

theorem length_get_le (expired : α → Bool) (k : κ) (l : List (κ × α)) : (get expired k l).2.length ≤ l.length := by
  unfold get
  cases found : entry k l with
  | none => exact Nat.le_refl _
  | some e =>
    have less := length_without_lt found
    dsimp only
    split
    · exact Nat.le_of_lt less
    · exact less

theorem length_put_le {maxEntries : Nat} (short : l.length ≤ maxEntries) (k : κ) (v : α) :
    (put maxEntries k v l).length ≤ maxEntries := by
  unfold put
  cases found : entry k l with
  | none =>
    rw [if_neg (by simp), List.length_take]
    exact Nat.min_le_left _ _
  | some e =>
    have less := length_without_lt found
    simp only [Option.isSome_some, if_true, List.length_cons]
    omega

end

/-! ## Other values -/

section
variable (f : α → β)

theorem entry_map (k : κ) (l : List (κ × α)) :
    entry k (l.map (Prod.map id f)) = (entry k l).map (Prod.map id f) := List.find?_map ..

theorem without_map (k : κ) (l : List (κ × α)) :
    without k (l.map (Prod.map id f)) = (without k l).map (Prod.map id f) := List.filter_map ..

theorem get_map (expired : β → Bool) (k : κ) (l : List (κ × α)) :
    get expired k (l.map (Prod.map id f)) =
      ((get (expired ∘ f) k l).1.map f, (get (expired ∘ f) k l).2.map (Prod.map id f)) := by
  unfold get
  rw [entry_map, without_map]
  cases entry k l with
  | none => rfl
  | some e =>
    simp only [Option.map_some, Prod.map_snd, Function.comp_apply]
    split <;> rfl

theorem put_map (maxEntries : Nat) (k : κ) (v : α) (l : List (κ × α)) :
    put maxEntries k (f v) (l.map (Prod.map id f)) = (put maxEntries k v l).map (Prod.map id f) := by
  unfold put
  rw [entry_map, without_map, Option.isSome_map]
  split
  · rfl
  · rw [List.map_take]
    rfl

end

end Recency

/-! ## The list and its reference -/

open NodeList Recency

namespace NodeList

variable {α : Type} (nodes : List (Node α)) (it : Nat) (f : α → α)

theorem deref_assign : deref (assign nodes it f) it = (deref nodes it).map f := by
  induction nodes with
  | nil => rfl
  | cons n nodes ih =>
    unfold deref assign at ih ⊢
    rw [List.map_cons, List.find?_cons, List.find?_cons]
    by_cases here : n.id = it
    · simp [here]
    · simp only [here, if_false, decide_false]
      exact ih

theorem unlink_assign : unlink (assign nodes it f) it = unlink nodes it := by
  induction nodes with
  | nil => rfl
  | cons n nodes ih =>
    unfold unlink assign at ih ⊢
    rw [List.map_cons, List.filter_cons, List.filter_cons, ih]
    by_cases here : n.id = it
    · simp [here]
    · simp [here]

end NodeList

namespace Lru

variable {κ α : Type}

/-- The entries in the order of the list. -/
def entries (c : Lru κ α) : List (κ × α) := c.list.map Node.val

variable {c : Lru κ α} {k : κ} {it : Nat}

theorem Rep.length_index (rep : Rep c) : c.index.length = c.entries.length := by
  rw [Indexed.length rep, entries, List.length_map]

variable [DecidableEq κ]

/-- Without the node of a key the entries are those of the other keys. -/
theorem Rep.unlink_entries (rep : Rep c) {v : α} (member : ⟨it, (k, v)⟩ ∈ c.list) :
    (unlink c.list it).map Node.val = without k c.entries := by
  unfold without entries unlink
  rw [List.filter_map]
  congr 1
  apply List.filter_congr
  intro n there
  simp only [Function.comp_apply, ne_eq, decide_eq_decide, not_iff_not]
  constructor
  · intro same
    rw [List.inj_on_of_nodup_map rep.ids there member same]
  · intro same
    rw [List.inj_on_of_nodup_map rep.keys there member same]

/-- What the index finds is the entry of the key. -/
theorem Rep.entry_of_find (rep : Rep c) (found : find c.index k = some it) :
    ∃ v, deref c.list it = some (k, v) ∧ entry k c.entries = some (k, v) ∧
      (unlink c.list it).map Node.val = without k c.entries := by
  obtain ⟨⟨_, v⟩, member, rfl⟩ := rep.find_iff.mp found
  refine ⟨v, (deref_eq_some_iff rep.ids).mpr member, ?_, rep.unlink_entries member⟩
  cases first : entry _ c.entries with
  | none =>
    have absent := List.find?_eq_none.mp first _ (List.mem_map_of_mem member)
    simp at absent
  | some e =>
    obtain ⟨there, same⟩ := mem_of_entry first
    obtain ⟨n, present, rfl⟩ := List.mem_map.mp there
    rw [List.inj_on_of_nodup_map rep.keys present member same]

theorem Rep.entry_of_find_none (rep : Rep c) (missing : find c.index k = none) : entry k c.entries = none := by
  apply List.find?_eq_none.mpr
  intro e there
  obtain ⟨n, present, rfl⟩ := List.mem_map.mp there
  simpa using rep.find_none_iff.mp missing n present

theorem remove_entries (rep : Rep c) (k : κ) : (c.remove k).entries = without k c.entries := by
  unfold remove
  cases search : find c.index k with
  | none => exact (without_of_entry_none (rep.entry_of_find_none search)).symm
  | some it =>
    obtain ⟨v, -, -, rest⟩ := rep.entry_of_find search
    exact rest

theorem get_entries (rep : Rep c) (expired : α → Bool) (k : κ) :
    (c.get expired k).1 = (Recency.get expired k c.entries).1 ∧
      (c.get expired k).2.entries = (Recency.get expired k c.entries).2 := by
  unfold get Recency.get
  cases search : find c.index k with
  | none =>
    rw [rep.entry_of_find_none search]
    exact ⟨rfl, rfl⟩
  | some it =>
    obtain ⟨v, there, first, rest⟩ := rep.entry_of_find search
    rw [first]
    dsimp only
    rw [there]
    dsimp only
    by_cases old : expired v = true
    · rw [if_pos old, if_pos old]
      exact ⟨rfl, rest⟩
    · rw [if_neg old, if_neg old]
      refine ⟨rfl, ?_⟩
      unfold entries splice
      rw [there, List.map_cons, rest]
      rfl

/-- Eviction cuts the list. What it takes from the back comes out last entry first. -/
theorem evict_entries {maxEntries fuel : Nat} (rep : Rep c) (enough : c.entries.length ≤ maxEntries + fuel) :
    (evict maxEntries fuel c).1 = (c.entries.drop maxEntries).reverse ∧
      (evict maxEntries fuel c).2.entries = c.entries.take maxEntries := by
  induction fuel generalizing c with
  | zero =>
    rw [Nat.add_zero] at enough
    rw [List.drop_of_length_le enough, List.take_of_length_le enough]
    exact ⟨rfl, rfl⟩
  | succ fuel ih =>
    unfold evict
    rw [rep.length_index]
    by_cases many : maxEntries < c.entries.length
    · rw [if_pos many]
      unfold evictBack
      cases last : c.list.getLast? with
      | none =>
        rw [List.getLast?_eq_none_iff] at last
        simp [entries, last] at many
      | some n =>
        have whole := List.dropLast_append_getLast? n last
        have split : c.list.Perm (n :: c.list.dropLast) :=
          (List.Perm.of_eq whole.symm).trans List.perm_append_comm
        let c₁ : Lru κ α := { c with list := c.list.dropLast, index := erase c.index n.val.1 }
        have rep₁ : Rep c₁ := (rep.perm split).drop
        have front : c.entries = c₁.entries ++ [n.val] := by
          show c.list.map Node.val = c.list.dropLast.map Node.val ++ [n.val]
          rw [← List.map_singleton (f := Node.val), ← List.map_append]
          exact congrArg _ whole.symm
        have length : c.entries.length = c₁.entries.length + 1 := by
          rw [front, List.length_append, List.length_singleton]
        obtain ⟨gone, stay⟩ := ih rep₁ (by omega)
        show n.val :: (evict maxEntries fuel c₁).1 = _ ∧ (evict maxEntries fuel c₁).2.entries = _
        rw [gone, stay, front, List.drop_append_of_le_length (by omega), List.take_append_of_le_length (by omega)]
        exact ⟨by simp, rfl⟩
    · rw [if_neg many]
      rw [List.drop_of_length_le (Nat.le_of_not_lt many), List.take_of_length_le (Nat.le_of_not_lt many)]
      exact ⟨rfl, rfl⟩

theorem put_entries (rep : Rep c) (maxEntries : Nat) (k : κ) (v : α) :
    (c.put maxEntries k v).2.entries = Recency.put maxEntries k v c.entries ∧
      (c.put maxEntries k v).1 =
        if (entry k c.entries).isSome then [] else (((k, v) :: c.entries).drop maxEntries).reverse := by
  unfold put Recency.put
  cases search : find c.index k with
  | none =>
    let c₁ : Lru κ α := { c with
      list := ⟨c.nextNode, (k, v)⟩ :: c.list
      index := insert c.index k c.nextNode
      nextNode := c.nextNode + 1 }
    have rep₁ : Rep c₁ := rep.push (v := (k, v)) (rep.find_none_iff.mp search)
    have length : c₁.entries.length = c.list.length + 1 := by simp [c₁, entries]
    have enough : c₁.entries.length ≤ maxEntries + (c.list.length + 1) := by omega
    obtain ⟨gone, stay⟩ := evict_entries rep₁ enough
    rw [rep.entry_of_find_none search]
    exact ⟨stay, gone⟩
  | some it =>
    obtain ⟨old, there, first, rest⟩ := rep.entry_of_find search
    rw [first]
    refine ⟨?_, rfl⟩
    unfold entries splice
    dsimp only
    rw [deref_assign, there, unlink_assign]
    show (k, v) :: (unlink c.list it).map Node.val = _
    rw [rest]
    rfl

end Lru
