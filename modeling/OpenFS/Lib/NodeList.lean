import Mathlib.Data.List.Nodup
import Mathlib.Data.List.Perm.Basic

/-!
# Linked lists with an index

Values live in the nodes of linked lists, and an index leads from a key of the value to
its node. A node is named by a number that is never given out twice, so a name that
outlives its node leads nowhere. `Indexed` says that index and nodes agree; each way of
changing both together keeps it.
-/

namespace NodeList

/-- A node and its name, which is what an iterator holds. -/
structure Node (α : Type) where
  id : Nat
  val : α
  deriving DecidableEq, Repr

section
variable {α κ : Type}

/-- The value behind an iterator. -/
def deref (nodes : List (Node α)) (it : Nat) : Option α := (nodes.find? fun n => n.id = it).map Node.val

/-- The node is taken out of the list. -/
def unlink (nodes : List (Node α)) (it : Nat) : List (Node α) := nodes.filter fun n => n.id ≠ it

/-- The value behind an iterator is changed. -/
def assign (nodes : List (Node α)) (it : Nat) (f : α → α) : List (Node α) :=
  nodes.map fun n => if n.id = it then { n with val := f n.val } else n

variable [DecidableEq κ]

/-! ## The index -/

def find (index : List (κ × Nat)) (k : κ) : Option Nat := (index.find? fun e => e.1 = k).map Prod.snd

def erase (index : List (κ × Nat)) (k : κ) : List (κ × Nat) := index.filter fun e => e.1 ≠ k

def insert (index : List (κ × Nat)) (k : κ) (it : Nat) : List (κ × Nat) := (k, it) :: erase index k

theorem find_eq_some_iff {index : List (κ × Nat)} (keys : (index.map Prod.fst).Nodup) {k : κ} {it : Nat} :
    find index k = some it ↔ (k, it) ∈ index := by
  induction index with
  | nil => simp [find]
  | cons e index ih =>
    rw [List.map_cons, List.nodup_cons] at keys
    unfold find at ih ⊢
    rw [List.find?_cons]
    by_cases here : e.1 = k
    · simp only [here, decide_true, Option.map_some, Option.some.injEq, List.mem_cons]
      constructor
      · rintro rfl
        exact .inl (by rw [← here])
      · rintro (rfl | later)
        · rfl
        · exact absurd (List.mem_map_of_mem later) (here ▸ keys.1)
    · simp only [here, decide_false]
      rw [ih keys.2, List.mem_cons]
      constructor
      · exact .inr
      · rintro (rfl | later)
        · exact absurd rfl here
        · exact later

theorem find_eq_none_iff {index : List (κ × Nat)} {k : κ} : find index k = none ↔ ∀ e ∈ index, e.1 ≠ k := by
  unfold find
  rw [Option.map_eq_none_iff, List.find?_eq_none]
  simp only [decide_eq_true_eq, ne_eq]

end

/-! ## Nodes -/

section
variable {α : Type} {nodes : List (Node α)} {it : Nat} {v : α}

theorem deref_eq_some_iff (ids : (nodes.map Node.id).Nodup) : deref nodes it = some v ↔ ⟨it, v⟩ ∈ nodes := by
  induction nodes with
  | nil => simp [deref]
  | cons n nodes ih =>
    rw [List.map_cons, List.nodup_cons] at ids
    unfold deref at ih ⊢
    rw [List.find?_cons]
    by_cases here : n.id = it
    · simp only [here, decide_true, Option.map_some, Option.some.injEq, List.mem_cons]
      constructor
      · rintro rfl
        exact .inl (by rw [← here])
      · rintro (rfl | later)
        · rfl
        · exact absurd (List.mem_map_of_mem later) (here ▸ ids.1)
    · simp only [here, decide_false]
      rw [ih ids.2, List.mem_cons]
      constructor
      · exact .inr
      · rintro (rfl | later)
        · exact absurd rfl here
        · exact later

theorem deref_eq_none_iff : deref nodes it = none ↔ ∀ n ∈ nodes, n.id ≠ it := by
  unfold deref
  rw [Option.map_eq_none_iff, List.find?_eq_none]
  simp only [decide_eq_true_eq, ne_eq]

theorem unlink_of_not_mem (outside : ∀ n ∈ nodes, n.id ≠ it) : unlink nodes it = nodes :=
  List.filter_eq_self.mpr fun n member => by simpa using outside n member

theorem assign_of_not_mem (outside : ∀ n ∈ nodes, n.id ≠ it) (f : α → α) : assign nodes it f = nodes := by
  unfold assign
  rw [List.map_congr_left fun n member => if_neg (outside n member)]
  exact List.map_id' nodes

theorem unlink_append (nodes nodes' : List (Node α)) (it : Nat) :
    unlink (nodes ++ nodes') it = unlink nodes it ++ unlink nodes' it := List.filter_append ..

theorem assign_append (nodes nodes' : List (Node α)) (it : Nat) (f : α → α) :
    assign (nodes ++ nodes') it f = assign nodes it f ++ assign nodes' it f := List.map_append ..

/-- The other names. -/
theorem ids_of_cons (ids : (((⟨it, v⟩ : Node α) :: nodes).map Node.id).Nodup) : ∀ n ∈ nodes, n.id ≠ it := by
  rw [List.map_cons, List.nodup_cons] at ids
  exact fun n member same => ids.1 (List.mem_map.mpr ⟨n, member, same⟩)

/-- A node and the rest. -/
theorem perm_cons_unlink (ids : (nodes.map Node.id).Nodup) (member : ⟨it, v⟩ ∈ nodes) :
    nodes.Perm (⟨it, v⟩ :: unlink nodes it) := by
  induction nodes with
  | nil => cases member
  | cons n nodes ih =>
    have others := ids
    rw [List.map_cons, List.nodup_cons] at others
    rcases List.mem_cons.mp member with rfl | later
    · rw [unlink, List.filter_cons_of_neg (by simp), ← unlink, unlink_of_not_mem (ids_of_cons ids)]
    · have apart : n.id ≠ it := fun same => others.1 (same ▸ List.mem_map_of_mem later)
      rw [unlink, List.filter_cons_of_pos (by simpa using apart), ← unlink]
      exact ((ih others.2 later).cons n).trans (.swap _ _ _)

/-- Taking out the first of some nodes. -/
theorem unlink_perm {rest : List (Node α)} (ids : (((⟨it, v⟩ : Node α) :: rest).map Node.id).Nodup)
    (same : nodes.Perm (⟨it, v⟩ :: rest)) : (unlink nodes it).Perm rest := by
  have filtered := same.filter fun n => decide (n.id ≠ it)
  rw [List.filter_cons_of_neg (by simp)] at filtered
  exact filtered.trans (List.Perm.of_eq (unlink_of_not_mem (ids_of_cons ids)))

/-- Changing the first of some nodes. -/
theorem assign_perm {rest : List (Node α)} (ids : (((⟨it, v⟩ : Node α) :: rest).map Node.id).Nodup)
    (same : nodes.Perm (⟨it, v⟩ :: rest)) (f : α → α) : (assign nodes it f).Perm (⟨it, f v⟩ :: rest) := by
  have mapped := same.map fun n => if n.id = it then { n with val := f n.val } else n
  rw [List.map_cons, if_pos rfl] at mapped
  exact mapped.trans ((List.Perm.of_eq (assign_of_not_mem (ids_of_cons ids) f)).cons _)

end

/-! ## Index and nodes -/

section
variable {α κ : Type}

/-- The index has one entry for each node, under its key. -/
structure Indexed (key : α → κ) (nodes : List (Node α)) (index : List (κ × Nat)) (next : Nat) : Prop where
  entries : index.Perm (nodes.map fun n => (key n.val, n.id))
  keys : (nodes.map fun n => key n.val).Nodup
  ids : (nodes.map Node.id).Nodup
  fresh : ∀ n ∈ nodes, n.id < next

variable {key : α → κ} {nodes nodes' : List (Node α)} {index : List (κ × Nat)} {next it : Nat} {v v' : α}

theorem Indexed.nil (next : Nat) : Indexed key [] [] next := ⟨.refl _, .nil, .nil, List.forall_mem_nil _⟩

theorem Indexed.perm (indexed : Indexed key nodes index next) (same : nodes.Perm nodes') :
    Indexed key nodes' index next :=
  ⟨indexed.entries.trans (same.map _), (same.map _).nodup indexed.keys, (same.map _).nodup indexed.ids,
    fun n member => indexed.fresh n (same.symm.subset member)⟩

theorem Indexed.indexKeys (indexed : Indexed key nodes index next) : (index.map Prod.fst).Nodup := by
  have same := indexed.entries.map Prod.fst
  rw [List.map_map] at same
  exact same.symm.nodup indexed.keys

/-- As many entries as nodes. -/
theorem Indexed.length (indexed : Indexed key nodes index next) : index.length = nodes.length := by
  have same := indexed.entries.length_eq
  rwa [List.length_map] at same

/-- A changed value with the same key. -/
theorem Indexed.assign (indexed : Indexed key (⟨it, v⟩ :: nodes) index next) (same : key v' = key v) :
    Indexed key (⟨it, v'⟩ :: nodes) index next := by
  obtain ⟨entries, keys, ids, fresh⟩ := indexed
  refine ⟨?_, ?_, ids, ?_⟩
  · rw [List.map_cons] at entries ⊢
    dsimp only at entries ⊢
    rwa [same]
  · rw [List.map_cons] at keys ⊢
    dsimp only at keys ⊢
    rwa [same]
  · rw [List.forall_mem_cons] at fresh ⊢
    exact fresh

variable [DecidableEq κ]

theorem Indexed.find_iff (indexed : Indexed key nodes index next) {k : κ} :
    find index k = some it ↔ ∃ v, ⟨it, v⟩ ∈ nodes ∧ key v = k := by
  rw [find_eq_some_iff indexed.indexKeys, indexed.entries.mem_iff, List.mem_map]
  constructor
  · rintro ⟨n, member, same⟩
    cases same
    exact ⟨n.val, member, rfl⟩
  · rintro ⟨v, member, rfl⟩
    exact ⟨_, member, rfl⟩

theorem Indexed.find_none_iff (indexed : Indexed key nodes index next) {k : κ} :
    find index k = none ↔ ∀ n ∈ nodes, key n.val ≠ k := by
  rw [find_eq_none_iff]
  constructor
  · exact fun none n member => none _ (indexed.entries.symm.subset (List.mem_map_of_mem member))
  · intro none e member
    obtain ⟨n, there, rfl⟩ := List.mem_map.mp (indexed.entries.subset member)
    exact none n there

/-- The entry of the first node goes with it. -/
theorem Indexed.drop (indexed : Indexed key (⟨it, v⟩ :: nodes) index next) :
    Indexed key nodes (erase index (key v)) next := by
  obtain ⟨entries, keys, ids, fresh⟩ := indexed
  have erased := entries.filter fun e => decide (e.1 ≠ key v)
  rw [List.map_cons, List.nodup_cons] at keys ids
  rw [List.map_cons, List.filter_cons_of_neg (by simp)] at erased
  refine ⟨erased.trans (List.Perm.of_eq (List.filter_eq_self.mpr fun e member => ?_)), keys.2, ids.2,
    (List.forall_mem_cons.mp fresh).2⟩
  obtain ⟨n, there, rfl⟩ := List.mem_map.mp member
  have other : key n.val ≠ key v := fun same => keys.1 (List.mem_map.mpr ⟨n, there, same⟩)
  simpa using other

/-- A new node for a new key. -/
theorem Indexed.push (indexed : Indexed key nodes index next) (new : ∀ n ∈ nodes, key n.val ≠ key v) :
    Indexed key (⟨next, v⟩ :: nodes) (insert index (key v) next) (next + 1) := by
  have erased : erase index (key v) = index := by
    refine List.filter_eq_self.mpr fun e member => ?_
    obtain ⟨n, there, rfl⟩ := List.mem_map.mp (indexed.entries.subset member)
    simpa using new n there
  refine ⟨?_, ?_, ?_, ?_⟩
  · unfold insert
    rw [erased, List.map_cons]
    exact indexed.entries.cons _
  · rw [List.map_cons, List.nodup_cons]
    refine ⟨fun old => ?_, indexed.keys⟩
    obtain ⟨n, there, same⟩ := List.mem_map.mp old
    exact new n there same
  · rw [List.map_cons, List.nodup_cons]
    refine ⟨fun old => ?_, indexed.ids⟩
    obtain ⟨n, there, same⟩ := List.mem_map.mp old
    exact Nat.lt_irrefl _ (same ▸ indexed.fresh n there)
  · rw [List.forall_mem_cons]
    exact ⟨Nat.lt_succ_self _, fun n there => Nat.lt_succ_of_lt (indexed.fresh n there)⟩

/-- A value that moves to a new node. -/
theorem Indexed.move (indexed : Indexed key (⟨it, v⟩ :: nodes) index next) :
    Indexed key (⟨next, v⟩ :: nodes) (insert index (key v) next) (next + 1) := by
  have keys := indexed.keys
  rw [List.map_cons, List.nodup_cons] at keys
  have moved := indexed.drop.push (v := v) fun n there same => keys.1 (List.mem_map.mpr ⟨n, there, same⟩)
  have twice : insert (erase index (key v)) (key v) next = insert index (key v) next := by
    unfold insert erase
    rw [List.filter_filter]
    simp
  rwa [twice] at moved

end

end NodeList
