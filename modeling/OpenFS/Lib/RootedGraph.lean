import Mathlib.Data.List.Basic
import Mathlib.Data.List.Induction
import Mathlib.Logic.Relation

/-!
# Graphs in which every node has at most one incoming edge

`edge a k` is the node that the edge labelled `k` leads to from `a`. When at
most one edge enters any node and none enters the root, a node has at most one
chain of labels from the root, and no node on such a chain lies below itself.
-/

namespace RootedGraph

section
variable {α ι : Type*} (edge : α → ι → Option α)

/-- The node a chain of labels leads to. -/
def follow : α → List ι → Option α
  | a, [] => some a
  | a, k :: ks => (edge a k).bind fun b => follow b ks

/-- `b` is one edge below `a`. -/
def Child (a b : α) : Prop := ∃ k, edge a k = some b

/-- At most one edge enters any node, and none enters the root. -/
structure Rooted (root : α) : Prop where
  unique : ∀ {a b c k l}, edge a k = some c → edge b l = some c → a = b ∧ k = l
  entry : ∀ {a k}, edge a k ≠ some root

variable {edge}

@[simp] theorem follow_nil (a : α) : follow edge a [] = some a := rfl

theorem follow_append (a : α) (ks ls : List ι) :
    follow edge a (ks ++ ls) = (follow edge a ks).bind fun b => follow edge b ls := by
  induction ks generalizing a with
  | nil => rfl
  | cons k ks ih =>
    simp only [List.cons_append, follow]
    cases edge a k with
    | none => rfl
    | some b => exact ih b

theorem follow_snoc (a : α) (ks : List ι) (k : ι) :
    follow edge a (ks ++ [k]) = (follow edge a ks).bind fun b => edge b k := by
  rw [follow_append]
  congr 1
  funext b
  simp [follow]

/-- Chains are the paths of the child relation. -/
theorem follow_iff_reaches {a b : α} :
    (∃ ks, follow edge a ks = some b) ↔ Relation.ReflTransGen (Child edge) a b := by
  constructor
  · rintro ⟨ks, h⟩
    induction ks using List.reverseRecOn generalizing b with
    | nil => cases h; exact .refl
    | append_singleton ks k ih =>
      rw [follow_snoc, Option.bind_eq_some_iff] at h
      obtain ⟨c, before, last⟩ := h
      exact (ih before).tail ⟨k, last⟩
  · intro h
    induction h with
    | refl => exact ⟨[], rfl⟩
    | tail _ step ih =>
      obtain ⟨ks, before⟩ := ih
      obtain ⟨k, last⟩ := step
      exact ⟨ks ++ [k], by rw [follow_snoc, before]; exact last⟩

/-- Two chains from the root to one node are the same chain. -/
theorem Rooted.follow_inj {root : α} (rooted : Rooted edge root) {x : α} {ks ls : List ι}
    (h : follow edge root ks = some x) (h' : follow edge root ls = some x) : ks = ls := by
  induction ks using List.reverseRecOn generalizing x ls with
  | nil =>
    cases h
    rcases List.eq_nil_or_concat' ls with rfl | ⟨ls, l, rfl⟩
    · rfl
    · rw [follow_snoc, Option.bind_eq_some_iff] at h'
      obtain ⟨c, _, last⟩ := h'
      exact absurd last rooted.entry
  | append_singleton ks k ih =>
    rw [follow_snoc, Option.bind_eq_some_iff] at h
    obtain ⟨b, before, last⟩ := h
    rcases List.eq_nil_or_concat' ls with rfl | ⟨ls, l, rfl⟩
    · cases h'; exact absurd last rooted.entry
    · rw [follow_snoc, Option.bind_eq_some_iff] at h'
      obtain ⟨c, before', last'⟩ := h'
      obtain ⟨same, rfl⟩ := rooted.unique last last'
      subst same
      rw [ih before before']

/-- A node reached from the root is not below itself. -/
theorem Rooted.no_cycle {root : α} (rooted : Rooted edge root) {x : α} {ks ls : List ι}
    (reached : follow edge root ks = some x) (round : follow edge x ls = some x) : ls = [] := by
  have longer : follow edge root (ks ++ ls) = some x := by
    rw [follow_append, reached]; exact round
  simpa using rooted.follow_inj longer reached

/-- The chain to a node passes through each of its ancestors. -/
theorem Rooted.prefix_of_reaches {root : α} (rooted : Rooted edge root) {a b : α} {ks ls : List ι}
    (upper : follow edge root ks = some a) (lower : follow edge root ls = some b)
    (below : Relation.ReflTransGen (Child edge) a b) : ks <+: ls := by
  obtain ⟨ms, h⟩ := follow_iff_reaches.mpr below
  have : follow edge root (ks ++ ms) = some b := by rw [follow_append, upper]; exact h
  exact ⟨ms, rooted.follow_inj this lower⟩

/-- More edges, no fewer chains. -/
theorem follow_mono {small large : α → ι → Option α} (sub : ∀ {a k b}, small a k = some b → large a k = some b)
    {a x : α} {ks : List ι} (h : follow small a ks = some x) : follow large a ks = some x := by
  induction ks generalizing a with
  | nil => exact h
  | cons k ks ih =>
    rw [follow, Option.bind_eq_some_iff] at h ⊢
    obtain ⟨b, step, rest⟩ := h
    exact ⟨b, sub step, ih rest⟩

/-- Taking out one edge to a leaf takes out one chain. -/
theorem Rooted.follow_cut [DecidableEq ι] {small large : α → ι → Option α} {root : α} (rooted : Rooted large root)
    {p : List ι} {d : α} {n : ι} (reached : follow large root p = some d) (cut : small d n = none)
    (others : ∀ a k, ¬ (a = d ∧ k = n) → small a k = large a k)
    (leaf : ∀ i, large d n = some i → ∀ k, large i k = none) (q : List ι) :
    follow small root q = if q = p ++ [n] then none else follow large root q := by
  induction q using List.reverseRecOn with
  | nil => rw [if_neg (by simp)]; rfl
  | append_singleton r k ih =>
    rw [follow_snoc, follow_snoc, ih]
    by_cases through : r = p ++ [n]
    · have longer : r ++ [k] ≠ p ++ [n] := by
        subst through
        simp
      rw [if_pos through, if_neg longer, through, follow_snoc, reached]
      show none = (large d n).bind _
      cases last : large d n with
      | none => rfl
      | some i => exact (leaf i last k).symm
    · rw [if_neg through]
      cases upto : follow large root r with
      | none => simp
      | some x =>
        rw [Option.bind_some, Option.bind_some]
        by_cases here : x = d ∧ k = n
        · obtain ⟨rfl, rfl⟩ := here
          rw [if_pos (by rw [rooted.follow_inj upto reached]), cut]
        · rw [if_neg, others x k here]
          intro same
          obtain ⟨rfl, last⟩ := List.append_inj' same rfl
          exact here ⟨Option.some.inj (upto.symm.trans reached), (List.cons.inj last).1⟩

end

/-! ## Taking a node out and hanging it elsewhere -/

section
variable {α : Type*} {below below' : α → α → Prop} {root m : α}

/-- Without a leaf, every other node is still reached. -/
theorem reaches_of_leaf_removed (kept : ∀ {a b}, below a b → b ≠ m → a ≠ m → below' a b)
    (leaf : ∀ b, ¬ below m b) {x : α} (reached : Relation.ReflTransGen below root x) (other : x ≠ m) :
    Relation.ReflTransGen below' root x := by
  induction reached with
  | refl => exact .refl
  | @tail a b _ step ih =>
    have inner : a ≠ m := by rintro rfl; exact leaf b step
    exact (ih inner).tail (kept step other inner)

/-- A subtree hung below a node outside it stays reached, and so does the rest. -/
theorem reaches_of_moved {p : α} (kept : ∀ {a b}, below a b → b ≠ m → below' a b)
    (outside : ¬ Relation.ReflTransGen below m p) (hung : below' p m)
    (parent : Relation.ReflTransGen below root p) {x : α}
    (reached : Relation.ReflTransGen below root x) : Relation.ReflTransGen below' root x := by
  have outer : ∀ {y}, Relation.ReflTransGen below root y → ¬ Relation.ReflTransGen below m y →
      Relation.ReflTransGen below' root y := by
    intro y reached
    induction reached with
    | refl => exact fun _ => .refl
    | @tail a b _ step ih =>
      intro apart
      have other : b ≠ m := by rintro rfl; exact apart .refl
      exact (ih fun inner => apart (inner.tail step)).tail (kept step other)
  have at_m : Relation.ReflTransGen below' root m := (outer parent outside).tail hung
  induction reached with
  | refl => exact .refl
  | @tail a b _ step ih =>
    rcases eq_or_ne b m with rfl | other
    · exact at_m
    · exact ih.tail (kept step other)

end

/-! ## Moving an edge

The edge `k` out of `a` becomes the edge `l` out of `b`. What hung on the one chain hangs
on the other, and the chains that begin with neither are as they were. -/

/-- The edge `k` out of `a` led to `m`, and now the edge `l` out of `b` does. -/
structure Moved {α ι : Type*} (edge edge' : α → ι → Option α) (a : α) (k : ι) (b : α) (l : ι) (m : α) : Prop where
  was : edge a k = some m
  free : ¬ (b = a ∧ l = k) → edge b l = none
  hung : edge' b l = some m
  cut : ¬ (b = a ∧ l = k) → edge' a k = none
  others : ∀ c j, ¬ (c = a ∧ j = k) → ¬ (c = b ∧ j = l) → edge' c j = edge c j

namespace Moved

variable {α ι : Type*} {edge edge' : α → ι → Option α} {root a b m : α} {k l : ι} {p q : List ι}

/-- Chains that begin with neither are kept. -/
theorem follow_elsewhere (moved : Moved edge edge' a k b l m) (rooted : Rooted edge root)
    (source : follow edge root p = some a) (target : follow edge root q = some b) {r : List ι}
    (apart : ¬ p ++ [k] <+: r) (apart' : ¬ q ++ [l] <+: r) : follow edge' root r = follow edge root r := by
  induction r using List.reverseRecOn with
  | nil => rfl
  | append_singleton r j ih =>
    have shorter : ∀ {u : List ι}, ¬ u <+: r ++ [j] → ¬ u <+: r :=
      fun outside inside => outside (inside.trans (List.prefix_append r [j]))
    rw [follow_snoc, follow_snoc, ih (shorter apart) (shorter apart')]
    cases upto : follow edge root r with
    | none => rfl
    | some c =>
      rw [Option.bind_some, Option.bind_some]
      apply moved.others
      · rintro ⟨rfl, rfl⟩
        rw [rooted.follow_inj source upto] at apart
        exact apart List.prefix_rfl
      · rintro ⟨rfl, rfl⟩
        rw [rooted.follow_inj target upto] at apart'
        exact apart' List.prefix_rfl

theorem not_prefix_self (p : List ι) (k : ι) : ¬ p ++ [k] <+: p := by
  intro inside
  have longer := inside.length_le
  rw [List.length_append, List.length_singleton] at longer
  omega

/-- Below `m` nothing has changed, if `b` does not lie there. -/
theorem follow_below (moved : Moved edge edge' a k b l m) (rooted : Rooted edge root)
    (source : follow edge root p = some a) (target : follow edge root q = some b) (outside : ¬ p ++ [k] <+: q)
    (r : List ι) : follow edge' m r = follow edge m r := by
  have at_m : follow edge root (p ++ [k]) = some m := by
    rw [follow_snoc, source]
    exact moved.was
  induction r using List.reverseRecOn with
  | nil => rfl
  | append_singleton r j ih =>
    rw [follow_snoc, follow_snoc, ih]
    cases upto : follow edge m r with
    | none => rfl
    | some c =>
      have reached : follow edge root (p ++ [k] ++ r) = some c := by
        rw [follow_append, at_m]
        exact upto
      rw [Option.bind_some, Option.bind_some]
      apply moved.others
      · rintro ⟨rfl, -⟩
        have longer := congrArg List.length (rooted.follow_inj source reached)
        rw [List.length_append, List.length_append, List.length_singleton] at longer
        omega
      · rintro ⟨rfl, -⟩
        apply outside
        rw [rooted.follow_inj target reached]
        exact List.prefix_append _ r

/-- What was below the one chain is below the other. -/
theorem follow_moved (moved : Moved edge edge' a k b l m) (rooted : Rooted edge root)
    (source : follow edge root p = some a) (target : follow edge root q = some b) (outside : ¬ p ++ [k] <+: q)
    (r : List ι) : follow edge' root (q ++ [l] ++ r) = follow edge root (p ++ [k] ++ r) := by
  have to_b : follow edge' root q = some b := by
    rw [moved.follow_elsewhere rooted source target outside (not_prefix_self q l)]
    exact target
  rw [follow_append _ (q ++ [l]), follow_append _ (p ++ [k]), follow_snoc, follow_snoc, to_b, source,
    Option.bind_some, Option.bind_some, moved.hung, moved.was]
  exact moved.follow_below rooted source target outside r

/-- The old chain ends where the edge was taken out. -/
theorem follow_left (moved : Moved edge edge' a k b l m) (rooted : Rooted edge root)
    (source : follow edge root p = some a) (target : follow edge root q = some b)
    (different : p ++ [k] ≠ q ++ [l]) (r : List ι) : follow edge' root (p ++ [k] ++ r) = none := by
  have other : ¬ (b = a ∧ l = k) := by
    rintro ⟨rfl, rfl⟩
    exact different (by rw [rooted.follow_inj source target])
  have apart : ¬ q ++ [l] <+: p := by
    rintro ⟨rest, split⟩
    rw [← split, follow_append, follow_snoc, target] at source
    rw [Option.bind_some, moved.free other] at source
    cases source
  have to_a : follow edge' root p = some a := by
    rw [moved.follow_elsewhere rooted source target (not_prefix_self p k) apart]
    exact source
  rw [follow_append _ (p ++ [k]), follow_snoc, to_a, Option.bind_some, moved.cut other]
  rfl

end Moved

end RootedGraph
