import OpenFS.Lib.RootedGraph

/-!
# Pruning and grafting

A map of label lists loses all that is below a list, or gets it below another one. To take
an edge out of a rooted graph prunes the map of its chains, and to move one grafts it.
-/

namespace RootedGraph

section
variable {ι β γ : Type*} [DecidableEq ι]

/-- Nothing is at `p` or below. -/
def prune (p : List ι) (m : List ι → Option β) : List ι → Option β :=
  fun r => if p <+: r then none else m r

/-- What was at `p` and below is at `q` and below. -/
def graft (p q : List ι) (m : List ι → Option β) : List ι → Option β :=
  fun r => if q <+: r then m (p ++ r.drop q.length) else prune p m r

variable {p q r : List ι} {m : List ι → Option β}

theorem prune_below (below : p <+: r) : prune p m r = none := if_pos below

theorem prune_apart (apart : ¬ p <+: r) : prune p m r = m r := if_neg apart

theorem graft_below (s : List ι) : graft p q m (q ++ s) = m (p ++ s) := by
  unfold graft
  rw [if_pos (List.prefix_append q s), List.drop_left]

theorem graft_apart (apart : ¬ q <+: r) : graft p q m r = prune p m r := if_neg apart

theorem prune_bind (f : β → Option γ) : prune p (fun r => (m r).bind f) r = (prune p m r).bind f := by
  by_cases below : p <+: r
  · rw [prune_below below, prune_below below, Option.bind_none]
  · rw [prune_apart below, prune_apart below]

theorem graft_bind (f : β → Option γ) : graft p q (fun r => (m r).bind f) r = (graft p q m r).bind f := by
  by_cases below : q <+: r
  · obtain ⟨s, rfl⟩ := below
    rw [graft_below, graft_below]
  · rw [graft_apart below, graft_apart below, prune_bind]

/-- The empty list stays what it is, and is put nowhere. -/
theorem prune_congr {m' : List ι → Option β} (same : ∀ r, r ≠ [] → m r = m' r) (some : r ≠ []) :
    prune p m r = prune p m' r := by
  unfold prune
  rw [same r some]

theorem graft_congr {m' : List ι → Option β} (same : ∀ r, r ≠ [] → m r = m' r) (some : r ≠ []) (some' : p ≠ []) :
    graft p q m r = graft p q m' r := by
  unfold graft
  rw [prune_congr same some, same (p ++ r.drop q.length) (by simp [some'])]

end

variable {α ι : Type*} {edge edge' : α → ι → Option α} {root a m : α} {k : ι} {p : List ι}

/-- The edge `k` out of `a` is taken out; only edges below it may differ otherwise. -/
structure Severed (edge edge' : α → ι → Option α) (a : α) (k : ι) (m : α) : Prop where
  was : edge a k = some m
  cut : edge' a k = none
  others : ∀ c j, ¬ (c = a ∧ j = k) → (∀ r, follow edge m r ≠ some c) → edge' c j = edge c j

/-- The chains that are left do not pass the edge. -/
theorem Severed.follow_eq [DecidableEq ι] (severed : Severed edge edge' a k m) (rooted : Rooted edge root)
    (source : follow edge root p = some a) : follow edge' root = prune (p ++ [k]) (follow edge root) := by
  have at_m : follow edge root (p ++ [k]) = some m := by
    rw [follow_snoc, source]
    exact severed.was
  funext r
  induction r using List.reverseRecOn with
  | nil => rw [prune_apart (by simp), follow_nil, follow_nil]
  | append_singleton r j ih =>
    rw [follow_snoc, ih]
    by_cases above : p ++ [k] <+: r
    · rw [prune_below above, prune_below (above.trans (List.prefix_append r [j])), Option.bind_none]
    rw [prune_apart above]
    by_cases here : p ++ [k] = r ++ [j]
    · obtain ⟨rfl, last⟩ := List.append_inj' here rfl
      obtain rfl := (List.cons.inj last).1
      rw [prune_below List.prefix_rfl, source]
      exact severed.cut
    have apart : ¬ p ++ [k] <+: r ++ [j] := by
      rw [List.prefix_concat_iff]
      rintro (same | inside)
      · exact here same
      · exact above inside
    rw [prune_apart apart, follow_snoc]
    cases upto : follow edge root r with
    | none => rfl
    | some c =>
      apply severed.others
      · rintro ⟨rfl, rfl⟩
        exact here (by rw [rooted.follow_inj source upto])
      · intro s below
        have chain : follow edge root (p ++ [k] ++ s) = some c := by
          rw [follow_append, at_m]
          exact below
        exact above ⟨s, rooted.follow_inj chain upto⟩

/-- The chains after a move. -/
theorem Moved.follow_eq [DecidableEq ι] {b : α} {l : ι} {q : List ι} (moved : Moved edge edge' a k b l m)
    (rooted : Rooted edge root) (source : follow edge root p = some a) (target : follow edge root q = some b)
    (outside : ¬ p ++ [k] <+: q) :
    follow edge' root = graft (p ++ [k]) (q ++ [l]) (follow edge root) := by
  funext r
  by_cases below : q ++ [l] <+: r
  · obtain ⟨s, rfl⟩ := below
    rw [graft_below, moved.follow_moved rooted source target outside]
  · rw [graft_apart below]
    by_cases left : p ++ [k] <+: r
    · have different : p ++ [k] ≠ q ++ [l] := by
        intro same
        rw [same] at left
        exact below left
      rw [prune_below left]
      obtain ⟨s, rfl⟩ := left
      exact moved.follow_left rooted source target different s
    · rw [prune_apart left, moved.follow_elsewhere rooted source target left below]

end RootedGraph
