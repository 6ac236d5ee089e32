import OpenFS.Meta.NamespaceTree

/-!
# The namespace as a map of paths

`binding` reads the entry lists as a finite map from component lists to an inode
id and a type. Without `Rename`, creating a node adds one binding and removing
one takes one away; lookups and listings read the map. A creation needs an id:
the counter comes back to the root's id after `2 ^ 64 - 1` creations.
-/

namespace OpenFS.NamespaceManager

open RootedGraph

/-- The node that directory `d` lists under a name. -/
def entryAt (ns : NamespaceManager) (d : UInt64) (name : Str) : Option (UInt64 × InodeType) :=
  (ns.dirEntries d).bind fun entries =>
    (entries.find? fun e => e.name = name).map fun e => (e.inodeId, e.fileType)

/-- The node bound to a path, by a walk from the root. -/
def binding (ns : NamespaceManager) (c : List Str) : Option (UInt64 × InodeType) :=
  match c.getLast? with
  | none => none
  | some name =>
    match ns.walk 1 c.dropLast with
    | .error _ => none
    | .ok d => ns.entryAt d name

theorem binding_snoc (ns : NamespaceManager) (p : List Str) (n : Str) :
    ns.binding (p ++ [n]) = (follow ns.hop 1 p).bind fun d => ns.entryAt d n := by
  unfold binding
  rw [List.getLast?_concat, List.dropLast_concat]
  dsimp only
  cases walked : ns.walk 1 p with
  | ok d => rw [walk_iff_follow.mp walked]; rfl
  | error s =>
    cases chain : follow ns.hop 1 p with
    | none => rfl
    | some d => cases walked.symm.trans (walk_iff_follow.mpr chain)

theorem binding_congr {ns after : NamespaceManager} (dirs : after.dirEntries = ns.dirEntries) :
    after.binding = ns.binding := by
  have hops : after.hop = ns.hop := by
    funext d name
    unfold hop
    rw [dirs]
  funext c
  rcases List.eq_nil_or_concat' c with rfl | ⟨p, n, rfl⟩
  · rfl
  · simp only [binding_snoc, entryAt, hops, dirs]

section
variable {ns : NamespaceManager} {d i : UInt64} {n : Str} {t : InodeType} {p : List Str}

theorem find?_of_nodup {l : List DirEntry} (names : (l.map DirEntry.name).Nodup) {e : DirEntry} (member : e ∈ l) :
    l.find? (fun e' => e'.name = e.name) = some e := by
  cases found : l.find? (fun e' => decide (e'.name = e.name)) with
  | none => exact absurd (by simp) (List.find?_eq_none.mp found e member)
  | some e' =>
    have hit := List.find?_some found
    simp only [decide_eq_true_eq] at hit
    rw [List.inj_on_of_nodup_map names (List.mem_of_find?_eq_some found) member hit]

theorem entryAt_iff (h : Consistent ns) : ns.entryAt d n = some (i, t) ↔ Listed ns.dirEntries d ⟨n, i, t⟩ := by
  unfold entryAt
  simp only [Option.bind_eq_some_iff, Option.map_eq_some_iff]
  constructor
  · rintro ⟨l, there, ⟨name, id, type⟩, found, same⟩
    obtain ⟨rfl, rfl⟩ := Prod.mk.inj same
    have hit := List.find?_some found
    simp only [decide_eq_true_eq] at hit
    subst hit
    exact ⟨l, there, List.mem_of_find?_eq_some found⟩
  · rintro ⟨l, there, member⟩
    exact ⟨l, there, _, find?_of_nodup (h.lists.names there) member, rfl⟩

theorem hop_iff (h : Consistent ns) : ns.hop d n = some i ↔ Listed ns.dirEntries d ⟨n, i, .directory⟩ := by
  unfold hop
  simp only [Option.bind_eq_some_iff, Option.map_eq_some_iff]
  constructor
  · rintro ⟨l, there, ⟨name, id, type⟩, found, rfl⟩
    have hit := List.find?_some found
    simp only [Bool.decide_and, Bool.and_eq_true, decide_eq_true_eq] at hit
    obtain ⟨rfl, rfl⟩ := hit
    exact ⟨l, there, List.mem_of_find?_eq_some found⟩
  · rintro ⟨l, there, member⟩
    cases found : l.find? (fun e => decide (e.name = n ∧ e.fileType = .directory)) with
    | none => exact absurd (by simp) (List.find?_eq_none.mp found _ member)
    | some e =>
      have hit := List.find?_some found
      simp only [Bool.decide_and, Bool.and_eq_true, decide_eq_true_eq] at hit
      have same := List.inj_on_of_nodup_map (h.lists.names there) (List.mem_of_find?_eq_some found) member hit.1
      exact ⟨l, there, e, found, by rw [same]⟩

theorem binding_iff (h : Consistent ns) : ns.binding (p ++ [n]) = some (i, t) ↔
    ∃ d, follow ns.hop 1 p = some d ∧ Listed ns.dirEntries d ⟨n, i, t⟩ := by
  rw [binding_snoc, Option.bind_eq_some_iff]
  exact exists_congr fun d => and_congr_right fun _ => entryAt_iff h

/-- The directories are the nodes bound to one, and the root. -/
theorem follow_iff_binding (h : Consistent ns) : (∃ d, follow ns.hop 1 p = some d) ↔
    p = [] ∨ ∃ i, ns.binding p = some (i, .directory) := by
  rcases List.eq_nil_or_concat' p with rfl | ⟨q, m, rfl⟩
  · exact iff_of_true ⟨1, rfl⟩ (.inl rfl)
  · have last : ∀ i, follow ns.hop 1 (q ++ [m]) = some i ↔ ns.binding (q ++ [m]) = some (i, .directory) := by
      intro i
      rw [follow_snoc, Option.bind_eq_some_iff, binding_iff h]
      exact exists_congr fun d => and_congr_right fun _ => hop_iff h
    constructor
    · rintro ⟨i, chain⟩
      exact .inr ⟨i, (last i).mp chain⟩
    · rintro (nothing | ⟨i, bound⟩)
      · exact absurd nothing (by simp)
      · exact ⟨i, (last i).mpr bound⟩

end

/-! ## One binding more or less -/

/-- `small` lists what `large` lists, but for a leaf that `large` lists as `n` in `d`. -/
structure Cut (large small : NamespaceManager) (d : UInt64) (n : Str) : Prop where
  gone : ∀ i t, ¬ Listed small.dirEntries d ⟨n, i, t⟩
  others : ∀ a e, ¬ (a = d ∧ e.name = n) → (Listed small.dirEntries a e ↔ Listed large.dirEntries a e)
  leaf : ∀ i, Listed large.dirEntries d ⟨n, i, .directory⟩ → ∀ e, ¬ Listed large.dirEntries i e

namespace Cut

variable {large small : NamespaceManager} {d : UInt64} {n : Str} {p : List Str}

theorem hop_gone (cut : Cut large small d n) (small_ok : Consistent small) : small.hop d n = none := by
  rw [Option.eq_none_iff_forall_ne_some]
  intro i there
  exact cut.gone i _ ((hop_iff small_ok).mp there)

theorem hop_others (cut : Cut large small d n) (large_ok : Consistent large) (small_ok : Consistent small)
    (a : UInt64) (k : Str) (other : ¬ (a = d ∧ k = n)) : small.hop a k = large.hop a k := by
  apply Option.ext
  intro i
  exact (hop_iff small_ok).trans ((cut.others a ⟨k, i, .directory⟩ other).trans (hop_iff large_ok).symm)

theorem entry_others (cut : Cut large small d n) (large_ok : Consistent large) (small_ok : Consistent small)
    (a : UInt64) (k : Str) (other : ¬ (a = d ∧ k = n)) : small.entryAt a k = large.entryAt a k := by
  apply Option.ext
  intro ⟨i, t⟩
  exact (entryAt_iff small_ok).trans ((cut.others a ⟨k, i, t⟩ other).trans (entryAt_iff large_ok).symm)

/-- The smaller namespace binds everything but the leaf. -/
theorem binding (cut : Cut large small d n) (large_ok : Consistent large) (small_ok : Consistent small)
    (reached : follow large.hop 1 p = some d) :
    small.binding = Function.update large.binding (p ++ [n]) none := by
  have chains := large_ok.rooted_hop.follow_cut reached (cut.hop_gone small_ok)
    (cut.hop_others large_ok small_ok) (fun i there k => by
      rw [Option.eq_none_iff_forall_ne_some]
      intro j further
      exact cut.leaf i ((hop_iff large_ok).mp there) _ ((hop_iff large_ok).mp further))
  funext c
  rcases List.eq_nil_or_concat' c with rfl | ⟨q, m, rfl⟩
  · rw [Function.update_of_ne (by simp)]; rfl
  · rw [binding_snoc, chains q]
    by_cases through : q = p ++ [n]
    · have longer : q ++ [m] ≠ p ++ [n] := by
        subst through
        simp
      rw [if_pos through, Function.update_of_ne longer, binding_snoc, through, follow_snoc, reached]
      show none = (large.hop d n).bind _
      cases last : large.hop d n with
      | none => rfl
      | some i =>
        symm
        show large.entryAt i m = none
        rw [Option.eq_none_iff_forall_ne_some]
        rintro ⟨j, t⟩ further
        exact cut.leaf i ((hop_iff large_ok).mp last) _ ((entryAt_iff large_ok).mp further)
    · rw [if_neg through]
      by_cases same : q ++ [m] = p ++ [n]
      · rw [same, Function.update_self]
        obtain ⟨rfl, last⟩ := List.append_inj' same rfl
        obtain rfl := (List.cons.inj last).1
        rw [reached, Option.bind_some, Option.eq_none_iff_forall_ne_some]
        rintro ⟨j, t⟩ there
        exact cut.gone j t ((entryAt_iff small_ok).mp there)
      · rw [Function.update_of_ne same, binding_snoc]
        cases upto : follow large.hop 1 q with
        | none => rfl
        | some x =>
          rw [Option.bind_some, Option.bind_some]
          apply cut.entry_others large_ok small_ok
          rintro ⟨rfl, rfl⟩
          exact same (by rw [large_ok.rooted_hop.follow_inj upto reached])

/-- The larger one binds the leaf on top. -/
theorem binding_large (cut : Cut large small d n) (large_ok : Consistent large) (small_ok : Consistent small)
    {i : UInt64} {t : InodeType} (reached : follow small.hop 1 p = some d)
    (there : Listed large.dirEntries d ⟨n, i, t⟩) :
    large.binding = Function.update small.binding (p ++ [n]) (some (i, t)) := by
  have still : follow large.hop 1 p = some d := by
    refine follow_mono (fun {a k b} step => ?_) reached
    by_cases here : a = d ∧ k = n
    · obtain ⟨rfl, rfl⟩ := here
      rw [cut.hop_gone small_ok] at step
      cases step
    · rwa [← cut.hop_others large_ok small_ok a k here]
  have bound : large.binding (p ++ [n]) = some (i, t) := (binding_iff large_ok).mpr ⟨d, still, there⟩
  rw [cut.binding large_ok small_ok still, Function.update_idem, ← bound, Function.update_eq_self]

end Cut

/-! ## What the calls change -/

/-- Removing an entry whose node lists nothing. -/
theorem cut_drop {ns after : NamespaceManager} (h : Consistent ns) {parentId : UInt64} {entries : List DirEntry}
    {pred : DirEntry → Bool} {e : DirEntry} (there : ns.dirEntries parentId = some entries)
    (found : entries.find? pred = some e)
    (listed : ∀ a e', Listed after.dirEntries a e' ↔ Listed ns.dirEntries a e' ∧ e'.inodeId ≠ e.inodeId)
    (leaf : e.fileType = .directory → ∀ e', ¬ Listed ns.dirEntries e.inodeId e') :
    Cut ns after parentId e.name := by
  have here : Listed ns.dirEntries parentId e := ⟨_, there, List.mem_of_find?_eq_some found⟩
  have unique : ∀ i t, Listed ns.dirEntries parentId ⟨e.name, i, t⟩ → i = e.inodeId ∧ t = e.fileType := by
    rintro i t ⟨l, there', member⟩
    cases there.symm.trans there'
    have same := List.inj_on_of_nodup_map (h.lists.names there) member (List.mem_of_find?_eq_some found) rfl
    rw [← same]
    exact ⟨rfl, rfl⟩
  refine ⟨fun i t still => ?_, fun a e' other => ?_, fun i there' e' below => ?_⟩
  · obtain ⟨old, different⟩ := (listed _ _).mp still
    exact different (unique i t old).1
  · rw [listed, and_iff_left_of_imp]
    intro old same
    obtain ⟨rfl, rfl⟩ := h.lists.entry_unique old here same
    exact other ⟨rfl, rfl⟩
  · obtain ⟨rfl, type⟩ := unique i _ there'
    exact leaf type.symm e' below

/-- Adding a node under a free id. -/
theorem cut_add {ns after : NamespaceManager} (h : Consistent ns) {parentId i : UInt64} {name : Str}
    {t : InodeType}
    (absent : ∀ e ∈ (ns.dirEntries parentId).getD [], e.name ≠ name) (free : ns.inodeTable.inodes i = none)
    (listed : ∀ a e, Listed after.dirEntries a e ↔
      Listed ns.dirEntries a e ∨ (a = parentId ∧ e = ⟨name, i, t⟩))
    (parent : (ns.dirEntries parentId).isSome) : Cut after ns parentId name := by
  obtain ⟨-, noList, -⟩ := h.of_free free
  refine ⟨fun j u old => ?_, fun a e other => ?_, fun j there e below => ?_⟩
  · obtain ⟨l, there, member⟩ := old
    exact absent ⟨name, j, u⟩ (by rw [there]; exact member) rfl
  · rw [listed, or_iff_left]
    rintro ⟨rfl, rfl⟩
    exact other ⟨rfl, rfl⟩
  · have new : j = i := by
      rcases (listed _ _).mp there with ⟨l, old, member⟩ | ⟨-, same⟩
      · exact absurd rfl (absent _ (by rw [old]; exact member))
      · cases same; rfl
    subst new
    rcases (listed _ _).mp below with ⟨l, old, -⟩ | ⟨rfl, -⟩
    · cases noList.symm.trans old
    · rw [noList] at parent
      cases parent

end OpenFS.NamespaceManager
