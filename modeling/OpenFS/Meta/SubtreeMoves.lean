import OpenFS.Meta.PathRefinement

/-!
# Rename moves a subtree

Lookups follow the names of all entries from the root. `Rename` moves one of these edges,
and with it every path below; all other paths lead where they led.
-/

namespace OpenFS.NamespaceManager

open RootedGraph

/-- The inode that directory `d` lists under a name. -/
def nodeAt (ns : NamespaceManager) (d : UInt64) (name : Str) : Option UInt64 := (ns.entryAt d name).map Prod.fst

/-- The two lookups fail alike, or find an inode with the same id, size and type. -/
def SameNode (before after : Except Status Inode) : Prop :=
  match before, after with
  | .ok r, .ok r' => r'.inodeId = r.inodeId ∧ r'.size = r.size ∧ r'.fileType = r.fileType
  | .error s, .error s' => s' = s
  | _, _ => False

/-- The namespace after the subtree at `src` was moved to `dst`. -/
structure SubtreeMoved (ns after : NamespaceManager) (src dst : List Str) : Prop where
  moved : ∀ r p q, p.head? = some '/' → q.head? = some '/' → components p = src ++ r → components q = dst ++ r →
    SameNode (ns.lookup p) (after.lookup q)
  left : src ≠ dst → ∀ p, src <+: components p → ∃ s, after.lookup p = .error s
  others : ∀ p, ¬ src <+: components p → ¬ dst <+: components p → after.lookup p = ns.lookup p

/-! ## Lookups as chains -/

section
variable {ns after : NamespaceManager} {d i m : UInt64} {n : Str} {p : List Str} {path : Str}

theorem nodeAt_iff (h : Consistent ns) : ns.nodeAt d n = some i ↔ ∃ t, Listed ns.dirEntries d ⟨n, i, t⟩ := by
  unfold nodeAt
  rw [Option.map_eq_some_iff]
  constructor
  · rintro ⟨⟨i, t⟩, there, rfl⟩
    exact ⟨t, (entryAt_iff h).mp there⟩
  · rintro ⟨t, listed⟩
    exact ⟨(i, t), (entryAt_iff h).mpr listed, rfl⟩

theorem nodeAt_eq_none (h : Consistent ns) (absent : ∀ i t, ¬ Listed ns.dirEntries d ⟨n, i, t⟩) :
    ns.nodeAt d n = none := by
  rw [Option.eq_none_iff_forall_ne_some]
  intro i there
  obtain ⟨t, listed⟩ := (nodeAt_iff h).mp there
  exact absent i t listed

theorem rooted_nodeAt (h : Consistent ns) : Rooted ns.nodeAt 1 := by
  refine ⟨fun {a b c k l} first second => ?_, fun {a k} into => ?_⟩
  · obtain ⟨t, listed⟩ := (nodeAt_iff h).mp first
    obtain ⟨t', listed'⟩ := (nodeAt_iff h).mp second
    obtain ⟨rfl, same⟩ := h.lists.entry_unique listed listed' rfl
    cases same
    exact ⟨rfl, rfl⟩
  · obtain ⟨t, listed⟩ := (nodeAt_iff h).mp into
    exact h.lists.root listed rfl

/-- Path resolution passes through directories, which are the nodes with lists. -/
theorem follow_hop_iff (h : Consistent ns) (list : (ns.dirEntries d).isSome) :
    follow ns.hop 1 p = some d ↔ follow ns.nodeAt 1 p = some d := by
  induction p using List.reverseRecOn generalizing d with
  | nil => exact Iff.rfl
  | append_singleton q k ih =>
    rw [follow_snoc, follow_snoc, Option.bind_eq_some_iff, Option.bind_eq_some_iff]
    apply exists_congr
    intro c
    rw [hop_iff h, nodeAt_iff h]
    constructor
    · rintro ⟨reached, listed⟩
      obtain ⟨l, there, -⟩ := id listed
      exact ⟨(ih (by rw [there]; rfl)).mp reached, _, listed⟩
    · rintro ⟨reached, t, listed⟩
      have directory : t = .directory := by
        by_contra other
        rw [h.noList listed other] at list
        cases list
      obtain ⟨l, there, -⟩ := id listed
      rw [directory] at listed
      exact ⟨(ih (by rw [there]; rfl)).mpr reached, listed⟩

/-- The bindings are the chains of one name or more. -/
theorem binding_iff_follow (h : Consistent ns) {c : List Str} (some' : c ≠ []) :
    (∃ t, ns.binding c = some (i, t)) ↔ follow ns.nodeAt 1 c = some i := by
  obtain ⟨p, n, rfl⟩ := (List.eq_nil_or_concat' c).resolve_left some'
  rw [follow_snoc, Option.bind_eq_some_iff]
  constructor
  · rintro ⟨t, bound⟩
    obtain ⟨d, reached, listed⟩ := (binding_iff h).mp bound
    obtain ⟨l, there, -⟩ := id listed
    exact ⟨d, (follow_hop_iff h (by rw [there]; rfl)).mp reached, (nodeAt_iff h).mpr ⟨t, listed⟩⟩
  · rintro ⟨d, reached, there⟩
    obtain ⟨t, listed⟩ := (nodeAt_iff h).mp there
    obtain ⟨l, list, -⟩ := id listed
    exact ⟨t, (binding_iff h).mpr ⟨d, (follow_hop_iff h (by rw [list]; rfl)).mpr reached, listed⟩⟩

theorem lookup_follow (h : Consistent ns) (wf : WellFormed path) :
    ns.lookup path =
      match follow ns.nodeAt 1 (components path) with
      | none => .error .notFound
      | some i => ns.inodeTable.get i := by
  have looked := lookup_eq h wf
  cases bound : ns.binding (components path) with
  | none =>
    rw [bound] at looked
    cases chain : follow ns.nodeAt 1 (components path) with
    | none => exact looked
    | some i =>
      obtain ⟨t, there⟩ := (binding_iff_follow h wf.2).mpr chain
      cases bound.symm.trans there
  | some b =>
    obtain ⟨i, t⟩ := b
    rw [bound] at looked
    obtain ⟨r, found, live, -, -⟩ := looked
    rw [(binding_iff_follow h wf.2).mp ⟨t, bound⟩, found]
    exact (InodeTable.get_eq_ok.mpr live).symm

/-- What is no path, or is `/`, does not depend on the entries. -/
theorem lookup_of_not_wellFormed (ill : ¬ WellFormed path) :
    ns.lookup path = if path = ['/'] then ns.inodeTable.get 1 else .error .invalidArgument := by
  unfold lookup
  by_cases root : path = ['/']
  · rw [if_pos root, if_pos root]
  · rw [if_neg root, if_neg root]
    have refused : ns.resolvePath path = .error .invalidArgument := by
      unfold resolvePath
      by_cases absolute : path.head? = some '/'
      · have slashes : components path = [] := by
          by_contra some
          exact ill ⟨absolute, some⟩
        rw [if_neg (by simp [absolute]), if_neg root, slashes]
        rfl
      · rw [if_pos absolute]
    rw [refused]

/-! ## The entry that is moved -/

variable {srcPath dstPath : Str} {srcParent dstParent : UInt64} {srcName dstName : Str}
  {srcEntries dstEntries : List DirEntry} {moving : DirEntry}

/-- What is listed after a move. -/
theorem listed_moved (h : Consistent ns)
    (moves : Moves ns srcPath dstPath srcParent dstParent srcName dstName srcEntries moving)
    (there : ns.dropEntry srcParent srcEntries (fun e => e.name = srcName) dstParent = some dstEntries)
    (dirs : after.dirEntries = Function.update
      (ns.dropEntry srcParent srcEntries (fun e => e.name = srcName)) dstParent
      (some (dstEntries ++ [{ moving with name := dstName }]))) (a : UInt64) (e : DirEntry) :
    Listed after.dirEntries a e ↔ (Listed ns.dirEntries a e ∧ e.inodeId ≠ moving.inodeId) ∨
      (a = dstParent ∧ e = { moving with name := dstName }) := by
  obtain ⟨-, listed⟩ := h.lists.drop moves.listed moves.found
  rw [← listed, dirs, listed_update]
  constructor
  · rintro (⟨rfl, member⟩ | ⟨-, old⟩)
    · rcases List.mem_append.mp member with old | new
      · exact .inl ⟨dstEntries, there, old⟩
      · exact .inr ⟨rfl, List.mem_singleton.mp new⟩
    · exact .inl old
  · rintro (⟨l, at_a, member⟩ | ⟨rfl, rfl⟩)
    · by_cases same : a = dstParent
      · subst same
        cases there.symm.trans at_a
        exact .inl ⟨rfl, List.mem_append_left _ member⟩
      · exact .inr ⟨same, l, at_a, member⟩
    · exact .inl ⟨rfl, by simp⟩

/-- One edge is moved. -/
theorem moved_nodeAt (h : Consistent ns) (after_ok : Consistent after)
    (moves : Moves ns srcPath dstPath srcParent dstParent srcName dstName srcEntries moving)
    (there : ns.dropEntry srcParent srcEntries (fun e => e.name = srcName) dstParent = some dstEntries)
    (absent : ∀ e ∈ dstEntries, e.name ≠ dstName)
    (dirs : after.dirEntries = Function.update
      (ns.dropEntry srcParent srcEntries (fun e => e.name = srcName)) dstParent
      (some (dstEntries ++ [{ moving with name := dstName }]))) :
    Moved ns.nodeAt after.nodeAt srcParent srcName dstParent dstName moving.inodeId := by
  have listed := listed_moved h moves there dirs
  have here : Listed ns.dirEntries srcParent moving := ⟨_, moves.listed, List.mem_of_find?_eq_some moves.found⟩
  have named : moving.name = srcName := by
    have hit := List.find?_some moves.found
    rwa [decide_eq_true_eq] at hit
  -- an entry under the moved id is the moved one, and so is one under its name
  have by_id : ∀ a e, Listed ns.dirEntries a e → e.inodeId = moving.inodeId → a = srcParent ∧
      e.name = srcName := by
    intro a e old same
    obtain ⟨rfl, rfl⟩ := h.lists.entry_unique old here same
    exact ⟨rfl, named⟩
  have by_name : ∀ e, Listed ns.dirEntries srcParent e → e.name = srcName → e.inodeId = moving.inodeId := by
    rintro e ⟨l, at_src, member⟩ same
    cases moves.listed.symm.trans at_src
    rw [List.inj_on_of_nodup_map (h.lists.names moves.listed) member (List.mem_of_find?_eq_some moves.found)
      (same.trans named.symm)]
  constructor
  · refine (nodeAt_iff h).mpr ⟨moving.fileType, ?_⟩
    rw [← named]
    exact here
  · intro other
    apply nodeAt_eq_none h
    intro i t old
    have different : i ≠ moving.inodeId := by
      intro same
      obtain ⟨rfl, rfl⟩ := by_id _ _ old same
      exact other ⟨rfl, rfl⟩
    obtain ⟨l, at_dst, member⟩ := ((h.lists.drop moves.listed moves.found).2 _ _).mpr ⟨old, different⟩
    cases there.symm.trans at_dst
    exact absent _ member rfl
  · exact (nodeAt_iff after_ok).mpr ⟨moving.fileType, (listed _ _).mpr (.inr ⟨rfl, rfl⟩)⟩
  · intro other
    apply nodeAt_eq_none after_ok
    intro i t new
    rcases (listed _ _).mp new with ⟨old, different⟩ | ⟨rfl, same⟩
    · exact different (by_name _ old rfl)
    · cases same
      exact other ⟨rfl, rfl⟩
  · intro c j elsewhere elsewhere'
    apply Option.ext
    intro i
    rw [nodeAt_iff after_ok, nodeAt_iff h]
    apply exists_congr
    intro t
    rw [listed]
    constructor
    · rintro (⟨old, -⟩ | ⟨rfl, same⟩)
      · exact old
      · cases same
        exact absurd ⟨rfl, rfl⟩ elsewhere'
    · intro old
      refine .inl ⟨old, fun same => ?_⟩
      obtain ⟨rfl, rfl⟩ := by_id _ _ old same
      exact elsewhere ⟨rfl, rfl⟩

/-- The record of the moved node keeps its id, size and type, and the others are untouched. -/
theorem get_moved (h : Consistent ns) {now : UInt64}
    (inodes : after.inodeTable.inodes = ns.renamedInodes now m n d) (j : UInt64) :
    SameNode (ns.inodeTable.get j) (after.inodeTable.get j) ∧
      (j ≠ m → after.inodeTable.get j = ns.inodeTable.get j) := by
  have same : ∀ r, SameNode r r := by
    intro r
    cases r with
    | ok inode => exact ⟨rfl, rfl, rfl⟩
    | error s => rfl
  unfold renamedInodes at inodes
  split at inodes
  · have untouched : after.inodeTable.get j = ns.inodeTable.get j := by
      unfold InodeTable.get
      rw [inodes]
    rw [untouched]
    exact ⟨same _, fun _ => rfl⟩
  · next r live =>
    obtain rfl := h.keyed live
    rw [if_pos (by rw [live]; rfl)] at inodes
    by_cases here : j = r.inodeId
    · subst here
      have found : after.inodeTable.get r.inodeId = .ok (renamed r now n d) := by
        rw [InodeTable.get_eq_ok, inodes, Function.update_self]
      rw [found, InodeTable.get_eq_ok.mpr live]
      exact ⟨⟨rfl, rfl, rfl⟩, fun other => absurd rfl other⟩
    · have untouched : after.inodeTable.get j = ns.inodeTable.get j := by
        unfold InodeTable.get
        rw [inodes, Function.update_of_ne here]
      rw [untouched]
      exact ⟨same _, fun _ => rfl⟩

/-- A move in terms of the chains. -/
theorem subtreeMoved (h : Consistent ns) (after_ok : Consistent after) {p q : List Str} {k l : Str} {a b : UInt64}
    (moved : Moved ns.nodeAt after.nodeAt a k b l m) (source : follow ns.nodeAt 1 p = some a)
    (target : follow ns.nodeAt 1 q = some b) (outside : ¬ p ++ [k] <+: q)
    (records : ∀ j, SameNode (ns.inodeTable.get j) (after.inodeTable.get j) ∧
      (j ≠ m → after.inodeTable.get j = ns.inodeTable.get j)) :
    SubtreeMoved ns after (p ++ [k]) (q ++ [l]) := by
  have rooted := rooted_nodeAt h
  have at_m : follow ns.nodeAt 1 (p ++ [k]) = some m := by
    rw [follow_snoc, source]
    exact moved.was
  refine ⟨fun r path path' absolute absolute' below below' => ?_, fun different path below => ?_,
    fun path apart apart' => ?_⟩
  · have wf : WellFormed path := ⟨absolute, by rw [below]; simp⟩
    have wf' : WellFormed path' := ⟨absolute', by rw [below']; simp⟩
    rw [lookup_follow h wf, lookup_follow after_ok wf', below, below',
      moved.follow_moved rooted source target outside r]
    cases follow ns.nodeAt 1 (p ++ [k] ++ r) with
    | none => rfl
    | some j => exact (records j).1
  · obtain ⟨r, split⟩ := below
    by_cases wf : WellFormed path
    · rw [lookup_follow after_ok wf, ← split, moved.follow_left rooted source target different r]
      exact ⟨_, rfl⟩
    · have other : path ≠ ['/'] := by
        rintro rfl
        have none : components ['/'] = [] := by decide
        rw [none] at split
        simp at split
      rw [lookup_of_not_wellFormed wf, if_neg other]
      exact ⟨_, rfl⟩
  · by_cases wf : WellFormed path
    · rw [lookup_follow h wf, lookup_follow after_ok wf, moved.follow_elsewhere rooted source target apart apart']
      cases chain : follow ns.nodeAt 1 (components path) with
      | none => rfl
      | some j =>
        apply (records j).2
        rintro rfl
        rw [rooted.follow_inj at_m chain] at apart
        exact apart List.prefix_rfl
    · have notRoot : (1 : UInt64) ≠ m := by
        rintro rfl
        exact rooted.entry moved.was
      rw [lookup_of_not_wellFormed wf, lookup_of_not_wellFormed wf, (records 1).2 notRoot]

end

/-- **Rename moves a whole subtree and nothing else**, from every state, unless it names a
place below its source. -/
theorem rename_moves_subtree {ns : NamespaceManager} (reachable : Reachable ns) {src dst : Str}
    (srcWf : WellFormed src) (dstWf : WellFormed dst)
    (outside : ¬ (components src <+: components dst ∧ components src ≠ components dst)) (now : UInt64)
    (ok : (ns.rename now src dst).1 = .ok) :
    SubtreeMoved ns (ns.rename now src dst).2 (components src) (components dst) := by
  have h := reachable.consistent
  have effect := rename_effect ns now src dst
  have after_ok := h.effect effect
  rw [ok] at effect
  generalize (ns.rename now src dst).2 = after at effect after_ok ⊢
  generalize call : Call.rename src dst = c at effect
  generalize status : Status.ok = s at effect
  cases effect with
  | refused refused _ => exact absurd status.symm refused
  | @moved srcPath dstPath srcParent dstParent k l srcEntries dstEntries moving after moves there absent
    dirs inodes =>
    cases call
    obtain ⟨p, name, split⟩ := (List.eq_nil_or_concat' (components src)).resolve_left srcWf.2
    obtain ⟨q, name', split'⟩ := (List.eq_nil_or_concat' (components dst)).resolve_left dstWf.2
    obtain ⟨source, rfl⟩ := (resolvePath_ok_iff srcWf split).mp moves.src
    obtain ⟨target, rfl⟩ := (resolvePath_ok_iff dstWf split').mp moves.dst
    have list : (ns.dirEntries dstParent).isSome := by
      rw [← isSome_dropEntry moves.listed (fun e => decide (e.name = k)), there]
      rfl
    rw [split, split']
    refine subtreeMoved h after_ok (moved_nodeAt h after_ok moves there absent dirs)
      ((follow_hop_iff h (by rw [moves.listed]; rfl)).mp source) ((follow_hop_iff h list).mp target) ?_
        (get_moved h inodes)
    intro below
    apply outside
    rw [split, split']
    refine ⟨below.trans (List.prefix_append q [l]), fun same => ?_⟩
    obtain ⟨rfl, -⟩ := List.append_inj' same rfl
    exact Moved.not_prefix_self p k below
  | lost _ lost _ _ _ =>
    subst status
    rcases lost with lost | lost <;> cases lost
  | _ => cases call

/-- A directory with a file, and a file beside it. -/
def parentAndSibling : NamespaceManager :=
  ((((init 0).exec 0 (.mkDir ['/', 'a'] 0o755 0 0)).2.exec 0
    (.createFile ['/', 'a', '/', 'f'] 0o644 0 0 0)).2.exec 0 (.createFile ['/', 'c'] 0o644 0 0 0)).2

/-- `/a` becomes `/b`. -/
theorem rename_moves_subtree_a : parentAndSibling.binding [['a'], ['f']] = some (3, .regular) ∧
    parentAndSibling.binding [['c']] = some (4, .regular) ∧
    SubtreeMoved parentAndSibling (parentAndSibling.rename 0 ['/', 'a'] ['/', 'b']).2
      (components ['/', 'a']) (components ['/', 'b']) :=
  ⟨by decide, by decide, rename_moves_subtree (.step 0 _ (.step 0 _ (.step 0 _ (.init 0)))) ⟨rfl, by decide⟩
    ⟨rfl, by decide⟩ (by decide) 0 (by decide)⟩

end OpenFS.NamespaceManager
