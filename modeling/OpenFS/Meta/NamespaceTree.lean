import OpenFS.Lib.RootedGraph
import OpenFS.Meta.NamespaceInvariant

/-!
# The namespace is a tree

`edge` numbers the entries of a directory, so that a chain of entries is a list
of positions and two entries for one inode count as two chains. `hop` follows
names instead, as path resolution does. Both graphs have at most one edge into
a node; what has to be kept is that every live inode is reached at all, and
only `Rename` into the moved directory's own subtree fails to keep it.
-/

namespace OpenFS.NamespaceManager

open RootedGraph

/-- The inode in the `k`-th entry of directory `d`. -/
def edge (ns : NamespaceManager) (d : UInt64) (k : Nat) : Option UInt64 :=
  (ns.dirEntries d).bind fun entries => entries[k]?.map DirEntry.inodeId

/-- The subdirectory of `d` called `name`. -/
def hop (ns : NamespaceManager) (d : UInt64) (name : Str) : Option UInt64 :=
  (ns.dirEntries d).bind fun entries =>
    (entries.find? fun e => e.name = name ∧ e.fileType = .directory).map DirEntry.inodeId

/-- Every live inode but the root is reached by exactly one chain of entries,
and no directory is its own ancestor. -/
structure IsTree (ns : NamespaceManager) : Prop where
  reached : ∀ i, (ns.inodeTable.inodes i).isSome → i ≠ 1 → ∃! ks, follow ns.edge 1 ks = some i
  noCycle : ∀ d ks, follow ns.edge d ks = some d → ks = []

/-- A `Rename` that does not name a place below its own source. -/
def Call.StaysOutside : Call → Prop
  | .rename srcPath dstPath =>
    ¬ (components srcPath ≠ [] ∧ components srcPath <+: components dstPath ∧
      components srcPath ≠ components dstPath)
  | _ => True

/-- States reached by runs of successful calls that all satisfy `allowed`. -/
inductive OkReachable (allowed : Call → Prop) : NamespaceManager → Prop where
  | init (now : UInt64) : OkReachable allowed (init now)
  | step {ns : NamespaceManager} (now : UInt64) (call : Call) :
      OkReachable allowed ns → allowed call → (ns.exec now call).1 = .ok →
      OkReachable allowed (ns.exec now call).2

theorem OkReachable.reachable {allowed : Call → Prop} {ns : NamespaceManager}
    (h : OkReachable allowed ns) : Reachable ns := by
  induction h with
  | init now => exact .init now
  | step now call _ _ _ ih => exact .step now call ih

theorem edge_eq_some {ns : NamespaceManager} {d i : UInt64} {k : Nat} :
    ns.edge d k = some i ↔ ∃ l e, ns.dirEntries d = some l ∧ l[k]? = some e ∧ e.inodeId = i := by
  simp [edge, Option.bind_eq_some_iff]

theorem child_edge_iff {ns : NamespaceManager} {d i : UInt64} :
    Child ns.edge d i ↔ ∃ e, Listed ns.dirEntries d e ∧ e.inodeId = i := by
  simp only [Child, edge_eq_some, Listed]
  constructor
  · rintro ⟨k, l, e, there, at_k, rfl⟩
    exact ⟨e, ⟨l, there, List.mem_of_getElem? at_k⟩, rfl⟩
  · rintro ⟨e, ⟨l, there, member⟩, rfl⟩
    obtain ⟨k, at_k⟩ := List.mem_iff_getElem?.mp member
    exact ⟨k, l, e, there, at_k, rfl⟩

theorem hop_eq_some {ns : NamespaceManager} {d i : UInt64} {name : Str} (h : ns.hop d name = some i) :
    ∃ e, Listed ns.dirEntries d e ∧ e.name = name ∧ e.inodeId = i := by
  unfold hop at h
  simp only [Option.bind_eq_some_iff, Option.map_eq_some_iff] at h
  obtain ⟨l, there, e, found, rfl⟩ := h
  have hit := List.find?_some found
  simp only [Bool.decide_and, Bool.and_eq_true, decide_eq_true_eq] at hit
  exact ⟨e, ⟨l, there, List.mem_of_find?_eq_some found⟩, hit.1, rfl⟩

/-- Path resolution follows the names. -/
theorem walk_iff_follow {ns : NamespaceManager} {current d : UInt64} {cs : List Str} :
    ns.walk current cs = .ok d ↔ follow ns.hop current cs = some d := by
  induction cs generalizing current with
  | nil => simp [walk, follow]
  | cons c rest ih =>
    simp only [walk, follow, hop]
    cases ns.dirEntries current with
    | none => simp
    | some l =>
      simp only [Option.bind_some]
      cases l.find? (fun e => decide (e.name = c ∧ e.fileType = .directory)) with
      | none => simp
      | some e => simpa using ih

theorem components_ne_nil {path c : Str} (member : c ∈ components path) : c ≠ [] := by
  rintro rfl
  simp [components] at member

/-- The chain of names a resolved path stands for. -/
theorem resolvePath_cases {ns : NamespaceManager} {path : Str} {parentId : UInt64} {name : Str}
    (h : ns.resolvePath path = .ok (parentId, name)) :
    (components path = [] ∧ parentId = 1 ∧ name = []) ∨
      (components path = (components path).dropLast ++ [name] ∧
        follow ns.hop 1 (components path).dropLast = some parentId) := by
  unfold resolvePath at h
  split at h
  · cases h
  · split at h
    · next root => cases h; exact .inl ⟨by rw [root]; decide, rfl, rfl⟩
    · split at h
      · cases h
      · next last =>
        split at h
        · cases h
        · next walked =>
          cases h
          exact .inr ⟨(List.dropLast_append_getLast? _ last).symm, walk_iff_follow.mp walked⟩

namespace Consistent

variable {ns : NamespaceManager}

theorem rooted_edge (h : Consistent ns) : Rooted ns.edge 1 := by
  refine ⟨fun {a b c k l} first second => ?_, fun {a k} into => ?_⟩
  · obtain ⟨entries, e, there, at_k, rfl⟩ := edge_eq_some.mp first
    obtain ⟨entries', e', there', at_l, same⟩ := edge_eq_some.mp second
    obtain rfl := h.lists.apart ⟨_, there, List.mem_of_getElem? at_k⟩
      ⟨_, there', List.mem_of_getElem? at_l⟩ same.symm
    cases there.symm.trans there'
    obtain ⟨in_k, rfl⟩ := List.getElem?_eq_some_iff.mp at_k
    obtain ⟨in_l, rfl⟩ := List.getElem?_eq_some_iff.mp at_l
    rw [← List.getElem_map DirEntry.inodeId (h := by simpa using in_l),
      ← List.getElem_map DirEntry.inodeId (h := by simpa using in_k)] at same
    exact ⟨rfl, ((h.lists.ids there).getElem_inj_iff.mp same).symm⟩
  · obtain ⟨entries, e, there, at_k, root⟩ := edge_eq_some.mp into
    exact h.lists.root ⟨_, there, List.mem_of_getElem? at_k⟩ root

theorem rooted_hop (h : Consistent ns) : Rooted ns.hop 1 := by
  refine ⟨fun {a b c k l} first second => ?_, fun {a k} into => ?_⟩
  · obtain ⟨e, listed, rfl, rfl⟩ := hop_eq_some first
    obtain ⟨e', listed', rfl, same⟩ := hop_eq_some second
    obtain ⟨rfl, rfl⟩ := h.lists.entry_unique listed listed' same.symm
    exact ⟨rfl, rfl⟩
  · obtain ⟨e, listed, -, root⟩ := hop_eq_some into
    exact h.lists.root listed root

/-- A live entry's directory is live. -/
theorem live_of_listed (h : Consistent ns) {d : UInt64} {e : DirEntry}
    (listed : Listed ns.dirEntries d e) : (ns.inodeTable.inodes d).isSome := by
  obtain ⟨l, there, -⟩ := listed
  obtain ⟨r, live, -⟩ := (h.keys d).mp (by rw [there]; rfl)
  rw [live]; rfl

/-- A directory entry is where path resolution goes for its name. -/
theorem hop_of_listed (h : Consistent ns) {d : UInt64} {e : DirEntry}
    (listed : Listed ns.dirEntries d e) (list : (ns.dirEntries e.inodeId).isSome) :
    ns.hop d e.name = some e.inodeId := by
  obtain ⟨l, there, member⟩ := id listed
  have directory : e.fileType = .directory := by
    by_contra other
    rw [h.noList listed other] at list
    cases list
  simp only [hop, there, Option.bind_some, Option.map_eq_some_iff]
  cases found : l.find? (fun e' => decide (e'.name = e.name ∧ e'.fileType = .directory)) with
  | none =>
    exact absurd (by simp [directory]) (List.find?_eq_none.mp found e member)
  | some e' =>
    have hit := List.find?_some found
    simp only [Bool.decide_and, Bool.and_eq_true, decide_eq_true_eq] at hit
    rw [List.inj_on_of_nodup_map (h.lists.names there) (List.mem_of_find?_eq_some found) member hit.1]
    exact ⟨e, rfl, rfl⟩

/-- Between nodes that have lists, the entries and the names give the same paths. -/
theorem hops_of_edges (h : Consistent ns) {a b : UInt64}
    (path : Relation.ReflTransGen (Child ns.edge) a b) (list : (ns.dirEntries b).isSome) :
    Relation.ReflTransGen (Child ns.hop) a b := by
  induction path with
  | refl => exact .refl
  | @tail c b _ step ih =>
    obtain ⟨e, listed, rfl⟩ := child_edge_iff.mp step
    have upper : (ns.dirEntries c).isSome := by
      obtain ⟨l, there, -⟩ := listed
      rw [there]; rfl
    exact (ih upper).tail ⟨_, h.hop_of_listed listed list⟩

end Consistent

/-- Every live inode is below the root. -/
def AllReached (ns : NamespaceManager) : Prop :=
  ∀ i, (ns.inodeTable.inodes i).isSome → Relation.ReflTransGen (Child ns.edge) 1 i

theorem AllReached.isTree {ns : NamespaceManager} (h : Consistent ns) (all : AllReached ns) :
    IsTree ns := by
  refine ⟨fun i live _ => ?_, fun d ks round => ?_⟩
  · obtain ⟨ks, chain⟩ := follow_iff_reaches.mpr (all i live)
    exact ⟨ks, chain, fun ls other => h.rooted_edge.follow_inj other chain⟩
  · cases ks with
    | nil => rfl
    | cons k rest =>
      have live : (ns.inodeTable.inodes d).isSome := by
        simp only [follow, Option.bind_eq_some_iff] at round
        obtain ⟨b, step, -⟩ := round
        obtain ⟨e, listed, -⟩ := child_edge_iff.mp ⟨k, step⟩
        exact h.live_of_listed listed
      obtain ⟨ls, chain⟩ := follow_iff_reaches.mpr (all d live)
      exact h.rooted_edge.no_cycle chain round

section
variable {ns after : NamespaceManager}

/-- A new inode listed in a reached directory. -/
theorem AllReached.grow (all : AllReached ns) (parentId : UInt64) (e : DirEntry) {i : UInt64} {r : Inode}
    (parent : (ns.inodeTable.inodes parentId).isSome)
    (kept : ∀ {d e}, Listed ns.dirEntries d e → Listed after.dirEntries d e)
    (placed : Listed after.dirEntries parentId e) (id : e.inodeId = i)
    (inodes : after.inodeTable.inodes = Function.update ns.inodeTable.inodes i (some r)) :
    AllReached after := by
  have still : ∀ {j}, (ns.inodeTable.inodes j).isSome →
      Relation.ReflTransGen (Child after.edge) 1 j := by
    intro j live
    refine Relation.ReflTransGen.mono (fun a b step => ?_) _ _ (all j live)
    obtain ⟨e, listed, same⟩ := child_edge_iff.mp step
    exact child_edge_iff.mpr ⟨e, kept listed, same⟩
  intro j live
  rcases eq_or_ne j i with rfl | other
  · exact (still parent).tail (child_edge_iff.mpr ⟨e, placed, id⟩)
  · rw [inodes, Function.update_of_ne other] at live
    exact still live

/-- An entry without entries of its own goes, with its inode. -/
theorem AllReached.shrink (all : AllReached ns) (gone : UInt64)
    (kept : ∀ {d e}, Listed ns.dirEntries d e → e.inodeId ≠ gone → d ≠ gone →
      Listed after.dirEntries d e)
    (leaf : (ns.dirEntries gone).getD [] = [])
    (inodes : after.inodeTable.inodes = Function.update ns.inodeTable.inodes gone none) :
    AllReached after := by
  intro j live
  rcases eq_or_ne j gone with rfl | other
  · rw [inodes, Function.update_self] at live; cases live
  · rw [inodes, Function.update_of_ne other] at live
    refine reaches_of_leaf_removed (fun {a b} step target source => ?_) (fun b step => ?_)
      (all j live) other
    · obtain ⟨e, listed, rfl⟩ := child_edge_iff.mp step
      exact child_edge_iff.mpr ⟨e, kept listed target source, rfl⟩
    · obtain ⟨e, ⟨l, there, member⟩, -⟩ := child_edge_iff.mp step
      rw [there] at leaf
      cases leaf; cases member

/-- The parent that a `Rename` resolves is not below the entry it moves. -/
theorem Consistent.outside (h : Consistent ns) {srcPath dstPath : Str} {srcParent dstParent : UInt64}
    {srcName dstName : Str} {srcEntries : List DirEntry} {moving : DirEntry}
    (moves : Moves ns srcPath dstPath srcParent dstParent srcName dstName srcEntries moving)
    (stays : Call.StaysOutside (.rename srcPath dstPath)) (list : (ns.dirEntries dstParent).isSome) :
    ¬ Relation.ReflTransGen (Child ns.edge) moving.inodeId dstParent := by
  intro inside
  have listed : Listed ns.dirEntries srcParent moving :=
    ⟨_, moves.listed, List.mem_of_find?_eq_some moves.found⟩
  have movingList : (ns.dirEntries moving.inodeId).isSome := by
    rcases inside.cases_head with same | ⟨c, step, -⟩
    · rw [same]; exact list
    · obtain ⟨e, ⟨l, there, -⟩, -⟩ := child_edge_iff.mp step
      rw [there]; rfl
  have named : moving.name = srcName := by simpa using List.find?_some moves.found
  have hop := h.hop_of_listed listed movingList
  rw [named] at hop
  have hops := h.hops_of_edges inside list
  rcases resolvePath_cases moves.dst with ⟨-, rfl, -⟩ | ⟨dst, dstChain⟩
  · -- nothing is above the root
    rcases hops.cases_tail with same | ⟨c, -, k, into⟩
    · exact h.lists.root listed same.symm
    · exact h.rooted_hop.entry into
  rcases resolvePath_cases moves.src with ⟨-, rfl, rfl⟩ | ⟨src, srcChain⟩
  · have chain : follow ns.hop 1 [([] : Str)] = some moving.inodeId := by simp [follow, hop]
    obtain ⟨rest, split⟩ := h.rooted_hop.prefix_of_reaches chain dstChain hops
    have empty : ([] : Str) ∈ components dstPath := by rw [dst, ← split]; simp
    exact components_ne_nil empty rfl
  · have chain : follow ns.hop 1 (components srcPath) = some moving.inodeId := by
      rw [src, follow_snoc, srcChain]; exact hop
    obtain ⟨rest, split⟩ := h.rooted_hop.prefix_of_reaches chain dstChain hops
    refine stays ⟨by rw [src]; simp, ⟨rest ++ [dstName], ?_⟩, fun same => ?_⟩
    · rw [dst, ← split, List.append_assoc]
    · have := congrArg List.length dst
      rw [← split, same] at this
      simp at this

/-- What the moved entry's directory and the others keep, and where the entry is now. -/
theorem AllReached.move (all : AllReached ns) (h : Consistent ns) {srcPath dstPath : Str}
    {srcParent dstParent : UInt64} {srcName dstName : Str} {srcEntries dstEntries : List DirEntry}
    {moving : DirEntry} {now : UInt64}
    (moves : Moves ns srcPath dstPath srcParent dstParent srcName dstName srcEntries moving)
    (stays : Call.StaysOutside (.rename srcPath dstPath))
    (there : ns.dropEntry srcParent srcEntries (fun e => e.name = srcName) dstParent = some dstEntries)
    (dirs : after.dirEntries = Function.update
      (ns.dropEntry srcParent srcEntries (fun e => e.name = srcName)) dstParent
      (some (dstEntries ++ [{ moving with name := dstName }])))
    (inodes : after.inodeTable.inodes = ns.renamedInodes now moving.inodeId dstName dstParent) :
    AllReached after := by
  obtain ⟨-, listed⟩ := h.lists.drop moves.listed moves.found
  have here : Listed ns.dirEntries srcParent moving :=
    ⟨_, moves.listed, List.mem_of_find?_eq_some moves.found⟩
  have list : (ns.dirEntries dstParent).isSome := by
    rw [← isSome_dropEntry moves.listed (fun e => e.name = srcName), there]; rfl
  obtain ⟨r, live, -⟩ := (h.keys dstParent).mp list
  have parent := all dstParent (by rw [live]; rfl)
  have kept : ∀ {a b}, Child ns.edge a b → b ≠ moving.inodeId → Child after.edge a b := by
    intro a b step other
    obtain ⟨e, old, rfl⟩ := child_edge_iff.mp step
    have still := (listed a e).mpr ⟨old, other⟩
    refine child_edge_iff.mpr ⟨e, ?_, rfl⟩
    rw [dirs, listed_update]
    rcases eq_or_ne a dstParent with rfl | elsewhere
    · obtain ⟨l, at_a, member⟩ := still
      cases there.symm.trans at_a
      exact .inl ⟨rfl, List.mem_append_left _ member⟩
    · exact .inr ⟨elsewhere, still⟩
  have hung : Child after.edge dstParent moving.inodeId := by
    refine child_edge_iff.mpr ⟨{ moving with name := dstName }, ?_, rfl⟩
    rw [dirs, listed_update]
    exact .inl ⟨rfl, by simp⟩
  have live_iff : ∀ j, (after.inodeTable.inodes j).isSome = (ns.inodeTable.inodes j).isSome := by
    intro j
    obtain ⟨m, alive, -⟩ := h.entry here
    rw [inodes]
    simp only [renamedInodes, alive, h.keyed alive, Option.isSome_some, ↓reduceIte]
    rcases eq_or_ne j moving.inodeId with rfl | other
    · rw [Function.update_self, alive]; rfl
    · rw [Function.update_of_ne other]
  intro j alive
  rw [live_iff] at alive
  exact reaches_of_moved kept (h.outside moves stays list) hung parent (all j alive)

/-- A successful call that moves nothing into itself keeps every live inode reached. -/
theorem AllReached.effect (all : AllReached ns) (h : Consistent ns) {now : UInt64} {call : Call}
    {s : Status} (stays : call.StaysOutside) (effect : Effect ns now call s after) (ok : s = .ok) :
    AllReached after := by
  cases effect with
  | refused status _ => exact absurd ok status
  | @madeDirectory path mode uid gid parentId dirname after resolved _ _ free dirs inodes _ =>
    obtain ⟨l, there⟩ := Option.isSome_iff_exists.mp (h.resolved_isSome resolved)
    obtain ⟨r, live, -⟩ := (h.keys parentId).mp (by rw [there]; rfl)
    obtain ⟨-, noList, -⟩ := h.of_free free
    have apart : parentId ≠ ns.inodeTable.nextInodeId := by
      rintro same
      rw [← same, there] at noList; cases noList
    refine all.grow parentId ⟨dirname, _, .directory⟩ (by rw [live]; rfl) (fun {d e} listed => ?_) ?_ rfl
      inodes
    · have other : d ≠ ns.inodeTable.nextInodeId := by
        rintro rfl
        obtain ⟨l, there, -⟩ := listed
        rw [noList] at there; cases there
      rw [dirs, listed_update, listed_update]
      rcases eq_or_ne d parentId with rfl | elsewhere
      · obtain ⟨l', there', member⟩ := listed
        cases there.symm.trans there'
        exact .inr ⟨other, .inl ⟨rfl, by rw [there]; exact List.mem_append_left _ member⟩⟩
      · exact .inr ⟨other, .inr ⟨elsewhere, listed⟩⟩
    · rw [dirs, listed_update, listed_update]
      exact .inr ⟨apart, .inl ⟨rfl, by simp⟩⟩
  | @madeFile path mode uid gid fileSize parentId filename entries after _ there _ free dirs inodes _ =>
    obtain ⟨r, live, -⟩ := (h.keys parentId).mp (by rw [there]; rfl)
    refine all.grow parentId ⟨filename, _, .regular⟩ (by rw [live]; rfl) (fun {d e} listed => ?_) ?_ rfl
      inodes
    · rw [dirs, listed_update]
      rcases eq_or_ne d parentId with rfl | elsewhere
      · obtain ⟨l', there', member⟩ := listed
        cases there.symm.trans there'
        exact .inl ⟨rfl, List.mem_append_left _ member⟩
      · exact .inr ⟨elsewhere, listed⟩
    · rw [dirs, listed_update]
      exact .inl ⟨rfl, by simp⟩
  | @removedFile path parentId filename entries e after _ there found dirs inodes _ =>
    obtain ⟨-, listed⟩ := h.lists.drop there found
    have hit := List.find?_some found
    simp only [Bool.decide_and, Bool.and_eq_true, decide_eq_true_eq] at hit
    have noList := h.noList ⟨_, there, List.mem_of_find?_eq_some found⟩ (by rw [hit.2]; decide)
    refine all.shrink e.inodeId (fun {d e'} old other _ => ?_) (by rw [noList]; rfl) inodes
    rw [dirs]
    exact (listed d e').mpr ⟨old, other⟩
  | @removedDirectory path parentId dirname entries e after _ there found empty dirs inodes _ =>
    obtain ⟨-, listed⟩ := h.lists.drop there found
    refine all.shrink e.inodeId (fun {d e'} old other source => ?_) empty inodes
    rw [dirs, listed_erase]
    exact ⟨source, (listed d e').mpr ⟨old, other⟩⟩
  | moved moves there _ dirs inodes _ => exact all.move h moves stays there dirs inodes
  | lost _ status _ _ _ =>
    subst ok
    rcases status with status | status <;> cases status

end

theorem allReached_init (now : UInt64) : AllReached (NamespaceManager.init now) := by
  intro i live
  rcases eq_or_ne i 1 with rfl | other
  · exact .refl
  · simp [NamespaceManager.init, InodeTable.init, other] at live

/-- **The namespace stays a tree** in every run of successful calls whose
`Rename`s name no place below their own source. -/
theorem isTree_of_okReachable {ns : NamespaceManager} (run : OkReachable Call.StaysOutside ns) :
    IsTree ns := by
  have all : AllReached ns := by
    induction run with
    | init now => exact allReached_init now
    | step now call before stays ok ih =>
      exact ih.effect before.reachable.consistent stays (exec_effect _ now call) ok
  exact all.isTree run.reachable.consistent

/-- Two directories, one of which is moved into the other. -/
theorem isTree_of_okReachable_rename :
    IsTree ((((init 0).exec 0 (.mkDir ['/', 'a'] 0o755 0 0)).2.exec 0
      (.mkDir ['/', 'b'] 0o755 0 0)).2.exec 0 (.rename ['/', 'a'] ['/', 'b', '/', 'a'])).2 :=
  isTree_of_okReachable (.step 0 _ (.step 0 _ (.step 0 _ (.init 0) trivial (by decide)) trivial
    (by decide)) (by show ¬ _; decide) (by decide))

/-- `/a` moved to `/a/b`: both calls succeed, and the directory hangs below itself. -/
def detached : NamespaceManager :=
  (((init 0).exec 0 (.mkDir ['/', 'a'] 0o755 0 0)).2.exec 0
    (.rename ['/', 'a'] ['/', 'a', '/', 'b'])).2

theorem rename_below_itself_detaches :
    OkReachable (fun _ => True) detached ∧ ¬ IsTree detached := by
  refine ⟨.step 0 _ (.step 0 _ (.init 0) trivial (by decide)) trivial (by decide), fun tree => ?_⟩
  have round : follow detached.edge 2 [0] = some 2 := by decide
  cases tree.noCycle 2 [0] round

end OpenFS.NamespaceManager
