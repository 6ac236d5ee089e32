import OpenFS.Meta.NameTree
import OpenFS.Meta.SubtreeMoves

/-!
# The namespace is a tree of names

`tree` forgets the entry lists and the inode records. Every call, on any path, returns the
status that the tree gives and leaves the tree that the tree's call leaves, as long as inode
ids last; that holds of moves too, also of those that lose what they move.
-/

namespace OpenFS.NamespaceManager

open RootedGraph

/-- The tree that the namespace spells. -/
def tree (ns : NamespaceManager) : NameTree := ⟨ns.binding, ns.inodeTable.nextInodeId⟩

variable {ns after : NamespaceManager} {path : Str} {p : List Str} {n : Str} {d i : UInt64} {type : InodeType}

theorem tree_congr (dirs : after.dirEntries = ns.dirEntries)
    (next : after.inodeTable.nextInodeId = ns.inodeTable.nextInodeId) : after.tree = ns.tree := by
  unfold tree
  rw [binding_congr dirs, next]

/-! ## Where a path leads -/

/-- The path names entry `n` of directory `d`, at the end of the names `p`. -/
structure Located (ns : NamespaceManager) (path : Str) (p : List Str) (n : Str) (d : UInt64) : Prop where
  placed : ns.tree.locate path = .ok (p ++ [n])
  reached : follow ns.hop 1 p = some d
  resolved : ns.resolvePath path = .ok (d, n)

theorem isDir_iff (h : Consistent ns) : ns.tree.IsDir p ↔ ∃ d, follow ns.hop 1 p = some d :=
  (follow_iff_binding h).symm

theorem target_wellFormed (wf : WellFormed path) : NameTree.target path = .ok (components path) := by
  have notRoot : path ≠ ['/'] := by
    rintro rfl
    exact wf.2 (by decide)
  unfold NameTree.target
  rw [if_neg (by simp [wf.1]), if_neg notRoot, if_neg wf.2]

theorem target_of_not_wellFormed (ns : NamespaceManager) (ill : ¬ WellFormed path) (other : path ≠ ['/']) :
    NameTree.target path = .error .invalidArgument ∧ ns.resolvePath path = .error .invalidArgument := by
  unfold NameTree.target resolvePath
  by_cases absolute : path.head? = some '/'
  · have slashes : components path = [] := by
      by_contra named
      exact ill ⟨absolute, named⟩
    rw [if_neg (by simp [absolute]), if_neg other, if_pos slashes, if_neg (by simp [absolute]), if_neg other,
      slashes]
    exact ⟨rfl, rfl⟩
  · rw [if_pos absolute, if_pos absolute]
    exact ⟨rfl, rfl⟩

/-- The resolution of a path and its place in the tree. -/
theorem locate_cases (h : Consistent ns) (path : Str) :
    (∃ s, ns.tree.locate path = .error s ∧ ns.resolvePath path = .error s) ∨
      ∃ p n d, Located ns path p n d ∧ (p ++ [n] = [[]] ↔ n = []) := by
  by_cases root : path = ['/']
  · subst root
    refine .inr ⟨[], [], 1, ⟨?_, rfl, rfl⟩, iff_of_true rfl rfl⟩
    show (if ns.tree.IsDir [] then Except.ok [[]] else .error Status.notFound) = _
    exact if_pos (.inl rfl)
  by_cases wf : WellFormed path
  · obtain ⟨p, n, split⟩ := (List.eq_nil_or_concat' (components path)).resolve_left wf.2
    have placed : ns.tree.locate path =
        if ns.tree.IsDir p then .ok (p ++ [n]) else .error Status.notFound := by
      unfold NameTree.locate
      rw [target_wellFormed wf, split]
      dsimp only
      rw [List.dropLast_concat]
    have resolved := @resolvePath_eq ns _ _ _ wf split
    cases chain : follow ns.hop 1 p with
    | none =>
      have nowhere : ¬ ns.tree.IsDir p := by
        rw [isDir_iff h, chain]
        rintro ⟨_, there⟩
        cases there
      rw [if_neg nowhere] at placed
      rw [chain] at resolved
      exact .inl ⟨_, placed, resolved⟩
    | some d =>
      rw [if_pos ((isDir_iff h).mpr ⟨d, chain⟩)] at placed
      rw [chain] at resolved
      have named := name_ne_nil split
      refine .inr ⟨p, n, d, ⟨placed, chain, resolved⟩, iff_of_false (fun same => ?_) named⟩
      have last := (List.append_inj' (show p ++ [n] = [] ++ [[]] from same) rfl).2
      exact named (List.cons.inj last).1
  · obtain ⟨nowhere, refused⟩ := target_of_not_wellFormed ns wf root
    refine .inl ⟨.invalidArgument, ?_, refused⟩
    unfold NameTree.locate
    rw [nowhere]

namespace Located

variable {l : List DirEntry} (located : Located ns path p n d)

include located

/-- The directory has a list. -/
theorem list (h : Consistent ns) : ∃ l, ns.dirEntries d = some l :=
  Option.isSome_iff_exists.mp (h.resolved_isSome located.resolved)

/-- What the scan of the list finds is what is bound. -/
theorem find (there : ns.dirEntries d = some l) :
    ns.binding (p ++ [n]) = (l.find? fun e => e.name = n).map fun e => (e.inodeId, e.fileType) := by
  rw [binding_snoc, located.reached, Option.bind_some, entryAt, there]
  rfl

theorem find_named (there : ns.dirEntries d = some l) :
    ns.binding (p ++ [n]) ≠ none ↔ l.any (fun e => e.name = n) = true := by
  rw [located.find there, ← Option.isSome_iff_ne_none, Option.isSome_map, List.find?_isSome, List.any_eq_true]

/-- The scan for a name and a type fails exactly if nothing of the type is bound. -/
theorem find_typed (h : Consistent ns) (there : ns.dirEntries d = some l) :
    l.find? (fun e => e.name = n ∧ e.fileType = type) = none ↔ ∀ i, ns.binding (p ++ [n]) ≠ some (i, type) := by
  constructor
  · intro none i bound
    obtain ⟨l', e, there', found, -⟩ := found_of_bound h located.reached bound
    cases there.symm.trans there'
    cases none.symm.trans found
  · intro unbound
    rw [Option.eq_none_iff_forall_ne_some]
    intro e found
    obtain ⟨member, rfl, rfl⟩ := mem_of_found found
    exact unbound e.inodeId ((binding_iff h).mpr ⟨d, located.reached, l, there, member⟩)

end Located

/-! ## Creating -/

variable {now : UInt64} {mode uid gid : UInt32} {size : UInt64}

theorem tree_added (h : Consistent ns) (after_ok : Consistent after) (located : Located ns path p n d)
    (unbound : ns.binding (p ++ [n]) = none) (free : ns.inodeTable.inodes ns.inodeTable.nextInodeId = none)
    (dirs : after.dirEntries = Function.update ns.dirEntries d
        (some ((ns.dirEntries d).getD [] ++ [⟨n, ns.inodeTable.nextInodeId, type⟩])) ∨
      after.dirEntries = Function.update (Function.update ns.dirEntries d
        (some ((ns.dirEntries d).getD [] ++ [⟨n, ns.inodeTable.nextInodeId, type⟩])))
        ns.inodeTable.nextInodeId (some []))
    (next : after.inodeTable.nextInodeId = ns.inodeTable.nextInodeId + 1) :
    after.tree = ns.tree.bind (p ++ [n]) type := by
  have absent := (unbound_iff h located.reached).mp unbound
  unfold tree NameTree.bind
  rw [next, binding_added h after_ok located.reached absent free dirs]

/-- The lists and the counter after a directory was made. -/
theorem mkDir_made (now : UInt64) (mode uid gid : UInt32) (resolved : ns.resolvePath path = .ok (d, n)) (named : n ≠ [])
    (absent : ∀ e ∈ (ns.dirEntries d).getD [], e.name ≠ n)
    (free : ns.inodeTable.inodes ns.inodeTable.nextInodeId = none) :
    (ns.mkDir now path mode uid gid).2.dirEntries = Function.update (Function.update ns.dirEntries d
        (some ((ns.dirEntries d).getD [] ++ [⟨n, ns.inodeTable.nextInodeId, .directory⟩])))
        ns.inodeTable.nextInodeId (some []) ∧
      (ns.mkDir now path mode uid gid).2.inodeTable.nextInodeId = ns.inodeTable.nextInodeId + 1 := by
  have none_there : ¬ ((ns.dirEntries d).getD []).any (fun e => decide (e.name = n)) = true := by
    simpa using absent
  unfold mkDir
  rw [resolved]
  dsimp only
  rw [if_neg named, if_neg none_there]
  simp [InodeTable.allocateInodeId, InodeTable.create, newDirectory, free]

theorem mkDir_tree (h : Consistent ns) (free : ns.inodeTable.inodes ns.inodeTable.nextInodeId = none) :
    statusOf (ns.mkDir now path mode uid gid).1 = (ns.tree.mkDir path).1 ∧
      (ns.mkDir now path mode uid gid).2.tree = (ns.tree.mkDir path).2 := by
  have after_ok := h.effect (mkDir_effect ns now path mode uid gid)
  unfold NameTree.mkDir
  rcases locate_cases h path with ⟨s, nowhere, refused⟩ | ⟨p, n, d, located, unnamed⟩
  · unfold mkDir
    rw [nowhere, refused]
    exact ⟨rfl, rfl⟩
  obtain ⟨l, there⟩ := located.list h
  rw [located.placed]
  dsimp only
  by_cases taken : p ++ [n] = [[]] ∨ ns.tree.bound (p ++ [n]) ≠ none
  · rw [if_pos taken]
    have same : ns.mkDir now path mode uid gid = (.error .alreadyExists, ns) := by
      unfold mkDir
      rw [located.resolved]
      dsimp only
      rw [there, Option.getD_some]
      by_cases nameless : n = []
      · rw [if_pos nameless]
      · rw [if_neg nameless, if_pos ((located.find_named there).mp (taken.resolve_left
          fun root => nameless (unnamed.mp root)))]
    rw [same]
    exact ⟨rfl, rfl⟩
  · rw [if_neg taken]
    obtain ⟨named, unbound⟩ := not_or.mp taken
    have named : n ≠ [] := fun nameless => named (unnamed.mpr nameless)
    have absent := (unbound_iff h located.reached).mp (not_not.mp unbound)
    obtain ⟨dirs, next⟩ := mkDir_made now mode uid gid located.resolved named absent free
    refine ⟨?_, tree_added h after_ok located (not_not.mp unbound) free (.inr dirs) next⟩
    rw [mkDir_ok now mode uid gid located.resolved named absent free, statusOf_ok]

theorem createFile_made (now : UInt64) (mode uid gid : UInt32) (size : UInt64) {l : List DirEntry}
    (resolved : ns.resolvePath path = .ok (d, n)) (there : ns.dirEntries d = some l) (absent : ∀ e ∈ l, e.name ≠ n)
    (free : ns.inodeTable.inodes ns.inodeTable.nextInodeId = none) :
    (ns.createFile now path mode uid gid size).2.dirEntries = Function.update ns.dirEntries d
        (some (l ++ [⟨n, ns.inodeTable.nextInodeId, .regular⟩])) ∧
      (ns.createFile now path mode uid gid size).2.inodeTable.nextInodeId = ns.inodeTable.nextInodeId + 1 := by
  have none_there : ¬ l.any (fun e => decide (e.name = n)) = true := by
    simpa using absent
  unfold createFile
  rw [resolved]
  dsimp only
  rw [there]
  dsimp only
  rw [if_neg none_there]
  simp [InodeTable.allocateInodeId, InodeTable.create, newRegular, free]

theorem createFile_tree (h : Consistent ns) (free : ns.inodeTable.inodes ns.inodeTable.nextInodeId = none) :
    statusOf (ns.createFile now path mode uid gid size).1 = (ns.tree.createFile path).1 ∧
      (ns.createFile now path mode uid gid size).2.tree = (ns.tree.createFile path).2 := by
  have after_ok := h.effect (createFile_effect ns now path mode uid gid size)
  unfold NameTree.createFile
  rcases locate_cases h path with ⟨s, nowhere, refused⟩ | ⟨p, n, d, located, -⟩
  · unfold createFile
    rw [nowhere, refused]
    exact ⟨rfl, rfl⟩
  obtain ⟨l, there⟩ := located.list h
  rw [located.placed]
  dsimp only
  by_cases taken : ns.tree.bound (p ++ [n]) ≠ none
  · rw [if_pos taken]
    have same : ns.createFile now path mode uid gid size = (.error .alreadyExists, ns) := by
      unfold createFile
      rw [located.resolved]
      dsimp only
      rw [there]
      dsimp only
      rw [if_pos ((located.find_named there).mp taken)]
    rw [same]
    exact ⟨rfl, rfl⟩
  · rw [if_neg taken]
    have unbound : ns.binding (p ++ [n]) = none := not_not.mp taken
    have absent : ∀ e ∈ l, e.name ≠ n := by
      have absent := (unbound_iff h located.reached).mp unbound
      rwa [there] at absent
    obtain ⟨dirs, next⟩ := createFile_made now mode uid gid size located.resolved there absent free
    refine ⟨?_, tree_added h after_ok located unbound free (.inl (by rw [dirs, there]; rfl)) next⟩
    rw [createFile_ok now mode uid gid size located.resolved there absent free, statusOf_ok]

/-! ## Removing -/

theorem tree_removed (h : Consistent ns) (after_ok : Consistent after) (located : Located ns path p n d)
    {l : List DirEntry} {e : DirEntry} (there : ns.dirEntries d = some l)
    (found : l.find? (fun e => e.name = n ∧ e.fileType = type) = some e)
    (leaf : type = .directory → ∀ e', ¬ Listed ns.dirEntries e.inodeId e')
    (listed : ∀ a e', Listed after.dirEntries a e' ↔ Listed ns.dirEntries a e' ∧ e'.inodeId ≠ e.inodeId)
    (next : after.inodeTable.nextInodeId = ns.inodeTable.nextInodeId) :
    after.tree = ns.tree.unbind (p ++ [n]) := by
  unfold tree NameTree.unbind
  rw [next, binding_removed h after_ok located.reached there found leaf listed]

theorem deleteFile_tree (h : Consistent ns) :
    (ns.deleteFile path).1 = (ns.tree.deleteFile path).1 ∧
      (ns.deleteFile path).2.tree = (ns.tree.deleteFile path).2 := by
  have after_ok := h.effect (deleteFile_effect ns 0 path)
  unfold NameTree.deleteFile
  rcases locate_cases h path with ⟨s, nowhere, refused⟩ | ⟨p, n, d, located, -⟩
  · unfold deleteFile
    rw [nowhere, refused]
    exact ⟨rfl, rfl⟩
  obtain ⟨l, there⟩ := located.list h
  rw [located.placed]
  dsimp only
  cases found : l.find? fun e => e.name = n ∧ e.fileType = .regular with
  | none =>
    have unbound := (located.find_typed h there).mp found
    have same : ns.deleteFile path = (.notFound, ns) := by
      unfold deleteFile
      rw [located.resolved]
      dsimp only
      rw [there]
      dsimp only
      rw [found]
    rw [same]
    split
    · next i bound => exact absurd bound (unbound i)
    · exact ⟨rfl, rfl⟩
  | some e =>
    obtain ⟨member, name, kind⟩ := mem_of_found found
    have bound : ns.tree.bound (p ++ [n]) = some (e.inodeId, .regular) := by
      refine (binding_iff h).mpr ⟨d, located.reached, l, there, ?_⟩
      rw [← name, ← kind]
      exact member
    have same : ns.deleteFile path =
        (.ok, { dirEntries := ns.dropEntry d l fun e => e.name = n ∧ e.fileType = .regular,
                inodeTable := (ns.inodeTable.delete e.inodeId).2 }) := by
      unfold deleteFile
      rw [located.resolved]
      dsimp only
      rw [there]
      dsimp only
      rw [found]
      rfl
    rw [same] at after_ok ⊢
    rw [bound]
    exact ⟨rfl, tree_removed h after_ok located there found nofun (h.lists.drop there found).2
      (InodeTable.delete_nextInodeId _ _)⟩

theorem rmDir_tree (h : Consistent ns) :
    (ns.rmDir path).1 = (ns.tree.rmDir path).1 ∧ (ns.rmDir path).2.tree = (ns.tree.rmDir path).2 := by
  have after_ok := h.effect (rmDir_effect ns 0 path)
  unfold NameTree.rmDir
  by_cases root : path = ['/']
  · unfold rmDir
    rw [if_pos root, if_pos root]
    exact ⟨rfl, rfl⟩
  rw [if_neg root]
  rcases locate_cases h path with ⟨s, nowhere, refused⟩ | ⟨p, n, d, located, -⟩
  · unfold rmDir
    rw [if_neg root, nowhere, refused]
    exact ⟨rfl, rfl⟩
  obtain ⟨l, there⟩ := located.list h
  rw [located.placed]
  dsimp only
  cases found : l.find? fun e => e.name = n ∧ e.fileType = .directory with
  | none =>
    have unbound := (located.find_typed h there).mp found
    have same : ns.rmDir path = (.notFound, ns) := by
      unfold rmDir
      rw [if_neg root, located.resolved]
      dsimp only
      rw [there]
      dsimp only
      rw [found]
    rw [same]
    split
    · next i bound => exact absurd bound (unbound i)
    · exact ⟨rfl, rfl⟩
  | some e =>
    obtain ⟨member, name, kind⟩ := mem_of_found found
    have bound : ns.tree.bound (p ++ [n]) = some (e.inodeId, .directory) := by
      refine (binding_iff h).mpr ⟨d, located.reached, l, there, ?_⟩
      rw [← name, ← kind]
      exact member
    have result : ns.rmDir path = if (ns.dirEntries e.inodeId).getD [] ≠ [] then (.notEmpty, ns)
        else (.ok, { dirEntries := Function.update
                       (ns.dropEntry d l fun e => e.name = n ∧ e.fileType = .directory) e.inodeId none,
                     inodeTable := (ns.inodeTable.delete e.inodeId).2 }) := by
      unfold rmDir
      rw [if_neg root, located.resolved]
      dsimp only
      rw [there]
      dsimp only
      rw [found]
      rfl
    have empty := empty_iff h bound
    rw [bound]
    dsimp only
    by_cases leaf : ns.tree.IsEmpty (p ++ [n])
    · rw [if_neg (not_not.mpr (empty.mpr leaf))] at result
      rw [result] at after_ok ⊢
      rw [if_pos leaf]
      have nothing : ∀ e', ¬ Listed ns.dirEntries e.inodeId e' := by
        rintro e' ⟨k, at_e, inside⟩
        have none := empty.mpr leaf
        rw [at_e, Option.getD_some] at none
        rw [none] at inside
        cases inside
      refine ⟨rfl, tree_removed h after_ok located there found (fun _ => nothing) (fun a e' => ?_)
        (InodeTable.delete_nextInodeId _ _)⟩
      rw [listed_erase, (h.lists.drop there found).2, and_iff_right_of_imp]
      rintro ⟨old, -⟩ rfl
      exact nothing e' old
    · rw [if_pos fun none => leaf (empty.mp none)] at result
      rw [result, if_neg leaf]
      exact ⟨rfl, rfl⟩

/-! ## Moving -/

/-- The node with the id, if there is one. -/
def nodeOf (ns : NamespaceManager) (i : UInt64) : Option (UInt64 × InodeType) :=
  (ns.inodeTable.inodes i).map fun r => (i, r.fileType)

/-- The bindings are what the chains lead to. -/
theorem binding_eq_follow (h : Consistent ns) {c : List Str} (named : c ≠ []) :
    ns.binding c = (follow ns.nodeAt 1 c).bind ns.nodeOf := by
  cases bound : ns.binding c with
  | none =>
    cases chain : follow ns.nodeAt 1 c with
    | none => rfl
    | some i =>
      obtain ⟨t, there⟩ := (binding_iff_follow h named).mpr chain
      cases bound.symm.trans there
  | some node =>
    obtain ⟨i, t⟩ := node
    rw [(binding_iff_follow h named).mp ⟨t, bound⟩, Option.bind_some]
    obtain ⟨p, n, rfl⟩ := (List.eq_nil_or_concat' c).resolve_left named
    obtain ⟨d, -, listed⟩ := (binding_iff h).mp bound
    obtain ⟨r, live, type, -⟩ := h.entry listed
    unfold nodeOf
    rw [live, Option.map_some, type]

/-- The inodes that there are keep their types. -/
theorem nodeOf_moved (h : Consistent ns) {m : UInt64} (inodes : after.inodeTable.inodes = ns.renamedInodes now m n d)
    (i : UInt64) : after.nodeOf i = ns.nodeOf i := by
  have same := (get_moved h inodes i).1
  have live : ∀ {ns : NamespaceManager} {r}, ns.inodeTable.get i = .ok r → ns.nodeOf i = some (i, r.fileType) := by
    intro ns r found
    unfold nodeOf
    rw [InodeTable.get_eq_ok.mp found, Option.map_some]
  have missing : ∀ {ns : NamespaceManager} {s}, ns.inodeTable.get i = .error s → ns.nodeOf i = none := by
    intro ns s found
    unfold nodeOf
    cases live : ns.inodeTable.inodes i with
    | none => rw [Option.map_none]
    | some r => cases found.symm.trans (InodeTable.get_eq_ok.mpr live)
  cases was : ns.inodeTable.get i with
  | error s =>
    cases is : after.inodeTable.get i with
    | error s' => rw [missing was, missing is]
    | ok r' =>
      rw [was, is] at same
      exact same.elim
  | ok r =>
    cases is : after.inodeTable.get i with
    | error s' =>
      rw [was, is] at same
      exact same.elim
    | ok r' =>
      rw [was, is] at same
      rw [live was, live is, same.2.2]

section
variable {q : List Str} {k l : Str} {a b : UInt64} {src dst : Str} {srcEntries dstEntries : List DirEntry}
  {moving : DirEntry}

theorem binding_pruned (h : Consistent ns) (after_ok : Consistent after)
    (chains : follow after.nodeAt 1 = prune (p ++ [k]) (follow ns.nodeAt 1))
    (nodes : ∀ i, after.nodeOf i = ns.nodeOf i) : after.binding = prune (p ++ [k]) ns.binding := by
  funext c
  by_cases none : c = []
  · subst none
    rw [prune_apart (by simp)]
    rfl
  · rw [prune_congr (fun r => binding_eq_follow h) none, prune_bind, ← chains, binding_eq_follow after_ok none]
    congr 1
    funext i
    exact nodes i

theorem binding_grafted (h : Consistent ns) (after_ok : Consistent after)
    (chains : follow after.nodeAt 1 = graft (p ++ [k]) (q ++ [l]) (follow ns.nodeAt 1))
    (nodes : ∀ i, after.nodeOf i = ns.nodeOf i) : after.binding = graft (p ++ [k]) (q ++ [l]) ns.binding := by
  funext c
  by_cases none : c = []
  · subst none
    rw [graft_apart (by simp), prune_apart (by simp)]
    rfl
  · rw [graft_congr (fun r => binding_eq_follow h) none (by simp), graft_bind, ← chains,
      binding_eq_follow after_ok none]
    congr 1
    funext i
    exact nodes i

/-- The entry that was taken out is an edge less. -/
theorem severed_drop (h : Consistent ns) (after_ok : Consistent after)
    (moves : Moves ns src dst a b k l srcEntries moving)
    (dirs : after.dirEntries = ns.dropEntry a srcEntries (fun e => e.name = k)) :
    Severed ns.nodeAt after.nodeAt a k moving.inodeId := by
  obtain ⟨-, listed⟩ := h.lists.drop moves.listed moves.found
  have here : Listed ns.dirEntries a moving := ⟨_, moves.listed, List.mem_of_find?_eq_some moves.found⟩
  have named : moving.name = k := by
    have hit := List.find?_some moves.found
    rwa [decide_eq_true_eq] at hit
  refine ⟨(nodeAt_iff h).mpr ⟨moving.fileType, by rw [← named]; exact here⟩, ?_, fun c j other _ => ?_⟩
  · apply nodeAt_eq_none after_ok
    intro i t still
    rw [dirs] at still
    obtain ⟨⟨es, at_a, member⟩, different⟩ := (listed _ _).mp still
    cases moves.listed.symm.trans at_a
    apply different
    rw [List.inj_on_of_nodup_map (h.lists.names moves.listed) (List.mem_of_find?_eq_some moves.found) member named]
  · apply Option.ext
    intro i
    rw [nodeAt_iff after_ok, nodeAt_iff h, dirs]
    refine exists_congr fun t => (listed _ _).trans (and_iff_left_of_imp fun old same => ?_)
    obtain ⟨rfl, same⟩ := h.lists.entry_unique old here same
    rw [← same] at named
    exact other ⟨rfl, named⟩

/-- The new name is taken by another entry. -/
theorem taken_iff (h : Consistent ns) (moves : Moves ns src dst a b k l srcEntries moving)
    (source : follow ns.hop 1 p = some a) (target : follow ns.hop 1 q = some b)
    (there : ns.dropEntry a srcEntries (fun e => e.name = k) b = some dstEntries) :
    dstEntries.any (fun e => e.name = l) = true ↔ p ++ [k] ≠ q ++ [l] ∧ ns.binding (q ++ [l]) ≠ none := by
  obtain ⟨-, listed⟩ := h.lists.drop moves.listed moves.found
  have here : Listed ns.dirEntries a moving := ⟨_, moves.listed, List.mem_of_find?_eq_some moves.found⟩
  have named : moving.name = k := by
    have hit := List.find?_some moves.found
    rwa [decide_eq_true_eq] at hit
  constructor
  · intro taken
    obtain ⟨e, member, name⟩ := List.any_eq_true.mp taken
    obtain rfl : e.name = l := of_decide_eq_true name
    obtain ⟨old, different⟩ := (listed b e).mp ⟨dstEntries, there, member⟩
    have bound : ns.binding (q ++ [e.name]) = some (e.inodeId, e.fileType) :=
      (binding_iff h).mpr ⟨b, target, old⟩
    refine ⟨fun same => different ?_, by rw [bound]; simp⟩
    obtain ⟨rfl, last⟩ := List.append_inj' same rfl
    obtain rfl := (List.cons.inj last).1
    cases source.symm.trans target
    obtain ⟨es, at_a, inside⟩ := old
    cases moves.listed.symm.trans at_a
    rw [List.inj_on_of_nodup_map (h.lists.names moves.listed) inside
      (List.mem_of_find?_eq_some moves.found) named.symm]
  · rintro ⟨different, bound⟩
    obtain ⟨⟨i, t⟩, bound⟩ := Option.ne_none_iff_exists'.mp bound
    obtain ⟨d, reached, old⟩ := (binding_iff h).mp bound
    cases target.symm.trans reached
    have other : i ≠ moving.inodeId := by
      intro same
      obtain ⟨rfl, rfl⟩ := h.lists.entry_unique old here same
      rw [h.rooted_hop.follow_inj source target] at different
      exact different (by rw [← named])
    obtain ⟨es, at_b, member⟩ := (listed b ⟨l, i, t⟩).mpr ⟨old, other⟩
    cases there.symm.trans at_b
    exact List.any_eq_true.mpr ⟨_, member, decide_eq_true rfl⟩

/-- What is left when the new name is free. -/
structure Hung (ns after : NamespaceManager) (now : UInt64) (a b : UInt64) (k l : Str)
    (srcEntries dstEntries : List DirEntry) (moving : DirEntry) : Prop where
  dirs : after.dirEntries = Function.update (ns.dropEntry a srcEntries (fun e => e.name = k)) b
    (some (dstEntries ++ [{ moving with name := l }]))
  inodes : after.inodeTable.inodes = ns.renamedInodes now moving.inodeId l b
  next : after.inodeTable.nextInodeId = ns.inodeTable.nextInodeId

theorem rename_taken (moves : Moves ns src dst a b k l srcEntries moving)
    (there : ns.dropEntry a srcEntries (fun e => e.name = k) b = some dstEntries)
    (taken : dstEntries.any (fun e => e.name = l) = true) :
    ns.rename now src dst =
      (.alreadyExists, { ns with dirEntries := ns.dropEntry a srcEntries (fun e => e.name = k) }) := by
  unfold dropEntry at there ⊢
  unfold rename
  rw [moves.src, moves.dst]
  dsimp only
  rw [moves.listed]
  dsimp only
  rw [moves.found]
  dsimp only
  rw [there]
  dsimp only
  rw [if_pos taken]

theorem rename_free (now : UInt64) (moves : Moves ns src dst a b k l srcEntries moving)
    (there : ns.dropEntry a srcEntries (fun e => e.name = k) b = some dstEntries)
    (free : ¬ dstEntries.any (fun e => e.name = l) = true) :
    (ns.rename now src dst).1 = .ok ∧
      Hung ns (ns.rename now src dst).2 now a b k l srcEntries dstEntries moving := by
  have effect := rename_effect ns now src dst
  generalize result : ns.rename now src dst = r at effect ⊢
  unfold rename at result
  rw [moves.src, moves.dst] at result
  dsimp only at result
  rw [moves.listed] at result
  dsimp only at result
  rw [moves.found] at result
  dsimp only at result
  unfold dropEntry at there
  rw [there] at result
  dsimp only at result
  rw [if_neg free] at result
  split at result
  · next gone =>
    subst result
    refine ⟨rfl, rfl, ?_, rfl⟩
    have dead : ns.inodeTable.inodes moving.inodeId = none := by
      unfold InodeTable.get at gone
      split at gone
      · cases gone
      · assumption
    simp [renamedInodes, dead]
  · next inode live =>
    subst result
    refine ⟨rfl, rfl, ?_, InodeTable.update_nextInodeId _ _⟩
    simp [renamedInodes, InodeTable.get_eq_ok.mp live, InodeTable.update_inodes, renamed]

end

theorem rename_tree (h : Consistent ns) {src dst : Str} :
    (ns.rename now src dst).1 = (ns.tree.rename src dst).1 ∧
      (ns.rename now src dst).2.tree = (ns.tree.rename src dst).2 := by
  have after_ok := h.effect (rename_effect ns now src dst)
  unfold NameTree.rename
  rcases locate_cases h src with ⟨s, nowhere, refused⟩ | ⟨p, k, a, source, -⟩
  · unfold rename
    rw [nowhere, refused]
    exact ⟨rfl, rfl⟩
  rw [source.placed]
  dsimp only
  rcases locate_cases h dst with ⟨s, nowhere, refused⟩ | ⟨q, l, b, target, -⟩
  · unfold rename
    rw [source.resolved, nowhere]
    dsimp only
    rw [refused]
    exact ⟨rfl, rfl⟩
  rw [target.placed]
  dsimp only
  obtain ⟨srcEntries, listed⟩ := source.list h
  have scanned := source.find listed
  cases found : srcEntries.find? fun e => e.name = k with
  | none =>
    rw [found, Option.map_none] at scanned
    have same : ns.rename now src dst = (.notFound, ns) := by
      unfold rename
      rw [source.resolved, target.resolved]
      dsimp only
      rw [listed]
      dsimp only
      rw [found]
    have unbound : ns.tree.bound (p ++ [k]) = none := scanned
    rw [same, if_pos unbound]
    exact ⟨rfl, rfl⟩
  | some moving =>
    rw [found, Option.map_some] at scanned
    have bound : ¬ ns.tree.bound (p ++ [k]) = none := by
      rw [show ns.tree.bound (p ++ [k]) = _ from scanned]
      simp
    rw [if_neg bound]
    have moves : Moves ns src dst a b k l srcEntries moving :=
      ⟨source.resolved, target.resolved, listed, found⟩
    obtain ⟨dstEntries, there⟩ : ∃ es, ns.dropEntry a srcEntries (fun e => e.name = k) b = some es := by
      rw [← Option.isSome_iff_exists, isSome_dropEntry listed]
      exact h.resolved_isSome target.resolved
    have taken : dstEntries.any (fun e => e.name = l) = true ↔
        p ++ [k] ≠ q ++ [l] ∧ ns.tree.bound (q ++ [l]) ≠ none :=
      taken_iff h moves source.reached target.reached there
    have source_node := (follow_hop_iff h (by rw [listed]; rfl)).mp source.reached
    have target_node := (follow_hop_iff h (h.resolved_isSome target.resolved)).mp target.reached
    have rooted := rooted_nodeAt h
    by_cases blocked : dstEntries.any (fun e => e.name = l) = true
    · -- the source is out, and the name is another's
      rw [if_pos (taken.mp blocked)]
      rw [rename_taken moves there blocked] at after_ok ⊢
      refine ⟨rfl, ?_⟩
      have chains := (severed_drop h after_ok moves rfl).follow_eq rooted source_node
      unfold tree NameTree.moved
      obtain ⟨different, other⟩ := taken.mp blocked
      rw [binding_pruned h after_ok chains fun _ => rfl, if_neg]
      rintro (same | ⟨none, -⟩)
      · exact different same
      · exact other none
    · obtain ⟨status, hung⟩ := rename_free now moves there blocked
      rw [if_neg fun both => blocked (taken.mpr both), status]
      refine ⟨rfl, ?_⟩
      generalize (ns.rename now src dst).2 = after at after_ok hung ⊢
      have moved := moved_nodeAt h after_ok moves there (absent_of_any blocked) hung.dirs
      have nodes := nodeOf_moved h hung.inodes
      unfold tree NameTree.moved
      rw [hung.next]
      by_cases below : p ++ [k] <+: q
      · -- the source hangs below itself
        have cut : Severed ns.nodeAt after.nodeAt a k moving.inodeId := by
          obtain ⟨r, split⟩ := below
          have chain := target_node
          rw [← split, follow_append, follow_snoc, source_node, Option.bind_some, moved.was,
            Option.bind_some] at chain
          have other : ¬ (b = a ∧ l = k) := by
            rintro ⟨rfl, -⟩
            have longer := congrArg List.length (rooted.follow_inj source_node target_node)
            rw [← split] at longer
            simp at longer
          refine ⟨moved.was, moved.cut other, fun c j apart outside => moved.others c j apart ?_⟩
          rintro ⟨rfl, -⟩
          exact outside r chain
        rw [binding_pruned h after_ok (cut.follow_eq rooted source_node) nodes, if_neg]
        rintro (same | ⟨-, outside⟩)
        · rw [(List.append_inj' same rfl).1] at below
          exact Moved.not_prefix_self q k below
        · exact outside (below.trans (List.prefix_append q [l]))
      · rw [binding_grafted h after_ok (moved.follow_eq rooted source_node target_node below) nodes, if_pos]
        by_cases same : p ++ [k] = q ++ [l]
        · exact .inl same
        · refine .inr ⟨?_, ?_⟩
          · by_contra bound
            exact blocked (taken.mpr ⟨same, bound⟩)
          · rw [List.prefix_concat_iff]
            rintro (equal | inside)
            · exact same equal
            · exact below inside

/-- **One call, on any path**: the tree says the status and what is left. -/
theorem exec_tree (h : Consistent ns) (now : UInt64) (call : Call)
    (free : call.creates = true → ns.inodeTable.inodes ns.inodeTable.nextInodeId = none) :
    (ns.exec now call).1 = (ns.tree.exec call).1 ∧ (ns.exec now call).2.tree = (ns.tree.exec call).2 := by
  cases call with
  | mkDir => exact mkDir_tree h (free rfl)
  | createFile => exact createFile_tree h (free rfl)
  | deleteFile => exact deleteFile_tree h
  | rmDir => exact rmDir_tree h
  | rename => exact rename_tree h

end OpenFS.NamespaceManager
