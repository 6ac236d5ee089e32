import OpenFS.Meta.PathMap

/-!
# The calls refine the map of paths

Each call on a well-formed path does to the namespace what its name says does to
the map of bindings: it succeeds exactly where the map allows it, changes the one
binding, and leaves all others alone.
-/

namespace OpenFS.NamespaceManager

open RootedGraph

/-- An absolute path with at least one component. -/
def WellFormed (path : Str) : Prop := path.head? = some '/' ∧ components path ≠ []

/-- The parent is the root or bound to a directory. -/
def ParentBound (ns : NamespaceManager) (c : List Str) : Prop :=
  c.dropLast = [] ∨ ∃ i, ns.binding c.dropLast = some (i, .directory)

/-- No binding leads to the inode, and it is not the root. -/
def FreshId (ns : NamespaceManager) (i : UInt64) : Prop := i ≠ 1 ∧ ∀ c t, ns.binding c ≠ some (i, t)

/-- The call binds `c` to a fresh node of type `t`, where `c` is free below a directory. -/
structure Gains (ns : NamespaceManager) (c : List Str) (t : InodeType)
    (r : Except Status Inode × NamespaceManager) : Prop where
  status : (∃ inode, r.1 = .ok inode) ↔ ns.ParentBound c ∧ ns.binding c = none
  bound : ∀ inode, r.1 = .ok inode →
    r.2.binding = Function.update ns.binding c (some (inode.inodeId, t)) ∧ ns.FreshId inode.inodeId
  kept : ∀ s, r.1 = .error s → r.2.binding = ns.binding

/-- The call unbinds `c`, where that is removable. -/
structure Loses (ns : NamespaceManager) (c : List Str) (removable : Prop)
    (r : Status × NamespaceManager) : Prop where
  status : r.1 = .ok ↔ removable
  unbound : r.1 = .ok → r.2.binding = Function.update ns.binding c none
  kept : r.1 ≠ .ok → r.2.binding = ns.binding

/-- What the calls on one path do to the map, and read from it. -/
structure Simulates (ns : NamespaceManager) (now : UInt64) (path : Str) : Prop where
  mkDir : ∀ mode uid gid, Gains ns (components path) .directory (ns.mkDir now path mode uid gid)
  createFile : ∀ mode uid gid size,
    Gains ns (components path) .regular (ns.createFile now path mode uid gid size)
  deleteFile : Loses ns (components path) (∃ i, ns.binding (components path) = some (i, .regular))
    (ns.deleteFile path)
  rmDir : Loses ns (components path) (∃ i, ns.binding (components path) = some (i, .directory) ∧
    ∀ q, q ≠ [] → ns.binding (components path ++ q) = none) (ns.rmDir path)
  lookup : (∃ inode, ns.lookup path = .ok inode) ↔ ns.binding (components path) ≠ none
  stored : ∀ inode, ns.lookup path = .ok inode →
    ns.binding (components path) = some (inode.inodeId, inode.fileType) ∧
      ns.inodeTable.inodes inode.inodeId = some inode
  readDir : ∀ i, ns.binding (components path) = some (i, .directory) → ∃ entries,
    ns.readDir path = .ok entries ∧ (entries.map DirEntry.name).Nodup ∧
      ∀ m j t, ⟨m, j, t⟩ ∈ entries ↔ ns.binding (components path ++ [m]) = some (j, t)

section
variable {ns : NamespaceManager} {path : Str} {p : List Str} {n : Str}

theorem resolvePath_eq (wf : WellFormed path) (split : components path = p ++ [n]) :
    ns.resolvePath path =
      match follow ns.hop 1 p with
      | some d => .ok (d, n)
      | none => .error .notFound := by
  have notRoot : path ≠ ['/'] := by
    rintro rfl
    exact wf.2 (by decide)
  unfold resolvePath
  rw [if_neg (by simp [wf.1]), if_neg notRoot, split, List.getLast?_concat, List.dropLast_concat]
  dsimp only
  cases walked : ns.walk 1 p with
  | ok d => rw [walk_iff_follow.mp walked]
  | error s =>
    cases chain : follow ns.hop 1 p with
    | none => rw [walk_error walked]
    | some d => cases walked.symm.trans (walk_iff_follow.mpr chain)

theorem resolvePath_ok_iff (wf : WellFormed path) (split : components path = p ++ [n]) {d : UInt64} {m : Str} :
    ns.resolvePath path = .ok (d, m) ↔ follow ns.hop 1 p = some d ∧ m = n := by
  rw [resolvePath_eq wf split]
  cases follow ns.hop 1 p with
  | none => simp
  | some x => simp [eq_comm]

theorem name_ne_nil (split : components path = p ++ [n]) : n ≠ [] :=
  @components_ne_nil path _ (by rw [split]; simp)

theorem parentBound_iff (h : Consistent ns) (split : components path = p ++ [n]) :
    ns.ParentBound (components path) ↔ ∃ d, follow ns.hop 1 p = some d := by
  unfold ParentBound
  rw [split, List.dropLast_concat, follow_iff_binding h]

/-- What is not bound is not in the list. -/
theorem unbound_iff (h : Consistent ns) {d : UInt64} (reached : follow ns.hop 1 p = some d) :
    ns.binding (p ++ [n]) = none ↔ ∀ e ∈ (ns.dirEntries d).getD [], e.name ≠ n := by
  rw [Option.eq_none_iff_forall_ne_some]
  constructor
  · rintro free e member rfl
    refine free (e.inodeId, e.fileType) ((binding_iff h).mpr ⟨d, reached, ?_⟩)
    cases there : ns.dirEntries d with
    | none => simp [there] at member
    | some l => exact ⟨l, there, by simpa [there] using member⟩
  · rintro absent ⟨i, t⟩ bound
    obtain ⟨d', reached', l, there, member⟩ := (binding_iff h).mp bound
    cases reached.symm.trans reached'
    exact absent _ (by rw [there]; exact member) rfl

theorem fresh_of_free (h : Consistent ns) {i : UInt64} (free : ns.inodeTable.inodes i = none) : ns.FreshId i := by
  obtain ⟨notRoot, -, fresh⟩ := h.of_free free
  refine ⟨notRoot, fun c t bound => ?_⟩
  rcases List.eq_nil_or_concat' c with rfl | ⟨q, m, rfl⟩
  · cases bound
  · obtain ⟨d, -, listed⟩ := (binding_iff h).mp bound
    exact fresh listed rfl

/-- The lists after an entry was added, and an empty list for a new directory. -/
theorem listed_added {after : NamespaceManager} (h : Consistent ns) {parentId i : UInt64} {t : InodeType}
    (free : ns.inodeTable.inodes i = none) (parent : (ns.dirEntries parentId).isSome)
    (dirs : after.dirEntries = Function.update ns.dirEntries parentId
        (some ((ns.dirEntries parentId).getD [] ++ [⟨n, i, t⟩])) ∨
      after.dirEntries = Function.update (Function.update ns.dirEntries parentId
        (some ((ns.dirEntries parentId).getD [] ++ [⟨n, i, t⟩]))) i (some []))
    (a : UInt64) (e : DirEntry) :
    Listed after.dirEntries a e ↔ Listed ns.dirEntries a e ∨ (a = parentId ∧ e = ⟨n, i, t⟩) := by
  obtain ⟨l, there⟩ := Option.isSome_iff_exists.mp parent
  have noList := (h.of_free free).2.1
  have added : Listed (Function.update ns.dirEntries parentId
      (some ((ns.dirEntries parentId).getD [] ++ [⟨n, i, t⟩]))) a e ↔
      Listed ns.dirEntries a e ∨ (a = parentId ∧ e = ⟨n, i, t⟩) := by
    rw [listed_update, there, Option.getD_some, List.mem_append, List.mem_singleton]
    constructor
    · rintro (⟨rfl, old | new⟩ | ⟨-, old⟩)
      · exact .inl ⟨l, there, old⟩
      · exact .inr ⟨rfl, new⟩
      · exact .inl old
    · rintro (⟨k, at_a, member⟩ | ⟨rfl, new⟩)
      · by_cases same : a = parentId
        · subst same
          cases there.symm.trans at_a
          exact .inl ⟨rfl, .inl member⟩
        · exact .inr ⟨same, k, at_a, member⟩
      · exact .inl ⟨rfl, .inr new⟩
  rcases dirs with dirs | dirs
  · rw [dirs, added]
  · rw [dirs, listed_update, added]
    constructor
    · rintro (⟨-, member⟩ | ⟨-, kept⟩)
      · cases member
      · exact kept
    · intro kept
      refine .inr ⟨?_, kept⟩
      rintro rfl
      rcases kept with ⟨k, at_a, -⟩ | ⟨rfl, -⟩
      · cases noList.symm.trans at_a
      · cases noList.symm.trans there

/-! ## Creating -/

theorem mkDir_ok (now : UInt64) (mode uid gid : UInt32) {d : UInt64}
    (resolved : ns.resolvePath path = .ok (d, n)) (named : n ≠ [])
    (absent : ∀ e ∈ (ns.dirEntries d).getD [], e.name ≠ n)
    (free : ns.inodeTable.inodes ns.inodeTable.nextInodeId = none) :
    (ns.mkDir now path mode uid gid).1 = .ok (newDirectory now mode uid gid ns.inodeTable.nextInodeId d n) := by
  have none_there : ¬ ((ns.dirEntries d).getD []).any (fun e => decide (e.name = n)) = true := by
    simpa using absent
  unfold mkDir
  rw [resolved]
  dsimp only
  rw [if_neg named, if_neg none_there]
  simp [InodeTable.allocateInodeId, InodeTable.create, newDirectory, free]

theorem createFile_ok (now : UInt64) (mode uid gid : UInt32) (size : UInt64) {d : UInt64} {l : List DirEntry}
    (resolved : ns.resolvePath path = .ok (d, n)) (there : ns.dirEntries d = some l)
    (absent : ∀ e ∈ l, e.name ≠ n) (free : ns.inodeTable.inodes ns.inodeTable.nextInodeId = none) :
    (ns.createFile now path mode uid gid size).1 =
      .ok (newRegular now mode uid gid size ns.inodeTable.nextInodeId d n) := by
  have none_there : ¬ l.any (fun e => decide (e.name = n)) = true := by
    simpa using absent
  unfold createFile
  rw [resolved]
  dsimp only
  rw [there]
  dsimp only
  rw [if_neg none_there]
  simp [InodeTable.allocateInodeId, InodeTable.create, newRegular, free]

/-- With a free id, a creation that is refused changes nothing at all. -/
theorem mkDir_refused {now : UInt64} {mode uid gid : UInt32} {s : Status}
    (free : ns.inodeTable.inodes ns.inodeTable.nextInodeId = none)
    (refused : (ns.mkDir now path mode uid gid).1 = .error s) : (ns.mkDir now path mode uid gid).2 = ns := by
  unfold mkDir at refused ⊢
  split
  · rfl
  · next d n resolved =>
    rw [resolved] at refused
    dsimp only at refused
    split
    · rfl
    · next named =>
      rw [if_neg named] at refused
      split
      · rfl
      · next absent =>
        rw [if_neg absent] at refused
        simp [InodeTable.allocateInodeId, InodeTable.create, newDirectory, free] at refused

theorem createFile_refused {now : UInt64} {mode uid gid : UInt32} {size : UInt64} {s : Status}
    (free : ns.inodeTable.inodes ns.inodeTable.nextInodeId = none)
    (refused : (ns.createFile now path mode uid gid size).1 = .error s) :
    (ns.createFile now path mode uid gid size).2 = ns := by
  unfold createFile at refused ⊢
  split
  · rfl
  · next d n resolved =>
    rw [resolved] at refused
    dsimp only at refused
    split
    · rfl
    · next l there =>
      rw [there] at refused
      dsimp only at refused
      split
      · rfl
      · next absent =>
        rw [if_neg absent] at refused
        simp [InodeTable.allocateInodeId, InodeTable.create, newRegular, free] at refused

/-- A new entry under a free id is a new binding. -/
theorem binding_added {after : NamespaceManager} (h : Consistent ns) (after_ok : Consistent after) {d i : UInt64}
    {t : InodeType} (reached : follow ns.hop 1 p = some d) (absent : ∀ e ∈ (ns.dirEntries d).getD [], e.name ≠ n)
    (free : ns.inodeTable.inodes i = none)
    (dirs : after.dirEntries = Function.update ns.dirEntries d
        (some ((ns.dirEntries d).getD [] ++ [⟨n, i, t⟩])) ∨
      after.dirEntries = Function.update (Function.update ns.dirEntries d
        (some ((ns.dirEntries d).getD [] ++ [⟨n, i, t⟩]))) i (some [])) :
    after.binding = Function.update ns.binding (p ++ [n]) (some (i, t)) := by
  have parent := h.walk_isSome h.rootList (walk_iff_follow.mpr reached)
  have listed := listed_added h free parent dirs
  have cut := cut_add h absent free listed parent
  exact cut.binding_large after_ok h reached ((listed _ _).mpr (.inr ⟨rfl, rfl⟩))

theorem gains_mkDir (h : Consistent ns) (wf : WellFormed path)
    (free : ns.inodeTable.inodes ns.inodeTable.nextInodeId = none) (now : UInt64) (mode uid gid : UInt32) :
    Gains ns (components path) .directory (ns.mkDir now path mode uid gid) := by
  obtain ⟨p, n, split⟩ := (List.eq_nil_or_concat' (components path)).resolve_left wf.2
  have made : ∀ inode, (ns.mkDir now path mode uid gid).1 = .ok inode → ∃ d, follow ns.hop 1 p = some d ∧
      (∀ e ∈ (ns.dirEntries d).getD [], e.name ≠ n) ∧ inode.inodeId = ns.inodeTable.nextInodeId ∧
      (ns.mkDir now path mode uid gid).2.binding =
        Function.update ns.binding (p ++ [n]) (some (ns.inodeTable.nextInodeId, .directory)) := by
    intro inode ok
    have effect := mkDir_effect ns now path mode uid gid
    have after_ok := h.effect effect
    generalize result : ns.mkDir now path mode uid gid = r at ok effect after_ok
    obtain ⟨out, after⟩ := r
    dsimp only at ok effect after_ok ⊢
    subst ok
    generalize call : Call.mkDir path mode uid gid = c at effect
    generalize status : statusOf (Except.ok inode : Except Status Inode) = s at effect
    cases effect with
    | refused refused _ => exact absurd status.symm refused
    | madeDirectory resolved named absent free dirs _ _ =>
      cases call
      obtain ⟨reached, rfl⟩ := (resolvePath_ok_iff wf split).mp resolved
      refine ⟨_, reached, absent, ?_, binding_added h after_ok reached absent free (.inr dirs)⟩
      have same := (mkDir_ok now mode uid gid resolved named absent free).symm
      rw [result] at same
      cases same
      rfl
    | _ => cases call
  constructor
  · rw [parentBound_iff h split, split]
    constructor
    · rintro ⟨inode, ok⟩
      obtain ⟨d, reached, absent, -⟩ := made inode ok
      exact ⟨⟨d, reached⟩, (unbound_iff h reached).mpr absent⟩
    · rintro ⟨⟨d, reached⟩, unbound⟩
      exact ⟨_, mkDir_ok now mode uid gid ((resolvePath_ok_iff wf split).mpr ⟨reached, rfl⟩) (name_ne_nil split)
        ((unbound_iff h reached).mp unbound) free⟩
  · intro inode ok
    obtain ⟨d, reached, absent, id, bound⟩ := made inode ok
    rw [split, bound, id]
    exact ⟨rfl, fresh_of_free h free⟩
  · intro s refused
    rw [mkDir_refused free refused]

theorem gains_createFile (h : Consistent ns) (wf : WellFormed path)
    (free : ns.inodeTable.inodes ns.inodeTable.nextInodeId = none) (now : UInt64) (mode uid gid : UInt32)
    (size : UInt64) : Gains ns (components path) .regular (ns.createFile now path mode uid gid size) := by
  obtain ⟨p, n, split⟩ := (List.eq_nil_or_concat' (components path)).resolve_left wf.2
  have made : ∀ inode, (ns.createFile now path mode uid gid size).1 = .ok inode → ∃ d, follow ns.hop 1 p = some d ∧
      (∀ e ∈ (ns.dirEntries d).getD [], e.name ≠ n) ∧ inode.inodeId = ns.inodeTable.nextInodeId ∧
      (ns.createFile now path mode uid gid size).2.binding =
        Function.update ns.binding (p ++ [n]) (some (ns.inodeTable.nextInodeId, .regular)) := by
    intro inode ok
    have effect := createFile_effect ns now path mode uid gid size
    have after_ok := h.effect effect
    generalize result : ns.createFile now path mode uid gid size = r at ok effect after_ok
    obtain ⟨out, after⟩ := r
    dsimp only at ok effect after_ok ⊢
    subst ok
    generalize call : Call.createFile path mode uid gid size = c at effect
    generalize status : statusOf (Except.ok inode : Except Status Inode) = s at effect
    cases effect with
    | refused refused _ => exact absurd status.symm refused
    | madeFile resolved there absent free dirs _ _ =>
      cases call
      obtain ⟨reached, rfl⟩ := (resolvePath_ok_iff wf split).mp resolved
      have list : ∀ d l, ns.dirEntries d = some l → (ns.dirEntries d).getD [] = l := by
        intro d l there
        rw [there]
        rfl
      refine ⟨_, reached, by rw [list _ _ there]; exact absent, ?_,
        binding_added h after_ok reached (by rw [list _ _ there]; exact absent) free
          (.inl (by rw [dirs, list _ _ there]))⟩
      have same := (createFile_ok now mode uid gid size
        resolved there absent free).symm
      rw [result] at same
      cases same
      rfl
    | _ => cases call
  constructor
  · rw [parentBound_iff h split, split]
    constructor
    · rintro ⟨inode, ok⟩
      obtain ⟨d, reached, absent, -⟩ := made inode ok
      exact ⟨⟨d, reached⟩, (unbound_iff h reached).mpr absent⟩
    · rintro ⟨⟨d, reached⟩, unbound⟩
      obtain ⟨l, there⟩ := Option.isSome_iff_exists.mp
        (h.walk_isSome h.rootList (walk_iff_follow.mpr reached))
      have absent := (unbound_iff h reached).mp unbound
      rw [there] at absent
      exact ⟨_, createFile_ok now mode uid gid size ((resolvePath_ok_iff wf split).mpr ⟨reached, rfl⟩) there
        absent free⟩
  · intro inode ok
    obtain ⟨d, reached, absent, id, bound⟩ := made inode ok
    rw [split, bound, id]
    exact ⟨rfl, fresh_of_free h free⟩
  · intro s refused
    rw [createFile_refused free refused]

/-! ## Removing -/

theorem mem_of_found {l : List DirEntry} {e : DirEntry} {type : InodeType}
    (found : l.find? (fun e => e.name = n ∧ e.fileType = type) = some e) :
    e ∈ l ∧ e.name = n ∧ e.fileType = type := by
  have hit := List.find?_some found
  simp only [Bool.decide_and, Bool.and_eq_true, decide_eq_true_eq] at hit
  exact ⟨List.mem_of_find?_eq_some found, hit⟩

/-- The scan for a name and a type finds what is bound with that type. -/
theorem found_of_bound (h : Consistent ns) {d i : UInt64} {type : InodeType} (reached : follow ns.hop 1 p = some d)
    (bound : ns.binding (p ++ [n]) = some (i, type)) :
    ∃ l e, ns.dirEntries d = some l ∧ l.find? (fun e => e.name = n ∧ e.fileType = type) = some e ∧
      e.inodeId = i := by
  obtain ⟨d', reached', l, there, member⟩ := (binding_iff h).mp bound
  cases reached.symm.trans reached'
  cases found : l.find? (fun e => decide (e.name = n ∧ e.fileType = type)) with
  | none => exact absurd (by simp) (List.find?_eq_none.mp found _ member)
  | some e =>
    obtain ⟨member', name, -⟩ := mem_of_found found
    have same := List.inj_on_of_nodup_map (h.lists.names there) member' member name
    exact ⟨l, e, there, found, by rw [same]⟩

/-- A removed entry is a binding less. -/
theorem binding_removed {after : NamespaceManager} (h : Consistent ns) (after_ok : Consistent after) {d : UInt64}
    {l : List DirEntry} {e : DirEntry} {type : InodeType} (reached : follow ns.hop 1 p = some d)
    (there : ns.dirEntries d = some l) (found : l.find? (fun e => e.name = n ∧ e.fileType = type) = some e)
    (leaf : type = .directory → ∀ e', ¬ Listed ns.dirEntries e.inodeId e')
    (listed : ∀ a e', Listed after.dirEntries a e' ↔ Listed ns.dirEntries a e' ∧ e'.inodeId ≠ e.inodeId) :
    after.binding = Function.update ns.binding (p ++ [n]) none := by
  obtain ⟨-, name, kind⟩ := mem_of_found found
  have cut := cut_drop h there found listed (fun directory => leaf (kind.symm.trans directory))
  rw [name] at cut
  exact cut.binding h after_ok reached

theorem binding_unchanged {s : Status} {after : NamespaceManager} {now : UInt64} {call : Call}
    (effect : Effect ns now call s after) (refused : s ≠ .ok) (plain : ∀ src dst, call ≠ .rename src dst) :
    after.binding = ns.binding := by
  cases effect with
  | refused _ same => exact binding_congr same.dirs
  | lost => exact absurd rfl (plain _ _)
  | _ => exact absurd rfl refused

theorem loses_deleteFile (h : Consistent ns) (wf : WellFormed path) : Loses ns (components path)
    (∃ i, ns.binding (components path) = some (i, .regular)) (ns.deleteFile path) := by
  obtain ⟨p, n, split⟩ := (List.eq_nil_or_concat' (components path)).resolve_left wf.2
  have removed : (ns.deleteFile path).1 = .ok → (∃ i, ns.binding (p ++ [n]) = some (i, .regular)) ∧
      (ns.deleteFile path).2.binding = Function.update ns.binding (p ++ [n]) none := by
    intro ok
    have effect := deleteFile_effect ns 0 path
    have after_ok := h.effect effect
    generalize (ns.deleteFile path).2 = after at effect after_ok ⊢
    generalize call : Call.deleteFile path = c at effect
    rw [ok] at effect
    generalize status : Status.ok = s at effect
    cases effect with
    | refused refused _ => exact absurd status.symm refused
    | @removedFile path' d m l e after resolved there found dirs inodes next =>
      cases call
      obtain ⟨reached, rfl⟩ := (resolvePath_ok_iff wf split).mp resolved
      obtain ⟨member, rfl, kind⟩ := mem_of_found found
      refine ⟨⟨e.inodeId, (binding_iff h).mpr ⟨d, reached, l, there, ?_⟩⟩,
        binding_removed h after_ok reached there found nofun ?_⟩
      · rw [← kind]
        exact member
      · rw [dirs]
        exact (h.lists.drop there found).2
    | _ => cases call
  rw [split]
  constructor
  · refine ⟨fun ok => (removed ok).1, ?_⟩
    rintro ⟨i, bound⟩
    obtain ⟨d, reached, -⟩ := (binding_iff h).mp bound
    obtain ⟨l, e, there, found, -⟩ := found_of_bound h reached bound
    unfold deleteFile
    rw [(resolvePath_ok_iff wf split).mpr ⟨reached, rfl⟩]
    dsimp only
    rw [there]
    dsimp only
    rw [found]
  · exact fun ok => (removed ok).2
  · exact fun refused => binding_unchanged (deleteFile_effect ns 0 path) refused nofun

/-- Nothing is bound below a directory whose list is empty. -/
theorem empty_iff (h : Consistent ns) {i : UInt64} (bound : ns.binding (p ++ [n]) = some (i, .directory)) :
    (ns.dirEntries i).getD [] = [] ↔ ∀ q, q ≠ [] → ns.binding ((p ++ [n]) ++ q) = none := by
  have at_i : follow ns.hop 1 (p ++ [n]) = some i := by
    obtain ⟨d, reached, listed⟩ := (binding_iff h).mp bound
    rw [follow_snoc, reached]
    exact (hop_iff h).mpr listed
  constructor
  · intro empty q some
    obtain ⟨r, m, rfl⟩ := (List.eq_nil_or_concat' q).resolve_left some
    have noEntry : ∀ e, ¬ Listed ns.dirEntries i e := by
      rintro e ⟨l, there, member⟩
      rw [there, Option.getD_some] at empty
      rw [empty] at member
      cases member
    rw [Option.eq_none_iff_forall_ne_some]
    rintro ⟨j, t⟩ below
    rw [← List.append_assoc, binding_iff h] at below
    obtain ⟨x, chain, listed⟩ := below
    rw [follow_append, at_i, Option.bind_some] at chain
    cases r with
    | nil =>
      cases chain
      exact noEntry _ listed
    | cons k r =>
      rw [follow, Option.bind_eq_some_iff] at chain
      obtain ⟨y, step, -⟩ := chain
      exact noEntry _ ((hop_iff h).mp step)
  · intro nothing
    cases there : ns.dirEntries i with
    | none => rfl
    | some l =>
      cases l with
      | nil => rfl
      | cons e l =>
        have below := nothing [e.name] (by simp)
        rw [Option.eq_none_iff_forall_ne_some] at below
        exact absurd ((binding_iff h).mpr ⟨i, at_i, _, there, List.mem_cons_self⟩) (below _)

theorem loses_rmDir (h : Consistent ns) (wf : WellFormed path) : Loses ns (components path)
    (∃ i, ns.binding (components path) = some (i, .directory) ∧
      ∀ q, q ≠ [] → ns.binding (components path ++ q) = none) (ns.rmDir path) := by
  obtain ⟨p, n, split⟩ := (List.eq_nil_or_concat' (components path)).resolve_left wf.2
  have removed : (ns.rmDir path).1 = .ok → (∃ i, ns.binding (p ++ [n]) = some (i, .directory) ∧
      (ns.dirEntries i).getD [] = []) ∧
      (ns.rmDir path).2.binding = Function.update ns.binding (p ++ [n]) none := by
    intro ok
    have effect := rmDir_effect ns 0 path
    have after_ok := h.effect effect
    generalize (ns.rmDir path).2 = after at effect after_ok ⊢
    generalize call : Call.rmDir path = c at effect
    rw [ok] at effect
    generalize status : Status.ok = s at effect
    cases effect with
    | refused refused _ => exact absurd status.symm refused
    | @removedDirectory path' d m l e after resolved there found empty dirs inodes next =>
      cases call
      obtain ⟨reached, rfl⟩ := (resolvePath_ok_iff wf split).mp resolved
      obtain ⟨member, rfl, kind⟩ := mem_of_found found
      have leaf : ∀ e', ¬ Listed ns.dirEntries e.inodeId e' := by
        rintro e' ⟨k, at_e, member'⟩
        rw [at_e, Option.getD_some] at empty
        rw [empty] at member'
        cases member'
      refine ⟨⟨e.inodeId, (binding_iff h).mpr ⟨d, reached, l, there, ?_⟩, empty⟩,
        binding_removed h after_ok reached there found (fun _ => leaf) fun a e' => ?_⟩
      · rw [← kind]
        exact member
      · rw [dirs, listed_erase, (h.lists.drop there found).2, and_iff_right_of_imp]
        rintro ⟨old, -⟩ rfl
        exact leaf e' old
    | _ => cases call
  rw [split]
  constructor
  · constructor
    · intro ok
      obtain ⟨⟨i, bound, empty⟩, -⟩ := removed ok
      exact ⟨i, bound, (empty_iff h bound).mp empty⟩
    · rintro ⟨i, bound, nothing⟩
      have empty := (empty_iff h bound).mpr nothing
      obtain ⟨d, reached, -⟩ := (binding_iff h).mp bound
      obtain ⟨l, e, there, found, rfl⟩ := found_of_bound h reached bound
      have notRoot : path ≠ ['/'] := by
        rintro rfl
        exact wf.2 (by decide)
      unfold rmDir
      rw [if_neg notRoot, (resolvePath_ok_iff wf split).mpr ⟨reached, rfl⟩]
      dsimp only
      rw [there]
      dsimp only
      rw [found]
      dsimp only
      rw [if_neg (not_not.mpr empty)]
  · exact fun ok => (removed ok).2
  · exact fun refused => binding_unchanged (rmDir_effect ns 0 path) refused nofun

/-! ## Reading -/

theorem lookup_eq (h : Consistent ns) (wf : WellFormed path) :
    match ns.binding (components path) with
    | none => ns.lookup path = .error .notFound
    | some (i, t) => ∃ inode, ns.lookup path = .ok inode ∧ ns.inodeTable.inodes i = some inode ∧
        inode.inodeId = i ∧ inode.fileType = t := by
  obtain ⟨p, n, split⟩ := (List.eq_nil_or_concat' (components path)).resolve_left wf.2
  have notRoot : path ≠ ['/'] := by
    rintro rfl
    exact wf.2 (by decide)
  unfold lookup
  rw [if_neg notRoot, resolvePath_eq wf split, split, binding_snoc]
  cases follow ns.hop 1 p with
  | none => rfl
  | some d =>
    dsimp only [Option.bind_some]
    unfold entryAt
    cases there : ns.dirEntries d with
    | none => rfl
    | some l =>
      dsimp only [Option.bind_some]
      cases found : l.find? (fun e => decide (e.name = n)) with
      | none => rfl
      | some e =>
        obtain ⟨r, live, type, -⟩ := h.entry ⟨l, there, List.mem_of_find?_eq_some found⟩
        exact ⟨r, InodeTable.get_eq_ok.mpr live, live, h.keyed live, type⟩

theorem readDir_eq (h : Consistent ns) (wf : WellFormed path) {i : UInt64}
    (bound : ns.binding (components path) = some (i, .directory)) :
    ∃ entries, ns.readDir path = .ok entries ∧ ns.dirEntries i = some entries := by
  obtain ⟨p, n, split⟩ := (List.eq_nil_or_concat' (components path)).resolve_left wf.2
  have notRoot : path ≠ ['/'] := by
    rintro rfl
    exact wf.2 (by decide)
  rw [split] at bound
  obtain ⟨d, reached, l, there, member⟩ := (binding_iff h).mp bound
  have found := find?_of_nodup (h.lists.names there) member
  obtain ⟨r, live, type, -⟩ := h.entry ⟨l, there, member⟩
  obtain ⟨entries, list⟩ := Option.isSome_iff_exists.mp ((h.keys i).mpr ⟨r, live, type⟩)
  refine ⟨entries, ?_, list⟩
  unfold readDir
  rw [if_neg notRoot, (resolvePath_ok_iff wf split).mpr ⟨reached, rfl⟩]
  dsimp only at found ⊢
  rw [there]
  dsimp only
  rw [found]
  dsimp only
  rw [if_neg (by simp)]
  dsimp only
  rw [list]

/-- The children of a bound directory are its entries. -/
theorem child_iff (h : Consistent ns) {c : List Str} {i j : UInt64} {m : Str} {t : InodeType}
    {entries : List DirEntry} (bound : ns.binding c = some (i, .directory))
    (list : ns.dirEntries i = some entries) :
    ⟨m, j, t⟩ ∈ entries ↔ ns.binding (c ++ [m]) = some (j, t) := by
  have at_i : follow ns.hop 1 c = some i := by
    rcases List.eq_nil_or_concat' c with rfl | ⟨p, n, rfl⟩
    · cases bound
    · obtain ⟨d, reached, listed⟩ := (binding_iff h).mp bound
      rw [follow_snoc, reached]
      exact (hop_iff h).mpr listed
  rw [binding_iff h]
  constructor
  · exact fun member => ⟨i, at_i, entries, list, member⟩
  · rintro ⟨d, reached, l, there, member⟩
    cases at_i.symm.trans reached
    cases list.symm.trans there
    exact member

end

theorem simulates {ns : NamespaceManager} (h : Consistent ns)
    (free : ns.inodeTable.inodes ns.inodeTable.nextInodeId = none) (now : UInt64) {path : Str}
    (wf : WellFormed path) : Simulates ns now path := by
  have looked := lookup_eq h wf
  refine ⟨gains_mkDir h wf free now, gains_createFile h wf free now, loses_deleteFile h wf, loses_rmDir h wf,
    ?_, ?_, ?_⟩
  · cases bound : ns.binding (components path) with
    | none =>
      rw [bound] at looked
      simp [looked]
    | some b =>
      rw [bound] at looked
      obtain ⟨inode, found, -⟩ := looked
      exact iff_of_true ⟨inode, found⟩ nofun
  · intro inode ok
    cases bound : ns.binding (components path) with
    | none =>
      rw [bound] at looked
      cases looked.symm.trans ok
    | some b =>
      obtain ⟨i, t⟩ := b
      rw [bound] at looked
      obtain ⟨inode', found, live, rfl, rfl⟩ := looked
      cases found.symm.trans ok
      exact ⟨rfl, live⟩
  · intro i bound
    obtain ⟨entries, read, list⟩ := readDir_eq h wf bound
    exact ⟨entries, read, h.lists.names list, fun m j t => child_iff h bound list⟩

/-! ## Runs -/

/-- A call of the map's four kinds on a well-formed path. -/
def Call.Plain : Call → Prop
  | .mkDir path _ _ _ => WellFormed path
  | .createFile path _ _ _ _ => WellFormed path
  | .deleteFile path => WellFormed path
  | .rmDir path => WellFormed path
  | .rename _ _ => False

/-- The call makes an inode. -/
def Call.creates : Call → Bool
  | .mkDir .. => true
  | .createFile .. => true
  | _ => false

/-- The states of runs of such calls, with the number of inodes created so far. -/
inductive Run : Nat → NamespaceManager → Prop where
  | init (now : UInt64) : Run 0 (init now)
  | step {created : Nat} {ns : NamespaceManager} (now : UInt64) (call : Call) : Run created ns → call.Plain →
      Run (if call.creates = true ∧ (ns.exec now call).1 = .ok then created + 1 else created) (ns.exec now call).2

theorem Run.consistent {created : Nat} {ns : NamespaceManager} (run : Run created ns) : Consistent ns := by
  induction run with
  | init now => exact .init now
  | step now call _ _ ih => exact ih.effect (exec_effect _ now call)

/-- The counter counts the creations, and every live id was handed out. -/
structure Counted (created : Nat) (ns : NamespaceManager) : Prop where
  next : ns.inodeTable.nextInodeId = UInt64.ofNat (2 + created)
  live : ∀ i, ns.inodeTable.inodes i ≠ none → ∃ j, j ≤ created ∧ i = UInt64.ofNat (1 + j)

theorem Counted.free {created : Nat} {ns : NamespaceManager} (counted : Counted created ns)
    (few : created < 2 ^ 64 - 1) : ns.inodeTable.inodes ns.inodeTable.nextInodeId = none := by
  by_contra taken
  obtain ⟨j, before, same⟩ := counted.live _ taken
  rw [counted.next] at same
  have numbers := congrArg UInt64.toNat same
  rw [UInt64.toNat_ofNat', UInt64.toNat_ofNat'] at numbers
  omega

theorem Counted.congr {created : Nat} {ns after : NamespaceManager} (counted : Counted created ns)
    (next : after.inodeTable.nextInodeId = ns.inodeTable.nextInodeId)
    (live : ∀ i, after.inodeTable.inodes i ≠ none → ns.inodeTable.inodes i ≠ none) : Counted created after :=
  ⟨next.trans counted.next, fun i alive => counted.live i (live i alive)⟩

theorem Counted.add {created : Nat} {ns after : NamespaceManager} (counted : Counted created ns) {inode : Inode}
    (next : after.inodeTable.nextInodeId = ns.inodeTable.nextInodeId + 1)
    (inodes : after.inodeTable.inodes =
      Function.update ns.inodeTable.inodes ns.inodeTable.nextInodeId (some inode)) :
    Counted (created + 1) after := by
  constructor
  · rw [next, counted.next]
    apply UInt64.toNat_inj.mp
    rw [UInt64.toNat_add, UInt64.toNat_ofNat', UInt64.toNat_ofNat']
    show ((2 + created) % 2 ^ 64 + 1) % 2 ^ 64 = _
    omega
  · intro i alive
    rw [inodes] at alive
    rcases eq_or_ne i ns.inodeTable.nextInodeId with rfl | other
    · exact ⟨created + 1, Nat.le_refl _, by rw [counted.next]; congr 1; omega⟩
    · rw [Function.update_of_ne other] at alive
      obtain ⟨j, before, same⟩ := counted.live i alive
      exact ⟨j, by omega, same⟩

theorem live_of_removed {ns after : NamespaceManager} {e : UInt64}
    (inodes : after.inodeTable.inodes = Function.update ns.inodeTable.inodes e none) (i : UInt64)
    (alive : after.inodeTable.inodes i ≠ none) : ns.inodeTable.inodes i ≠ none := by
  rw [inodes] at alive
  rcases eq_or_ne i e with rfl | other
  · exact absurd (Function.update_self ..) alive
  · rwa [Function.update_of_ne other] at alive

/-- As long as ids are free, a refused call leaves the counter. -/
theorem exec_refused {ns : NamespaceManager} {now : UInt64} {call : Call}
    (free : ns.inodeTable.inodes ns.inodeTable.nextInodeId = none) (plain : call.Plain)
    (refused : (ns.exec now call).1 ≠ .ok) :
    (ns.exec now call).2.inodeTable.nextInodeId = ns.inodeTable.nextInodeId := by
  cases call with
  | mkDir path mode uid gid =>
    cases result : (ns.mkDir now path mode uid gid).1 with
    | ok inode => exact absurd (by simp [exec, result]) refused
    | error s => rw [exec, mkDir_refused free result]
  | createFile path mode uid gid size =>
    cases result : (ns.createFile now path mode uid gid size).1 with
    | ok inode => exact absurd (by simp [exec, result]) refused
    | error s => rw [exec, createFile_refused free result]
  | deleteFile path =>
    show (ns.deleteFile path).2.inodeTable.nextInodeId = _
    unfold deleteFile
    split
    · rfl
    · split
      · rfl
      · split
        · rfl
        · exact InodeTable.delete_nextInodeId _ _
  | rmDir path =>
    show (ns.rmDir path).2.inodeTable.nextInodeId = _
    unfold rmDir
    split
    · rfl
    · split
      · rfl
      · split
        · rfl
        · split
          · rfl
          · split
            · rfl
            · exact InodeTable.delete_nextInodeId _ _
  | rename => exact plain.elim

theorem counted_exec {ns : NamespaceManager} {created : Nat} (counted : Counted created ns)
    (few : created < 2 ^ 64 - 1) (now : UInt64) {call : Call} (plain : call.Plain) :
    Counted (if call.creates = true ∧ (ns.exec now call).1 = .ok then created + 1 else created)
      (ns.exec now call).2 := by
  have effect := exec_effect ns now call
  by_cases ok : (ns.exec now call).1 = .ok
  · rw [ok] at effect ⊢
    generalize (ns.exec now call).2 = after at effect ⊢
    generalize status : Status.ok = s at effect
    cases effect with
    | refused refused _ => exact absurd status.symm refused
    | madeDirectory _ _ _ _ _ inodes next => exact counted.add next inodes
    | madeFile _ _ _ _ _ inodes next => exact counted.add next inodes
    | removedFile _ _ _ _ inodes next => exact counted.congr next (live_of_removed inodes)
    | removedDirectory _ _ _ _ _ inodes next => exact counted.congr next (live_of_removed inodes)
    | moved => exact plain.elim
    | lost => exact plain.elim
  · rw [if_neg (fun both => ok both.2)]
    refine counted.congr (exec_refused (counted.free few) plain ok) ?_
    generalize (ns.exec now call).2 = after at effect
    generalize (ns.exec now call).1 = s at effect ok
    cases effect with
    | refused _ same => rw [same.inodes]; exact fun _ alive => alive
    | lost => exact plain.elim
    | _ => exact absurd rfl ok

theorem Run.counted {created : Nat} {ns : NamespaceManager} (run : Run created ns) :
    created < 2 ^ 64 - 1 → Counted created ns := by
  induction run with
  | init now =>
    refine fun _ => ⟨rfl, fun i alive => ⟨0, Nat.le_refl _, ?_⟩⟩
    by_contra other
    apply alive
    have other : i ≠ 1 := other
    show Function.update (fun _ => none) 1 _ i = none
    rw [Function.update_of_ne other]
  | @step created ns now call _ plain ih =>
    intro few
    have before : created < 2 ^ 64 - 1 := by
      split at few <;> omega
    exact counted_exec (ih before) before now plain

/-- **The namespace refines the map of paths** as long as inode ids last. -/
theorem simulates_of_run {created : Nat} {ns : NamespaceManager} (run : Run created ns)
    (few : created < 2 ^ 64 - 1) (now : UInt64) {path : Str} (wf : WellFormed path) : Simulates ns now path :=
  simulates run.consistent ((run.counted few).free few) now wf

theorem wellFormed_a : WellFormed ['/', 'a'] := ⟨rfl, by decide⟩

/-- A file in a directory in a directory. -/
def nested : NamespaceManager :=
  ((((init 0).exec 0 (.mkDir ['/', 'a'] 0o755 0 0)).2.exec 0 (.mkDir ['/', 'a', '/', 'b'] 0o755 0 0)).2.exec 0
    (.createFile ['/', 'a', '/', 'b', '/', 'f'] 0o644 0 0 0)).2

theorem nested_run : Run 3 nested :=
  .step 0 (.createFile ['/', 'a', '/', 'b', '/', 'f'] 0o644 0 0 0)
    (.step 0 (.mkDir ['/', 'a', '/', 'b'] 0o755 0 0)
      (.step 0 (.mkDir ['/', 'a'] 0o755 0 0) (.init 0) wellFormed_a) ⟨rfl, by decide⟩) ⟨rfl, by decide⟩

theorem simulates_nested : nested.binding [['a'], ['b'], ['f']] = some (4, .regular) ∧
    Simulates nested 0 ['/', 'a', '/', 'b'] ∧ Simulates nested 0 ['/', 'a', '/', 'b', '/', 'f'] :=
  ⟨by decide, simulates_of_run nested_run (by decide) 0 ⟨rfl, by decide⟩,
    simulates_of_run nested_run (by decide) 0 ⟨rfl, by decide⟩⟩

/-! ## When the ids run out -/

/-- A fresh manager whose counter has come to `next`. -/
def blank (next : UInt64) : NamespaceManager :=
  { dirEntries := (init 0).dirEntries
    inodeTable := { inodes := (init 0).inodeTable.inodes, nextInodeId := next } }

theorem blank_free {next : UInt64} (unused : next ≠ 1) : (InodeTable.init 0).inodes next = none := by
  simp [InodeTable.init, unused]

/-- `blank next` with a file `/a` made in it. -/
def withFile (next : UInt64) : NamespaceManager :=
  { dirEntries := Function.update (init 0).dirEntries 1 (some [⟨['a'], next, .regular⟩])
    inodeTable :=
      { inodes := Function.update (init 0).inodeTable.inodes next (some (newRegular 0 0 0 0 0 next 1 ['a']))
        nextInodeId := next + 1 } }

theorem blank_createFile {next : UInt64} (unused : next ≠ 1) :
    (blank next).exec 0 (.createFile ['/', 'a'] 0 0 0 0) = (.ok, withFile next) := by
  have resolved : (blank next).resolvePath ['/', 'a'] = .ok (1, ['a']) := rfl
  have free := blank_free unused
  simp only [exec, createFile, resolved]
  simp only [blank, withFile, InodeTable.allocateInodeId, InodeTable.create, newRegular, init,
    Function.update_self]
  rw [free]
  simp

/-- A file created and deleted again leaves only the counter changed. -/
theorem blank_round {next : UInt64} (unused : next ≠ 1) :
    (((blank next).exec 0 (.createFile ['/', 'a'] 0 0 0 0)).2.exec 0 (.deleteFile ['/', 'a'])) =
      (.ok, blank (next + 1)) := by
  rw [blank_createFile unused]
  have resolved : (withFile next).resolvePath ['/', 'a'] = .ok (1, ['a']) := rfl
  have free := blank_free unused
  simp only [exec, deleteFile, resolved]
  simp [withFile, InodeTable.delete, blank, init, ← free]

/-- `created` rounds of creating a file and deleting it. -/
theorem run_blank (created : Nat) (few : created ≤ 2 ^ 64 - 1) :
    Run created (blank (UInt64.ofNat (2 + created))) := by
  induction created with
  | zero => exact .init 0
  | succ created ih =>
    have unused : UInt64.ofNat (2 + created) ≠ 1 := by
      intro same
      have numbers := congrArg UInt64.toNat same
      rw [UInt64.toNat_ofNat'] at numbers
      have : (1 : UInt64).toNat = 1 := rfl
      omega
    have made := (ih (by omega)).step 0 (.createFile ['/', 'a'] 0 0 0 0) wellFormed_a
    rw [if_pos ⟨rfl, by rw [blank_createFile unused]⟩] at made
    have removed := made.step 0 (.deleteFile ['/', 'a']) wellFormed_a
    rw [if_neg (by simp [Call.creates]), blank_round unused] at removed
    have next : UInt64.ofNat (2 + created) + 1 = UInt64.ofNat (2 + (created + 1)) := by
      apply UInt64.toNat_inj.mp
      rw [UInt64.toNat_add, UInt64.toNat_ofNat', UInt64.toNat_ofNat']
      show ((2 + created) % 2 ^ 64 + 1) % 2 ^ 64 = _
      omega
    rwa [← next]

/-- After `2 ^ 64 - 1` creations the counter is at the root's id, and `/a` can be
bound no more. -/
theorem ids_run_out : ¬ ∀ created ns, Run created ns → ∀ now path, WellFormed path → Simulates ns now path := by
  intro claim
  have last := run_blank (2 ^ 64 - 1) (Nat.le_refl _)
  have gains := (claim _ _ last 0 ['/', 'a'] wellFormed_a).mkDir 0 0 0
  obtain ⟨inode, ok⟩ := gains.status.mpr ⟨.inl rfl, rfl⟩
  have refused : ((blank (UInt64.ofNat (2 + (2 ^ 64 - 1)))).mkDir 0 ['/', 'a'] 0 0 0).1 =
      .error .alreadyExists := by
    decide +kernel
  cases refused.symm.trans ok

end OpenFS.NamespaceManager
