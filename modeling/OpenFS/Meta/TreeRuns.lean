import OpenFS.Meta.TreeRefinement

/-!
# Runs of the namespace are runs of the tree

Lookups and listings read the tree, and a run of calls, on any paths and with moves of every
kind, is a run of the tree, as long as inode ids last.
-/

namespace OpenFS.NamespaceManager

open RootedGraph

variable {ns after : NamespaceManager} {path : Str} {d : UInt64}

/-! ## Reading -/

/-- Lookups and listings say what the tree says. -/
structure Reads (ns : NamespaceManager) (path : Str) : Prop where
  lookup : (ns.lookup path).map (fun r => (r.inodeId, r.fileType)) = ns.tree.lookup path
  refused : ∀ s, ns.tree.openDir path = .error s → ns.readDir path = .error s
  listed : ∀ c, ns.tree.openDir path = .ok c → ∃ entries, ns.readDir path = .ok entries ∧
    (entries.map DirEntry.name).Nodup ∧ ∀ m j t, ⟨m, j, t⟩ ∈ entries ↔ ns.tree.bound (c ++ [m]) = some (j, t)

/-- The entries of a directory are its children in the tree. -/
theorem mem_iff_bound (h : Consistent ns) {c : List Str} {l : List DirEntry}
    (reached : follow ns.hop 1 c = some d) (there : ns.dirEntries d = some l) {m : Str} {j : UInt64}
    {t : InodeType} :
    ⟨m, j, t⟩ ∈ l ↔ ns.tree.bound (c ++ [m]) = some (j, t) := by
  refine Iff.trans ?_ (binding_iff h).symm
  constructor
  · exact fun member => ⟨d, reached, l, there, member⟩
  · rintro ⟨d', reached', l', there', member⟩
    cases reached.symm.trans reached'
    cases there.symm.trans there'
    exact member

theorem lookup_tree (h : Consistent ns) (path : Str) :
    (ns.lookup path).map (fun r => (r.inodeId, r.fileType)) = ns.tree.lookup path := by
  unfold NameTree.lookup lookup
  by_cases root : path = ['/']
  · obtain ⟨r, live, directory⟩ := h.rootLive
    rw [if_pos root, if_pos root, InodeTable.get_eq_ok.mpr live, Except.map, h.keyed live, directory]
  rw [if_neg root, if_neg root]
  rcases locate_cases h path with ⟨s, nowhere, refused⟩ | ⟨p, n, d, located, -⟩
  · rw [nowhere, refused]
    rfl
  obtain ⟨l, there⟩ := located.list h
  have scanned : ns.tree.bound (p ++ [n]) = _ := located.find there
  rw [located.placed, located.resolved]
  dsimp only
  rw [there, scanned]
  dsimp only
  cases found : l.find? fun e => e.name = n with
  | none => rfl
  | some e =>
    obtain ⟨r, live, type, -⟩ := h.entry ⟨l, there, List.mem_of_find?_eq_some found⟩
    dsimp only [Option.map_some]
    rw [InodeTable.get_eq_ok.mpr live, Except.map, h.keyed live, type]

theorem reads_tree (h : Consistent ns) (path : Str) : Reads ns path := by
  have closed : ∀ {s}, ns.tree.openDir path = .error s → ns.readDir path = .error s → Reads ns path := by
    intro s refused read
    refine ⟨lookup_tree h path, fun s' refused' => ?_, fun c found => ?_⟩
    · cases refused.symm.trans refused'
      exact read
    · cases refused.symm.trans found
  have opened : ∀ {c d}, ns.tree.openDir path = .ok c → follow ns.hop 1 c = some d →
      (∀ l, ns.dirEntries d = some l → ns.readDir path = .ok l) → Reads ns path := by
    intro c d found reached read
    refine ⟨lookup_tree h path, fun s refused => ?_, fun c' found' => ?_⟩
    · cases found.symm.trans refused
    · cases found.symm.trans found'
      obtain ⟨l, there⟩ := Option.isSome_iff_exists.mp (h.walk_isSome h.rootList (walk_iff_follow.mpr reached))
      exact ⟨l, read l there, h.lists.names there, fun _ _ _ => mem_iff_bound h reached there⟩
  by_cases root : path = ['/']
  · subst root
    refine opened (c := []) (d := 1) rfl rfl fun l there => ?_
    obtain ⟨r, live, -⟩ := h.rootLive
    unfold readDir
    rw [if_pos rfl, InodeTable.get_eq_ok.mpr live]
    dsimp only
    rw [h.keyed live, there]
  rcases locate_cases h path with ⟨s, nowhere, refused⟩ | ⟨p, n, d, located, -⟩
  · apply closed (s := s)
    · unfold NameTree.openDir
      rw [if_neg root, nowhere]
    · unfold readDir
      rw [if_neg root, refused]
  obtain ⟨l, there⟩ := located.list h
  have scanned : ns.tree.bound (p ++ [n]) = _ := located.find there
  cases found : l.find? fun e => e.name = n with
  | none =>
    refine closed (s := .notFound) ?_ ?_
    · simp only [NameTree.openDir, if_neg root, located.placed, scanned, found, Option.map_none]
    · simp only [readDir, if_neg root, located.resolved, there, found]
  | some e =>
    by_cases directory : e.fileType = .directory
    · have named : e.name = n := by simpa using List.find?_some found
      have reached : follow ns.hop 1 (p ++ [n]) = some e.inodeId := by
        rw [follow_snoc, located.reached]
        refine (hop_iff h).mpr ⟨l, there, ?_⟩
        rw [← named, ← directory]
        exact List.mem_of_find?_eq_some found
      refine opened ?_ reached fun l' list => ?_
      · simp only [NameTree.openDir, if_neg root, located.placed, scanned, found, Option.map_some, if_pos directory]
      · simp only [readDir, if_neg root, located.resolved, there, found, if_neg (not_not.mpr directory), list]
    · refine closed (s := .notDirectory) ?_ ?_
      · simp only [NameTree.openDir, if_neg root, located.placed, scanned, found, Option.map_some, if_neg directory]
      · simp only [readDir, if_neg root, located.resolved, there, found, if_pos directory]

/-! ## Runs -/

/-- The statuses of calls one after the other, each with its clock reading, and what they leave. -/
def execs (ns : NamespaceManager) : List (UInt64 × Call) → List Status × NamespaceManager
  | [] => ([], ns)
  | (now, call) :: calls =>
    let r := ns.exec now call
    let rest := r.2.execs calls
    (r.1 :: rest.1, rest.2)

/-- Only a creation that succeeds takes an id. -/
theorem exec_next (t : NameTree) (call : Call) : (t.exec call).2.next = t.next ∨
    (call.creates = true ∧ (t.exec call).1 = .ok ∧ (t.exec call).2.next = t.next + 1) := by
  cases call with
  | mkDir path mode uid gid =>
    show (t.mkDir path).2.next = _ ∨ _ ∧ (t.mkDir path).1 = _ ∧ (t.mkDir path).2.next = _
    unfold NameTree.mkDir
    split
    · exact .inl rfl
    · split
      · exact .inl rfl
      · exact .inr ⟨rfl, rfl, rfl⟩
  | createFile path mode uid gid size =>
    show (t.createFile path).2.next = _ ∨ _ ∧ (t.createFile path).1 = _ ∧ (t.createFile path).2.next = _
    unfold NameTree.createFile
    split
    · exact .inl rfl
    · split
      · exact .inl rfl
      · exact .inr ⟨rfl, rfl, rfl⟩
  | deleteFile path =>
    left
    show (t.deleteFile path).2.next = _
    unfold NameTree.deleteFile
    split
    · rfl
    · split <;> rfl
  | rmDir path =>
    left
    show (t.rmDir path).2.next = _
    unfold NameTree.rmDir
    split
    · rfl
    · split
      · rfl
      · split
        · split <;> rfl
        · rfl
  | rename src dst =>
    left
    show (t.rename src dst).2.next = _
    unfold NameTree.rename
    split
    · rfl
    · split
      · rfl
      · split
        · rfl
        · split <;> rfl

/-- A call takes one id at most, and those in use are counted. -/
theorem counted_step {created : Nat} (counted : Counted created ns) (h : Consistent ns) (now : UInt64)
    (call : Call) (few : call.creates = true → created < 2 ^ 64 - 1) :
    Counted (if call.creates = true then created + 1 else created) (ns.exec now call).2 ∨
      Counted created (ns.exec now call).2 := by
  have free := fun creates => counted.free (few creates)
  have effect := exec_effect ns now call
  have next := exec_next ns.tree call
  obtain ⟨status, left⟩ := exec_tree h now call free
  rw [← left, ← status] at next
  have kept : (ns.exec now call).1 ≠ .ok → (ns.exec now call).2.inodeTable.nextInodeId =
      ns.inodeTable.nextInodeId := fun refused => next.resolve_right fun made => refused made.2.1
  generalize (ns.exec now call).2 = after at effect kept ⊢
  generalize (ns.exec now call).1 = s at effect kept
  cases effect with
  | refused refused same => exact .inr (counted.congr (kept refused) fun i => by rw [same.inodes]; exact id)
  | madeDirectory _ _ _ _ _ inodes next => exact .inl (counted.add next inodes)
  | madeFile _ _ _ _ _ inodes next => exact .inl (counted.add next inodes)
  | removedFile _ _ _ _ inodes next => exact .inr (counted.congr next (live_of_removed inodes))
  | removedDirectory _ _ _ _ _ inodes next => exact .inr (counted.congr next (live_of_removed inodes))
  | @moved _ _ _ _ _ _ _ _ _ _ _ _ _ _ inodes next =>
    refine .inr (counted.congr next fun i alive => ?_)
    have same := nodeOf_moved h inodes i
    intro dead
    unfold nodeOf at same
    rw [dead, Option.map_none, Option.map_eq_none_iff] at same
    exact alive same
  | lost _ status _ _ inodes =>
    exact .inr (counted.congr (by rw [inodes]) fun i => by rw [inodes]; exact id)

theorem init_tree (now : UInt64) : (init now).tree = NameTree.init := by
  unfold tree NameTree.init
  congr 1
  funext c
  rcases List.eq_nil_or_concat' c with rfl | ⟨p, n, rfl⟩
  · rfl
  · rw [Option.eq_none_iff_forall_ne_some]
    rintro ⟨i, t⟩ bound
    obtain ⟨d, -, l, there, member⟩ := (binding_iff (.init now)).mp bound
    unfold init at there
    dsimp only at there
    rcases eq_or_ne d 1 with rfl | other
    · rw [Function.update_self] at there
      cases there
      cases member
    · rw [Function.update_of_ne other] at there
      cases there

theorem counted_init (now : UInt64) : Counted 0 (init now) :=
  (Run.init now).counted (by decide)

theorem execs_tree {created : Nat} (counted : Counted created ns) (h : Consistent ns)
    (calls : List (UInt64 × Call)) (few : created + calls.countP (fun c => c.2.creates) ≤ 2 ^ 64 - 1) :
    (ns.execs calls).1 = (ns.tree.run (calls.map Prod.snd)).1 ∧
      (ns.execs calls).2.tree = (ns.tree.run (calls.map Prod.snd)).2 ∧ Consistent (ns.execs calls).2 := by
  induction calls generalizing ns created with
  | nil => exact ⟨rfl, rfl, h⟩
  | cons c calls ih =>
    obtain ⟨now, call⟩ := c
    rw [List.countP_cons] at few
    have room : call.creates = true → created < 2 ^ 64 - 1 := by
      intro creates
      rw [if_pos creates] at few
      omega
    obtain ⟨status, left⟩ := exec_tree h now call fun creates => counted.free (room creates)
    obtain ⟨created', counted', few'⟩ : ∃ created', Counted created' (ns.exec now call).2 ∧
        created' + calls.countP (fun c => c.2.creates) ≤ 2 ^ 64 - 1 := by
      rcases counted_step counted h now call room with more | same
      · refine ⟨_, more, ?_⟩
        by_cases creates : call.creates = true
        · rw [if_pos creates] at few ⊢
          omega
        · rw [if_neg creates]
          omega
      · exact ⟨created, same, by omega⟩
    have rest := ih counted' (h.effect (exec_effect ns now call)) few'
    rw [left] at rest
    obtain ⟨statuses, final, consistent⟩ := rest
    refine ⟨?_, final, consistent⟩
    show (ns.exec now call).1 :: _ = (ns.tree.exec call).1 :: _
    rw [status, statuses]

/-- **The namespace is the tree** through every run of calls, on any paths and moves among
them, that creates fewer nodes than there are ids. -/
theorem runs_are_trees (now : UInt64) (calls : List (UInt64 × Call))
    (few : calls.countP (fun c => c.2.creates) ≤ 2 ^ 64 - 1) :
    ((init now).execs calls).1 = (NameTree.init.run (calls.map Prod.snd)).1 ∧
      ((init now).execs calls).2.tree = (NameTree.init.run (calls.map Prod.snd)).2 ∧
      ∀ path, Reads ((init now).execs calls).2 path := by
  obtain ⟨statuses, left, consistent⟩ := execs_tree (counted_init now) (.init now) calls (by omega)
  rw [init_tree] at statuses left
  exact ⟨statuses, left, reads_tree consistent⟩

/-- `/a` is made, and lost when it is moved below itself. -/
theorem runs_are_trees_below :
    let calls : List (UInt64 × Call) :=
      [(1, .mkDir ['/', 'a'] 0o755 0 0), (2, .rename ['/', 'a'] ['/', 'a', '/', 'b'])]
    ((init 0).execs calls).1 = (NameTree.init.run (calls.map Prod.snd)).1 ∧
      ((init 0).execs calls).2.tree = (NameTree.init.run (calls.map Prod.snd)).2 ∧
      ∀ path, Reads ((init 0).execs calls).2 path :=
  runs_are_trees 0 _ (by decide)

end OpenFS.NamespaceManager
