import OpenFS.Meta.NamespaceTree

/-!
# How a path is spelled

`ResolvePath` splits a path at its slashes and drops the empty tokens, so repeated and
trailing slashes do not count. Only the root has to be spelled `/`: a string of more
slashes has no components either, and is refused.
-/

namespace OpenFS

/-! ## Components -/

theorem components_append_slash (path rest : Str) :
    components (path ++ '/' :: rest) = components path ++ components rest := by
  unfold components
  rw [List.splitOn_append_cons_self, List.filter_append]

theorem components_slash (rest : Str) : components ('/' :: rest) = components rest :=
  components_append_slash [] rest

/-- A name without slashes is its own only component. -/
theorem components_of_name {name : Str} (some : name ≠ []) (plain : '/' ∉ name) : components name = [name] := by
  unfold components
  rw [List.splitOn_eq_singleton plain, List.filter_cons_of_pos (by simpa using some), List.filter_nil]

theorem slash_notMem_of_splitOn {path token : Str} (member : token ∈ path.splitOn '/') : '/' ∉ token := by
  induction path generalizing token with
  | nil =>
    rw [List.splitOn_nil, List.mem_singleton] at member
    subst member
    exact List.not_mem_nil
  | cons c path ih =>
    obtain ⟨first, others, split⟩ := List.exists_cons_of_ne_nil (List.splitOn_ne_nil '/' path)
    rw [split] at ih
    rw [List.splitOn_cons_eq_if_modifyHead, split] at member
    split at member
    · rcases List.mem_cons.mp member with rfl | later
      · exact List.not_mem_nil
      · exact ih later
    · next other =>
      rw [List.modifyHead_cons] at member
      rcases List.mem_cons.mp member with rfl | later
      · rw [List.mem_cons, not_or]
        exact ⟨fun same => other (beq_iff_eq.mpr same.symm), ih List.mem_cons_self⟩
      · exact ih (List.mem_cons_of_mem _ later)

theorem slash_notMem_of_component {path c : Str} (member : c ∈ components path) : '/' ∉ c :=
  slash_notMem_of_splitOn (List.mem_filter.mp member).1

namespace NamespaceManager

/-! ## Two spellings -/

/-- Two strings that no call tells apart. -/
structure Indistinct (ns : NamespaceManager) (p q : Str) : Prop where
  lookup : ns.lookup p = ns.lookup q
  readDir : ns.readDir p = ns.readDir q
  mkDir : ∀ now mode uid gid, ns.mkDir now p mode uid gid = ns.mkDir now q mode uid gid
  createFile : ∀ now mode uid gid size, ns.createFile now p mode uid gid size =
    ns.createFile now q mode uid gid size
  deleteFile : ns.deleteFile p = ns.deleteFile q
  rmDir : ns.rmDir p = ns.rmDir q
  renameFrom : ∀ now r, ns.rename now p r = ns.rename now q r
  renameTo : ∀ now r, ns.rename now r p = ns.rename now r q

/-- A string that every call refuses. A source that does not resolve is refused first. -/
structure Refuses (ns : NamespaceManager) (p : Str) : Prop where
  lookup : ns.lookup p = .error .invalidArgument
  readDir : ns.readDir p = .error .invalidArgument
  mkDir : ∀ now mode uid gid, ns.mkDir now p mode uid gid = (.error .invalidArgument, ns)
  createFile : ∀ now mode uid gid size, ns.createFile now p mode uid gid size = (.error .invalidArgument, ns)
  deleteFile : ns.deleteFile p = (.invalidArgument, ns)
  rmDir : ns.rmDir p = (.invalidArgument, ns)
  renameFrom : ∀ now r, ns.rename now p r = (.invalidArgument, ns)
  renameTo : ∀ now r, ns.rename now r p =
    (match ns.resolvePath r with
      | .error s => s
      | .ok _ => .invalidArgument, ns)

section
variable {ns : NamespaceManager} {p q : Str}

theorem resolvePath_congr (absolute : p.head? = some '/') (absolute' : q.head? = some '/')
    (same : components p = components q) (root : p = ['/'] ↔ q = ['/']) : ns.resolvePath p = ns.resolvePath q := by
  unfold resolvePath
  rw [absolute, absolute', same]
  simp only [root]

theorem indistinct (resolved : ns.resolvePath p = ns.resolvePath q) (root : p = ['/'] ↔ q = ['/']) :
    Indistinct ns p q := by
  constructor
  · unfold lookup
    simp only [resolved, root]
  · unfold readDir
    simp only [resolved, root]
  · intro now mode uid gid
    unfold mkDir
    rw [resolved]
  · intro now mode uid gid size
    unfold createFile
    rw [resolved]
  · unfold deleteFile
    rw [resolved]
  · unfold rmDir
    simp only [resolved, root]
  · intro now r
    unfold rename
    rw [resolved]
  · intro now r
    unfold rename
    rw [resolved]

theorem resolvePath_of_slashes (absolute : p.head? = some '/') (other : p ≠ ['/']) (slashes : components p = []) :
    ns.resolvePath p = .error .invalidArgument := by
  unfold resolvePath
  rw [if_neg (by simp [absolute]), if_neg other, slashes]
  rfl

theorem refuses (resolved : ns.resolvePath p = .error .invalidArgument) (other : p ≠ ['/']) : Refuses ns p := by
  constructor
  · unfold lookup
    rw [if_neg other, resolved]
  · unfold readDir
    rw [if_neg other, resolved]
  · intro now mode uid gid
    unfold mkDir
    rw [resolved]
  · intro now mode uid gid size
    unfold createFile
    rw [resolved]
  · unfold deleteFile
    rw [resolved]
  · unfold rmDir
    rw [if_neg other, resolved]
  · intro now r
    unfold rename
    rw [resolved]
  · intro now r
    unfold rename
    cases ns.resolvePath r with
    | error s => rfl
    | ok found =>
      dsimp only
      rw [resolved]

end

/-- **Only the components of a path matter**, next to the spelling of the root: another
string of slashes is no path. -/
theorem only_components_matter {p q : Str} (absolute : p.head? = some '/') (absolute' : q.head? = some '/')
    (same : components p = components q) (ns : NamespaceManager) :
    ((p = ['/'] ↔ q = ['/']) → Indistinct ns p q) ∧ (p ≠ ['/'] → components p = [] → Refuses ns p) :=
  ⟨fun root => indistinct (resolvePath_congr absolute absolute' same root) root,
    fun other slashes => refuses (resolvePath_of_slashes absolute other slashes) other⟩

theorem only_components_matter_a :
    (((['/', 'a'] : Str) = ['/'] ↔ (['/', '/', 'a', '/'] : Str) = ['/']) →
        Indistinct (init 0) ['/', 'a'] ['/', '/', 'a', '/']) ∧
      ((['/', 'a'] : Str) ≠ ['/'] → components ['/', 'a'] = [] → Refuses (init 0) ['/', 'a']) :=
  only_components_matter rfl rfl (by decide) (init 0)

/-- The root is found, and two slashes are not. -/
theorem two_slashes_refused : ¬ ∀ ns p q, Reachable ns → p.head? = some '/' → q.head? = some '/' →
    components p = components q → Indistinct ns p q := by
  intro claim
  have same := (claim (init 0) ['/'] ['/', '/'] (.init 0) rfl rfl (by decide)).lookup
  have found : (init 0).lookup ['/'] = .ok (InodeTable.root 0) := by rfl
  have refused : (init 0).lookup ['/', '/'] = .error .invalidArgument := by rfl
  rw [found, refused] at same
  cases same

end NamespaceManager

end OpenFS
