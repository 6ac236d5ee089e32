import OpenFS.Client.MetadataCache

/-!
# What the calls leave in the metadata cache

An entry of one of the three lists is named by a key. A call either takes the entry of a
key out, or puts what it delivers for the key there, or leaves the entry alone.
-/

namespace OpenFS

open NodeList

namespace MetadataCache

/-- The indices lead to the nodes, and nobody holds the mutex. -/
structure Rep (c : MetadataCache) : Prop where
  inodes : c.inodes.Rep
  blocks : c.blocks.Rep
  dirs : c.dirs.Rep
  free : c.locked = false

/-- An entry of one of the lists. -/
inductive Key
  | inode (inodeId : UInt64)
  | blocks (inodeId : UInt64)
  | dir (path : Str)
  deriving DecidableEq, Repr

/-- What is kept under a key. -/
def Key.Content : Key → Type
  | .inode _ => Inode
  | .blocks _ => List BlockMeta
  | .dir _ => List DirEntry

/-- Content and version of an entry. -/
def cached (c : MetadataCache) : (key : Key) → Option (key.Content × UInt64)
  | .inode inodeId => (c.inodes.lookup inodeId).map fun e => (e.inode, e.version)
  | .blocks inodeId => (c.blocks.lookup inodeId).map fun e => (e.blocks, e.version)
  | .dir path => (c.dirs.lookup path).map fun e => (e.entries, e.version)

/-- Content and version that a call puts under a key. -/
def Call.delivers : Call → (key : Key) → Option (key.Content × UInt64)
  | .putInode inodeId inode version _, .inode k => if k = inodeId then some (inode, version) else none
  | .putInodeByPath _ inode version _, .inode k => if k = inode.inodeId then some (inode, version) else none
  | .putBlockLocations inodeId blocks version _, .blocks k => if k = inodeId then some (blocks, version) else none
  | .putDirEntries path entries version _, .dir k => if k = path then some (entries, version) else none
  | _, _ => none

/-- The entry of a key after a call. -/
def Leaves (c c' : MetadataCache) (call : Call) (key : Key) : Prop :=
  c'.cached key = none ∨ c'.cached key = (call.delivers key).or (c.cached key)

section
variable {c c' : MetadataCache} {call : Call}

theorem rep_new (maxEntries : Nat) (ttlSeconds : UInt64) : Rep (new maxEntries ttlSeconds) :=
  ⟨Lru.rep_empty, Lru.rep_empty, Lru.rep_empty, rfl⟩

theorem guarded_of_free {β : Type} (free : c.locked = false)
    (body : MetadataCache → Option (β × MetadataCache)) :
    c.guarded body = (body { c with locked := true }).map fun (out, c) => (out, { c with locked := false }) := by
  unfold guarded
  rw [free]
  rfl

/-- The second acquisition does not return. -/
theorem guarded_of_locked {β : Type} (held : c.locked = true)
    (body : MetadataCache → Option (β × MetadataCache)) : c.guarded body = none := by
  unfold guarded
  rw [if_pos held]

/-! ## What each call does -/

theorem exec_getInode (free : c.locked = false) (inodeId now : UInt64) :
    Call.exec c (.getInode inodeId now) = some { c with
      inodes := (c.inodes.get (fun e => isExpired now e.toCacheEntryBase) inodeId).2
      locked := false } := by
  simp only [Call.exec, getInode, guarded_of_free free, Option.map_some]

theorem exec_putInode (free : c.locked = false) (inodeId : UInt64) (inode : Inode) (version now : UInt64) :
    Call.exec c (.putInode inodeId inode version now) = some { c with
      inodes := (c.inodes.put c.maxEntries inodeId { c.lease version now with inode := inode }).2
      pathToInode := (c.inodes.put c.maxEntries inodeId { c.lease version now with inode := inode }).1.foldl
        (fun paths e => Function.update paths e.2.inode.name none) c.pathToInode
      locked := false } := by
  simp only [Call.exec, putInode, guarded_of_free free, Option.map_some]
  rfl

theorem exec_putInodeByPath (free : c.locked = false) (path : Str) (inode : Inode) (version now : UInt64) :
    Call.exec c (.putInodeByPath path inode version now) = some { c with
      inodes := (c.inodes.put c.maxEntries inode.inodeId { c.lease version now with inode := inode }).2
      pathToInode := Function.update
        ((c.inodes.put c.maxEntries inode.inodeId { c.lease version now with inode := inode }).1.foldl
          (fun paths e => Function.update paths e.2.inode.name none) c.pathToInode) path (some inode.inodeId)
      locked := false } := by
  simp only [Call.exec, putInodeByPath, putInode, guarded_of_free free, Option.map_some, Option.bind_some]
  rw [guarded_of_free rfl]
  rfl

theorem exec_invalidateInode (free : c.locked = false) (inodeId : UInt64) :
    Call.exec c (.invalidateInode inodeId) = some { c with
      inodes := c.inodes.remove inodeId
      locked := false } := by
  simp only [Call.exec, invalidateInode, guarded_of_free free, Option.map_some]

theorem exec_getBlockLocations (free : c.locked = false) (inodeId now : UInt64) :
    Call.exec c (.getBlockLocations inodeId now) = some { c with
      blocks := (c.blocks.get (fun e => isExpired now e.toCacheEntryBase) inodeId).2
      locked := false } := by
  simp only [Call.exec, getBlockLocations, guarded_of_free free, Option.map_some]

theorem exec_putBlockLocations (free : c.locked = false) (inodeId : UInt64) (blocks : List BlockMeta)
    (version now : UInt64) :
    Call.exec c (.putBlockLocations inodeId blocks version now) = some { c with
      blocks := (c.blocks.put c.maxEntries inodeId
        { c.lease version now with inodeId := inodeId, blocks := blocks }).2
      locked := false } := by
  simp only [Call.exec, putBlockLocations, guarded_of_free free, Option.map_some]
  rfl

theorem exec_invalidateBlockLocations (free : c.locked = false) (inodeId : UInt64) :
    Call.exec c (.invalidateBlockLocations inodeId) = some { c with
      blocks := c.blocks.remove inodeId
      locked := false } := by
  simp only [Call.exec, invalidateBlockLocations, guarded_of_free free, Option.map_some]

theorem exec_getDirEntries (free : c.locked = false) (path : Str) (now : UInt64) :
    Call.exec c (.getDirEntries path now) = some { c with
      dirs := (c.dirs.get (fun e => isExpired now e.toCacheEntryBase) path).2
      locked := false } := by
  simp only [Call.exec, getDirEntries, guarded_of_free free, Option.map_some]

theorem exec_putDirEntries (free : c.locked = false) (path : Str) (entries : List DirEntry)
    (version now : UInt64) :
    Call.exec c (.putDirEntries path entries version now) = some { c with
      dirs := (c.dirs.put c.maxEntries path { c.lease version now with path := path, entries := entries }).2
      locked := false } := by
  simp only [Call.exec, putDirEntries, guarded_of_free free, Option.map_some]
  rfl

theorem exec_invalidateDir (free : c.locked = false) (path : Str) :
    Call.exec c (.invalidateDir path) = some { c with
      dirs := c.dirs.remove path
      locked := false } := by
  simp only [Call.exec, invalidateDir, guarded_of_free free, Option.map_some]

theorem exec_clear (free : c.locked = false) :
    Call.exec c .clear = some { c with
      inodes := { c.inodes with list := [], index := [] }
      pathToInode := fun _ => none
      blocks := { c.blocks with list := [], index := [] }
      dirs := { c.dirs with list := [], index := [] }
      locked := false } := by
  simp only [Call.exec, clear, guarded_of_free free, Option.map_some]

/-! ## One list -/

variable {κ α β : Type} [DecidableEq κ] {l : Lru κ α}

theorem get_leaves (rep : l.Rep) (expired : α → Bool) (k k' : κ) (f : α → β) :
    ((l.get expired k).2.lookup k').map f = none ∨
      ((l.get expired k).2.lookup k').map f = (l.lookup k').map f := by
  obtain ⟨-, -, after⟩ := Lru.get_spec rep expired k
  rw [after k']
  split
  · subst k'
    cases l.lookup k with
    | none => exact .inl rfl
    | some v =>
      by_cases old : expired v = true
      · simp [Option.filter, old]
      · simp [Option.filter, old]
  · exact .inr rfl

theorem remove_leaves (rep : l.Rep) (k k' : κ) (f : α → β) :
    ((l.remove k).lookup k').map f = none ∨ ((l.remove k).lookup k').map f = (l.lookup k').map f := by
  obtain ⟨-, after⟩ := Lru.remove_spec rep k
  rw [after k']
  split
  · exact .inl rfl
  · exact .inr rfl

theorem put_leaves (rep : l.Rep) (maxEntries : Nat) (k k' : κ) (v : α) (f : α → β) :
    ((l.put maxEntries k v).2.lookup k').map f = none ∨
      ((l.put maxEntries k v).2.lookup k').map f =
        (if k' = k then some (f v) else none).or ((l.lookup k').map f) := by
  obtain ⟨-, after⟩ := Lru.put_spec rep maxEntries k v
  rw [after k']
  split
  · exact .inl rfl
  · right
    split
    · rfl
    · rfl

end

/-! ## All calls -/

section
variable {c c' : MetadataCache} {call : Call}

theorem leaves_of (inode : ∀ k, Leaves c c' call (.inode k)) (blocks : ∀ k, Leaves c c' call (.blocks k))
    (dir : ∀ k, Leaves c c' call (.dir k)) (key : Key) : Leaves c c' call key := by
  cases key with
  | inode k => exact inode k
  | blocks k => exact blocks k
  | dir k => exact dir k

/-- A call of one of the other lists. -/
theorem leaves_other (key : Key) (same : c'.cached key = c.cached key) (other : call.delivers key = none) :
    Leaves c c' call key := by
  right
  rw [other, same]
  rfl

/-- A call that delivers nothing and leaves the lists as they are. -/
theorem spec_of_same (rep : Rep c) (inodes : c'.inodes = c.inodes) (blocks : c'.blocks = c.blocks)
    (dirs : c'.dirs = c.dirs) (free : c'.locked = false) (quiet : ∀ key, call.delivers key = none) :
    Rep c' ∧ ∀ key, Leaves c c' call key := by
  constructor
  · exact ⟨inodes ▸ rep.inodes, blocks ▸ rep.blocks, dirs ▸ rep.dirs, free⟩
  · intro key
    apply leaves_other key _ (quiet key)
    cases key <;> simp [cached, inodes, blocks, dirs]

/-- The call took the mutex again while it held it. -/
theorem not_returned {β γ : Type} {body : MetadataCache → Option (β × MetadataCache)}
    {f : β × MetadataCache → γ} {v : γ}
    (ran : (({ c with locked := true } : MetadataCache).guarded body).map f = some v) : False := by
  rw [guarded_of_locked rfl] at ran
  cases ran

/-- Each call keeps the indices right, gives the mutex back, and leaves for each key its
entry, what it delivered, or nothing. -/
theorem exec_spec (rep : Rep c) (ran : call.exec c = some c') : Rep c' ∧ ∀ key, Leaves c c' call key := by
  have ⟨inodes, blocks, dirs, free⟩ := rep
  cases call with
  | getInode inodeId now =>
    rw [exec_getInode free] at ran
    cases ran
    exact ⟨⟨(Lru.get_spec inodes _ _).1, blocks, dirs, rfl⟩, leaves_of (fun _ => get_leaves inodes _ _ _ _)
      (fun k => leaves_other (.blocks k) rfl rfl) (fun k => leaves_other (.dir k) rfl rfl)⟩
  | getInodeByPath path now =>
    simp only [Call.exec, getInodeByPath, guarded_of_free free] at ran
    cases known : c.pathToInode path with
    | none =>
      simp only [known, Option.map_some, Option.some.injEq] at ran
      subst ran
      exact spec_of_same rep rfl rfl rfl rfl fun key => by cases key <;> rfl
    | some inodeId =>
      simp only [known, Option.map_map, getInode] at ran
      exact (not_returned ran).elim
  | putInode inodeId inode version now =>
    rw [exec_putInode free] at ran
    cases ran
    exact ⟨⟨(Lru.put_spec inodes _ _ _).1, blocks, dirs, rfl⟩, leaves_of (fun _ => put_leaves inodes _ _ _ _ _)
      (fun k => leaves_other (.blocks k) rfl rfl) (fun k => leaves_other (.dir k) rfl rfl)⟩
  | putInodeByPath path inode version now =>
    rw [exec_putInodeByPath free] at ran
    cases ran
    exact ⟨⟨(Lru.put_spec inodes _ _ _).1, blocks, dirs, rfl⟩, leaves_of (fun _ => put_leaves inodes _ _ _ _ _)
      (fun k => leaves_other (.blocks k) rfl rfl) (fun k => leaves_other (.dir k) rfl rfl)⟩
  | invalidateInode inodeId =>
    rw [exec_invalidateInode free] at ran
    cases ran
    exact ⟨⟨(Lru.remove_spec inodes _).1, blocks, dirs, rfl⟩, leaves_of (fun _ => remove_leaves inodes _ _ _)
      (fun k => leaves_other (.blocks k) rfl rfl) (fun k => leaves_other (.dir k) rfl rfl)⟩
  | invalidateInodeByPath path =>
    simp only [Call.exec, invalidateInodeByPath, guarded_of_free free] at ran
    cases known : c.pathToInode path with
    | none =>
      simp only [known, Option.map_some, Option.some.injEq] at ran
      subst ran
      exact spec_of_same rep rfl rfl rfl rfl fun key => by cases key <;> rfl
    | some inodeId =>
      simp only [known, Option.map_map, invalidateInode] at ran
      exact (not_returned ran).elim
  | getBlockLocations inodeId now =>
    rw [exec_getBlockLocations free] at ran
    cases ran
    exact ⟨⟨inodes, (Lru.get_spec blocks _ _).1, dirs, rfl⟩, leaves_of (fun k => leaves_other (.inode k) rfl rfl)
      (fun _ => get_leaves blocks _ _ _ _) (fun k => leaves_other (.dir k) rfl rfl)⟩
  | putBlockLocations inodeId locations version now =>
    rw [exec_putBlockLocations free] at ran
    cases ran
    exact ⟨⟨inodes, (Lru.put_spec blocks _ _ _).1, dirs, rfl⟩, leaves_of (fun k => leaves_other (.inode k) rfl rfl)
      (fun _ => put_leaves blocks _ _ _ _ _) (fun k => leaves_other (.dir k) rfl rfl)⟩
  | invalidateBlockLocations inodeId =>
    rw [exec_invalidateBlockLocations free] at ran
    cases ran
    exact ⟨⟨inodes, (Lru.remove_spec blocks _).1, dirs, rfl⟩, leaves_of (fun k => leaves_other (.inode k) rfl rfl)
      (fun _ => remove_leaves blocks _ _ _) (fun k => leaves_other (.dir k) rfl rfl)⟩
  | getDirEntries path now =>
    rw [exec_getDirEntries free] at ran
    cases ran
    exact ⟨⟨inodes, blocks, (Lru.get_spec dirs _ _).1, rfl⟩, leaves_of (fun k => leaves_other (.inode k) rfl rfl)
      (fun k => leaves_other (.blocks k) rfl rfl) (fun _ => get_leaves dirs _ _ _ _)⟩
  | putDirEntries path entries version now =>
    rw [exec_putDirEntries free] at ran
    cases ran
    exact ⟨⟨inodes, blocks, (Lru.put_spec dirs _ _ _).1, rfl⟩, leaves_of (fun k => leaves_other (.inode k) rfl rfl)
      (fun k => leaves_other (.blocks k) rfl rfl) (fun _ => put_leaves dirs _ _ _ _ _)⟩
  | invalidateDir path =>
    rw [exec_invalidateDir free] at ran
    cases ran
    exact ⟨⟨inodes, blocks, (Lru.remove_spec dirs _).1, rfl⟩, leaves_of (fun k => leaves_other (.inode k) rfl rfl)
      (fun k => leaves_other (.blocks k) rfl rfl) (fun _ => remove_leaves dirs _ _ _)⟩
  | clear =>
    rw [exec_clear free] at ran
    cases ran
    exact ⟨⟨Indexed.nil _, Indexed.nil _, Indexed.nil _, rfl⟩, fun key => .inl (by cases key <;> rfl)⟩
  | size =>
    simp only [Call.exec, size, guarded_of_free free, Option.map_some, Option.some.injEq] at ran
    subst ran
    exact spec_of_same rep rfl rfl rfl rfl fun key => by cases key <;> rfl
  | setTtlSeconds seconds =>
    simp only [Call.exec, Option.some.injEq] at ran
    subst ran
    exact spec_of_same rep rfl rfl rfl free fun key => by cases key <;> rfl

theorem run_rep (rep : Rep c) {calls : List Call} (ran : run c calls = some c') : Rep c' := by
  induction calls generalizing c with
  | nil =>
    cases ran
    exact rep
  | cons call calls ih =>
    obtain ⟨c₁, first, rest⟩ := Option.bind_eq_some_iff.mp ran
    exact ih (exec_spec rep first).1 rest

end

end MetadataCache

end OpenFS
