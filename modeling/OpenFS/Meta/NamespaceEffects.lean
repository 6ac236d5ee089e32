import OpenFS.Meta.NamespaceManager

/-!
# What a namespace call can do

`Effect` lists the outcomes of a call once, with everything that was checked
before the state changed; `exec_effect` says there are no others. Properties of
the namespace are case analyses over it and never unfold an operation.
-/

namespace OpenFS.NamespaceManager

/-- Entry lists and inode records agree; the id counter may differ. -/
structure Unchanged (before after : NamespaceManager) : Prop where
  dirs : after.dirEntries = before.dirEntries
  inodes : after.inodeTable.inodes = before.inodeTable.inodes

theorem Unchanged.refl (ns : NamespaceManager) : Unchanged ns ns := ⟨rfl, rfl⟩

/-- The entry lists once the first entry of `entries` that satisfies `p` is out. -/
def dropEntry (ns : NamespaceManager) (parentId : UInt64) (entries : List DirEntry)
    (p : DirEntry → Bool) : UInt64 → Option (List DirEntry) :=
  Function.update ns.dirEntries parentId (some (entries.eraseP p))

/-- What `Rename` has found out by the time it takes the source entry out. -/
structure Moves (ns : NamespaceManager) (srcPath dstPath : Str) (srcParent dstParent : UInt64)
    (srcName dstName : Str) (srcEntries : List DirEntry) (moving : DirEntry) : Prop where
  src : ns.resolvePath srcPath = .ok (srcParent, srcName)
  dst : ns.resolvePath dstPath = .ok (dstParent, dstName)
  listed : ns.dirEntries srcParent = some srcEntries
  found : srcEntries.find? (fun e => e.name = srcName) = some moving

/-- The inode records after the update that ends `Rename`. -/
def renamedInodes (ns : NamespaceManager) (now : UInt64) (id : UInt64) (dstName : Str)
    (dstParent : UInt64) : UInt64 → Option Inode :=
  match ns.inodeTable.inodes id with
  | none => ns.inodeTable.inodes
  | some inode =>
    if (ns.inodeTable.inodes inode.inodeId).isSome then
      Function.update ns.inodeTable.inodes inode.inodeId (some (renamed inode now dstName dstParent))
    else ns.inodeTable.inodes

/-- The outcomes of a call: its status, and the entry lists, inode records and
id counter it leaves. -/
inductive Effect (ns : NamespaceManager) (now : UInt64) : Call → Status → NamespaceManager → Prop where
  | refused {call : Call} {s : Status} {after : NamespaceManager} (status : s ≠ .ok)
      (same : Unchanged ns after) : Effect ns now call s after
  | madeDirectory {path : Str} {mode uid gid : UInt32} {parentId : UInt64} {dirname : Str}
      {after : NamespaceManager}
      (resolved : ns.resolvePath path = .ok (parentId, dirname)) (named : dirname ≠ [])
      (absent : ∀ e ∈ (ns.dirEntries parentId).getD [], e.name ≠ dirname)
      (free : ns.inodeTable.inodes ns.inodeTable.nextInodeId = none)
      (dirs : after.dirEntries = Function.update (Function.update ns.dirEntries parentId
        (some ((ns.dirEntries parentId).getD [] ++ [⟨dirname, ns.inodeTable.nextInodeId, .directory⟩])))
        ns.inodeTable.nextInodeId (some []))
      (inodes : after.inodeTable.inodes = Function.update ns.inodeTable.inodes ns.inodeTable.nextInodeId
        (some (newDirectory now mode uid gid ns.inodeTable.nextInodeId parentId dirname)))
      (next : after.inodeTable.nextInodeId = ns.inodeTable.nextInodeId + 1) :
      Effect ns now (.mkDir path mode uid gid) .ok after
  | madeFile {path : Str} {mode uid gid : UInt32} {fileSize parentId : UInt64} {filename : Str}
      {entries : List DirEntry} {after : NamespaceManager}
      (resolved : ns.resolvePath path = .ok (parentId, filename))
      (listed : ns.dirEntries parentId = some entries) (absent : ∀ e ∈ entries, e.name ≠ filename)
      (free : ns.inodeTable.inodes ns.inodeTable.nextInodeId = none)
      (dirs : after.dirEntries = Function.update ns.dirEntries parentId
        (some (entries ++ [⟨filename, ns.inodeTable.nextInodeId, .regular⟩])))
      (inodes : after.inodeTable.inodes = Function.update ns.inodeTable.inodes ns.inodeTable.nextInodeId
        (some (newRegular now mode uid gid fileSize ns.inodeTable.nextInodeId parentId filename)))
      (next : after.inodeTable.nextInodeId = ns.inodeTable.nextInodeId + 1) :
      Effect ns now (.createFile path mode uid gid fileSize) .ok after
  | removedFile {path : Str} {parentId : UInt64} {filename : Str} {entries : List DirEntry}
      {e : DirEntry} {after : NamespaceManager}
      (resolved : ns.resolvePath path = .ok (parentId, filename))
      (listed : ns.dirEntries parentId = some entries)
      (found : entries.find? (fun e => e.name = filename ∧ e.fileType = .regular) = some e)
      (dirs : after.dirEntries =
        ns.dropEntry parentId entries (fun e => e.name = filename ∧ e.fileType = .regular))
      (inodes : after.inodeTable.inodes = Function.update ns.inodeTable.inodes e.inodeId none)
      (next : after.inodeTable.nextInodeId = ns.inodeTable.nextInodeId) :
      Effect ns now (.deleteFile path) .ok after
  | removedDirectory {path : Str} {parentId : UInt64} {dirname : Str} {entries : List DirEntry}
      {e : DirEntry} {after : NamespaceManager}
      (resolved : ns.resolvePath path = .ok (parentId, dirname))
      (listed : ns.dirEntries parentId = some entries)
      (found : entries.find? (fun e => e.name = dirname ∧ e.fileType = .directory) = some e)
      (empty : (ns.dirEntries e.inodeId).getD [] = [])
      (dirs : after.dirEntries = Function.update
        (ns.dropEntry parentId entries (fun e => e.name = dirname ∧ e.fileType = .directory)) e.inodeId none)
      (inodes : after.inodeTable.inodes = Function.update ns.inodeTable.inodes e.inodeId none)
      (next : after.inodeTable.nextInodeId = ns.inodeTable.nextInodeId) :
      Effect ns now (.rmDir path) .ok after
  | moved {srcPath dstPath : Str} {srcParent dstParent : UInt64} {srcName dstName : Str}
      {srcEntries dstEntries : List DirEntry} {moving : DirEntry} {after : NamespaceManager}
      (moves : Moves ns srcPath dstPath srcParent dstParent srcName dstName srcEntries moving)
      (listed : ns.dropEntry srcParent srcEntries (fun e => e.name = srcName) dstParent = some dstEntries)
      (absent : ∀ e ∈ dstEntries, e.name ≠ dstName)
      (dirs : after.dirEntries = Function.update
        (ns.dropEntry srcParent srcEntries (fun e => e.name = srcName)) dstParent
        (some (dstEntries ++ [{ moving with name := dstName }])))
      (inodes : after.inodeTable.inodes = ns.renamedInodes now moving.inodeId dstName dstParent)
      (next : after.inodeTable.nextInodeId = ns.inodeTable.nextInodeId) :
      Effect ns now (.rename srcPath dstPath) .ok after
  | lost {srcPath dstPath : Str} {srcParent dstParent : UInt64} {srcName dstName : Str}
      {srcEntries : List DirEntry} {moving : DirEntry} {s : Status} {after : NamespaceManager}
      (moves : Moves ns srcPath dstPath srcParent dstParent srcName dstName srcEntries moving)
      (status : s = .notFound ∨ s = .alreadyExists)
      (blocked : ∀ entries, ns.dropEntry srcParent srcEntries (fun e => e.name = srcName) dstParent =
        some entries → ∃ e ∈ entries, e.name = dstName)
      (dirs : after.dirEntries = ns.dropEntry srcParent srcEntries (fun e => e.name = srcName))
      (inodes : after.inodeTable = ns.inodeTable) :
      Effect ns now (.rename srcPath dstPath) s after

theorem walk_error {ns : NamespaceManager} {current : UInt64} {cs : List Str} {s : Status}
    (h : ns.walk current cs = .error s) : s = .notFound := by
  induction cs generalizing current with
  | nil => cases h
  | cons c rest ih =>
    unfold walk at h
    split at h
    · cases h; rfl
    · split at h
      · cases h; rfl
      · exact ih h

/-- Only absolute paths resolve. -/
theorem absolute_of_resolved {ns : NamespaceManager} {path : Str} {d : UInt64} {name : Str}
    (resolved : ns.resolvePath path = .ok (d, name)) : path.head? = some '/' := by
  by_contra relative
  unfold resolvePath at resolved
  rw [if_pos relative] at resolved
  cases resolved

theorem resolvePath_error {ns : NamespaceManager} {path : Str} {s : Status}
    (h : ns.resolvePath path = .error s) : s ≠ .ok := by
  unfold resolvePath at h
  split at h
  · cases h; decide
  · split at h
    · cases h
    · split at h
      · cases h; decide
      · split at h
        · next failed => cases h; rw [walk_error failed]; decide
        · cases h

/-- No entry of a list has a name that the code's scan did not find. -/
theorem absent_of_any {entries : List DirEntry} {name : Str}
    (h : ¬ entries.any (fun e => e.name = name) = true) : ∀ e ∈ entries, e.name ≠ name := by
  simpa using h

theorem mkDir_effect (ns : NamespaceManager) (now : UInt64) (path : Str) (mode uid gid : UInt32) :
    Effect ns now (.mkDir path mode uid gid) (statusOf (ns.mkDir now path mode uid gid).1)
      (ns.mkDir now path mode uid gid).2 := by
  generalize result : ns.mkDir now path mode uid gid = r
  unfold mkDir at result
  split at result
  · next failed => subst result; exact .refused (resolvePath_error failed) (.refl ns)
  · next parentId dirname resolved =>
    split at result
    · subst result; exact .refused nofun (.refl ns)
    · next named =>
      split at result
      · subst result; exact .refused nofun (.refl ns)
      · next absent =>
        simp only at result
        split at result
        · next table created =>
          obtain ⟨free, inodes, next⟩ := InodeTable.create_ok created
          subst result
          exact .madeDirectory resolved named (absent_of_any absent) free rfl inodes next
        · next s table refused created =>
          have same := InodeTable.create_refused created refused
          subst same result
          exact .refused refused ⟨rfl, rfl⟩

theorem createFile_effect (ns : NamespaceManager) (now : UInt64) (path : Str) (mode uid gid : UInt32)
    (fileSize : UInt64) :
    Effect ns now (.createFile path mode uid gid fileSize)
      (statusOf (ns.createFile now path mode uid gid fileSize).1)
      (ns.createFile now path mode uid gid fileSize).2 := by
  generalize result : ns.createFile now path mode uid gid fileSize = r
  unfold createFile at result
  split at result
  · next failed => subst result; exact .refused (resolvePath_error failed) (.refl ns)
  · next parentId filename resolved =>
    split at result
    · subst result; exact .refused nofun (.refl ns)
    · next entries listed =>
      split at result
      · subst result; exact .refused nofun (.refl ns)
      · next absent =>
        simp only at result
        split at result
        · next table created =>
          obtain ⟨free, inodes, next⟩ := InodeTable.create_ok created
          subst result
          exact .madeFile resolved listed (absent_of_any absent) free rfl inodes next
        · next s table refused created =>
          have same := InodeTable.create_refused created refused
          subst same result
          exact .refused refused ⟨rfl, rfl⟩

theorem deleteFile_effect (ns : NamespaceManager) (now : UInt64) (path : Str) :
    Effect ns now (.deleteFile path) (ns.deleteFile path).1 (ns.deleteFile path).2 := by
  generalize result : ns.deleteFile path = r
  unfold deleteFile at result
  split at result
  · next failed => subst result; exact .refused (resolvePath_error failed) (.refl ns)
  · next parentId filename resolved =>
    split at result
    · subst result; exact .refused nofun (.refl ns)
    · next entries listed =>
      split at result
      · subst result; exact .refused nofun (.refl ns)
      · next e found =>
        subst result
        exact .removedFile resolved listed found rfl (InodeTable.delete_inodes _ _)
          (InodeTable.delete_nextInodeId _ _)

theorem rmDir_effect (ns : NamespaceManager) (now : UInt64) (path : Str) :
    Effect ns now (.rmDir path) (ns.rmDir path).1 (ns.rmDir path).2 := by
  generalize result : ns.rmDir path = r
  unfold rmDir at result
  split at result
  · subst result; exact .refused nofun (.refl ns)
  · split at result
    · next failed => subst result; exact .refused (resolvePath_error failed) (.refl ns)
    · next parentId dirname resolved =>
      split at result
      · subst result; exact .refused nofun (.refl ns)
      · next entries listed =>
        split at result
        · subst result; exact .refused nofun (.refl ns)
        · next e found =>
          split at result
          · subst result; exact .refused nofun (.refl ns)
          · next empty =>
            subst result
            exact .removedDirectory resolved listed found (not_not.mp empty) rfl
              (InodeTable.delete_inodes _ _) (InodeTable.delete_nextInodeId _ _)

theorem rename_effect (ns : NamespaceManager) (now : UInt64) (srcPath dstPath : Str) :
    Effect ns now (.rename srcPath dstPath) (ns.rename now srcPath dstPath).1
      (ns.rename now srcPath dstPath).2 := by
  generalize result : ns.rename now srcPath dstPath = r
  unfold rename at result
  split at result
  · next failed => subst result; exact .refused (resolvePath_error failed) (.refl ns)
  · next srcParent srcName src =>
    split at result
    · next failed => subst result; exact .refused (resolvePath_error failed) (.refl ns)
    · next dstParent dstName dst =>
      split at result
      · subst result; exact .refused nofun (.refl ns)
      · next srcEntries listed =>
        split at result
        · subst result; exact .refused nofun (.refl ns)
        · next moving found =>
          have moves : Moves ns srcPath dstPath srcParent dstParent srcName dstName srcEntries moving :=
            ⟨src, dst, listed, found⟩
          simp only at result
          split at result
          · next missing =>
            subst result
            exact .lost moves (.inl rfl) (fun entries h => by simp [dropEntry, missing] at h) rfl rfl
          · next dstEntries dstListed =>
            split at result
            · next taken =>
              subst result
              refine .lost moves (.inr rfl) (fun entries h => ?_) rfl rfl
              cases dstListed.symm.trans h
              simpa using taken
            · next absent =>
              split at result
              · next gone =>
                subst result
                refine .moved moves dstListed (absent_of_any absent) rfl ?_ rfl
                have dead : ns.inodeTable.inodes moving.inodeId = none := by
                  unfold InodeTable.get at gone
                  split at gone
                  · cases gone
                  · assumption
                simp [renamedInodes, dead]
              · next inode live =>
                subst result
                refine .moved moves dstListed (absent_of_any absent) rfl ?_
                  (InodeTable.update_nextInodeId _ _)
                simp [renamedInodes, InodeTable.get_eq_ok.mp live, InodeTable.update_inodes, renamed]

/-- Every call has one of the listed outcomes. -/
theorem exec_effect (ns : NamespaceManager) (now : UInt64) (call : Call) :
    Effect ns now call (ns.exec now call).1 (ns.exec now call).2 := by
  cases call with
  | mkDir path mode uid gid => exact mkDir_effect ns now path mode uid gid
  | createFile path mode uid gid fileSize => exact createFile_effect ns now path mode uid gid fileSize
  | deleteFile path => exact deleteFile_effect ns now path
  | rmDir path => exact rmDir_effect ns now path
  | rename srcPath dstPath => exact rename_effect ns now srcPath dstPath

end OpenFS.NamespaceManager
