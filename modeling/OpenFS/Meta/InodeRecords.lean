import OpenFS.Meta.NamespaceInvariant

/-!
# What namespace calls do to the inode records

A creation adds one record, under the id that the counter hands out. No other call adds
a record or moves the counter, and none changes the type or the size of a file.
-/

namespace OpenFS

namespace InodeTable

/-- The table with one more record, under the next id. -/
structure Adds (before : InodeTable) (inode : Inode) (after : InodeTable) : Prop where
  id : inode.inodeId = before.nextInodeId
  inodes : after.inodes = Function.update before.inodes before.nextInodeId (some inode)
  next : after.nextInodeId = before.nextInodeId + 1

/-- All records were there before, with their type and size. -/
def Carries (before after : InodeTable) : Prop :=
  ∀ i r', after.inodes i = some r' → ∃ r, before.inodes i = some r ∧ r'.fileType = r.fileType ∧ r'.size = r.size

theorem Carries.of_eq {before after : InodeTable} (same : after.inodes = before.inodes) : before.Carries after :=
  fun _ r there => ⟨r, by rwa [same] at there, rfl, rfl⟩

/-- A creation that is refused may have used up an id. -/
structure Refuses (before after : InodeTable) : Prop where
  inodes : after.inodes = before.inodes
  next : after.nextInodeId = before.nextInodeId ∨ after.nextInodeId = before.nextInodeId + 1

theorem Refuses.refl (t : InodeTable) : t.Refuses t := ⟨rfl, .inl rfl⟩

/-- Creating the record of the id that was just handed out. -/
theorem create_allocated (t : InodeTable) {inode : Inode} (id : inode.inodeId = t.nextInodeId) :
    (∃ s table, t.allocateInodeId.2.create inode = (s, table) ∧ s ≠ .ok ∧ t.Refuses table) ∨
      ∃ table, t.allocateInodeId.2.create inode = (.ok, table) ∧ t.Adds inode table := by
  unfold allocateInodeId create
  dsimp only
  cases live : t.inodes inode.inodeId with
  | some r => exact .inl ⟨_, _, rfl, by decide, rfl, .inr rfl⟩
  | none => exact .inr ⟨_, rfl, id, by rw [← id], rfl⟩

end InodeTable

namespace NamespaceManager

variable (ns : NamespaceManager)

theorem createFile_records (now : UInt64) (path : Str) (mode uid gid : UInt32) (fileSize : UInt64) :
    (∃ s after, ns.createFile now path mode uid gid fileSize = (.error s, after) ∧
        ns.inodeTable.Refuses after.inodeTable) ∨
      ∃ inode after, ns.createFile now path mode uid gid fileSize = (.ok inode, after) ∧
        ns.inodeTable.Adds inode after.inodeTable ∧ inode.fileType = .regular ∧ inode.size = fileSize := by
  unfold createFile
  split
  · exact .inl ⟨_, _, rfl, .refl _⟩
  · next parentId filename _ =>
    split
    · exact .inl ⟨_, _, rfl, .refl _⟩
    · split
      · exact .inl ⟨_, _, rfl, .refl _⟩
      · rcases @InodeTable.create_allocated ns.inodeTable
          (newRegular now mode uid gid fileSize ns.inodeTable.nextInodeId parentId filename) rfl with
          ⟨s, table, created, refused, refuses⟩ | ⟨table, created, adds⟩
        · dsimp only [InodeTable.allocateInodeId] at created ⊢
          rw [created]
          cases s with
          | ok => exact absurd rfl refused
          | _ => exact .inl ⟨_, _, rfl, refuses⟩
        · dsimp only [InodeTable.allocateInodeId] at created ⊢
          rw [created]
          exact .inr ⟨_, _, rfl, adds, rfl, rfl⟩

theorem mkDir_records (now : UInt64) (path : Str) (mode uid gid : UInt32) :
    (∃ s after, ns.mkDir now path mode uid gid = (.error s, after) ∧ ns.inodeTable.Refuses after.inodeTable) ∨
      ∃ inode after, ns.mkDir now path mode uid gid = (.ok inode, after) ∧
        ns.inodeTable.Adds inode after.inodeTable ∧ inode.fileType = .directory := by
  unfold mkDir
  split
  · exact .inl ⟨_, _, rfl, .refl _⟩
  · next parentId dirname _ =>
    split
    · exact .inl ⟨_, _, rfl, .refl _⟩
    · split
      · exact .inl ⟨_, _, rfl, .refl _⟩
      · rcases @InodeTable.create_allocated ns.inodeTable
          (newDirectory now mode uid gid ns.inodeTable.nextInodeId parentId dirname) rfl with
          ⟨s, table, created, refused, refuses⟩ | ⟨table, created, adds⟩
        · dsimp only [InodeTable.allocateInodeId] at created ⊢
          rw [created]
          cases s with
          | ok => exact absurd rfl refused
          | _ => exact .inl ⟨_, _, rfl, refuses⟩
        · dsimp only [InodeTable.allocateInodeId] at created ⊢
          rw [created]
          exact .inr ⟨_, _, rfl, adds, rfl⟩

/-! ## The other calls -/

theorem deleteFile_nextInodeId (path : Str) :
    (ns.deleteFile path).2.inodeTable.nextInodeId = ns.inodeTable.nextInodeId := by
  unfold deleteFile
  split
  · rfl
  · split
    · rfl
    · split
      · rfl
      · exact InodeTable.delete_nextInodeId _ _

theorem rmDir_nextInodeId (path : Str) : (ns.rmDir path).2.inodeTable.nextInodeId = ns.inodeTable.nextInodeId := by
  unfold rmDir
  split
  · rfl
  · split
    · rfl
    · split
      · rfl
      · split
        · rfl
        · split
          · rfl
          · exact InodeTable.delete_nextInodeId _ _

theorem rename_nextInodeId (now : UInt64) (srcPath dstPath : Str) :
    (ns.rename now srcPath dstPath).2.inodeTable.nextInodeId = ns.inodeTable.nextInodeId := by
  unfold rename
  split
  · rfl
  · split
    · rfl
    · split
      · rfl
      · split
        · rfl
        · dsimp only
          split
          · rfl
          · split
            · rfl
            · split
              · rfl
              · exact InodeTable.update_nextInodeId _ _

variable {ns}

theorem carries_removed {i : UInt64} {after : InodeTable}
    (inodes : after.inodes = Function.update ns.inodeTable.inodes i none) : ns.inodeTable.Carries after := by
  intro j r there
  rw [inodes] at there
  rcases eq_or_ne j i with rfl | other
  · rw [Function.update_self] at there
    cases there
  · rw [Function.update_of_ne other] at there
    exact ⟨r, there, rfl, rfl⟩

/-- A call that does not create carries all records over. -/
theorem Effect.carries (h : Consistent ns) {now : UInt64} {call : Call} {s : Status} {after : NamespaceManager}
    (effect : Effect ns now call s after) (old : ∀ path mode uid gid, call ≠ .mkDir path mode uid gid)
    (old' : ∀ path mode uid gid size, call ≠ .createFile path mode uid gid size) :
    ns.inodeTable.Carries after.inodeTable := by
  cases effect with
  | refused _ same => exact .of_eq same.inodes
  | madeDirectory => exact absurd rfl (old _ _ _ _)
  | madeFile => exact absurd rfl (old' _ _ _ _ _)
  | removedFile _ _ _ _ inodes _ => exact carries_removed inodes
  | removedDirectory _ _ _ _ _ inodes _ => exact carries_removed inodes
  | @moved _ _ _ dstParent _ dstName _ _ moving _ _ _ _ _ inodes _ =>
    intro i r there
    rw [inodes] at there
    unfold renamedInodes at there
    cases live : ns.inodeTable.inodes moving.inodeId with
    | none =>
      rw [live] at there
      exact ⟨r, there, rfl, rfl⟩
    | some inode =>
      rw [live] at there
      dsimp only at there
      rw [h.keyed live, live, Option.isSome_some, if_pos rfl] at there
      rcases eq_or_ne i moving.inodeId with rfl | other
      · rw [Function.update_self] at there
        cases there
        exact ⟨inode, live, rfl, rfl⟩
      · rw [Function.update_of_ne other] at there
        exact ⟨r, there, rfl, rfl⟩
  | lost _ _ _ _ inodes => exact .of_eq (by rw [inodes])

end NamespaceManager

end OpenFS
