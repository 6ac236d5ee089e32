import OpenFS.Meta.MetaService
import OpenFS.Meta.NamespaceTree

/-!
# What the tables say about each other

Directory entries and inode records agree in every state of the service. Block
lists are another matter: `RemoveFsFile` does not tell the block map, and
`CommitBlocks` does not ask the inode table, so a block list belongs to a live
file only as long as neither makes a difference.
-/

namespace OpenFS.MetaService

open NamespaceManager RootedGraph

/-- Entries and inodes describe one another. -/
structure EntriesAgree (ns : NamespaceManager) : Prop where
  keys : ∀ d, (ns.dirEntries d).isSome ↔ ∃ r, ns.inodeTable.inodes d = some r ∧ r.fileType = .directory
  entry : ∀ {d l e}, ns.dirEntries d = some l → e ∈ l → ∃ r, ns.inodeTable.inodes e.inodeId = some r ∧
    r.fileType = e.fileType ∧ r.name = e.name ∧ r.parentId = d
  names : ∀ {d l}, ns.dirEntries d = some l → (l.map DirEntry.name).Nodup
  once : ∀ {d d' : UInt64} {l l' : List DirEntry} {k k' : Nat} {e e' : DirEntry},
    ns.dirEntries d = some l → l[k]? = some e → ns.dirEntries d' = some l' →
    l'[k']? = some e' → e.inodeId = e'.inodeId → d = d' ∧ k = k'

/-- **Entries and inodes agree** in every state, whatever failed before. -/
theorem entriesAgree_of_reachable {svc : MetaService} (reachable : svc.Reachable) :
    EntriesAgree svc.namespaceMgr := by
  have consistent := reachable.consistent
  refine ⟨consistent.keys, fun there member => consistent.entry ⟨_, there, member⟩,
    fun there => consistent.lists.names there, ?_⟩
  intro d d' l l' k k' e e' there at_k there' at_k' same
  exact consistent.rooted_edge.unique (edge_eq_some.mpr ⟨l, e, there, at_k, rfl⟩)
    (edge_eq_some.mpr ⟨l', e', there', at_k', same.symm⟩)

/-- A file of one block that was moved into a directory. -/
def movedIn : MetaService :=
  ((((init 0).handle (.mkDir 0 ['/', 'd'] 0o755 0 0)).handle (.createFsFile 0 ['/', 'a'] 0o644 0 0 0)).handle
    (.rename 0 ['/', 'a'] ['/', 'd', '/', 'b'])).handle (.commitBlocks 0 0 3 [{ blockId := 1, size := 5 }])

theorem entriesAgree_movedIn : movedIn.namespaceMgr.dirEntries 2 = some [⟨['b'], 3, .regular⟩] ∧
    (movedIn.inodeTable.inodes 3).map Inode.size = some 5 ∧ EntriesAgree movedIn.namespaceMgr :=
  ⟨by decide, by decide, entriesAgree_of_reachable (.step _ (.step _ (.step _ (.step _ (.init 0)))))⟩

/-! ## Block lists -/

def RegularFile (svc : MetaService) (i : UInt64) : Prop :=
  ∃ inode, svc.inodeTable.inodes i = some inode ∧ inode.fileType = .regular

/-- Every inode with a block list is a live regular file. -/
def BlocksOwned (svc : MetaService) : Prop :=
  ∀ i ids, svc.blockMap.inodeBlocks i = some ids → svc.RegularFile i

/-- The file that `RemoveFsFile` would remove has no block list, and the inode
that `CommitBlocks` names is a live regular file. -/
def KeepsOwners (svc : MetaService) : Request → Prop
  | .removeFsFile path => ∀ parentId filename entries e,
      svc.namespaceMgr.resolvePath path = .ok (parentId, filename) →
      svc.namespaceMgr.dirEntries parentId = some entries →
      entries.find? (fun e => e.name = filename ∧ e.fileType = .regular) = some e →
      svc.blockMap.inodeBlocks e.inodeId = none
  | .commitBlocks _ _ i _ => svc.RegularFile i
  | _ => True

/-- A removed file's blocks are no longer recorded, and no commit succeeds on an
inode that is not there. -/
def Truthful (svc : MetaService) : Request → Prop
  | .removeFsFile path => (svc.removeFsFile path).1 = .ok →
      ∀ i, svc.inodeTable.inodes i ≠ none → (svc.removeFsFile path).2.inodeTable.inodes i = none →
        (svc.removeFsFile path).2.blockMap.inodeBlocks i = none
  | .commitBlocks mtime ctime i request => (svc.commitBlocks mtime ctime i request).1 = .ok →
      svc.inodeTable.inodes i ≠ none
  | _ => True

/-- The states of a run whose requests all keep the owners. -/
inductive OwnedRun : MetaService → Prop where
  | init (now : UInt64) : OwnedRun (init now)
  | step {svc : MetaService} (request : Request) : OwnedRun svc → svc.KeepsOwners request →
      OwnedRun (svc.handle request)

theorem OwnedRun.reachable {svc : MetaService} (run : OwnedRun svc) : svc.Reachable := by
  induction run with
  | init now => exact .init now
  | step request _ _ ih => exact .step request ih

/-- A live regular file stays one in every call but its own removal. -/
theorem regular_effect {ns after : NamespaceManager} (consistent : ns.Consistent) {now : UInt64} {call : Call}
    {s : Status} (effect : Effect ns now call s after) {i : UInt64} {inode : Inode}
    (live : ns.inodeTable.inodes i = some inode) (regular : inode.fileType = .regular) :
    (∃ inode, after.inodeTable.inodes i = some inode ∧ inode.fileType = .regular) ∨
      ∃ path parentId filename entries e, call = .deleteFile path ∧
        ns.resolvePath path = .ok (parentId, filename) ∧ ns.dirEntries parentId = some entries ∧
        entries.find? (fun e => e.name = filename ∧ e.fileType = .regular) = some e ∧ e.inodeId = i := by
  have kept : after.inodeTable.inodes i = ns.inodeTable.inodes i →
      ∃ inode, after.inodeTable.inodes i = some inode ∧ inode.fileType = .regular := by
    intro same
    exact ⟨inode, same.trans live, regular⟩
  have different : ∀ {j}, ns.inodeTable.inodes j = none → i ≠ j := by
    rintro j free rfl
    simp [free] at live
  cases effect with
  | refused _ same => exact .inl (kept (by rw [same.inodes]))
  | madeDirectory _ _ _ free _ inodes _ =>
    exact .inl (kept (by rw [inodes, Function.update_of_ne (different free)]))
  | madeFile _ _ _ free _ inodes _ =>
    exact .inl (kept (by rw [inodes, Function.update_of_ne (different free)]))
  | @removedFile path parentId filename entries e after resolved listed found _ inodes _ =>
    rcases eq_or_ne i e.inodeId with same | other
    · exact .inr ⟨path, parentId, filename, entries, e, rfl, resolved, listed, found, same.symm⟩
    · exact .inl (kept (by rw [inodes, Function.update_of_ne other]))
  | @removedDirectory path parentId dirname entries e after _ listed found _ _ inodes _ =>
    refine .inl (kept ?_)
    rw [inodes, Function.update_of_ne]
    rintro rfl
    obtain ⟨r, there, type, -⟩ := consistent.entry ⟨entries, listed, List.mem_of_find?_eq_some found⟩
    have hit := List.find?_some found
    simp only [Bool.decide_and, Bool.and_eq_true, decide_eq_true_eq] at hit
    cases live.symm.trans there
    rw [regular, hit.2] at type
    cases type
  | @moved srcPath dstPath srcParent dstParent srcName dstName srcEntries dstEntries moving after _ _ _ _
    inodes _ =>
    left
    rw [inodes, renamedInodes]
    cases there : ns.inodeTable.inodes moving.inodeId with
    | none => exact ⟨inode, live, regular⟩
    | some source =>
      have keyed := consistent.keyed there
      rcases eq_or_ne i moving.inodeId with rfl | other
      · cases live.symm.trans there
        exact ⟨renamed inode now dstName dstParent, by simp [keyed, live], regular⟩
      · exact ⟨inode, by simp [keyed, there, other, live], regular⟩
  | lost _ _ _ _ inodes => exact .inl (kept (by rw [inodes]))

/-- A namespace request does not touch the block map. -/
theorem owned_of_effect {svc : MetaService} (owned : svc.BlocksOwned) (consistent : svc.namespaceMgr.Consistent)
    {now : UInt64} {call : Call} {s : Status} {after : NamespaceManager}
    (effect : Effect svc.namespaceMgr now call s after) (other : ∀ path, call ≠ .deleteFile path) :
    BlocksOwned { svc with namespaceMgr := after } := by
  intro i ids listed
  obtain ⟨inode, live, regular⟩ := owned i ids listed
  rcases regular_effect consistent effect live regular with kept | ⟨path, -, -, -, -, call, -⟩
  · exact kept
  · exact absurd call (other path)

theorem owned_remove {svc : MetaService} (owned : svc.BlocksOwned) (consistent : svc.namespaceMgr.Consistent)
    (path : Str) (keeps : svc.KeepsOwners (.removeFsFile path)) : (svc.removeFsFile path).2.BlocksOwned := by
  intro i ids listed
  obtain ⟨inode, live, regular⟩ := owned i ids listed
  rcases regular_effect consistent (deleteFile_effect _ 0 path) live regular with kept |
    ⟨path', parentId, filename, entries, e, call, resolved, there, found, rfl⟩
  · exact kept
  · cases call
    cases (keeps parentId filename entries e resolved there found).symm.trans listed

theorem owned_commit {svc : MetaService} (owned : svc.BlocksOwned) (consistent : svc.namespaceMgr.Consistent)
    (mtime ctime i : UInt64) (request : List BlockMetaProto) (file : svc.RegularFile i) :
    (svc.commitBlocks mtime ctime i request).2.BlocksOwned := by
  obtain ⟨inode, live, regular⟩ := file
  have keyed : inode.inodeId = i := consistent.keyed live
  have records : (svc.sizedTable mtime ctime i (request.map blockMetaOf)).inodes =
      Function.update svc.inodeTable.inodes i (some (committed inode mtime ctime (request.map blockMetaOf))) := by
    simp only [sizedTable, live]
    rw [InodeTable.update_inodes]
    simp [committed, keyed, live]
  rw [commitBlocks_eq]
  intro j ids listed
  show ∃ r, (svc.sizedTable mtime ctime i (request.map blockMetaOf)).inodes j = some r ∧ r.fileType = .regular
  rw [records]
  rcases eq_or_ne j i with rfl | other
  · exact ⟨_, Function.update_self .., regular⟩
  · rw [Function.update_of_ne other]
    apply owned j ids
    rw [← listed]
    exact ((congrFun (BlockMap.addBlocks_inodeBlocks ..) j).trans (Function.update_of_ne other ..)).symm

theorem owned_handle {svc : MetaService} (owned : svc.BlocksOwned) (consistent : svc.namespaceMgr.Consistent)
    (request : Request) (keeps : svc.KeepsOwners request) : (svc.handle request).BlocksOwned := by
  cases request with
  | createFsFile now path mode uid gid fileSize =>
    exact owned_of_effect owned consistent (exec_effect _ now (.createFile path mode uid gid fileSize)) nofun
  | removeFsFile path => exact owned_remove owned consistent path keeps
  | rename now srcPath dstPath =>
    exact owned_of_effect owned consistent (exec_effect _ now (.rename srcPath dstPath)) nofun
  | mkDir now path mode uid gid =>
    exact owned_of_effect owned consistent (exec_effect _ now (.mkDir path mode uid gid)) nofun
  | rmDir path => exact owned_of_effect owned consistent (exec_effect _ 0 (.rmDir path)) nofun
  | commitBlocks mtime ctime i request => exact owned_commit owned consistent mtime ctime i request keeps
  | allocateBlocks => exact owned
  | register => exact owned
  | heartbeat => exact owned

/-- **Block lists belong to live files** in every run whose removals and commits
keep the owners. -/
theorem blocksOwned_of_run {svc : MetaService} (run : svc.OwnedRun) :
    svc.BlocksOwned ∧ ∀ request, svc.KeepsOwners request → svc.Truthful request := by
  have owned : ∀ {svc : MetaService}, svc.OwnedRun → svc.BlocksOwned := by
    intro svc run
    induction run with
    | init now => exact fun i ids listed => nomatch listed
    | step request before keeps ih => exact owned_handle ih before.reachable.consistent request keeps
  refine ⟨owned run, fun request keeps => ?_⟩
  cases request with
  | removeFsFile path =>
    intro _ i _ gone
    by_contra recorded
    obtain ⟨ids, listed⟩ := Option.ne_none_iff_exists'.mp recorded
    obtain ⟨inode, live, -⟩ := owned (.step (.removeFsFile path) run keeps) i ids listed
    cases gone.symm.trans live
  | commitBlocks mtime ctime i request =>
    intro _
    obtain ⟨inode, live, -⟩ := keeps
    rw [live]
    nofun
  | _ => trivial

/-- Two files, one with a block. -/
def twoFiles : MetaService :=
  (((init 0).handle (.createFsFile 0 ['/', 'a'] 0o644 0 0 0)).handle (.createFsFile 0 ['/', 'b'] 0o644 0 0 0)).handle
    (.commitBlocks 0 0 2 [{ blockId := 1, size := 5 }])

theorem twoFiles_run : OwnedRun twoFiles :=
  .step _ (.step _ (.step _ (.init 0) trivial) trivial) ⟨newRegular 0 0o644 0 0 0 2 1 ['a'], by decide, rfl⟩

/-- The file without a block is removed. -/
theorem blocksOwned_twoFiles : (twoFiles.handle (.removeFsFile ['/', 'b'])).blockMap.inodeBlocks 2 = some [1] ∧
    (twoFiles.handle (.removeFsFile ['/', 'b'])).BlocksOwned ∧ twoFiles.Truthful (.removeFsFile ['/', 'b']) := by
  have keeps : twoFiles.KeepsOwners (.removeFsFile ['/', 'b']) := by
    intro parentId filename entries e resolved there found
    cases show _ = Except.ok _ from resolved
    cases show some [⟨['a'], 2, .regular⟩, ⟨['b'], 3, .regular⟩] = some entries from there
    cases show some ⟨['b'], 3, .regular⟩ = some e from found
    decide
  exact ⟨by decide, (blocksOwned_of_run (.step _ twoFiles_run keeps)).1, (blocksOwned_of_run twoFiles_run).2 _ keeps⟩

/-- A file with a block is removed; its list stays. -/
theorem removed_file_keeps_blocks : ¬ ∀ svc : MetaService, svc.Reachable → svc.BlocksOwned := by
  intro claim
  obtain ⟨inode, live, -⟩ := claim ((((init 0).handle (.createFsFile 0 ['/', 'a'] 0o644 0 0 5)).handle
    (.commitBlocks 0 0 2 [{ blockId := 1, size := 5 }])).handle (.removeFsFile ['/', 'a']))
    (.step _ (.step _ (.step _ (.init 0)))) 2 [1] (by decide)
  revert live
  have gone : ((((init 0).handle (.createFsFile 0 ['/', 'a'] 0o644 0 0 5)).handle
    (.commitBlocks 0 0 2 [{ blockId := 1, size := 5 }])).handle (.removeFsFile ['/', 'a'])).inodeTable.inodes 2 =
      none := by decide
  rw [gone]
  nofun

end OpenFS.MetaService
