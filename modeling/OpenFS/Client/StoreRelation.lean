import OpenFS.Client.FileStore
import OpenFS.Client.WholeFiles
import OpenFS.Meta.TreeRuns

/-!
# The servers and the store

`Shows` says which store the servers show after a history: the tree is that of the
namespace, and a file holds what was committed to it. Each answer of the servers leaves
them with the store that a step of the store leaves.
-/

namespace OpenFS

open Requests

namespace Cluster

open NamespaceManager

/-- Ids are handed out in order, files stay files, and nothing else has a size. -/
structure Kinds (h : Log) (table : InodeTable) : Prop where
  below : ∀ i r, table.inodes i = some r → i.toNat < table.nextInodeId.toNat
  files : ∀ k path size i r, Made h k path size i → table.inodes i = some r → r.fileType = .regular
  others : ∀ i r, table.inodes i = some r → r.fileType ≠ .regular → r.size = 0

/-- What each file holds. -/
structure Holds (h : Log) (content : UInt64 → Content) : Prop where
  made : ∀ k path size i, Made h k path size i → (∀ j blocks, ¬ Committed h j i blocks) → content i = .blank size
  stored : ∀ j i blocks data, Committed h j i blocks → Wrote h j i data → content i = .stored data
  unmade : ∀ i, (∀ k path size, ¬ Made h k path size i) → content i = .empty

/-- Each call was begun once, with data that fits. -/
structure Begun (h : Log) : Prop where
  once : ∀ k c c', .began k c ∈ h → .began k c' ∈ h → c = c'
  fits : ∀ k c, .began k c ∈ h → c.op.Fits

structure Shows (h : Log) (sys : System) (store : FileStore) : Prop where
  tree : store.tree = sys.svc.namespaceMgr.tree
  kinds : Kinds h sys.svc.inodeTable
  holds : Holds h store.content
  begun : Begun h

variable {h : Log} {sys : System} {store : FileStore} {e : Event ClientCall Rpc Rpc.Reply} {k : Nat}

/-- The event begins nothing, makes no file and commits nothing. -/
def Calm : Event ClientCall Rpc Rpc.Reply → Prop
  | .began .. => False
  | .answered _ (.createFile ..) (.ok _) => False
  | .answered _ (.commitBlocks ..) _ => False
  | _ => True

namespace Calm

variable (calm : Calm e) {i : UInt64}

include calm

theorem made {path : Str} {size : UInt64} (made : Made (e :: h) k path size i) : Made h k path size i := by
  obtain ⟨mode, uid, gid, inode, member, same⟩ := made
  rcases List.mem_cons.mp member with rfl | old
  · exact calm.elim
  · exact ⟨mode, uid, gid, inode, old, same⟩

theorem committed {blocks : List BlockMeta} (committed : Committed (e :: h) k i blocks) :
    Committed h k i blocks := by
  rcases List.mem_cons.mp committed with rfl | old
  · exact calm.elim
  · exact old

theorem began {c : ClientCall} (began : .began k c ∈ e :: h) : .began k c ∈ h := by
  rcases List.mem_cons.mp began with rfl | old
  · exact calm.elim
  · exact old

theorem wrote {data : List UInt8} (wrote : Wrote (e :: h) k i data) : Wrote h k i data := by
  obtain ⟨client, path, mode, began, made⟩ := wrote
  exact ⟨client, path, mode, calm.began began, calm.made made⟩

end Calm

theorem Begun.answered (begun : Begun h) (same : ∀ {k c}, .began k c ∈ e :: h → .began k c ∈ h) :
    Begun (e :: h) :=
  ⟨fun k c c' first second => begun.once k c c' (same first) (same second), fun k c began => begun.fits k c (same began)⟩

/-- An answer begins no call. -/
theorem began_of_answered {q : Rpc} {reply : q.Reply} {j : Nat} {c : ClientCall}
    (began : .began j c ∈ .answered k q reply :: h) : .began j c ∈ h := by
  rcases List.mem_cons.mp began with new | old
  · cases new
  · exact old

/-- The data of a call are one. -/
theorem Begun.data_eq (begun : Begun h) {i j : UInt64} {data data' : List UInt8} (wrote : Wrote h k i data)
    (wrote' : Wrote h k j data') : data = data' := by
  obtain ⟨_, _, _, began, -⟩ := wrote
  obtain ⟨_, _, _, began', -⟩ := wrote'
  cases begun.once _ _ _ began began'
  rfl

theorem Holds.calm {content : UInt64 → Content} (holds : Holds h content) (calm : Calm e) :
    Holds (e :: h) content := by
  have sub := List.subset_cons_self e h
  constructor
  · exact fun k path size i made none => holds.made k path size i (calm.made made)
      fun j blocks committed => none j blocks (sub committed)
  · exact fun j i blocks data committed wrote =>
      holds.stored j i blocks data (calm.committed committed) (calm.wrote wrote)
  · exact fun i none => holds.unmade i fun k path size made => none k path size (made.mono sub)

theorem Kinds.carry {table after : InodeTable} (kinds : Kinds h table) (carries : table.Carries after)
    (next : table.nextInodeId.toNat ≤ after.nextInodeId.toNat)
    (old : ∀ k path size i, Made (e :: h) k path size i → ∃ k path size, Made h k path size i) :
    Kinds (e :: h) after := by
  constructor
  · intro i r live
    obtain ⟨r', live', -, -⟩ := carries i r live
    exact Nat.lt_of_lt_of_le (kinds.below i r' live') next
  · intro k path size i r made live
    obtain ⟨r', live', type, -⟩ := carries i r live
    obtain ⟨k', path', size', made'⟩ := old k path size i made
    rw [type]
    exact kinds.files k' path' size' i r' made' live'
  · intro i r live other
    obtain ⟨r', live', type, size⟩ := carries i r live
    rw [size]
    exact kinds.others i r' live' (by rwa [type] at other)

theorem Calm.old (calm : Calm e) (k : Nat) (path : Str) (size i : UInt64) (made : Made (e :: h) k path size i) :
    ∃ k path size, Made h k path size i := ⟨k, path, size, calm.made made⟩

/-- The next id is free. -/
theorem Kinds.free {table : InodeTable} (kinds : Kinds h table) : table.inodes table.nextInodeId = none := by
  rw [Option.eq_none_iff_forall_ne_some]
  intro r live
  exact Nat.lt_irrefl _ (kinds.below _ r live)

theorem Made.mem {path : Str} {size i : UInt64} (made : Made h k path size i) : i ∈ h.flatMap madeIds := by
  obtain ⟨mode, uid, gid, inode, member, rfl⟩ := made
  exact List.mem_flatMap.mpr ⟨_, member, by simp [madeIds]⟩

/-- A new record, of a file that was made just now or of a directory. -/
theorem Kinds.add {ns : NamespaceManager} {after : InodeTable} (kinds : Kinds h ns.inodeTable) (names : Names h ns)
    {inode : Inode} (adds : ns.inodeTable.Adds inode after)
    (room : ns.inodeTable.nextInodeId.toNat + 1 < 2 ^ 64) (blank : inode.fileType ≠ .regular → inode.size = 0)
    (old : ∀ k path size i, Made (e :: h) k path size i →
      Made h k path size i ∨ (i = inode.inodeId ∧ inode.fileType = .regular)) : Kinds (e :: h) after := by
  have next := Names.next_succ room adds.next
  have cases_live : ∀ {i r}, after.inodes i = some r →
      (i = ns.inodeTable.nextInodeId ∧ r = inode) ∨ ns.inodeTable.inodes i = some r := by
    intro i r live
    rw [adds.inodes] at live
    rcases eq_or_ne i ns.inodeTable.nextInodeId with rfl | other
    · rw [Function.update_self] at live
      exact .inl ⟨rfl, (Option.some.inj live).symm⟩
    · rw [Function.update_of_ne other] at live
      exact .inr live
  constructor
  · intro i r live
    rw [next]
    rcases cases_live live with ⟨rfl, -⟩ | live
    · omega
    · have := kinds.below i r live
      omega
  · intro k path size i r made live
    rcases cases_live live with ⟨rfl, rfl⟩ | live
    · rcases old k path size _ made with before | ⟨-, regular⟩
      · exact absurd (names.below _ before.mem) (Nat.lt_irrefl _)
      · exact regular
    · rcases old k path size _ made with before | ⟨rfl, -⟩
      · exact kinds.files k path size i r before live
      · rw [adds.id] at live
        exact absurd (kinds.below _ r live) (Nat.lt_irrefl _)
  · intro i r live other
    rcases cases_live live with ⟨-, rfl⟩ | live
    · exact blank other
    · exact kinds.others i r live other

/-! ## Answers that leave the store -/

/-- The namespace is as it was. -/
theorem Shows.same (shows : Shows h sys store) (calm : Calm e) {sys' : System}
    (same : sys'.svc.namespaceMgr = sys.svc.namespaceMgr) : Shows (e :: h) sys' store := by
  refine ⟨?_, ?_, shows.holds.calm calm, shows.begun.answered calm.began⟩
  · rw [shows.tree, same]
  · unfold MetaService.inodeTable
    rw [same]
    exact shows.kinds.carry (.of_eq rfl) (Nat.le_refl _) calm.old

/-- Requests that read the metadata, or concern blocks only. -/
def Steady : Rpc → Prop
  | .getFileInfo .. => True
  | .readDir .. => True
  | .allocateBlocks .. => True
  | .getBlockLocations .. => True
  | .writeBlock .. => True
  | .readBlock .. => True
  | _ => False

theorem Shows.steady (shows : Shows h sys store) (r : Readings) {q : Rpc} (steady : Steady q) :
    Shows (.answered k q (sys.answer r q).1 :: h) (sys.answer r q).2 store := by
  cases q with
  | getFileInfo path => exact shows.same (by exact trivial) rfl
  | readDir path => exact shows.same (by exact trivial) rfl
  | allocateBlocks i blockCount level =>
    rw [System.answer_allocateBlocks]
    exact shows.same (by exact trivial) rfl
  | getBlockLocations i =>
    rw [System.answer_getBlockLocations]
    exact shows.same (by exact trivial) rfl
  | writeBlock addr blockId segmentId bytes crc32 =>
    rw [System.answer_writeBlock]
    exact shows.same (by exact trivial) rfl
  | readBlock addr segmentId offset =>
    rw [System.answer_readBlock]
    exact shows.same (by exact trivial) rfl
  | _ => exact steady.elim

/-! ## Answers that change it -/

/-- A call of the namespace that makes no file. -/
theorem Shows.change (shows : Shows h sys store) (sound : Sound h sys) (now : UInt64) {call : Call}
    (creates : call.creates = false) (calm : Calm e) :
    (sys.svc.namespaceMgr.exec now call).1 = (store.tree.exec call).1 ∧
      Shows (e :: h) { sys with svc := { sys.svc with namespaceMgr := (sys.svc.namespaceMgr.exec now call).2 } }
        { store with tree := (store.tree.exec call).2 } := by
  have consistent := sound.names.consistent
  obtain ⟨status, left⟩ := exec_tree consistent now call fun _ => shows.kinds.free
  rw [← shows.tree] at status left
  have carries := (exec_effect sys.svc.namespaceMgr now call).carries consistent
    (by rintro path mode uid gid rfl; cases creates) (by rintro path mode uid gid size rfl; cases creates)
  have next : (sys.svc.namespaceMgr.exec now call).2.inodeTable.nextInodeId =
      sys.svc.inodeTable.nextInodeId := by
    rcases exec_next store.tree call with same | ⟨creates', -, -⟩
    · rw [← left, shows.tree] at same
      exact same
    · rw [creates] at creates'
      cases creates'
  exact ⟨status, left.symm, shows.kinds.carry carries (Nat.le_of_eq (by rw [next])) calm.old, shows.holds.calm calm,
    shows.begun.answered calm.began⟩

theorem size_of_mkDir {ns : NamespaceManager} {now : UInt64} {path : Str} {mode uid gid : UInt32} {inode : Inode}
    (made : (ns.mkDir now path mode uid gid).1 = .ok inode) : inode.size = 0 := by
  unfold NamespaceManager.mkDir at made
  split at made
  · cases made
  · split at made
    · cases made
    · split at made
      · cases made
      · dsimp only at made
        split at made
        · cases made
          rfl
        · cases made

/-- A refused creation moves the counter forward, if at all. -/
theorem next_le_of_refuses {table after : InodeTable} (room : table.nextInodeId.toNat + 1 < 2 ^ 64)
    (refuses : table.Refuses after) : table.nextInodeId.toNat ≤ after.nextInodeId.toNat := by
  rcases refuses.next with same | next
  · exact Nat.le_of_eq (by rw [same])
  · rw [Names.next_succ room next]
    exact Nat.le_succ _

theorem Shows.mkDir (shows : Shows h sys store) (sound : Sound h sys) (r : Readings) (path : Str)
    (mode uid gid : UInt32) (room : sys.svc.inodeTable.nextInodeId.toNat + 1 < 2 ^ 64) :
    statusOf (sys.answer r (.mkDir path mode uid gid)).1 = (store.tree.exec (.mkDir path mode uid gid)).1 ∧
      Shows (.answered k (.mkDir path mode uid gid) (sys.answer r (.mkDir path mode uid gid)).1 :: h)
        (sys.answer r (.mkDir path mode uid gid)).2
        { store with tree := (store.tree.exec (.mkDir path mode uid gid)).2 } := by
  obtain ⟨status, left⟩ := exec_tree sound.names.consistent (r.clock 0) (.mkDir path mode uid gid)
    fun _ => shows.kinds.free
  rw [← shows.tree] at status left
  rw [System.answer_mkDir]
  have calm : ∀ reply, Calm (.answered k (.mkDir path mode uid gid) reply) := fun _ => trivial
  refine ⟨status, left.symm, ?_, shows.holds.calm (calm _), shows.begun.answered (calm _).began⟩
  rcases sys.svc.namespaceMgr.mkDir_records (r.clock 0) path mode uid gid with
    ⟨s, after, result, refuses⟩ | ⟨inode, after, result, adds, directory⟩
  · rw [result]
    exact shows.kinds.carry (.of_eq refuses.inodes) (next_le_of_refuses room refuses) (calm _).old
  · have zero : inode.size = 0 := size_of_mkDir (congrArg Prod.fst result)
    rw [result]
    exact shows.kinds.add sound.names adds room (fun _ => zero)
      fun k path size i made => .inl ((calm _).made made)

/-- A file is made. -/
theorem Holds.create {content : UInt64 → Content} (holds : Holds h content) (sound : Sound h sys) {path : Str}
    {mode uid gid : UInt32} {size : UInt64} {inode : Inode} (id : inode.inodeId = sys.svc.inodeTable.nextInodeId) :
    Holds (.answered k (.createFile path mode uid gid size) (.ok inode) :: h)
      (Function.update content sys.svc.inodeTable.nextInodeId (.blank size)) := by
  have sub := List.subset_cons_self (.answered k (.createFile path mode uid gid size) (.ok inode)) h
  have fresh : ∀ {k path size}, ¬ Made h k path size sys.svc.inodeTable.nextInodeId := by
    intro k path size made
    exact Nat.lt_irrefl _ (sound.names.below _ made.mem)
  -- a file that was there before is another, and has the maker that it had
  have before : ∀ {k' path' size' i}, i ≠ sys.svc.inodeTable.nextInodeId →
      Made (.answered k (.createFile path mode uid gid size) (.ok inode) :: h) k' path' size' i →
        Made h k' path' size' i := by
    rintro k' path' size' i other ⟨mode', uid', gid', inode', member, same⟩
    rcases List.mem_cons.mp member with new | old
    · cases new
      exact absurd (same.symm.trans id) other
    · exact ⟨mode', uid', gid', inode', old, same⟩
  have committed : ∀ {j i blocks},
      Committed (.answered k (.createFile path mode uid gid size) (.ok inode) :: h) j i blocks →
        Committed h j i blocks := by
    intro j i blocks committed
    rcases List.mem_cons.mp committed with new | old
    · cases new
    · exact old
  constructor
  · intro k' path' size' i made none
    rcases eq_or_ne i sys.svc.inodeTable.nextInodeId with rfl | other
    · obtain ⟨mode', uid', gid', inode', member, same⟩ := made
      rw [Function.update_self]
      rcases List.mem_cons.mp member with new | old
      · cases new
        rfl
      · exact absurd ⟨mode', uid', gid', inode', old, same⟩ fresh
    · rw [Function.update_of_ne other]
      exact holds.made k' path' size' i (before other made) fun j blocks done => none j blocks (sub done)
  · rintro j i blocks data done ⟨client, path', mode', began, made⟩
    have done := committed done
    obtain ⟨data', ⟨_, _, _, -, earlier⟩, -⟩ := sound.earned j i blocks done
    have other : i ≠ sys.svc.inodeTable.nextInodeId := by
      rintro rfl
      exact fresh earlier
    rw [Function.update_of_ne other]
    refine holds.stored j i blocks data done ⟨client, path', mode', ?_, before other made⟩
    rcases List.mem_cons.mp began with new | old
    · cases new
    · exact old
  · intro i none
    have other : i ≠ sys.svc.inodeTable.nextInodeId := by
      rintro rfl
      exact none k path size ⟨mode, uid, gid, inode, List.mem_cons_self, id⟩
    rw [Function.update_of_ne other]
    exact holds.unmade i fun k path size made => none k path size (made.mono sub)

theorem Shows.createFile (shows : Shows h sys store) (sound : Sound h sys) (r : Readings) (path : Str)
    (mode uid gid : UInt32) (size : UInt64) (room : sys.svc.inodeTable.nextInodeId.toNat + 1 < 2 ^ 64) :
    ∃ after, store.create path size =
        ((sys.answer r (.createFile path mode uid gid size)).1.map Inode.inodeId, after) ∧
      Shows (.answered k (.createFile path mode uid gid size)
        (sys.answer r (.createFile path mode uid gid size)).1 :: h)
        (sys.answer r (.createFile path mode uid gid size)).2 after := by
  obtain ⟨status, left⟩ := exec_tree sound.names.consistent (r.clock 0) (.createFile path mode uid gid size)
    fun _ => shows.kinds.free
  rw [← shows.tree] at status left
  change statusOf (sys.svc.namespaceMgr.createFile (r.clock 0) path mode uid gid size).1 =
    (store.tree.createFile path).1 at status
  change (sys.svc.namespaceMgr.createFile (r.clock 0) path mode uid gid size).2.tree =
    (store.tree.createFile path).2 at left
  have begun := fun reply => shows.begun.answered (e := .answered k (.createFile path mode uid gid size) reply)
    fun began => began_of_answered began
  rw [System.answer_createFile]
  rcases sys.svc.namespaceMgr.createFile_records (r.clock 0) path mode uid gid size with
    ⟨s, after, result, refuses⟩ | ⟨inode, after, result, adds, regular, sized⟩
  · have refused : s ≠ .ok := (FailedWrites.createFile_error (congrArg Prod.fst result)).1
    have calm : Calm (.answered k (.createFile path mode uid gid size) (.error s)) := trivial
    rw [result] at status left ⊢
    refine ⟨store, ?_, ?_, shows.kinds.carry (.of_eq refuses.inodes) (next_le_of_refuses room refuses) calm.old,
      shows.holds.calm calm, begun _⟩
    · unfold FileStore.create
      split
      · next tree made =>
        rw [made] at status
        exact absurd status refused
      · next s' tree _ made =>
        rw [made] at status
        rw [show s = s' from status]
        rfl
    · rw [left]
      rcases NameTree.createFile_cases store.tree path with ⟨s', -, same⟩ | ⟨c, made⟩
      · rw [same]
      · rw [made] at status
        exact absurd status refused
  · rw [result] at status left ⊢
    have made : store.tree.createFile path = (.ok, after.tree) := Prod.ext status.symm left.symm
    have next : store.tree.next = sys.svc.inodeTable.nextInodeId := by
      rw [shows.tree]
      rfl
    refine ⟨⟨after.tree, Function.update store.content sys.svc.inodeTable.nextInodeId (.blank size)⟩, ?_, rfl, ?_,
      shows.holds.create sound adds.id, begun _⟩
    · unfold FileStore.create
      rw [made]
      dsimp only
      rw [next, Except.map, adds.id]
    · refine shows.kinds.add sound.names adds room (fun other => absurd regular other) ?_
      rintro k' path' size' i ⟨mode', uid', gid', inode', member, same⟩
      rcases List.mem_cons.mp member with new | old
      · cases new
        exact .inr ⟨same.symm, regular⟩
      · exact .inl ⟨mode', uid', gid', inode', old, same⟩

/-- The record of a file after a commit. -/
theorem sizedTable_carries {svc : MetaService} (consistent : svc.namespaceMgr.Consistent) (mtime ctime i : UInt64)
    (blocks : List BlockMeta) (j : UInt64) (r : Inode)
    (live : (svc.sizedTable mtime ctime i blocks).inodes j = some r) :
    ∃ r', svc.inodeTable.inodes j = some r' ∧ r.fileType = r'.fileType ∧ (j ≠ i → r.size = r'.size) := by
  unfold MetaService.sizedTable at live
  split at live
  · next inode there =>
    have keyed : inode.inodeId = i := consistent.keyed there
    have same : (MetaService.committed inode mtime ctime blocks).inodeId = i := keyed
    rw [InodeTable.update_inodes, same, there, Option.isSome_some, if_pos rfl] at live
    rcases eq_or_ne j i with rfl | other
    · rw [Function.update_self] at live
      cases live
      exact ⟨inode, there, rfl, fun apart => absurd rfl apart⟩
    · rw [Function.update_of_ne other] at live
      exact ⟨r, live, rfl, fun _ => rfl⟩
  · exact ⟨r, live, rfl, fun _ => rfl⟩

theorem sizedTable_next (svc : MetaService) (mtime ctime i : UInt64) (blocks : List BlockMeta) :
    (svc.sizedTable mtime ctime i blocks).nextInodeId = svc.inodeTable.nextInodeId := by
  unfold MetaService.sizedTable
  split
  · exact InodeTable.update_nextInodeId _ _
  · rfl

/-- The maker of a file commits its data. -/
theorem Shows.commitBlocks (shows : Shows h sys store) (sound : Sound h sys) (r : Readings) {i : UInt64}
    (blocks : List BlockMeta) {data : List UInt8} (wrote : Wrote h k i data)
    (first : ∀ j blocks, ¬ Committed h k j blocks) :
    Shows (.answered k (.commitBlocks i blocks) (sys.answer r (.commitBlocks i blocks)).1 :: h)
      (sys.answer r (.commitBlocks i blocks)).2
      { store with content := Function.update store.content i (.stored data) } := by
  have none := sound.first_commit k wrote first
  have sub := List.subset_cons_self (.answered k (.commitBlocks i blocks) .ok) h
  have made_old : ∀ {k' path size j}, Made (.answered k (.commitBlocks i blocks) .ok :: h) k' path size j →
      Made h k' path size j := by
    rintro k' path size j ⟨mode, uid, gid, inode, member, same⟩
    rcases List.mem_cons.mp member with new | old
    · cases new
    · exact ⟨mode, uid, gid, inode, old, same⟩
  have wrote_old : ∀ {k' j data'}, Wrote (.answered k (.commitBlocks i blocks) .ok :: h) k' j data' →
      Wrote h k' j data' := by
    rintro k' j data' ⟨client, path, mode, began, made⟩
    exact ⟨client, path, mode, began_of_answered began, made_old made⟩
  have consistent := sound.names.consistent
  rw [System.answer_commitBlocks]
  obtain ⟨client, path, mode, -, made⟩ := id wrote
  refine ⟨?_, ⟨?_, ?_, ?_⟩, ⟨?_, ?_, ?_⟩, shows.begun.answered fun began => began_of_answered began⟩
  · rw [shows.tree]
    refine (tree_congr ?_ ?_).symm
    · rfl
    · exact sizedTable_next _ _ _ _ _
  · intro j record live
    obtain ⟨r', live', -, -⟩ := sizedTable_carries consistent _ _ _ _ j record live
    dsimp only [MetaService.inodeTable]
    rw [sizedTable_next]
    exact shows.kinds.below j r' live'
  · intro k' path' size' j record made' live
    obtain ⟨r', live', type, -⟩ := sizedTable_carries consistent _ _ _ _ j record live
    rw [type]
    exact shows.kinds.files k' path' size' j r' (made_old made') live'
  · intro j record live other
    obtain ⟨r', live', type, size⟩ := sizedTable_carries consistent _ _ _ _ j record live
    have apart : j ≠ i := by
      rintro rfl
      exact other (type.trans (shows.kinds.files _ _ _ _ r' made live'))
    rw [size apart]
    exact shows.kinds.others j r' live' (by rwa [type] at other)
  · intro k' path' size' j made' uncommitted
    have apart : j ≠ i := by
      rintro rfl
      exact uncommitted k blocks List.mem_cons_self
    dsimp only
    rw [Function.update_of_ne apart]
    exact shows.holds.made k' path' size' j (made_old made') fun k'' blocks' done => uncommitted k'' blocks' (sub done)
  · intro k' j blocks' data' done wrote'
    dsimp only
    rcases committed_commit k first none done with ⟨rfl, rfl, rfl⟩ | ⟨-, apart, before⟩
    · rw [Function.update_self, shows.begun.data_eq wrote (wrote_old wrote')]
    · rw [Function.update_of_ne apart]
      exact shows.holds.stored k' j blocks' data' before (wrote_old wrote')
  · intro j unmade
    have apart : j ≠ i := by
      rintro rfl
      exact unmade _ _ _ (made.mono sub)
    dsimp only
    rw [Function.update_of_ne apart]
    exact shows.holds.unmade j fun k' path' size' made' => unmade k' path' size' (made'.mono sub)

end Cluster

end OpenFS
