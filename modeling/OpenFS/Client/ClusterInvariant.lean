import OpenFS.Client.LogFacts
import OpenFS.Data.NodeLedger
import OpenFS.Meta.InodeRecords

/-!
# The servers and the history

`Sound` says what the service and the node are like after a history: ids are given out
once, a file has the size that it was made or committed with, its block list is the one
commit there was, and every block that was written is in a ledger. Each answer keeps this.
-/

namespace OpenFS.Cluster

open Requests

/-- The size that the file was made with, or the total of a commit. -/
def Sized (h : Log) (i size : UInt64) : Prop :=
  ∃ k path made, Made h k path made i ∧
    (size = made ∨ ∃ k' blocks, Committed h k' i blocks ∧ size = MetaService.totalSize blocks)

structure Names (h : Log) (ns : NamespaceManager) : Prop where
  consistent : ns.Consistent
  distinct : (h.flatMap madeIds).Nodup
  below : ∀ i ∈ h.flatMap madeIds, i.toNat < ns.inodeTable.nextInodeId.toNat
  sized : ∀ i r, ns.inodeTable.inodes i = some r → r.fileType = .regular → Sized h i r.size

structure Numbers (h : Log) (alloc : BlockAllocator) : Prop where
  distinct : (h.flatMap allocatedIds).Nodup
  below : ∀ id ∈ h.flatMap allocatedIds, id.toNat < alloc.nextBlockId.toNat

/-- The lists are those of the commits. -/
structure Mapped (h : Log) (map : BlockMap) : Prop where
  committed : ∀ i ids, map.inodeBlocks i = some ids → ∃ k blocks, Committed h k i blocks
  listed : ∀ k i blocks, Committed h k i blocks →
    map.inodeBlocks i = some (blocks.map BlockMeta.blockId) ∧ ∀ b ∈ blocks, map.blockMetas b.blockId = some b

/-- Only the maker of a file commits to it, and only blocks of its own that spell its data. -/
def Earned (h : Log) : Prop :=
  ∀ k i blocks, Committed h k i blocks → ∃ data, Wrote h k i data ∧ Allotted h k blocks ∧ blocks ≠ [] ∧
    Spell h blocks (BlockSplitter.chunks data)

/-- Whatever was written is in the ledgers. -/
structure OnShelf (h : Log) (ledger : Nat → List StoredBlock) (node : DataNode) : Prop where
  keeps : node.Keeps ledger
  shelved : ∀ k addr blockId segmentId bytes crc32 diskId offset,
    .answered k (.writeBlock addr blockId segmentId bytes crc32) (.ok (diskId, offset)) ∈ h →
      DataNode.Shelved ledger diskId offset bytes crc32

structure Sound (h : Log) (sys : System) : Prop where
  names : Names h sys.svc.namespaceMgr
  numbers : Numbers h sys.svc.blockAllocator
  mapped : Mapped h sys.svc.blockMap
  earned : Earned h
  shelves : ∃ ledger, OnShelf h ledger sys.node

variable {h : Log} {e : Event ClientCall Rpc Rpc.Reply}

theorem Sized.mono {h' : Log} {i size : UInt64} (sized : Sized h i size) (sub : h ⊆ h') : Sized h' i size := by
  obtain ⟨k, path, made, file, origin⟩ := sized
  refine ⟨k, path, made, file.mono sub, origin.imp_right ?_⟩
  rintro ⟨k', blocks, committed, total⟩
  exact ⟨k', blocks, sub committed, total⟩

/-! ## Inode records -/

namespace Names

variable {ns after : NamespaceManager}

/-- No id is given out. -/
theorem quiet (names : Names h ns) (consistent : after.Consistent) (none : madeIds e = [])
    (next : ns.inodeTable.nextInodeId.toNat ≤ after.inodeTable.nextInodeId.toNat)
    (carries : ns.inodeTable.Carries after.inodeTable) : Names (e :: h) after := by
  have same : (e :: h).flatMap madeIds = h.flatMap madeIds := by
    rw [List.flatMap_cons, none, List.nil_append]
  refine ⟨consistent, by rw [same]; exact names.distinct, fun i member => ?_, fun i r' live file => ?_⟩
  · rw [same] at member
    exact Nat.lt_of_lt_of_le (names.below i member) next
  · obtain ⟨r, old, type, size⟩ := carries i r' live
    rw [size]
    exact (names.sized i r old (type.symm.trans file)).mono (List.subset_cons_self _ _)

theorem same (names : Names h ns) (none : madeIds e = []) : Names (e :: h) ns :=
  names.quiet names.consistent none (Nat.le_refl _) (.of_eq rfl)

theorem next_succ {t t' : InodeTable} (room : t.nextInodeId.toNat + 1 < 2 ^ 64)
    (next : t'.nextInodeId = t.nextInodeId + 1) : t'.nextInodeId.toNat = t.nextInodeId.toNat + 1 := by
  rw [next, UInt64.toNat_add]
  exact Nat.mod_eq_of_lt room

theorem refuse (names : Names h ns) (consistent : after.Consistent) (none : madeIds e = [])
    (room : ns.inodeTable.nextInodeId.toNat + 1 < 2 ^ 64) (refuses : ns.inodeTable.Refuses after.inodeTable) :
    Names (e :: h) after := by
  refine names.quiet consistent none ?_ (.of_eq refuses.inodes)
  rcases refuses.next with same | next
  · exact Nat.le_of_eq (by rw [same])
  · rw [next_succ room next]
    exact Nat.le_succ _

/-- The next id is given to a new node. -/
theorem add (names : Names h ns) (consistent : after.Consistent) {inode : Inode}
    (made : madeIds e = [inode.inodeId])
    (room : ns.inodeTable.nextInodeId.toNat + 1 < 2 ^ 64) (adds : ns.inodeTable.Adds inode after.inodeTable)
    (file : inode.fileType = .regular → Sized (e :: h) inode.inodeId inode.size) : Names (e :: h) after := by
  have more : (e :: h).flatMap madeIds = ns.inodeTable.nextInodeId :: h.flatMap madeIds := by
    rw [List.flatMap_cons, made, adds.id]
    rfl
  have next := next_succ room adds.next
  refine ⟨consistent, ?_, fun i member => ?_, fun i r live regular => ?_⟩
  · rw [more, List.nodup_cons]
    exact ⟨fun old => Nat.lt_irrefl _ (names.below _ old), names.distinct⟩
  · rw [next]
    rw [more] at member
    rcases List.mem_cons.mp member with rfl | old
    · exact Nat.lt_succ_self _
    · exact Nat.lt_succ_of_lt (names.below i old)
  · rw [adds.inodes] at live
    rcases eq_or_ne i ns.inodeTable.nextInodeId with rfl | other
    · rw [Function.update_self] at live
      cases live
      rw [← adds.id]
      exact file regular
    · rw [Function.update_of_ne other] at live
      exact (names.sized i r live regular).mono (List.subset_cons_self _ _)

end Names

/-! ## What an event does not concern -/

/-- The event gives out no block ids, and neither writes nor commits blocks. -/
def Aside : Event ClientCall Rpc Rpc.Reply → Prop
  | .answered _ (.allocateBlocks ..) _ => False
  | .answered _ (.commitBlocks ..) _ => False
  | .answered _ (.writeBlock ..) _ => False
  | _ => True

theorem Aside.allocatedIds (aside : Aside e) : allocatedIds e = [] := by
  cases e with
  | began => rfl
  | answered k q reply => cases q <;> first | rfl | exact aside.elim

theorem Aside.committed {k : Nat} {i : UInt64} {blocks : List BlockMeta} (aside : Aside e)
    (committed : Committed (e :: h) k i blocks) : Committed h k i blocks := by
  rcases List.mem_cons.mp committed with rfl | old
  · exact aside.elim
  · exact old

theorem Numbers.same {alloc : BlockAllocator} (numbers : Numbers h alloc) (none : Cluster.allocatedIds e = []) :
    Numbers (e :: h) alloc := by
  have same : (e :: h).flatMap Cluster.allocatedIds = h.flatMap Cluster.allocatedIds := by
    rw [List.flatMap_cons, none, List.nil_append]
  exact ⟨by rw [same]; exact numbers.distinct, by rw [same]; exact numbers.below⟩

theorem Mapped.same {map : BlockMap} (mapped : Mapped h map)
    (old : ∀ k i blocks, Committed (e :: h) k i blocks → Committed h k i blocks) : Mapped (e :: h) map := by
  refine ⟨fun i ids there => ?_, fun k i blocks committed => mapped.listed k i blocks (old k i blocks committed)⟩
  obtain ⟨k, blocks, committed⟩ := mapped.committed i ids there
  exact ⟨k, blocks, List.mem_cons_of_mem _ committed⟩

theorem Earned.same (earned : Earned h)
    (old : ∀ k i blocks, Committed (e :: h) k i blocks → Committed h k i blocks) : Earned (e :: h) := by
  intro k i blocks committed
  obtain ⟨data, wrote, allotted, some, spell⟩ := earned k i blocks (old k i blocks committed)
  have sub := List.subset_cons_self e h
  exact ⟨data, wrote.mono sub, allotted.mono sub, some, spell.mono sub⟩

theorem OnShelf.same {ledger : Nat → List StoredBlock} {node : DataNode} (shelf : OnShelf h ledger node)
    (none : ∀ k addr blockId segmentId bytes crc32 diskId offset,
      e ≠ .answered k (.writeBlock addr blockId segmentId bytes crc32) (.ok (diskId, offset))) :
    OnShelf (e :: h) ledger node := by
  refine ⟨shelf.keeps, fun k addr blockId segmentId bytes crc32 diskId offset member => ?_⟩
  rcases List.mem_cons.mp member with new | old
  · exact absurd new.symm (none _ _ _ _ _ _ _ _)
  · exact shelf.shelved _ _ _ _ _ _ _ _ old

/-- Only the inode records may have changed. -/
theorem Sound.aside {sys : System} (sound : Sound h sys) (aside : Aside e) {ns : NamespaceManager}
    (names : Names (e :: h) ns) :
    Sound (e :: h) { sys with svc := { sys.svc with namespaceMgr := ns } } := by
  obtain ⟨ledger, shelf⟩ := sound.shelves
  refine ⟨names, sound.numbers.same aside.allocatedIds, sound.mapped.same fun _ _ _ => aside.committed,
    sound.earned.same fun _ _ _ => aside.committed, ledger, shelf.same ?_⟩
  rintro k addr blockId segmentId bytes crc32 diskId offset rfl
  exact aside

theorem Sound.read {sys : System} (sound : Sound h sys) (aside : Aside e) (none : madeIds e = []) :
    Sound (e :: h) sys :=
  sound.aside aside (sound.names.same none)

theorem Sound.began {sys : System} (sound : Sound h sys) (k : Nat) (c : ClientCall) :
    Sound (.began k c :: h) sys :=
  sound.read trivial rfl

/-! ## The answers of the service -/

section
variable {sys : System} (r : Readings) (k : Nat)

theorem Sound.createFile (sound : Sound h sys) (path : Str) (mode uid gid : UInt32) (size : UInt64)
    (room : sys.svc.inodeTable.nextInodeId.toNat + 1 < 2 ^ 64) :
    Sound (.answered k (.createFile path mode uid gid size)
      (sys.answer r (.createFile path mode uid gid size)).1 :: h)
      (sys.answer r (.createFile path mode uid gid size)).2 := by
  have consistent : (sys.svc.namespaceMgr.createFile (r.clock 0) path mode uid gid size).2.Consistent :=
    sound.names.consistent.effect (NamespaceManager.exec_effect _ (r.clock 0) (.createFile path mode uid gid size))
  rw [System.answer_createFile]
  rcases sys.svc.namespaceMgr.createFile_records (r.clock 0) path mode uid gid size with
    ⟨s, after, result, refuses⟩ | ⟨inode, after, result, adds, regular, sized⟩
  · rw [result] at consistent ⊢
    exact sound.aside (by exact trivial) (sound.names.refuse consistent rfl room refuses)
  · rw [result] at consistent ⊢
    refine sound.aside (by exact trivial) (sound.names.add consistent rfl room adds fun _ => ?_)
    exact ⟨k, path, size, ⟨mode, uid, gid, inode, List.mem_cons_self, rfl⟩, .inl sized⟩

theorem Sound.mkDir (sound : Sound h sys) (path : Str) (mode uid gid : UInt32)
    (room : sys.svc.inodeTable.nextInodeId.toNat + 1 < 2 ^ 64) :
    Sound (.answered k (.mkDir path mode uid gid) (sys.answer r (.mkDir path mode uid gid)).1 :: h)
      (sys.answer r (.mkDir path mode uid gid)).2 := by
  have consistent : (sys.svc.namespaceMgr.mkDir (r.clock 0) path mode uid gid).2.Consistent :=
    sound.names.consistent.effect (NamespaceManager.exec_effect _ (r.clock 0) (.mkDir path mode uid gid))
  rw [System.answer_mkDir]
  rcases sys.svc.namespaceMgr.mkDir_records (r.clock 0) path mode uid gid with
    ⟨s, after, result, refuses⟩ | ⟨inode, after, result, adds, directory⟩
  · rw [result] at consistent ⊢
    exact sound.aside (by exact trivial) (sound.names.refuse consistent rfl room refuses)
  · rw [result] at consistent ⊢
    refine sound.aside (by exact trivial) (sound.names.add consistent rfl room adds fun regular => ?_)
    cases directory.symm.trans regular

/-- A call that creates nothing. -/
theorem Sound.carry (sound : Sound h sys) (now : UInt64) {c : NamespaceManager.Call}
    (old : ∀ path mode uid gid, c ≠ .mkDir path mode uid gid)
    (old' : ∀ path mode uid gid size, c ≠ .createFile path mode uid gid size)
    (next : (sys.svc.namespaceMgr.exec now c).2.inodeTable.nextInodeId = sys.svc.inodeTable.nextInodeId)
    (aside : Aside e) (none : madeIds e = []) :
    Sound (e :: h) { sys with svc := { sys.svc with namespaceMgr := (sys.svc.namespaceMgr.exec now c).2 } } := by
  have consistent := sound.names.consistent
  have effect := NamespaceManager.exec_effect sys.svc.namespaceMgr now c
  refine sound.aside aside (sound.names.quiet (consistent.effect effect) none ?_
    (effect.carries consistent old old'))
  exact Nat.le_of_eq (by rw [next])

/-- An answer that is no commit leaves the commits. -/
theorem committed_of_cons {q : Rpc} {reply : q.Reply} (other : ∀ i blocks, q ≠ .commitBlocks i blocks) {j : Nat}
    {i : UInt64} {blocks : List BlockMeta} (committed : Committed (.answered k q reply :: h) j i blocks) :
    Committed h j i blocks := by
  rcases List.mem_cons.mp committed with new | old
  · cases new
    exact absurd rfl (other _ _)
  · exact old

/-- The ids of a request for blocks. -/
theorem toNat_newBlock {next : UInt64} {n : Nat} (room : next.toNat + n < 2 ^ 64) {j : Nat} (inside : j < n) :
    (next + UInt64.ofNat j).toNat = next.toNat + j := by
  rw [UInt64.toNat_add, UInt64.toNat_ofNat']
  omega

/-- The ids of an answer are new and distinct. -/
theorem Numbers.allocate {alloc : BlockAllocator} (numbers : Numbers h alloc) {blockCount : UInt32}
    (room : alloc.nextBlockId.toNat + blockCount.toNat < 2 ^ 64)
    (ids : Cluster.allocatedIds e =
      (List.range blockCount.toNat).map fun i => alloc.nextBlockId + UInt64.ofNat i) :
    Numbers (e :: h) { alloc with nextBlockId := alloc.nextBlockId + UInt64.ofNat blockCount.toNat } := by
  have next : (alloc.nextBlockId + UInt64.ofNat blockCount.toNat).toNat =
      alloc.nextBlockId.toNat + blockCount.toNat := by
    rw [UInt64.toNat_add, UInt64.toNat_ofNat']
    omega
  constructor
  · rw [List.flatMap_cons, ids]
    refine List.nodup_append.mpr ⟨?_, numbers.distinct, ?_⟩
    · refine List.nodup_range.map_on fun a inside b inside' same => ?_
      have equal := congrArg UInt64.toNat same
      rw [toNat_newBlock room (List.mem_range.mp inside), toNat_newBlock room (List.mem_range.mp inside')] at equal
      omega
    · rintro id new _ old rfl
      obtain ⟨j, inside, rfl⟩ := List.mem_map.mp new
      have below := numbers.below _ old
      rw [toNat_newBlock room (List.mem_range.mp inside)] at below
      omega
  · dsimp only
    rw [List.flatMap_cons, ids, next]
    intro id member
    rcases List.mem_append.mp member with new | old
    · obtain ⟨j, inside, rfl⟩ := List.mem_map.mp new
      rw [toNat_newBlock room (List.mem_range.mp inside)]
      have := List.mem_range.mp inside
      omega
    · have := numbers.below id old
      omega

theorem Sound.allocateBlocks (sound : Sound h sys) (inodeId : UInt64) (blockCount : UInt32) (level : BlkLevel)
    (room : sys.svc.blockAllocator.nextBlockId.toNat + blockCount.toNat < 2 ^ 64) :
    Sound (.answered k (.allocateBlocks inodeId blockCount level)
        (sys.answer r (.allocateBlocks inodeId blockCount level)).1 :: h)
      (sys.answer r (.allocateBlocks inodeId blockCount level)).2 := by
  obtain ⟨ledger, shelf⟩ := sound.shelves
  have mapped := fun reply => sound.mapped.same (e := .answered k (.allocateBlocks inodeId blockCount level) reply)
    fun _ _ _ => committed_of_cons k fun _ _ same => by cases same
  have earned := fun reply => sound.earned.same (e := .answered k (.allocateBlocks inodeId blockCount level) reply)
    fun _ _ _ => committed_of_cons k fun _ _ same => by cases same
  have shelf' := fun reply => shelf.same (e := .answered k (.allocateBlocks inodeId blockCount level) reply)
    fun _ _ _ _ _ _ _ _ same => by cases same
  rw [System.answer_allocateBlocks]
  by_cases offline : sys.svc.nodeMgr.getAnyOnlineNode = 0
  · rw [BlockAllocator.allocate_offline offline]
    exact ⟨sound.names.same rfl, sound.numbers.same rfl, mapped _, earned _, ledger, shelf' _⟩
  · rw [BlockAllocator.allocate_online offline]
    refine ⟨sound.names.same rfl, sound.numbers.allocate room ?_, mapped _, earned _, ledger, shelf' _⟩
    simp [Cluster.allocatedIds, Function.comp_def, BlockAllocator.newBlock]

/-- The requests that any call may make. -/
def Plain : Rpc → Prop
  | .commitBlocks .. => False
  | .writeBlock .. => False
  | .readBlock .. => False
  | _ => True

theorem Sound.plain (sound : Sound h sys) {q : Rpc} (plain : Plain q) (admitted : IdsLast sys q) :
    Sound (.answered k q (sys.answer r q).1 :: h) (sys.answer r q).2 := by
  cases q with
  | createFile path mode uid gid size => exact sound.createFile r k path mode uid gid size admitted
  | mkDir path mode uid gid => exact sound.mkDir r k path mode uid gid admitted
  | allocateBlocks inodeId blockCount level => exact sound.allocateBlocks r k inodeId blockCount level admitted
  | deleteFile path =>
    exact sound.carry 0 (c := .deleteFile path) (fun _ _ _ _ same => by cases same)
      (fun _ _ _ _ _ same => by cases same) (NamespaceManager.deleteFile_nextInodeId _ path) trivial rfl
  | rename src dst =>
    exact sound.carry (r.clock 0) (c := .rename src dst) (fun _ _ _ _ same => by cases same)
      (fun _ _ _ _ _ same => by cases same) (NamespaceManager.rename_nextInodeId _ _ src dst) trivial rfl
  | rmDir path =>
    exact sound.carry 0 (c := .rmDir path) (fun _ _ _ _ same => by cases same)
      (fun _ _ _ _ _ same => by cases same) (NamespaceManager.rmDir_nextInodeId _ path) trivial rfl
  | getFileInfo path => exact sound.read trivial rfl
  | readDir path => exact sound.read trivial rfl
  | getBlockLocations inodeId => exact sound.read trivial rfl
  | commitBlocks => exact plain.elim
  | writeBlock => exact plain.elim
  | readBlock => exact plain.elim

/-! ## Blocks -/

theorem Sound.writeBlock (sound : Sound h sys) (addr : Str) (blockId segmentId : UInt64) {bytes : List UInt8}
    (crc32 : UInt32) (small : bytes.length < 2 ^ 31) :
    Sound (.answered k (.writeBlock addr blockId segmentId bytes crc32)
        (sys.answer r (.writeBlock addr blockId segmentId bytes crc32)).1 :: h)
      (sys.answer r (.writeBlock addr blockId segmentId bytes crc32)).2 := by
  obtain ⟨ledger, shelf⟩ := sound.shelves
  obtain ⟨ledger', keeps, more, acknowledged⟩ := shelf.keeps.write blockId crc32 small
  rw [System.answer_writeBlock]
  generalize DataService.writeBlock sys.node blockId bytes crc32 = result at keeps acknowledged
  obtain ⟨reply, node⟩ := result
  have old : ∀ j i blocks, Committed (.answered k (.writeBlock addr blockId segmentId bytes crc32)
    reply :: h) j i blocks →
      Committed h j i blocks := fun _ _ _ => committed_of_cons k fun _ _ same => by cases same
  refine ⟨sound.names.same rfl, sound.numbers.same rfl, sound.mapped.same old, sound.earned.same old,
    ledger', keeps, ?_⟩
  intro k' addr' blockId' segmentId' bytes' crc32' diskId offset member
  rcases List.mem_cons.mp member with new | before
  · cases new
    exact acknowledged diskId offset rfl
  · exact (shelf.shelved _ _ _ _ _ _ _ _ before).mono more

/-- A refusal has a status that says so. -/
theorem Sound.writeBlock_ne (sound : Sound h sys) (addr : Str) (blockId segmentId : UInt64) {bytes : List UInt8}
    (crc32 : UInt32) (small : bytes.length < 2 ^ 31) :
    (sys.answer r (.writeBlock addr blockId segmentId bytes crc32)).1 ≠ .error .ok := by
  obtain ⟨ledger, shelf⟩ := sound.shelves
  exact shelf.keeps.write_ne blockId crc32 small

/-- A block that was put is read. -/
theorem Sound.readBlock (sound : Sound h sys) {b : BlockMeta} {bytes : List UInt8} (put : Put h b bytes)
    (addr : Str) :
    sys.answer r (.readBlock addr b.segmentId b.offset) = (.ok (bytes, b.crc32), sys) := by
  obtain ⟨ledger, shelf⟩ := sound.shelves
  obtain ⟨j, addr', segmentId, member⟩ := put.written
  rw [System.answer_readBlock, shelf.keeps.read (shelf.shelved _ _ _ _ _ _ _ _ member)]

/-- A file that is committed has one block list: that of the commit. -/
theorem Sound.getBlockLocations (sound : Sound h sys) {i : UInt64} {blocks : List BlockMeta}
    (committed : Committed h k i blocks) : sys.answer r (.getBlockLocations i) = (.ok blocks, sys) := by
  obtain ⟨ids, records⟩ := sound.mapped.listed k i blocks committed
  rw [System.answer_getBlockLocations]
  have found : blocks.filterMap (sys.svc.blockMap.blockMetas ∘ BlockMeta.blockId) = blocks.filterMap some :=
    List.filterMap_congr records
  unfold BlockMap.getBlocks
  rw [ids]
  dsimp only
  rw [List.filterMap_map, found, List.filterMap_some]

/-- Nothing else is committed to the file that the call made. -/
theorem Sound.first_commit (sound : Sound h sys) {i : UInt64} {data : List UInt8} (wrote : Wrote h k i data)
    (first : ∀ j blocks, ¬ Committed h k j blocks) : ∀ k' blocks, ¬ Committed h k' i blocks := by
  intro k' blocks committed
  obtain ⟨data', wrote', -⟩ := sound.earned k' i blocks committed
  obtain rfl := wrote.unique sound.names.distinct wrote'
  exact first i blocks committed

/-- A commitment is that of the first call, or one before, of another call to another file. -/
theorem committed_commit {i : UInt64} {blocks : List BlockMeta} (first : ∀ j blocks, ¬ Committed h k j blocks)
    (none : ∀ k' blocks, ¬ Committed h k' i blocks) {k' : Nat} {j : UInt64} {blocks' : List BlockMeta}
    (committed : Committed (.answered k (.commitBlocks i blocks) .ok :: h) k' j blocks') :
    (k' = k ∧ j = i ∧ blocks' = blocks) ∨ (k' ≠ k ∧ j ≠ i ∧ Committed h k' j blocks') := by
  rcases List.mem_cons.mp committed with now | before
  · cases now
    exact .inl ⟨rfl, rfl, rfl⟩
  · refine .inr ⟨?_, ?_, before⟩
    · rintro rfl
      exact first j blocks' before
    · rintro rfl
      exact none k' blocks' before

/-- The record of the file gets the size of what is committed to it. -/
theorem Names.commit {svc : MetaService} (names : Names h svc.namespaceMgr) (mtime ctime : UInt64) (i : UInt64)
    (blocks : List BlockMeta) :
    Names (.answered k (.commitBlocks i blocks) .ok :: h)
      { svc.namespaceMgr with inodeTable := svc.sizedTable mtime ctime i blocks } := by
  have sub := List.subset_cons_self (.answered k (.commitBlocks i blocks) .ok) h
  have new : Committed (.answered k (.commitBlocks i blocks) .ok :: h) k i blocks := List.mem_cons_self
  unfold MetaService.sizedTable
  cases live : svc.inodeTable.inodes i with
  | none => exact names.same rfl
  | some inode =>
    have keyed : inode.inodeId = i := names.consistent.keyed live
    have records : (svc.inodeTable.update (MetaService.committed inode mtime ctime blocks)).2.inodes =
        Function.update svc.inodeTable.inodes i
          (Option.some (MetaService.committed inode mtime ctime blocks)) := by
      have same : (MetaService.committed inode mtime ctime blocks).inodeId = i := keyed
      rw [InodeTable.update_inodes, same, live]
      rfl
    refine ⟨names.consistent.update live rfl rfl rfl rfl, names.distinct, fun j member => ?_,
      fun j record there file => ?_⟩
    · dsimp only
      rw [InodeTable.update_nextInodeId]
      exact names.below j member
    · dsimp only at there
      rw [records] at there
      rcases eq_or_ne j i with rfl | other
      · rw [Function.update_self] at there
        cases there
        obtain ⟨k', path, made, file, -⟩ := names.sized j inode live file
        exact ⟨k', path, made, file.mono sub, .inr ⟨k, blocks, new, rfl⟩⟩
      · rw [Function.update_of_ne other] at there
        exact (names.sized j record there file).mono sub

/-- The first commitment to a file is listed with its records, and the others still are. -/
theorem Mapped.commit {map : BlockMap} (mapped : Mapped h map) (earned : Earned h)
    (distinct : (h.flatMap allocatedIds).Nodup) {i : UInt64} {blocks : List BlockMeta}
    (allotted : Allotted h k blocks) (first : ∀ j blocks, ¬ Committed h k j blocks)
    (none : ∀ k' blocks, ¬ Committed h k' i blocks) :
    Mapped (.answered k (.commitBlocks i blocks) .ok :: h) (map.addBlocks i blocks).2 := by
  have unlisted : map.inodeBlocks i = Option.none := by
    cases there : map.inodeBlocks i with
    | none => rfl
    | some ids =>
      obtain ⟨k', blocks', committed⟩ := mapped.committed i ids there
      exact absurd committed (none k' blocks')
  constructor
  · intro j ids there
    rw [BlockMap.addBlocks_inodeBlocks] at there
    rcases eq_or_ne j i with rfl | other
    · exact ⟨k, blocks, List.mem_cons_self⟩
    · rw [Function.update_of_ne other] at there
      obtain ⟨k', blocks', committed⟩ := mapped.committed j ids there
      exact ⟨k', blocks', List.mem_cons_of_mem _ committed⟩
  · intro k' j blocks' committed
    rw [BlockMap.addBlocks_inodeBlocks]
    rcases committed_commit k first none committed with ⟨rfl, rfl, rfl⟩ | ⟨otherCall, otherFile, before⟩
    · rw [Function.update_self, unlisted]
      refine ⟨rfl, fun b member => ?_⟩
      obtain ⟨b', member', same, record⟩ := BlockMap.addBlocks_of_mem map j
        (List.mem_map_of_mem (f := BlockMeta.blockId) member)
      rw [record, List.inj_on_of_nodup_map (allotted.nodup distinct) member' member same]
    · obtain ⟨ids, records⟩ := mapped.listed k' j blocks' before
      rw [Function.update_of_ne otherFile]
      refine ⟨ids, fun b member => ?_⟩
      obtain ⟨data', -, allotted', -⟩ := earned k' j blocks' before
      rw [BlockMap.addBlocks_of_not_mem (allotted'.apart distinct otherCall allotted
        (List.mem_map_of_mem (f := BlockMeta.blockId) member))]
      exact records b member

/-- The maker of a file commits its blocks. -/
theorem Sound.commitBlocks (sound : Sound h sys) {i : UInt64} {blocks : List BlockMeta} {data : List UInt8}
    (wrote : Wrote h k i data) (allotted : Allotted h k blocks) (some : blocks ≠ [])
    (spell : Spell h blocks (BlockSplitter.chunks data)) (first : ∀ j blocks, ¬ Committed h k j blocks) :
    Sound (.answered k (.commitBlocks i blocks) (sys.answer r (.commitBlocks i blocks)).1 :: h)
      (sys.answer r (.commitBlocks i blocks)).2 := by
  obtain ⟨ledger, shelf⟩ := sound.shelves
  have none := sound.first_commit k wrote first
  have sub := List.subset_cons_self (.answered k (.commitBlocks i blocks) .ok) h
  rw [System.answer_commitBlocks]
  refine ⟨sound.names.commit k _ _ i blocks, sound.numbers.same rfl,
    sound.mapped.commit k sound.earned sound.numbers.distinct allotted first none, ?_, ledger,
    shelf.same fun _ _ _ _ _ _ _ _ same => by cases same⟩
  intro k' j blocks' committed
  rcases committed_commit k first none committed with ⟨rfl, rfl, rfl⟩ | ⟨-, -, before⟩
  · exact ⟨data, wrote.mono sub, allotted.mono sub, some, spell.mono sub⟩
  · obtain ⟨data', wrote', allotted', some', spell'⟩ := sound.earned k' j blocks' before
    exact ⟨data', wrote'.mono sub, allotted'.mono sub, some', spell'.mono sub⟩

end

/-- A cluster that was just started is sound. -/
theorem Fresh.sound {sys : System} (fresh : Fresh sys) : Sound [] sys := by
  obtain ⟨⟨now, svc⟩, node, few⟩ := fresh
  have none_committed : ∀ k i blocks, ¬ Committed [] k i blocks := fun _ _ _ committed => by cases committed
  have names : Names [] (.init now) := by
    refine ⟨.init now, List.nodup_nil, List.forall_mem_nil _, fun i record there file => ?_⟩
    unfold NamespaceManager.init InodeTable.init at there
    dsimp only at there
    rcases eq_or_ne i 1 with rfl | other
    · rw [Function.update_self] at there
      cases there
      cases file
    · rw [Function.update_of_ne other] at there
      cases there
  refine ⟨by rw [svc]; exact names, ⟨List.nodup_nil, List.forall_mem_nil _⟩,
    ⟨fun i ids there => ?_, fun k i blocks committed => absurd committed (none_committed k i blocks)⟩,
    fun k i blocks committed => absurd committed (none_committed k i blocks), fun _ => [],
      node.keeps (by omega), ?_⟩
  · rw [svc] at there
    cases there
  · intro _ _ _ _ _ _ _ _ member
    cases member

theorem Sound.drift {sys sys' : System} (drift : Drift sys sys') (sound : Sound h sys) : Sound h sys' := by
  obtain ⟨names, numbers, mapped, earned, shelves⟩ := sound
  cases drift with
  | register => exact ⟨names, numbers, mapped, earned, shelves⟩
  | heartbeat => exact ⟨names, numbers, mapped, earned, shelves⟩

end OpenFS.Cluster
