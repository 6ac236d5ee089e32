import Mathlib.Algebra.BigOperators.Group.List.Basic
import Mathlib.Algebra.GroupWithZero.Nat
import OpenFS.Meta.MetaService

/-!
# File size and committed blocks

`CommitBlocks` appends its batch to the inode's block list and overwrites the
inode's size with the total of that batch alone. The size is the sum over the
list as long as what was listed before holds no bytes, that is, for the first
batch with bytes in it.
-/

namespace OpenFS.MetaService

/-- The inode's size is the sum of the sizes that `GetBlockLocations` lists. -/
def SizeMatches (svc : MetaService) (i : UInt64) : Prop :=
  ∃ inode blocks, svc.inodeTable.inodes i = some inode ∧ svc.getBlockLocations i = .ok blocks ∧
    inode.size.toNat = (blocks.map fun b => b.size.toNat).sum

/-- The block ids listed for the inode. -/
def listedIds (svc : MetaService) (i : UInt64) : List UInt64 := (svc.blockMap.inodeBlocks i).getD []

/-- The bytes that a map lists under one block id. -/
def bytesOf (map : BlockMap) (id : UInt64) : Nat :=
  match map.blockMetas id with
  | some b => b.size.toNat
  | none => 0

/-- The batch's own sizes are consistent: one size for each id, and a total
that fits the 64-bit field. -/
structure PlainBatch (request : List BlockMetaProto) : Prop where
  oneSize : ∀ b ∈ request, ∀ b' ∈ request, b.blockId = b'.blockId → b.size = b'.size
  fits : (request.map fun b => b.size.toNat).sum < 2 ^ 64

/-- What is listed before the batch holds no bytes once the batch is in. -/
structure ListedEmpty (svc : MetaService) (i : UInt64) (request : List BlockMetaProto) : Prop where
  again : ∀ b ∈ request, b.blockId ∈ svc.listedIds i → b.size = 0
  kept : ∀ id ∈ svc.listedIds i, id ∉ request.map BlockMetaProto.blockId → bytesOf svc.blockMap id = 0

theorem totalSize_toNat (blocks : List BlockMeta) :
    (totalSize blocks).toNat = (blocks.map fun b => b.size.toNat).sum % 2 ^ 64 := by
  have loop : ∀ total : UInt64, (blocks.foldl (fun t b => t + b.size.toUInt64) total).toNat =
      (total.toNat + (blocks.map fun b => b.size.toNat).sum) % 2 ^ 64 := by
    induction blocks with
    | nil => intro total; simp [Nat.mod_eq_of_lt total.toNat_lt]
    | cons b rest ih =>
      intro total
      rw [List.foldl_cons, ih, List.map_cons, List.sum_cons]
      simp [UInt64.toNat_add, Nat.add_assoc]
  rw [totalSize, loop]
  simp

/-- Summing over the listed records is summing over the listed ids. -/
theorem sum_filterMap_blockMetas (map : BlockMap) (ids : List UInt64) :
    ((ids.filterMap map.blockMetas).map fun b => b.size.toNat).sum = (ids.map (bytesOf map)).sum := by
  induction ids with
  | nil => rfl
  | cons id rest ih =>
    rw [List.filterMap_cons]
    cases there : map.blockMetas id with
    | none => simp [ih, bytesOf, there]
    | some b => simp [ih, bytesOf, there]

theorem getBlockLocations_sum (svc : MetaService) {i : UInt64} {ids : List UInt64}
    (listed : svc.blockMap.inodeBlocks i = some ids) :
    ∃ blocks, svc.getBlockLocations i = .ok blocks ∧
      (blocks.map fun b => b.size.toNat).sum = (ids.map (bytesOf svc.blockMap)).sum := by
  refine ⟨(ids.filterMap svc.blockMap.blockMetas).map fillBlockMetaProto, ?_, ?_⟩
  · simp [getBlockLocations, BlockMap.getBlocks, listed, Except.map]
  · rw [← sum_filterMap_blockMetas, List.map_map]; rfl

theorem map_blockId_blockMetaOf (request : List BlockMetaProto) :
    (request.map blockMetaOf).map BlockMeta.blockId = request.map BlockMetaProto.blockId := by
  rw [List.map_map]; rfl

section
variable {svc : MetaService} {i : UInt64} {request : List BlockMetaProto}

/-- An id of a plain batch lists that batch's size for it. -/
theorem PlainBatch.bytesOf_added (plain : PlainBatch request) (map : BlockMap) {b : BlockMetaProto}
    (member : b ∈ request) :
    bytesOf (map.addBlocks i (request.map blockMetaOf)).2 b.blockId = b.size.toNat := by
  have added : b.blockId ∈ (request.map blockMetaOf).map BlockMeta.blockId := by
    rw [map_blockId_blockMetaOf]; exact List.mem_map_of_mem member
  obtain ⟨record, there, id, found⟩ := BlockMap.addBlocks_of_mem map i added
  obtain ⟨b', member', rfl⟩ := List.mem_map.mp there
  rw [bytesOf, found, ← plain.oneSize b' member' b member id]
  rfl

/-- An id outside the batch lists what it did. -/
theorem bytesOf_not_added (map : BlockMap) {id : UInt64} (outside : id ∉ request.map BlockMetaProto.blockId) :
    bytesOf (map.addBlocks i (request.map blockMetaOf)).2 id = bytesOf map id := by
  rw [bytesOf, BlockMap.addBlocks_of_not_mem (by rwa [map_blockId_blockMetaOf]), ← bytesOf]

/-- The sizes of a plain batch are what its ids list afterwards. -/
theorem PlainBatch.sum_added (plain : PlainBatch request) (map : BlockMap) :
    ((request.map BlockMetaProto.blockId).map
      (bytesOf (map.addBlocks i (request.map blockMetaOf)).2)).sum =
      (request.map fun b => b.size.toNat).sum := by
  rw [List.map_map]
  congr 1
  exact List.map_congr_left fun b member => plain.bytesOf_added map member

/-- The bytes the earlier ids list after the batch. -/
def earlierBytes (svc : MetaService) (i : UInt64) (request : List BlockMetaProto) : Nat :=
  ((svc.listedIds i).map (bytesOf (svc.blockMap.addBlocks i (request.map blockMetaOf)).2)).sum

theorem earlierBytes_eq_zero_iff (plain : PlainBatch request) :
    svc.earlierBytes i request = 0 ↔ ListedEmpty svc i request := by
  rw [earlierBytes, List.sum_eq_zero_iff_forall_eq_nat]
  constructor
  · intro zero
    refine ⟨fun b member listed => ?_, fun id listed outside => ?_⟩
    · have := zero _ (List.mem_map_of_mem listed)
      rw [plain.bytesOf_added _ member] at this
      exact UInt32.toNat_inj.mp this
    · rw [← bytesOf_not_added svc.blockMap outside]
      exact zero _ (List.mem_map_of_mem listed)
  · intro empty n there
    obtain ⟨id, listed, rfl⟩ := List.mem_map.mp there
    by_cases added : id ∈ request.map BlockMetaProto.blockId
    · obtain ⟨b, member, rfl⟩ := List.mem_map.mp added
      rw [plain.bytesOf_added _ member, empty.again b member listed]; rfl
    · rw [bytesOf_not_added _ added, empty.kept id listed added]

/-- The size and the listed bytes after a plain batch. -/
theorem commit_size (consistent : svc.namespaceMgr.Consistent) {inode : Inode}
    (live : svc.inodeTable.inodes i = some inode) (plain : PlainBatch request) (mtime ctime : UInt64) :
    ∃ inode' blocks, (svc.commitBlocks mtime ctime i request).2.inodeTable.inodes i = some inode' ∧
      (svc.commitBlocks mtime ctime i request).2.getBlockLocations i = .ok blocks ∧
      inode'.size.toNat = (request.map fun b => b.size.toNat).sum ∧
      (blocks.map fun b => b.size.toNat).sum =
        svc.earlierBytes i request + (request.map fun b => b.size.toNat).sum := by
  rw [commitBlocks_eq]
  have size : (committed inode mtime ctime (request.map blockMetaOf)).size.toNat =
      (request.map fun b => b.size.toNat).sum := by
    rw [committed, totalSize_toNat, List.map_map]
    exact Nat.mod_eq_of_lt plain.fits
  obtain ⟨blocks, locations, sum⟩ := getBlockLocations_sum { svc with
      blockMap := (svc.blockMap.addBlocks i (request.map blockMetaOf)).2,
      namespaceMgr := { svc.namespaceMgr with
        inodeTable := svc.sizedTable mtime ctime i (request.map blockMetaOf) } }
    (by rw [BlockMap.addBlocks_inodeBlocks, Function.update_self])
  refine ⟨committed inode mtime ctime (request.map blockMetaOf), blocks, ?_, locations, size, ?_⟩
  · simp only [inodeTable, sizedTable, live]
    rw [InodeTable.update_inodes]
    simp [committed, consistent.keyed live, live]
  · rw [sum, List.map_append, List.sum_append, ← plain.sum_added (i := i) svc.blockMap, earlierBytes,
      listedIds, map_blockId_blockMetaOf]

/-- After a plain batch the size is the sum over the list exactly when the
blocks listed before it hold no bytes. -/
theorem sizeMatches_commit_iff (consistent : svc.namespaceMgr.Consistent) {inode : Inode}
    (live : svc.inodeTable.inodes i = some inode) (plain : PlainBatch request) (mtime ctime : UInt64) :
    SizeMatches (svc.commitBlocks mtime ctime i request).2 i ↔ ListedEmpty svc i request := by
  rw [← earlierBytes_eq_zero_iff plain]
  obtain ⟨inode', blocks, there, locations, size, sum⟩ := commit_size consistent live plain mtime ctime
  constructor
  · rintro ⟨inode'', blocks', there', locations', same⟩
    cases there.symm.trans there'
    cases locations.symm.trans locations'
    omega
  · intro zero
    exact ⟨inode', blocks, there, locations, by omega⟩

end

/-- What a request must meet, in the state it finds, for the size to match afterwards. -/
structure FirstBytes (svc : MetaService) (i : UInt64) (request : List BlockMetaProto) : Prop where
  plain : PlainBatch request
  listed : ListedEmpty svc i request

/-- One or more commits for inode `i`, one at a time, each meeting `allowed` in the state it finds. -/
inductive Commits (i : UInt64) (allowed : MetaService → List BlockMetaProto → Prop) :
    MetaService → MetaService → Prop where
  | first {svc : MetaService} (mtime ctime : UInt64) (request : List BlockMetaProto) :
      allowed svc request → Commits i allowed svc (svc.commitBlocks mtime ctime i request).2
  | next {svc svc' : MetaService} (mtime ctime : UInt64) (request : List BlockMetaProto) :
      Commits i allowed svc svc' → allowed svc' request →
      Commits i allowed svc (svc'.commitBlocks mtime ctime i request).2

/-- A commit leaves a live regular file a live regular file. -/
theorem regular_commit {svc : MetaService} (consistent : svc.namespaceMgr.Consistent) {i : UInt64}
    {inode : Inode} (live : svc.inodeTable.inodes i = some inode) (regular : inode.fileType = .regular)
    (mtime ctime : UInt64) (request : List BlockMetaProto) :
    ∃ inode', (svc.commitBlocks mtime ctime i request).2.inodeTable.inodes i = some inode' ∧
      inode'.fileType = .regular := by
  refine ⟨committed inode mtime ctime (request.map blockMetaOf), ?_, regular⟩
  rw [commitBlocks_eq]
  simp only [inodeTable, sizedTable, live]
  rw [InodeTable.update_inodes]
  simp [committed, consistent.keyed live, live]

/-- **The size equals the committed data** after every commit of a run whose
requests find no bytes listed yet. -/
theorem sizeMatches_of_commits {svc svc' : MetaService} (reachable : Reachable svc) {i : UInt64}
    (file : ∃ inode, svc.inodeTable.inodes i = some inode ∧ inode.fileType = .regular)
    (run : Commits i (fun s request => FirstBytes s i request) svc svc') : SizeMatches svc' i := by
  have state : svc'.namespaceMgr.Consistent ∧ (∃ inode, svc'.inodeTable.inodes i = some inode ∧
      inode.fileType = .regular) ∧ SizeMatches svc' i := by
    induction run with
    | first mtime ctime request allowed =>
      obtain ⟨inode, live, regular⟩ := file
      exact ⟨consistent_handle reachable.consistent (.commitBlocks mtime ctime i request),
        regular_commit reachable.consistent live regular mtime ctime request,
        (sizeMatches_commit_iff reachable.consistent live allowed.plain mtime ctime).mpr allowed.listed⟩
    | next mtime ctime request _ allowed ih =>
      obtain ⟨consistent, ⟨inode, live, regular⟩, -⟩ := ih
      exact ⟨consistent_handle consistent (.commitBlocks mtime ctime i request),
        regular_commit consistent live regular mtime ctime request,
        (sizeMatches_commit_iff consistent live allowed.plain mtime ctime).mpr allowed.listed⟩
  exact state.2.2

/-- A service with one empty file, `/a`, whose inode is 2. -/
def oneFile : MetaService := (init 0).handle (.createFsFile 0 ['/', 'a'] 0o644 0 0 0)

theorem oneFile_reachable : Reachable oneFile := .step _ (.init 0)

theorem oneFile_regular : ∃ inode, oneFile.inodeTable.inodes 2 = some inode ∧ inode.fileType = .regular :=
  ⟨NamespaceManager.newRegular 0 0o644 0 0 0 2 1 ['a'], by decide, rfl⟩

/-- An empty batch, then one of two blocks. -/
theorem sizeMatches_of_commits_two : SizeMatches
    ((oneFile.commitBlocks 0 0 2 []).2.commitBlocks 0 0 2
      [{ blockId := 1, size := 5 }, { blockId := 2, size := 7 }]).2 2 := by
  refine sizeMatches_of_commits oneFile_reachable oneFile_regular
    (.next 0 0 _ (.first 0 0 _ ⟨⟨nofun, by decide⟩, ⟨nofun, nofun⟩⟩) ⟨⟨?_, by decide⟩, ⟨?_, nofun⟩⟩)
  · decide
  · decide

/-- Two batches of one block each: the size is the second block's, the list has both. -/
theorem second_commit_forgets_first :
    Commits 2 (fun _ _ => True) oneFile
      ((oneFile.commitBlocks 0 0 2 [{ blockId := 1, size := 5 }]).2.commitBlocks 0 0 2
        [{ blockId := 2, size := 7 }]).2 ∧
      ¬ SizeMatches ((oneFile.commitBlocks 0 0 2 [{ blockId := 1, size := 5 }]).2.commitBlocks 0 0 2
        [{ blockId := 2, size := 7 }]).2 2 := by
  refine ⟨.next 0 0 _ (.first 0 0 _ trivial) trivial, ?_⟩
  rintro ⟨inode, blocks, live, locations, same⟩
  have size : (((oneFile.commitBlocks 0 0 2 [{ blockId := 1, size := 5 }]).2.commitBlocks 0 0 2
    [{ blockId := 2, size := 7 }]).2.inodeTable.inodes 2).map Inode.size = some 7 := by decide
  have listed : ((oneFile.commitBlocks 0 0 2 [{ blockId := 1, size := 5 }]).2.commitBlocks 0 0 2
      [{ blockId := 2, size := 7 }]).2.getBlockLocations 2 =
    .ok [fillBlockMetaProto { blockId := 1, level := .l0, size := 5, replicaCount := 0 },
      fillBlockMetaProto { blockId := 2, level := .l0, size := 7, replicaCount := 0 }] := by rfl
  rw [live, Option.map_some, Option.some.injEq] at size
  cases locations.symm.trans listed
  rw [size] at same
  revert same
  decide

end OpenFS.MetaService
