import OpenFS.Client.Cluster
import OpenFS.Client.FailedWrites
import OpenFS.Client.Slices
import OpenFS.Data.NodeLedger

/-!
# Writes that go through

A service that was just started and a node with room let a write go through, however many
slices it has. So there are runs in which a write has returned `kOk`.
-/

namespace OpenFS.Cluster

open Requests OpenFSClient

/-- The node takes what fits a message. -/
def Takes (node : DataNode) : Prop :=
  ∀ blockId bytes, bytes.length < 2 ^ 31 →
    ∃ place, (DataService.writeBlock node blockId bytes (computeCRC32 bytes)).1 = .ok place

/-- It does so many times. -/
def TakesMany : Nat → DataNode → Prop
  | 0, _ => True
  | n + 1, node => Takes node ∧ ∀ blockId bytes, bytes.length < 2 ^ 31 →
      TakesMany n (DataService.writeBlock node blockId bytes (computeCRC32 bytes)).2

theorem takesMany_of_roomy {n : Nat} {node : DataNode} (roomy : node.Roomy (n * 2 ^ 20)) : TakesMany n node := by
  induction n generalizing node with
  | zero => trivial
  | succ n ih =>
    rw [Nat.succ_mul] at roomy
    exact ⟨fun blockId bytes small => (roomy.write blockId small).1,
      fun blockId bytes small => ih (roomy.write blockId small).2⟩

theorem TakesMany.of_le {n : Nat} (m : Nat) {node : DataNode} (takes : TakesMany n node) (fewer : m ≤ n) :
    TakesMany m node := by
  induction m generalizing n node with
  | zero => trivial
  | succ m ih =>
    cases n with
    | zero => exact absurd fewer (Nat.not_succ_le_zero m)
    | succ n =>
      exact ⟨takes.1, fun blockId bytes small => ih (takes.2 blockId bytes small) (Nat.le_of_succ_le_succ fewer)⟩

section
variable {rs : Nat → Readings} {data : List UInt8}

/-- Step 4: every block is taken. -/
theorem run_writeBlocks_taken {pairs : List (BlockMeta × BlockSlice)}
    (fits : ∀ pair ∈ pairs, BlockSplitter.Describes pair.2 (pair.2.bytes data)) {sys : System} {i : Nat}
    (takes : TakesMany pairs.length sys.node) (client : OpenFSClient) (committed : List BlockMeta) :
    (∃ blocks client' s, (writeBlocks data client pairs committed).run (System.serve rs) (sys, i) =
      ((.ok blocks, client'), s)) ∧
      (writeBlocks data client pairs committed).Along (fun s q => IdsLast s.1 q) (System.serve rs) (sys, i) := by
  induction pairs generalizing sys i client committed with
  | nil => exact ⟨⟨committed, client, (sys, i), rfl⟩, trivial⟩
  | cons pair rest ih =>
    obtain ⟨alloc, slice⟩ := pair
    obtain ⟨first, others⟩ := List.forall_mem_cons.mp fits
    obtain ⟨now, later⟩ := takes
    rw [writeBlocks]
    generalize client.dataAddr alloc.nodeId = found
    obtain ⟨addr, client⟩ := found
    obtain ⟨⟨segmentId, offset⟩, stored⟩ := now alloc.blockId (slice.bytes data) first.small
    have left := later alloc.blockId (slice.bytes data) first.small
    rw [← first.crc32] at stored left
    dsimp only
    simp only [Prog.run_bind, Prog.along_bind, Prog.run_call, Prog.along_call]
    rw [System.serve_eq, System.answer_writeBlock, stored]
    obtain ⟨done, along⟩ := @ih others { sys with node := (DataService.writeBlock sys.node alloc.blockId
      (slice.bytes data) slice.crc32).2 } (i + 1) left client
        (committed ++ [committedBlock alloc slice segmentId offset])
    exact ⟨done, trivial, along⟩

variable {sys : System} {i : Nat}

/-- Steps 2 to 5. -/
theorem run_writeData_taken (client : OpenFSClient) (inode : Inode)
    (some : BlockSplitter.split data.length data ≠ [])
    (online : sys.svc.nodeMgr.getAnyOnlineNode ≠ 0)
    (takes : TakesMany (BlockSplitter.split data.length data).length sys.node)
    (room : sys.svc.blockAllocator.nextBlockId.toNat + (BlockSplitter.split data.length data).length < 2 ^ 64) :
    ((client.writeData inode data).run (System.serve rs) (sys, i)).1.1 = .ok ∧
      (client.writeData inode data).Along (fun s q => IdsLast s.1 q) (System.serve rs) (sys, i) := by
  have fits := fun slice => @BlockSplitter.describes_of_mem_split data slice
  have few : (BlockSplitter.split data.length data).length < 2 ^ 32 := by
    rw [BlockSplitter.length_split]
    exact BlockSplitter.blockCount_lt ..
  unfold writeData
  generalize BlockSplitter.split data.length data = slices at some takes room fits few ⊢
  have count : (UInt32.ofNat slices.length).toNat = slices.length := UInt32.toNat_ofNat_of_lt' few
  cases slices with
  | nil => exact absurd rfl some
  | cons slice slices =>
    obtain ⟨allocated, alloc, given, length⟩ : ∃ allocated alloc, sys.svc.blockAllocator.allocate sys.svc.nodeMgr
        (rs i).clock (UInt32.ofNat (slice :: slices).length) slice.level = (.ok allocated, alloc) ∧
        allocated.length = (slice :: slices).length := by
      rw [BlockAllocator.allocate_online online]
      exact ⟨_, _, rfl, by rw [List.length_map, List.length_range, count]⟩
    have asked : System.serve rs (sys, i) (.allocateBlocks inode.inodeId (UInt32.ofNat (slice :: slices).length)
        slice.level) = (.ok allocated, ({ sys with svc := { sys.svc with blockAllocator := alloc } }, i + 1)) := by
      rw [System.serve_eq, System.answer_allocateBlocks, given]
    have zipped : ∀ pair ∈ allocated.zip (slice :: slices), BlockSplitter.Describes pair.2 (pair.2.bytes data) :=
      fun pair member => fits _ (List.of_mem_zip member).2
    dsimp only [List.head?_cons]
    simp only [Prog.run_bind, Prog.along_bind, Prog.run_call, Prog.along_call]
    rw [asked]
    dsimp only
    rw [if_neg (by simp [length])]
    simp only [Prog.run_bind, Prog.along_bind]
    have taken : TakesMany (allocated.zip (slice :: slices)).length sys.node := by
      rw [List.length_zip, length, Nat.min_self]
      exact takes
    obtain ⟨⟨blocks, client', s, written⟩, along⟩ :=
      @run_writeBlocks_taken rs data _ zipped { sys with svc := { sys.svc with blockAllocator := alloc } } (i + 1)
        taken client []
    obtain ⟨after, j⟩ := s
    rw [written]
    dsimp only
    simp only [Prog.run_bind, Prog.run_call, Prog.run_pure, Prog.along_bind, Prog.along_call, Prog.along_pure]
    refine ⟨?_, ?_, along, trivial, trivial⟩
    · rw [System.serve_eq, System.answer_commitBlocks]
    · show sys.svc.blockAllocator.nextBlockId.toNat + (UInt32.ofNat (slice :: slices).length).toNat < 2 ^ 64
      rw [count]
      exact room

theorem run_writeFile_taken {client : OpenFSClient} (ready : client.initialized = true) (path : Str)
    (mode : UInt32)
    {inode : Inode} (made : (sys.svc.namespaceMgr.createFile ((rs i).clock 0) path mode 0 0
      (UInt64.ofNat data.length)).1 = .ok inode) (some : BlockSplitter.split data.length data ≠ [])
    (online : sys.svc.nodeMgr.getAnyOnlineNode ≠ 0)
    (takes : TakesMany (BlockSplitter.split data.length data).length sys.node)
    (ids : sys.svc.inodeTable.nextInodeId.toNat + 1 < 2 ^ 64)
    (room : sys.svc.blockAllocator.nextBlockId.toNat + (BlockSplitter.split data.length data).length < 2 ^ 64) :
    ((client.writeFile path mode data).run (System.serve rs) (sys, i)).1.1 = .ok ∧
      (client.writeFile path mode data).Along (fun s q => IdsLast s.1 q) (System.serve rs) (sys, i) := by
  have nonempty : data ≠ [] := by
    rintro rfl
    exact some rfl
  generalize created : (sys.svc.namespaceMgr.createFile ((rs i).clock 0) path mode 0 0
    (UInt64.ofNat data.length)).2 = ns
  have first : System.serve rs (sys, i) (.createFile path mode 0 0 (UInt64.ofNat data.length)) =
      (.ok inode, ({ sys with svc := { sys.svc with namespaceMgr := ns } }, i + 1)) := by
    rw [System.serve_eq, System.answer_createFile, made, created]
  unfold writeFile
  rw [if_neg (by simp [ready])]
  simp only [Prog.run_bind, Prog.along_bind, Prog.run_call, Prog.along_call]
  rw [first]
  dsimp only
  rw [if_neg nonempty]
  obtain ⟨ok, along⟩ := @run_writeData_taken rs data { sys with svc := { sys.svc with namespaceMgr := ns } }
    (i + 1) client inode some online takes room
  exact ⟨ok, ids, along⟩

end

/-- There is a run in which such a write has returned `kOk`. -/
theorem exists_run_taken {begins : State → ClientCall → Prop} {client : OpenFSClient}
    (ready : client.initialized = true) (mode : UInt32) {data : List UInt8}
    (some : BlockSplitter.split data.length data ≠ [])
    (few : (BlockSplitter.split data.length data).length ≤ 2 ^ 14)
    (allowed : ∀ st : State, st.tasks = [] → begins st ⟨client, .writeFile ['/', 'a'] mode data⟩) :
    ∃ (st : State) (out : List UInt8), cluster.Run begins IdsLast st ∧
      st.tasks = [⟨⟨client, .writeFile ['/', 'a'] mode data⟩, .ret (.ok, out)⟩] := by
  obtain ⟨node, installed, length, roomy⟩ := DataNode.exists_roomy
  have takes := (takesMany_of_roomy roomy).of_le _ few
  have fresh : Fresh ⟨.init 0, node⟩ := ⟨⟨0, rfl⟩, installed, by rw [length]; decide⟩
  have drift : Drift ⟨.init 0, node⟩ ⟨FailedWrites.oneNode, node⟩ := .register 0 "localhost:8200".toList 0
  have started : cluster.Run begins IdsLast { server := ⟨FailedWrites.oneNode, node⟩ } :=
    .drift (.start fresh) drift
  have begun := started.begin ⟨client, .writeFile ['/', 'a'] mode data⟩ (allowed _ rfl)
  have made : (FailedWrites.oneNode.namespaceMgr.createFile 0 ['/', 'a'] mode 0 0 (UInt64.ofNat data.length)).1 =
      .ok (NamespaceManager.newRegular 0 mode 0 0 (UInt64.ofNat data.length) 2 1 ['a']) := rfl
  have online : FailedWrites.oneNode.nodeMgr.getAnyOnlineNode ≠ 0 := by decide
  have ids : FailedWrites.oneNode.inodeTable.nextInodeId.toNat + 1 < 2 ^ 64 := by decide
  have next : FailedWrites.oneNode.blockAllocator.nextBlockId.toNat = 1 := by decide
  have room : FailedWrites.oneNode.blockAllocator.nextBlockId.toNat +
      (BlockSplitter.split data.length data).length < 2 ^ 64 := by omega
  obtain ⟨ok, along⟩ := @run_writeFile_taken (fun _ => {}) data ⟨FailedWrites.oneNode, node⟩ 0 client ready
    ['/', 'a'] mode _ made some online takes ids room
  have whole : (cluster.prog ⟨client, .writeFile ['/', 'a'] mode data⟩).Along (fun s q => IdsLast s.1 q)
      (System.serve fun _ => {}) (⟨FailedWrites.oneNode, node⟩, 0) :=
    (Prog.along_bind _ _ _).mpr ⟨along, trivial⟩
  obtain ⟨h, finished, -⟩ := begun.finish (k := 0) rfl (fun _ => {}) 0 whole
  refine ⟨_, [], finished, ?_⟩
  have outcome : ((cluster.prog ⟨client, .writeFile ['/', 'a'] mode data⟩).run (System.serve fun _ => {})
      (⟨FailedWrites.oneNode, node⟩, 0)).1 = (.ok, []) := by
    show (Prog.run _ (client.writeFile ['/', 'a'] mode data >>= fun r => pure (r.1, [])) _).1 = _
    rw [Prog.run_bind]
    exact Prod.ext ok rfl
  exact congrArg (fun out => [Task.mk _ (.ret out)]) outcome

/-- One slice is few. -/
theorem exists_run_single {begins : State → ClientCall → Prop} {client : OpenFSClient}
    (ready : client.initialized = true) (mode : UInt32) {data : List UInt8} {slice : BlockSlice}
    (one : BlockSplitter.split data.length data = [slice])
    (allowed : ∀ st : State, st.tasks = [] → begins st ⟨client, .writeFile ['/', 'a'] mode data⟩) :
    ∃ (st : State) (out : List UInt8), cluster.Run begins IdsLast st ∧
      st.tasks = [⟨⟨client, .writeFile ['/', 'a'] mode data⟩, .ret (.ok, out)⟩] :=
  exists_run_taken ready mode (by rw [one]; exact List.cons_ne_nil _ _)
    (by rw [one, List.length_singleton]; decide) allowed

end OpenFS.Cluster
