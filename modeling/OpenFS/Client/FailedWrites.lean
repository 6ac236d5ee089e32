import OpenFS.Client.System
import OpenFS.Meta.PathRefinement

/-!
# Writes that fail half way

`WriteFile` creates the file first. When a later step fails it returns the status
and leaves the file there.
-/

namespace OpenFS

open Requests

/-- What becomes of an RPC. -/
inductive Delivery
  | delivered
  /-- The request does not reach the server. -/
  | lost
  /-- The server's answer does not reach the client. -/
  | replyLost
  deriving DecidableEq

/-- What becomes of the steps of a `WriteFile` after the first. -/
structure Faults where
  allocate : Delivery := .delivered
  /-- The data node's answer to call `i`. -/
  writes : Nat → Except Status (UInt64 × UInt64)
  commit : Delivery := .delivered
  /-- The status of an error is not kOk. -/
  error_ne_ok : ∀ i, writes i ≠ .error .ok

namespace Faults

/-- The reply, and the state of a server that would answer like this. -/
def deliver {σ : Type} (delivery : Delivery) (q : Rpc) (s : σ) (answer : q.Reply × σ) : q.Reply × σ :=
  match delivery with
  | .delivered => answer
  | .lost => (q.failed, s)
  | .replyLost => (q.failed, answer.2)

/-- The metadata service behind these faults; the state counts the calls. -/
def server (f : Faults) (r : Nat → Readings) : Server Rpc Rpc.Reply (MetaService × Nat)
  | (svc, i), .writeBlock .. => (f.writes i, (svc, i + 1))
  | (svc, i), q =>
    let delivery : Delivery :=
      match q with
      | .allocateBlocks .. => f.allocate
      | .commitBlocks .. => f.commit
      | _ => .delivered
    let (reply, svc) := deliver delivery q svc (svc.answer (r i) q)
    (reply, (svc, i + 1))

end Faults

namespace FailedWrites

open OpenFSClient

/-- A write that does not return kOk leaves the metadata as it was. -/
def NoTrace (client : OpenFSClient) (path : Str) (mode : UInt32) (data : List UInt8) (svc : MetaService)
    (f : Faults) (r : Nat → Readings) : Prop :=
  let result := (client.writeFile path mode data).run (f.server r) (svc, 0)
  result.1.1 ≠ .ok →
    NamespaceManager.Unchanged svc.namespaceMgr result.2.1.namespaceMgr ∧ result.2.1.blockMap = svc.blockMap

/-- No step after the first fails: there are blocks to ask for and a node to put them
on, and every call goes through. -/
structure StepsSucceed (data : List UInt8) (svc : MetaService) (f : Faults) : Prop where
  some_block : BlockSplitter.blockCount data.length (selectBlockLevel data.length) ≠ 0
  online : svc.nodeMgr.getAnyOnlineNode ≠ 0
  allocate : f.allocate = .delivered
  writes : ∀ k < BlockSplitter.blockCount data.length (selectBlockLevel data.length), ∃ r, f.writes (2 + k) = .ok r
  commit : f.commit = .delivered

/-- The first step is not taken, or fails, or no later one does. -/
def Untouched (client : OpenFSClient) (path : Str) (mode : UInt32) (data : List UInt8) (svc : MetaService)
    (f : Faults) (r : Nat → Readings) : Prop :=
  client.initialized = false ∨
    (∃ s, (svc.createFsFile ((r 0).clock 0) path mode 0 0 (UInt64.ofNat data.length)).1 = .error s) ∨
    data = [] ∨ StepsSucceed data svc f

/-! ## The later steps -/

/-- The blocks are written exactly if every call goes through; the metadata is not touched. -/
theorem run_writeBlocks (f : Faults) (r : Nat → Readings) (data : List UInt8)
    (pairs : List (BlockMeta × BlockSlice)) (client : OpenFSClient) (committed : List BlockMeta)
    (svc : MetaService)
    (i : Nat) : ∃ out client' i', (writeBlocks data client pairs committed).run (f.server r) (svc, i) =
      ((out, client'), (svc, i')) ∧ out ≠ .error .ok ∧
      ((∃ blocks, out = .ok blocks) ↔ ∀ k < pairs.length, ∃ r, f.writes (i + k) = .ok r) := by
  induction pairs generalizing client committed i with
  | nil => exact ⟨_, client, i, rfl, nofun, iff_of_true ⟨committed, rfl⟩ nofun⟩
  | cons pair rest ih =>
    obtain ⟨alloc, slice⟩ := pair
    rw [writeBlocks]
    simp only [Prog.run_bind, Prog.run_call, Faults.server]
    cases answer : f.writes i with
    | error s =>
      refine ⟨_, _, _, rfl, ?_, iff_of_false nofun fun all => ?_⟩
      · intro same
        cases same
        exact f.error_ne_ok i answer
      · obtain ⟨reply, through⟩ := all 0 (Nat.zero_lt_succ _)
        cases answer.symm.trans through
    | ok reply =>
      obtain ⟨segmentId, offset⟩ := reply
      obtain ⟨out, client', i', result, status, all⟩ :=
        ih (client.dataAddr alloc.nodeId).2 (committed ++ [committedBlock alloc slice segmentId offset]) (i + 1)
      refine ⟨out, client', i', result, status, all.trans ⟨fun later k small => ?_, fun all k small => ?_⟩⟩
      · cases k with
        | zero => exact ⟨_, answer⟩
        | succ k =>
          rw [Nat.add_comm k 1, ← Nat.add_assoc]
          exact later k (Nat.lt_of_succ_lt_succ small)
      · rw [Nat.add_assoc, Nat.add_comm 1 k]
        exact all (k + 1) (Nat.succ_lt_succ small)

/-- The calls of the later steps. -/
def Later : Rpc → Prop
  | .allocateBlocks .. => True
  | .commitBlocks .. => True
  | .writeBlock .. => True
  | _ => False

theorem uses_writeBlocks (data : List UInt8) (pairs : List (BlockMeta × BlockSlice)) (client : OpenFSClient)
    (committed : List BlockMeta) : (writeBlocks data client pairs committed).Uses Later := by
  induction pairs generalizing client committed with
  | nil => exact Prog.uses_pure _ _
  | cons pair rest ih =>
    obtain ⟨alloc, slice⟩ := pair
    rw [writeBlocks]
    refine Prog.uses_bind (Prog.uses_call trivial) fun reply => ?_
    rcases reply with s | ⟨segmentId, offset⟩
    · exact Prog.uses_pure _ _
    · exact ih _ _

theorem uses_writeData (client : OpenFSClient) (inode : Inode) (data : List UInt8) :
    (client.writeData inode data).Uses Later := by
  unfold writeData
  dsimp only
  split
  · exact Prog.uses_pure _ _
  · refine Prog.uses_bind (Prog.uses_call trivial) fun reply => ?_
    rcases reply with s | allocated
    · exact Prog.uses_pure _ _
    · dsimp only
      split
      · exact Prog.uses_pure _ _
      · refine Prog.uses_bind (uses_writeBlocks ..) fun result => ?_
        rcases result with ⟨s | committed, client⟩
        · exact Prog.uses_pure _ _
        · exact Prog.uses_bind (Prog.uses_call trivial) fun _ => Prog.uses_pure _ _

/-- They do not touch the directories, whatever becomes of them. -/
theorem dirEntries_server (f : Faults) (r : Nat → Readings) (s : MetaService × Nat) (q : Rpc) (later : Later q) :
    (f.server r s q).2.1.namespaceMgr.dirEntries = s.1.namespaceMgr.dirEntries := by
  obtain ⟨svc, i⟩ := s
  cases q with
  | allocateBlocks inodeId blockCount level =>
    simp only [Faults.server]
    cases f.allocate <;> rfl
  | commitBlocks inodeId blocks =>
    simp only [Faults.server]
    have committed : ((svc.answer (r i) (.commitBlocks inodeId blocks)).2).namespaceMgr.dirEntries =
        svc.namespaceMgr.dirEntries := by
      simp only [MetaService.answer, MetaService.commitBlocks_eq]
    cases f.commit with
    | delivered => exact committed
    | lost => rfl
    | replyLost => exact committed
  | writeBlock => rfl
  | _ => exact later.elim

theorem answer_allocateBlocks (r : Readings) (svc : MetaService) (inodeId : UInt64) (blockCount : UInt32)
    (level : BlkLevel) :
    (svc.nodeMgr.getAnyOnlineNode = 0 ∧
        svc.answer r (.allocateBlocks inodeId blockCount level) = (.error .noSpace, svc)) ∨
      (svc.nodeMgr.getAnyOnlineNode ≠ 0 ∧ ∃ allocated svc',
        svc.answer r (.allocateBlocks inodeId blockCount level) = (.ok allocated, svc') ∧
        allocated.length = blockCount.toNat) := by
  by_cases offline : svc.nodeMgr.getAnyOnlineNode = 0
  · refine .inl ⟨offline, ?_⟩
    simp [MetaService.answer, MetaService.allocateBlocks, BlockAllocator.allocate_offline offline, Except.map]
  · refine .inr ⟨offline, ?_⟩
    simp only [MetaService.answer, MetaService.allocateBlocks, BlockAllocator.allocate_online offline, Except.map]
    exact ⟨_, _, rfl, by simp⟩

/-- They return kOk exactly if none of them fails. -/
theorem run_writeData_ok_iff (client : OpenFSClient) (inode : Inode) (data : List UInt8) (svc : MetaService)
    (f : Faults) (r : Nat → Readings) :
    ((client.writeData inode data).run (f.server r) (svc, 1)).1.1 = .ok ↔ StepsSucceed data svc f := by
  have count := BlockSplitter.length_split data
  have small := BlockSplitter.blockCount_lt data.length (selectBlockLevel data.length)
  unfold writeData
  generalize BlockSplitter.split data.length data = slices at count
  dsimp only
  cases slices with
  | nil => exact iff_of_false nofun fun succeed => succeed.some_block count.symm
  | cons first slices =>
    have asked : (UInt32.ofNat (first :: slices).length).toNat = (first :: slices).length := by
      rw [UInt32.toNat_ofNat', Nat.mod_eq_of_lt (by omega)]
    simp only [List.head?_cons, Prog.run_bind, Prog.run_call]
    simp only [Faults.server]
    cases fate : f.allocate with
    | lost => exact iff_of_false nofun fun succeed => nomatch fate.symm.trans succeed.allocate
    | replyLost => exact iff_of_false nofun fun succeed => nomatch fate.symm.trans succeed.allocate
    | delivered =>
      rcases answer_allocateBlocks (r 1) svc inode.inodeId (UInt32.ofNat (first :: slices).length) first.level with
        ⟨offline, answer⟩ | ⟨online, allocated, svc', answer, length⟩
      · rw [Faults.deliver, answer]
        exact iff_of_false nofun fun succeed => succeed.online offline
      · rw [asked] at length
        rw [Faults.deliver, answer]
        dsimp only
        rw [if_neg (by simp [length])]
        obtain ⟨out, client', i, result, status, all⟩ := run_writeBlocks f r data (allocated.zip (first :: slices))
          client [] svc' 2
        rw [List.length_zip, length, Nat.min_self, count] at all
        simp only [Prog.run_bind, result]
        cases out with
        | error s =>
          refine iff_of_false (fun ok => status (congrArg _ ok)) fun succeed => ?_
          obtain ⟨_, written⟩ := all.mpr succeed.writes
          cases written
        | ok committed =>
          have written := all.mp ⟨committed, rfl⟩
          simp only [Prog.run_bind, Prog.run_call, Prog.run_pure]
          simp only [Faults.server]
          cases commit : f.commit with
          | delivered =>
            refine iff_of_true ?_ ⟨?_, online, fate, written, commit⟩
            · simp only [Faults.deliver, MetaService.answer, MetaService.commitBlocks_eq]
            · rw [← count]
              simp
          | lost => exact iff_of_false nofun fun succeed => nomatch commit.symm.trans succeed.commit
          | replyLost => exact iff_of_false nofun fun succeed => nomatch commit.symm.trans succeed.commit

/-! ## The whole write -/

/-- A creation that fails changes nothing. -/
theorem createFile_error {ns : NamespaceManager} {now : UInt64} {path : Str} {mode uid gid : UInt32}
    {size : UInt64}
    {s : Status} (failed : (ns.createFile now path mode uid gid size).1 = .error s) :
    s ≠ .ok ∧ NamespaceManager.Unchanged ns (ns.createFile now path mode uid gid size).2 := by
  have effect := NamespaceManager.createFile_effect ns now path mode uid gid size
  rw [failed, statusOf_error] at effect
  generalize call : NamespaceManager.Call.createFile path mode uid gid size = c at effect
  cases effect with
  | refused status same => exact ⟨status, same⟩
  | madeFile resolved listed absent free =>
    cases call
    have made := NamespaceManager.createFile_ok now mode uid gid size resolved listed absent free
    cases failed.symm.trans made
  | _ => cases call

/-- One that succeeds adds an entry. -/
theorem createFile_entry {ns : NamespaceManager} {now : UInt64} {path : Str} {mode uid gid : UInt32}
    {size : UInt64}
    {inode : Inode} (made : (ns.createFile now path mode uid gid size).1 = .ok inode) :
    (ns.createFile now path mode uid gid size).2.dirEntries ≠ ns.dirEntries := by
  have effect := NamespaceManager.createFile_effect ns now path mode uid gid size
  rw [made, statusOf_ok] at effect
  generalize (ns.createFile now path mode uid gid size).2 = after at effect
  generalize call : NamespaceManager.Call.createFile path mode uid gid size = c at effect
  generalize status : Status.ok = s at effect
  cases effect with
  | refused refused => exact absurd status.symm refused
  | @madeFile _ _ _ _ _ parentId _ entries _ _ listed _ _ dirs =>
    intro same
    have here := congrFun (dirs.symm.trans same) parentId
    rw [Function.update_self, listed, Option.some.injEq] at here
    simpa using congrArg List.length here
  | _ => cases call

section
variable {client : OpenFSClient} {path : Str} {mode : UInt32} {data : List UInt8} {svc : MetaService} {f : Faults}
  {r : Nat → Readings}

/-- A write that comes to its later steps. -/
theorem run_writeFile (ready : client.initialized = true) (nonempty : data ≠ []) {inode : Inode}
    (made : (svc.createFsFile ((r 0).clock 0) path mode 0 0 (UInt64.ofNat data.length)).1 = .ok inode) :
    (client.writeFile path mode data).run (f.server r) (svc, 0) = (client.writeData inode data).run (f.server r)
      ((svc.createFsFile ((r 0).clock 0) path mode 0 0 (UInt64.ofNat data.length)).2, 1) := by
  have first : f.server r (svc, 0) (.createFile path mode 0 0 (UInt64.ofNat data.length)) =
      ((svc.createFsFile ((r 0).clock 0) path mode 0 0 (UInt64.ofNat data.length)).1,
        ((svc.createFsFile ((r 0).clock 0) path mode 0 0 (UInt64.ofNat data.length)).2, 1)) := rfl
  unfold writeFile
  rw [if_neg (by simp [ready])]
  simp only [Prog.run_bind, Prog.run_call]
  rw [first, made]
  dsimp only
  rw [if_neg nonempty]

/-- The file stays when a later step fails. -/
theorem not_noTrace (ready : client.initialized = true) (nonempty : data ≠ []) {inode : Inode}
    (made : (svc.createFsFile ((r 0).clock 0) path mode 0 0 (UInt64.ofNat data.length)).1 = .ok inode)
    (failed : ¬ StepsSucceed data svc f) : ¬ NoTrace client path mode data svc f r := by
  intro traceless
  have entry : (svc.createFsFile ((r 0).clock 0) path mode 0 0
    (UInt64.ofNat data.length)).2.namespaceMgr.dirEntries ≠
      svc.namespaceMgr.dirEntries := createFile_entry made
  unfold NoTrace at traceless
  rw [run_writeFile ready nonempty made] at traceless
  have nodes : (svc.createFsFile ((r 0).clock 0) path mode 0 0 (UInt64.ofNat data.length)).2.nodeMgr =
      svc.nodeMgr := rfl
  generalize (svc.createFsFile ((r 0).clock 0) path mode 0 0 (UInt64.ofNat data.length)).2 = created
    at entry traceless nodes
  have status := run_writeData_ok_iff client inode data created f r
  have dirs : ((client.writeData inode data).run (f.server r) (created, 1)).2.1.namespaceMgr.dirEntries =
      created.namespaceMgr.dirEntries :=
    Prog.run_keeps (I := fun s => s.1.namespaceMgr.dirEntries = created.namespaceMgr.dirEntries)
      (fun s q later same => (dirEntries_server f r s q later).trans same) (uses_writeData client inode data) rfl
  have unchanged := (traceless fun ok => failed (by
    obtain ⟨some_block, online, allocate, writes, commit⟩ := status.mp ok
    exact ⟨some_block, by rwa [← nodes], allocate, writes, commit⟩)).1
  exact entry (dirs.symm.trans unchanged.dirs)

/-- **A write leaves no trace** exactly if it does not get past the creation of the
file, or nothing fails from there on. -/
theorem noTrace_iff (client : OpenFSClient) (path : Str) (mode : UInt32) (data : List UInt8) (svc : MetaService)
    (f : Faults) (r : Nat → Readings) :
    NoTrace client path mode data svc f r ↔ Untouched client path mode data svc f r := by
  constructor
  · intro traceless
    cases ready : client.initialized with
    | false => exact .inl ready
    | true =>
      cases made : (svc.createFsFile ((r 0).clock 0) path mode 0 0 (UInt64.ofNat data.length)).1 with
      | error s => exact .inr (.inl ⟨s, made⟩)
      | ok inode =>
        by_cases empty : data = []
        · exact .inr (.inr (.inl empty))
        · refine .inr (.inr (.inr ?_))
          by_contra failed
          exact not_noTrace ready empty made failed traceless
  · intro untouched failed
    cases ready : client.initialized with
    | false =>
      unfold writeFile
      rw [if_pos ready]
      exact ⟨.refl _, rfl⟩
    | true =>
      have first : f.server r (svc, 0) (.createFile path mode 0 0 (UInt64.ofNat data.length)) =
          ((svc.createFsFile ((r 0).clock 0) path mode 0 0 (UInt64.ofNat data.length)).1,
            ((svc.createFsFile ((r 0).clock 0) path mode 0 0 (UInt64.ofNat data.length)).2, 1)) := rfl
      unfold writeFile at failed ⊢
      rw [if_neg (by simp [ready])] at failed ⊢
      simp only [Prog.run_bind, Prog.run_call] at failed ⊢
      rw [first] at failed ⊢
      cases made : (svc.createFsFile ((r 0).clock 0) path mode 0 0 (UInt64.ofNat data.length)).1 with
      | error s => exact ⟨(createFile_error made).2, rfl⟩
      | ok inode =>
        rw [made] at failed
        dsimp only at failed
        exfalso
        rcases untouched with unready | ⟨s, refused⟩ | empty | succeed
        · cases unready.symm.trans ready
        · cases refused.symm.trans made
        · rw [if_pos empty] at failed
          exact failed rfl
        · split at failed
          · exact failed rfl
          · refine failed ((run_writeData_ok_iff client inode data _ f r).mpr ?_)
            exact ⟨succeed.some_block, succeed.online, succeed.allocate, succeed.writes, succeed.commit⟩

end

/-- The first block write fails. -/
def diskFull : Faults where
  writes := fun _ => .error .noSpace
  error_ne_ok := nofun

/-- A service with one data node. -/
def oneNode : MetaService := (MetaService.init 0).handle (.register 0 "localhost:8200".toList 0)

/-- The data node refuses the block, and the file is there all the same. -/
theorem refused_block_leaves_file : ¬ ∀ (client : OpenFSClient) path mode data (svc : MetaService), svc.Reachable →
    ∀ f r, NoTrace client path mode data svc f r := by
  intro claim
  have traceless := claim { initialized := true } ['/', 'a'] 0o644 [0] oneNode (.step _ (.init 0))
    diskFull fun _ => {}
  have made : (oneNode.createFsFile 0 ['/', 'a'] 0o644 0 0 1).1 =
      .ok (NamespaceManager.newRegular 0 0o644 0 0 1 2 1 ['a']) := by decide
  have failed : ¬ StepsSucceed [0] oneNode diskFull := by
    intro succeed
    obtain ⟨_, written⟩ := succeed.writes 0 (by decide)
    cases written
  exact not_noTrace rfl (List.cons_ne_nil 0 []) made failed traceless

end FailedWrites

end OpenFS
