import OpenFS.Client.StoreRefinement
import OpenFS.Client.UnmovedPrograms
import OpenFS.Data.NodeCrashes
import OpenFS.Lib.Failures

/-!
# A cluster where things fail

Any RPC may be lost, may arrive when its client has long given it up, or may be answered in vain;
the data node may crash at any time, be it in the middle of a write, and be started again. The
clients give up at the first failure. What is seen of them is still seen of the file store, but
that calls are given up.
-/

namespace OpenFS

open Requests OpenFSClient

namespace Cluster

/-- The node crashes and is started again, or something reaches the service. -/
inductive Mishap (sys : System) : System → Prop where
  | drift {sys' : System} (drifts : Drift sys sys') : Mishap sys sys'
  | crash {node : DataNode} (crashes : sys.node.Crashes node) : Mishap sys { sys with node := node }

/-- The outcome of a call that was given up. -/
def GivenUp (out : Outcome) : Prop := out.1 = .internal

end Cluster

/-- A cluster whose data node may crash; its disks save and load all bits of their bitmaps. -/
def crashingCluster : Setting ClientCall Rpc Rpc.Reply Outcome System Readings where
  prog := cluster.prog
  answer := cluster.answer
  start sys := Cluster.Fresh sys ∧ sys.node.Durable
  drift := Cluster.Mishap

namespace Cluster

/-! ## Clients give up -/

theorem givesUp_call {α : Type} (q : Rpc) (f : q.Reply → ClientProg α) {P : α → Prop}
    (ends : ∃ a, f q.failed = .ret a ∧ P a) (rest : ∀ reply, (f reply).GivesUp Rpc.failed P) :
    (Prog.call q >>= f).GivesUp Rpc.failed P :=
  ⟨ends, rest⟩

theorem givesUp_writeBlocks (data : List UInt8) (pairs : List (BlockMeta × BlockSlice)) (client : OpenFSClient)
    (committed : List BlockMeta) :
    (writeBlocks data client pairs committed).GivesUp Rpc.failed fun r => r.1 = .error .internal := by
  induction pairs generalizing client committed with
  | nil => exact Prog.givesUp_pure _
  | cons pair rest ih =>
    obtain ⟨alloc, slice⟩ := pair
    rw [writeBlocks]
    refine givesUp_call _ _ ⟨_, rfl, rfl⟩ fun reply => ?_
    rcases reply with s | ⟨segmentId, offset⟩
    · exact Prog.givesUp_pure _
    · exact ih _ _

theorem givesUp_writeData (client : OpenFSClient) (inode : Inode) (data : List UInt8) :
    (client.writeData inode data).GivesUp Rpc.failed fun r => r.1 = .internal := by
  unfold writeData
  dsimp only
  cases (BlockSplitter.split data.length data).head? with
  | none => exact Prog.givesUp_pure _
  | some first =>
    refine givesUp_call _ _ ⟨_, rfl, rfl⟩ fun reply => ?_
    rcases reply with s | allocated
    · exact Prog.givesUp_pure _
    · dsimp only
      split
      · exact Prog.givesUp_pure _
      · refine Prog.givesUp_bind (givesUp_writeBlocks ..) ?_ ?_
        · rintro ⟨out, client⟩ rfl
          exact ⟨_, rfl, rfl⟩
        · rintro ⟨out, client⟩
          rcases out with s | committed
          · exact Prog.givesUp_pure _
          · exact givesUp_call _ _ ⟨_, rfl, rfl⟩ fun _ => Prog.givesUp_pure _

theorem givesUp_readBlocks (size : Nat) (blocks : List BlockMeta) (client : OpenFSClient) (writeOffset : Nat)
    (out : List UInt8) :
    (readBlocks size client blocks writeOffset out).GivesUp Rpc.failed fun r => r.1 = .internal := by
  induction blocks generalizing client writeOffset out with
  | nil => exact Prog.givesUp_pure _
  | cons block rest ih =>
    rw [readBlocks]
    refine givesUp_call _ _ ⟨_, rfl, rfl⟩ fun reply => ?_
    rcases reply with s | ⟨blockData, blockCrc⟩
    · exact Prog.givesUp_pure _
    · dsimp only
      split
      · exact Prog.givesUp_pure _
      · exact ih _ _ _

/-- The program of a client that is initialized, or one that is refused. -/
theorem givesUp_ready {α : Type} {P : α → Prop} {client : OpenFSClient} {a : α} {p : ClientProg α}
    (givesUp : p.GivesUp Rpc.failed P) :
    (if client.initialized = false then pure a else p : ClientProg α).GivesUp Rpc.failed P := by
  split
  · exact Prog.givesUp_pure _
  · exact givesUp

/-- **A client gives up at the first failure**, and returns `kInternal`. -/
theorem givesUp_prog (c : ClientCall) : (crashingCluster.prog c).GivesUp Rpc.failed GivenUp := by
  obtain ⟨client, op⟩ := c
  show (op.prog client).GivesUp Rpc.failed GivenUp
  -- an operation of one request
  have once : ∀ {q : Rpc} {view : q.Reply → Outcome} {a : q.Reply}, GivenUp (view q.failed) →
      ((if client.initialized = false then pure a else Prog.call q : ClientProg q.Reply) >>= fun reply =>
        pure (view reply)).GivesUp Rpc.failed GivenUp := by
    intro q view a bad
    refine Prog.givesUp_bind (Q := fun reply => GivenUp (view reply))
      (givesUp_ready (Prog.givesUp_call bad)) (fun reply bad => ⟨_, rfl, bad⟩) fun _ => Prog.givesUp_pure _
  cases op with
  | writeFile path mode data =>
    refine Prog.givesUp_bind (Q := fun r : Status × OpenFSClient => r.1 = .internal) ?_
      (fun r bad => ⟨_, rfl, bad⟩) fun _ => Prog.givesUp_pure _
    refine givesUp_ready (givesUp_call _ _ ⟨_, rfl, rfl⟩ fun reply => ?_)
    rcases reply with s | inode
    · exact Prog.givesUp_pure _
    · dsimp only
      split
      · exact Prog.givesUp_pure _
      · exact givesUp_writeData ..
  | readFile path outData =>
    refine Prog.givesUp_bind (Q := fun r : Status × List UInt8 × OpenFSClient => r.1 = .internal) ?_
      (fun r bad => ⟨_, rfl, bad⟩) fun _ => Prog.givesUp_pure _
    refine givesUp_ready (givesUp_call _ _ ⟨_, rfl, rfl⟩ fun reply => ?_)
    rcases reply with s | inode
    · exact Prog.givesUp_pure _
    · dsimp only
      split
      · exact Prog.givesUp_pure _
      · refine givesUp_call _ _ ⟨_, rfl, rfl⟩ fun reply => ?_
        rcases reply with s | blocks
        · exact Prog.givesUp_pure _
        · dsimp only
          split
          · exact Prog.givesUp_pure _
          · exact givesUp_readBlocks ..
  | createFile path mode fileSize => exact once (q := .createFile path mode 0 0 fileSize) rfl
  | deleteFile path => exact once (q := .deleteFile path) rfl
  | getFileInfo path => exact once (q := .getFileInfo path) rfl
  | rename src dst => exact once (q := .rename src dst) rfl
  | mkDir path mode => exact once (q := .mkDir path mode 0 0) rfl
  | readDir path => exact once (q := .readDir path) rfl
  | rmDir path => exact once (q := .rmDir path) rfl

/-! ## The servers -/

/-- The servers are sound, and the disks can be opened again. -/
def Restorable (h : Log) (sys : System) : Prop := Sound h sys ∧ sys.node.Durable

theorem Sound.crash {h : Log} {sys : System} {node : DataNode} (sound : Sound h sys) (durable : sys.node.Durable)
    (crashes : sys.node.Crashes node) : Restorable h { sys with node := node } := by
  obtain ⟨names, numbers, mapped, earned, ledger, keeps, shelved⟩ := sound
  obtain ⟨keeps', durable'⟩ := keeps.crashes durable crashes
  exact ⟨⟨names, numbers, mapped, earned, ledger, keeps', shelved⟩, durable'⟩

theorem Restorable.mishap {h : Log} {sys sys' : System} (mishap : Mishap sys sys')
    (restorable : Restorable h sys) :
    Restorable h sys' := by
  cases mishap with
  | drift drifts =>
    refine ⟨Sound.drift drifts restorable.1, ?_⟩
    cases drifts with
    | register => exact restorable.2
    | heartbeat => exact restorable.2
  | crash crashes => exact restorable.1.crash restorable.2 crashes

theorem durable_answer (r : Readings) (sys : System) (q : Rpc) (durable : sys.node.Durable) :
    (sys.answer r q).2.node.Durable := by
  cases q with
  | writeBlock addr blockId segmentId data crc32 => exact durable.write blockId data crc32
  | readBlock addr segmentId offset => exact durable.read segmentId offset r.beyond
  | _ => exact durable

variable {begins : State → ClientCall → Prop} {tr : List (Visible ClientCall Outcome)}
  {out : Setting.Outstanding Rpc}
  {st : State}

theorem restorable (run : crashingCluster.Run begins IdsLast st) :
    crashingCluster.Kept IdsLast Restorable (fun _ _ _ _ => True) st := by
  refine run.keeps (fun s start => ⟨start.1.sound, start.2⟩) (fun h s s' => Restorable.mishap)
    (fun h s k c restorable => ⟨restorable.1.began k c, restorable.2⟩) fun k c h first => ?_
  exact ((achieves_prog k c h first).mono fun _ _ _ => trivial).and_server durable_answer

theorem Shows.mishap {h : Log} {sys sys' : System} {store : FileStore} (mishap : Mishap sys sys')
    (shows : Shows h sys store) : Shows h sys' store := by
  obtain ⟨tree, kinds, holds, begun⟩ := shows
  cases mishap with
  | drift drifts =>
    cases drifts with
    | register => exact ⟨tree, kinds, holds, begun⟩
    | heartbeat => exact ⟨tree, kinds, holds, begun⟩
  | crash => exact ⟨tree, kinds, holds, begun⟩

theorem weathered : Setting.Simulated crashingCluster fileStore IdsLast FileStore.IdsLast Restorable Shows
    fun _ c => c.op.Fits where
  inv _ run := (restorable run).inv
  start _ first := ⟨{}, rfl, first.1.shows⟩
  drift _ _ _ _ mishap shows := shows.mishap mishap
  begin _ c _ run fits shows := shows.began c fits (restorable run).callers
  follows _ c run fits :=
    (tracks_prog c fits (restorable run).callers).of_answer rfl fun _ _ restorable => restorable.1

/-! ## A run where things fail -/

def makeByte : ClientCall := ⟨{ initialized := true }, .writeFile ['/', 'a'] 0o644 [7]⟩

def takeByte : ClientCall := ⟨{ initialized := true }, .readFile ['/', 'a'] []⟩

/-- A byte is written, the node crashes, the file is read, and the request of another read is lost. -/
abbrev survived (out : Outcome) : List (Visible ClientCall Outcome) :=
  [.returned 2 (.internal, []), .called 2 takeByte, .returned 1 out, .called 1 takeByte, .returned 0 (.ok, []),
    .called 0 makeByte]

theorem run_makeByte {node : DataNode} (takes : TakesMany 1 node) :
    ((cluster.prog makeByte).run (serving cluster.answer fun _ => {}) (⟨FailedWrites.oneNode, node⟩, 0)).1 =
        (.ok, []) ∧
      (cluster.prog makeByte).Along (fun s q => IdsLast s.1 q) (serving cluster.answer fun _ => {})
        (⟨FailedWrites.oneNode, node⟩, 0) := by
  have some : BlockSplitter.split [(7 : UInt8)].length [7] ≠ [] := by decide
  have made : (FailedWrites.oneNode.namespaceMgr.createFile 0 ['/', 'a'] 0o644 0 0 1).1 =
      .ok (NamespaceManager.newRegular 0 0o644 0 0 1 2 1 ['a']) := rfl
  have online : FailedWrites.oneNode.nodeMgr.getAnyOnlineNode ≠ 0 := by decide
  have ids : FailedWrites.oneNode.inodeTable.nextInodeId.toNat + 1 < 2 ^ 64 := by decide
  have room : FailedWrites.oneNode.blockAllocator.nextBlockId.toNat +
      (BlockSplitter.split [(7 : UInt8)].length [7]).length < 2 ^ 64 := by decide
  obtain ⟨ok, along⟩ := @run_writeFile_taken (fun _ => {}) [7] ⟨FailedWrites.oneNode, node⟩ 0
    { initialized := true }
    rfl ['/', 'a'] 0o644 _ made some online takes ids room
  refine ⟨?_, (Prog.along_bind _ _ _).mpr ⟨along, trivial⟩⟩
  show (Prog.run _ (writeFile { initialized := true } ['/', 'a'] 0o644 [7] >>= fun r => pure (r.1, [])) _).1 = _
  rw [Prog.run_bind]
  exact Prod.ext ok rfl

theorem prog_takeByte : cluster.prog takeByte = .ask (.getFileInfo ['/', 'a']) fun reply =>
    readFound { initialized := true } [] reply >>= fun r => pure (r.1, r.2.1) := by
  show (readFile { initialized := true } ['/', 'a'] [] >>= _) = _
  rw [readFile_eq rfl]
  rfl

theorem along_takeByte (s : System × Nat) :
    (cluster.prog takeByte).Along (fun s q => IdsLast s.1 q) (serving cluster.answer fun _ => {}) s := by
  rw [prog_takeByte]
  refine ⟨trivial, (Prog.along_bind _ _ _).mpr ⟨?_, trivial⟩⟩
  generalize (serving cluster.answer (fun _ => {}) s (.getFileInfo ['/', 'a'])).1 = reply
  rcases reply with s | inode
  · trivial
  · unfold readFound
    dsimp only
    split
    · trivial
    · exact ((uses_readLocated _ _ _ _).mono fun q reading (s : System × Nat) =>
        idsLast_of_reading reading s.1).along _

theorem exists_survived : ∃ out late st, crashingCluster.Failing Rpc.failed (fun c => c.op.Fits) IdsLast
    (survived out) late st := by
  obtain ⟨node, installed, length, roomy, durable⟩ := DataNode.exists_durable
  have takes : TakesMany 1 node := takesMany_of_roomy (by rw [Nat.one_mul]; exact roomy)
  have fresh : Fresh ⟨.init 0, node⟩ := ⟨⟨0, rfl⟩, installed, by rw [length]; decide⟩
  have registers : Mishap ⟨.init 0, node⟩ ⟨FailedWrites.oneNode, node⟩ :=
    .drift (.register 0 "localhost:8200".toList 0)
  have first : crashingCluster.start ⟨.init 0, node⟩ := ⟨fresh, durable⟩
  have started : crashingCluster.Traced (fun _ c => c.op.Fits) IdsLast []
    { server := ⟨FailedWrites.oneNode, node⟩ } := .drift (.start first) registers
  have small : makeByte.op.Fits := show [(7 : UInt8)].length ≤ BlockSplitter.maxSplit by decide
  obtain ⟨ok, along⟩ := run_makeByte takes
  obtain ⟨st₁, made, -, length₁⟩ := started.alone makeByte small (fun _ => {}) along
  change crashingCluster.Traced _ _ [.returned 0 ((cluster.prog makeByte).run (serving cluster.answer fun _ => {})
    (⟨FailedWrites.oneNode, node⟩, 0)).1, .called 0 makeByte] st₁ at made
  rw [ok] at made
  obtain ⟨node', crashes⟩ := DataNode.exists_crashes st₁.server.node
  have crashed := made.drift (s := { st₁.server with node := node' }) (.crash crashes)
  have fits : takeByte.op.Fits := trivial
  obtain ⟨st₂, taken, -, length₂⟩ := crashed.alone takeByte fits (fun _ => {}) (along_takeByte _)
  rw [length₁] at taken length₂
  have failing : crashingCluster.Failing Rpc.failed (fun c => c.op.Fits) IdsLast _ {} st₂ := taken.failing
  have begun := failing.begin takeByte fits
  have asks : (crashingCluster.begin st₂ takeByte).tasks[st₂.tasks.length]? = some ⟨takeByte, _⟩ :=
    Setting.getElem?_begin.mpr (.inr ⟨rfl, congrArg (Task.mk takeByte) prog_takeByte.symm⟩)
  have lost := begun.lose asks List.not_mem_nil
  rw [show st₂.tasks.length = 2 from length₂, show crashingCluster.prog takeByte = _ from prog_takeByte] at lost
  exact ⟨_, _, _, lost⟩

/-- **What is seen of a cluster where things fail is seen of the file store**, but that calls are
given up: some of these never return there, and some return a result of their own. -/
theorem failing_refines_store
    (run : crashingCluster.Failing Rpc.failed (fun c => c.op.Fits) IdsLast tr out st) :
    ∃ tr' st', fileStore.Traced (fun _ _ => True) FileStore.IdsLast tr' st' ∧ Setting.Masks GivenUp tr tr' := by
  obtain ⟨tr', st', traced, masks, -⟩ := run.masked givesUp_prog
  obtain ⟨st'', traced', -⟩ := weathered.traced traced
  exact ⟨tr', st'', traced', masks⟩

theorem failing_refines_store_survived : ∃ out late st,
    crashingCluster.Failing Rpc.failed (fun c => c.op.Fits) IdsLast (survived out) late st ∧
      ∃ tr' st', fileStore.Traced (fun _ _ => True) FileStore.IdsLast tr' st' ∧
        Setting.Masks GivenUp (survived out) tr' := by
  obtain ⟨out, late, st, run⟩ := exists_survived
  exact ⟨out, late, st, run, failing_refines_store run⟩

/-! ## What clients can count on -/

/-- What is read is what was written. -/
structure Dependable (tr : List (Visible ClientCall Outcome)) : Prop where
  /-- A read returns the whole of what one earlier call was to write there. -/
  whole : ∀ later before k client path outData d, tr = later ++ .returned k (.ok, d) :: before →
    .called k ⟨client, .readFile path outData⟩ ∈ before → d ≠ [] →
      ∃ j writer path' mode, .called j ⟨writer, .writeFile path' mode d⟩ ∈ before ∧
        NameTree.target path' = NameTree.target path
  /-- A read that is not given up returns what was written before it was called and not to be deleted. -/
  lasting : ∀ later mid earlier k out client path outData j writer path' mode d written c,
    tr = later ++ .returned k out :: (mid ++ .called k ⟨client, .readFile path outData⟩ :: earlier) →
      client.initialized = true → path ≠ ['/'] → .called j ⟨writer, .writeFile path' mode d⟩ ∈ earlier →
      .returned j written ∈ earlier → written.1 = .ok → NameTree.target path = .ok c →
      NameTree.target path' = .ok c → (∀ m deleter p, .called m ⟨deleter, .deleteFile p⟩ ∈
        mid ++ .called k ⟨client, .readFile path outData⟩ :: earlier → NameTree.target p ≠ .ok c) →
      out = (.ok, d) ∨ GivenUp out

/-- **Acknowledged data survive** failed requests and crashes of the data node. -/
theorem dependable_of_failing
    (run : crashingCluster.Failing Rpc.failed (fun c => c.op.Fits) IdsLast tr out st)
    (quiet : FileStore.Quiet tr) : Dependable tr := by
  obtain ⟨tr', st', traced', masks, -⟩ := run.masked givesUp_prog
  obtain ⟨st'', traced, -⟩ := weathered.traced traced'
  have quiet' : FileStore.Quiet tr' := fun k c called => quiet k c (masks.called called)
  constructor
  · intro later before k client path outData d cut called filled
    obtain ⟨later', before', cut', masks'⟩ := masks.cut (by rintro _ _ ⟨⟩ bad; cases bad) cut
    have called' := masks'.mem (by rintro _ _ ⟨⟩) called
    obtain ⟨j, writer, path', mode, wrote, same⟩ := FileStore.reads_are_writes traced quiet' cut' called' filled
    exact ⟨j, writer, path', mode, masks'.called wrote, same⟩
  · intro later mid earlier k out client path outData j writer path' mode d written c cut ready other wrote done ok
      at_c at_c' undeleted
    by_cases bad : GivenUp out
    · exact .inr bad
    obtain ⟨later', before', cut', masks'⟩ := masks.cut (by rintro _ _ ⟨⟩; exact bad) cut
    obtain ⟨mid', earlier', cut'', masks''⟩ := masks'.cut (by rintro _ _ ⟨⟩) rfl
    have wrote' := masks''.mem (by rintro _ _ ⟨⟩) wrote
    have done' : .returned j written ∈ earlier' := by
      refine masks''.mem ?_ done
      rintro _ _ ⟨⟩ bad'
      cases ok.symm.trans bad'
    exact .inl (FileStore.writes_are_read traced quiet' cut' cut'' ready other wrote' done' ok at_c at_c'
      fun m deleter p deleted => undeleted m deleter p (masks'.called deleted))

theorem dependable_of_failing_survived : ∃ out late st,
    crashingCluster.Failing Rpc.failed (fun c => c.op.Fits) IdsLast (survived out) late st ∧
      Dependable (survived out) := by
  obtain ⟨out, late, st, run⟩ := exists_survived
  have quiet : FileStore.Quiet (survived out) := by
    intro k c called
    simp only [survived, List.mem_cons, List.not_mem_nil, Visible.called.injEq, reduceCtorEq, or_false, false_or]
      at called
    rcases called with ⟨-, rfl⟩ | ⟨-, rfl⟩ | ⟨-, rfl⟩ <;> exact trivial
  exact ⟨out, late, st, run, dependable_of_failing run quiet⟩

end Cluster

end OpenFS
