import OpenFS.Client.Crashes
import OpenFS.Client.ThreadRuns

/-!
# What clients can count on while handlers take turns

On its own, a handler does in its steps what the service does in one. Among others, a write that
has returned is still read by the reads that are called later.
-/

namespace OpenFS.Threads

open Requests Handlers NamespaceManager OpenFSClient

/-! ## Handlers that run alone -/

section
variable (r : Readings)

/-- The handler inside goes on until it leaves. -/
theorem run_goOn {q : Rpc} {n : Nat} {s : Shared} {stage : Inside} {hand : Status → Except Status Inode}
    {res : Except Status Inode} {ns : NamespaceManager} (inside : s.inside = some stage)
    (concluded : conclude n hand (s.ns, .inside stage) = some (res, ns)) (i : Nat) : ∃ i',
    (goOn q n).run (serving threads.answer fun _ => r) (s, i) =
        (handed q res, ({ s.withNs ns with inside := none }, i')) ∧
      (goOn q n).Along (fun s q => Admits s.1 q) (serving threads.answer fun _ => r) (s, i) := by
  induction n generalizing s stage hand i with
  | zero => cases concluded
  | succ n ih =>
    have answer : threads.answer r s (.advance q) = s.settle q stage.result (advance s.ns stage) := by
      show s.advance q = _
      unfold Shared.advance
      rw [inside]
    have step : serving threads.answer (fun _ => r) (s, i) (.advance q) =
        ((s.settle q stage.result (advance s.ns stage)).1,
          ((s.settle q stage.result (advance s.ns stage)).2, i + 1)) := by
      show ((threads.answer r s (.advance q)).1, ((threads.answer r s (.advance q)).2, i + 1)) = _
      rw [answer]
    rw [conclude_inside] at concluded
    unfold goOn
    simp only [Prog.run_bind, Prog.run_call, Prog.along_bind, Prog.along_call]
    rw [step]
    generalize advance s.ns stage = result at concluded
    obtain ⟨ns', out⟩ := result
    cases out with
    | returned status =>
      rw [conclude_returned] at concluded
      cases concluded
      exact ⟨i + 1, rfl, trivial, trivial⟩
    | inside stage' =>
      obtain ⟨i', run, along⟩ := @ih { s.withNs ns' with inside := some stage' } stage' stage.result rfl concluded
        (i + 1)
      exact ⟨i', run, trivial, along⟩

theorem run_locking {q : Rpc} (locks : handler q = locking q) (sys : System) (lasts : Cluster.IdsLast sys q)
    (i : Nat) : ∃ i',
    (locking q).run (serving threads.answer fun _ => r) (⟨sys, none⟩, i) =
        ((sys.answer r q).1, (⟨(sys.answer r q).2, none⟩, i')) ∧
      (locking q).Along (fun s q => Admits s.1 q) (serving threads.answer fun _ => r) (⟨sys, none⟩, i) := by
  have step : ∀ {out s'}, Shared.enter ⟨sys, none⟩ r q = (out, s') →
      serving threads.answer (fun _ => r) (⟨sys, none⟩, i) (.enter q) = (out, (s', i + 1)) := by
    intro out s' entered
    show ((Shared.enter ⟨sys, none⟩ r q).1, ((Shared.enter ⟨sys, none⟩ r q).2, i + 1)) = _
    rw [entered]
  unfold locking
  simp only [Prog.run_bind, Prog.run_call, Prog.along_bind, Prog.along_call]
  cases reads : namespaceCall q with
  | none =>
    have entered : Shared.enter ⟨sys, none⟩ r q = (some (sys.answer r q).1, ⟨sys, none⟩) := by
      unfold Shared.enter
      rw [reads]
    obtain ⟨-, left⟩ := answer_reading reads locks (show sys.svc.namespaceMgr.bare = _ from rfl) r
    rw [step entered, left]
    exact ⟨i + 1, rfl, ⟨rfl, lasts⟩, trivial⟩
  | some call =>
    obtain ⟨res, ns, concluded, answered⟩ := answer_call reads r sys
    have entered : Shared.enter ⟨sys, none⟩ r q =
        Shared.settle ⟨sys, none⟩ q .error (enter sys.svc.namespaceMgr (r.clock 0) call) := by
      unfold Shared.enter
      rw [reads]
    rw [answered]
    generalize enter sys.svc.namespaceMgr (r.clock 0) call = result at concluded entered
    obtain ⟨ns', out⟩ := result
    rw [step entered]
    cases out with
    | returned status =>
      rw [conclude_returned] at concluded
      cases concluded
      exact ⟨i + 1, rfl, ⟨rfl, lasts⟩, trivial⟩
    | inside stage =>
      obtain ⟨i', run, along⟩ := @run_goOn r q 3 ⟨within sys ns', some stage⟩ stage .error res ns rfl concluded
        (i + 1)
      exact ⟨i', run, ⟨rfl, lasts⟩, along⟩

theorem run_commitBlocks (inodeId : UInt64) (blocks : List BlockMeta) (sys : System) (inside : Option Inside)
    (i : Nat) : ∃ i',
    (commitBlocks inodeId blocks).run (serving threads.answer fun _ => r) (⟨sys, inside⟩, i) =
        ((sys.answer r (.commitBlocks inodeId blocks)).1,
          (⟨(sys.answer r (.commitBlocks inodeId blocks)).2, inside⟩, i')) ∧
      (commitBlocks inodeId blocks).Along (fun s q => Admits s.1 q) (serving threads.answer fun _ => r)
        (⟨sys, inside⟩, i) := by
  obtain ⟨after, same, left, added⟩ : ∃ after : System, after.svc.namespaceMgr = sys.svc.namespaceMgr ∧
      (∀ table, (sys.answer r (.commitBlocks inodeId blocks)).2.svc.inodeTable = table →
        (sys.answer r (.commitBlocks inodeId blocks)).2 =
          within after { sys.svc.namespaceMgr with inodeTable := table }) ∧
      serving threads.answer (fun _ => r) (⟨sys, inside⟩, i) (.addBlocks inodeId blocks) =
        (.ok, (⟨after, inside⟩, i + 1)) := by
    refine ⟨{ sys with svc := { sys.svc with blockMap := (sys.svc.blockMap.addBlocks inodeId blocks).2 } }, rfl,
      fun table is => ?_, rfl⟩
    rw [← is, System.answer_commitBlocks]
    rfl
  have found : serving threads.answer (fun _ => r) (⟨after, inside⟩, i + 1) (.getInode inodeId) =
      (sys.svc.inodeTable.get inodeId, (⟨after, inside⟩, i + 2)) := by
    show (after.svc.namespaceMgr.inodeTable.get inodeId, _) = _
    rw [same]
    rfl
  have table : (sys.answer r (.commitBlocks inodeId blocks)).2.svc.inodeTable =
      sys.svc.sizedTable (r.clock 0) (r.clock 1) inodeId blocks := by rw [System.answer_commitBlocks]
  have reply : (sys.answer r (.commitBlocks inodeId blocks)).1 = .ok := by rw [System.answer_commitBlocks]
  rw [reply, left _ table]
  unfold MetaService.sizedTable commitBlocks
  simp only [Prog.run_bind, Prog.run_call, Prog.along_bind, Prog.along_call]
  rw [added]
  unfold resize
  simp only [Prog.run_bind, Prog.run_call, Prog.along_bind, Prog.along_call]
  rw [found]
  unfold InodeTable.get
  cases live : sys.svc.inodeTable.inodes inodeId with
  | none =>
    refine ⟨i + 2, ?_, trivial, trivial, trivial⟩
    unfold MetaService.inodeTable
    rw [← same]
    rfl
  | some inode =>
    refine ⟨i + 3, ?_, trivial, trivial, trivial, trivial⟩
    rw [← same]
    unfold MetaService.inodeTable
    rw [← same]
    rfl

/-- **A handler that runs alone does what the service does**; one that takes no mutex does so while
another holds it. -/
theorem run_handler (q : Rpc) (sys : System) {inside : Option Inside} (free : handler q = locking q → inside = none)
    (lasts : Cluster.IdsLast sys q) (i : Nat) : ∃ i',
    (handler q).run (serving threads.answer fun _ => r) (⟨sys, inside⟩, i) =
        ((sys.answer r q).1, (⟨(sys.answer r q).2, inside⟩, i')) ∧
      (handler q).Along (fun s q => Admits s.1 q) (serving threads.answer fun _ => r) (⟨sys, inside⟩, i) := by
  rcases handler_cases q with whole | locks | ⟨inodeId, blocks, rfl⟩
  · rw [show handler q = Prog.call (Step.serve q) from whole]
    exact ⟨i + 1, rfl, lasts, trivial⟩
  · obtain rfl := free locks
    rw [locks]
    exact run_locking r locks sys lasts i
  · exact run_commitBlocks r inodeId blocks sys inside i

theorem run_expand (p : ClientProg Outcome) (sys : System) {inside : Option Inside}
    (free : p.Uses fun q => handler q = locking q → inside = none) (i j : Nat)
    (along : p.Along (fun s q => Cluster.IdsLast s.1 q) (serving cluster.answer fun _ => r) (sys, j)) : ∃ i',
    (p.expand handler).run (serving threads.answer fun _ => r) (⟨sys, inside⟩, i) =
        ((p.run (serving cluster.answer fun _ => r) (sys, j)).1,
          (⟨(p.run (serving cluster.answer fun _ => r) (sys, j)).2.1, inside⟩, i')) ∧
      (p.expand handler).Along (fun s q => Admits s.1 q) (serving threads.answer fun _ => r) (⟨sys, inside⟩, i) := by
  induction p generalizing sys i j with
  | ret a => exact ⟨i, rfl, trivial⟩
  | ask q next ih =>
    obtain ⟨lasts, later⟩ := along
    obtain ⟨i₁, run, goes⟩ := run_handler r q sys free.1 lasts i
    obtain ⟨i', run', goes'⟩ := ih (sys.answer r q).1 (sys.answer r q).2 (free.2 _) i₁ (j + 1) later
    refine ⟨i', ?_, ?_⟩
    · show ((handler q >>= fun reply => (next reply).expand handler).run _ _) = _
      rw [Prog.run_bind, run]
      exact run'
    · show (handler q >>= fun reply => (next reply).expand handler).Along _ _ _
      rw [Prog.along_bind, run]
      exact ⟨goes, goes'⟩

/-- So does a call of a client. -/
theorem run_alone (c : ClientCall) (sys : System)
    (along : (cluster.prog c).Along (fun s q => Cluster.IdsLast s.1 q) (serving cluster.answer fun _ => r) (sys, 0)) :
    ((threads.prog c).run (serving threads.answer fun _ => r) (⟨sys, none⟩, 0)).1 =
        ((cluster.prog c).run (serving cluster.answer fun _ => r) (sys, 0)).1 ∧
      ((threads.prog c).run (serving threads.answer fun _ => r) (⟨sys, none⟩, 0)).2.1 =
        ⟨((cluster.prog c).run (serving cluster.answer fun _ => r) (sys, 0)).2.1, none⟩ ∧
      (threads.prog c).Along (fun s q => Admits s.1 q) (serving threads.answer fun _ => r) (⟨sys, none⟩, 0) := by
  obtain ⟨i, run, goes⟩ := run_expand r (cluster.prog c) sys (Prog.uses_all fun _ _ => rfl) 0 0 along
  exact ⟨congrArg Prod.fst run, congrArg (fun out => out.2.1) run, goes⟩

/-- A call that is begun and led on alone. -/
theorem exists_alone {tr : Trace} {st : State} {sys : System}
    (traced : threads.Traced (fun _ c => c.op.Fits) Admits tr st) (free : st.server = ⟨sys, none⟩)
    (c : ClientCall) (fits : c.op.Fits)
    (along : (cluster.prog c).Along (fun s q => Cluster.IdsLast s.1 q) (serving cluster.answer fun _ => r) (sys, 0)) :
    ∃ st', threads.Traced (fun _ c => c.op.Fits) Admits (.returned st.tasks.length
      ((cluster.prog c).run (serving cluster.answer fun _ => r) (sys, 0)).1 :: .called st.tasks.length c :: tr) st' ∧
        st'.server = ⟨((cluster.prog c).run (serving cluster.answer fun _ => r) (sys, 0)).2.1, none⟩ ∧
        st'.tasks.length = st.tasks.length + 1 := by
  obtain ⟨value, left, goes⟩ := run_alone r c sys along
  rw [← free] at value left goes
  obtain ⟨st', traced', server, length⟩ := traced.alone c fits (fun _ => r) goes
  rw [value] at traced'
  exact ⟨st', traced', server.trans left, length⟩

end

/-! ## Data that was written -/

section
variable {st : State} {tr later mid earlier : Trace} {k j : Nat} {out written : Outcome}
  {client writer : OpenFSClient} {path path' : Str} {outData d : List UInt8} {mode : UInt32} {c : List Str}

/-- **A write that has returned is read** while handlers take turns: where no call moves a file, a
read that is called later returns what was written, unless a delete is called before it returns. -/
theorem threads_read_writes (traced : threads.Traced (fun _ c => c.op.Fits) Admits tr st) (quiet : FileStore.Quiet tr)
    (cut : tr = later ++ .returned k out :: (mid ++ .called k ⟨client, .readFile path outData⟩ :: earlier))
    (ready : client.initialized = true) (other : path ≠ ['/'])
    (wrote : .called j ⟨writer, .writeFile path' mode d⟩ ∈ earlier) (done : .returned j written ∈ earlier)
    (ok : written.1 = .ok) (at_c : NameTree.target path = .ok c) (at_c' : NameTree.target path' = .ok c)
    (undeleted : ∀ m deleter p, .called m ⟨deleter, .deleteFile p⟩ ∈
      mid ++ .called k ⟨client, .readFile path outData⟩ :: earlier → NameTree.target p ≠ .ok c) : out = (.ok, d) := by
  obtain ⟨due, tr', st', delays, traced'⟩ := threads_refine_store traced
  have quiet' : FileStore.Quiet tr' := fun m c called => quiet m c (delays.called_iff.mp called)
  obtain ⟨later', mid', earlier', due', cut', delays', fewer⟩ := delays.cut_returned traced' cut
  exact FileStore.writes_are_read traced' quiet' cut' rfl ready other (delays'.called_iff.mpr wrote)
    (delays'.returned (.inl done)) ok at_c at_c' fun m deleter p called => undeleted m deleter p (fewer m _ called)

end

/-! ## A run where handlers take turns -/

/-- A directory is made. -/
def makeDirectory : ClientCall := ⟨{ initialized := true }, .mkDir ['/', 'd'] 0o755⟩

/-- The record of the file of one byte. -/
abbrev byteFile : Inode := newRegular 0 0o644 0 0 1 2 1 ['a']

/-- The writer has its file, and is to write its byte. -/
def writesByte : ClientProg Outcome :=
  writeData { initialized := true } byteFile [7] >>= fun r => pure (r.1, [])

/-- The handler of `MkDir` is to create the record, and to push its entry. -/
def makesDirectory : StepProg Outcome :=
  goOn (.mkDir ['/', 'd'] 0o755 0 0) 2 >>= fun reply => pure (statusOf reply, [])

/-- Between the draft of its record and the record's creation the handler of `MkDir` holds the
mutex, and the writer has its file. -/
theorem exists_making {node : DataNode} (started : threads.Traced (fun _ c => c.op.Fits) Admits []
      { server := ⟨⟨FailedWrites.oneNode, node⟩, none⟩ }) : ∃ (st : State) (svc : MetaService) (draft : Inode),
    threads.Traced (fun _ c => c.op.Fits) Admits [.called 1 makeDirectory, .called 0 Cluster.makeByte] st ∧
      st.server = ⟨⟨svc, node⟩, some (.create draft)⟩ ∧
      st.tasks = [⟨Cluster.makeByte, writesByte.expand handler⟩,
        ⟨makeDirectory, makesDirectory⟩] ∧
      svc.nodeMgr.getAnyOnlineNode ≠ 0 ∧ svc.blockAllocator.nextBlockId.toNat = 1 := by
  have ids : FailedWrites.oneNode.inodeTable.nextInodeId.toNat + 1 < 2 ^ 64 := by decide
  have small : Cluster.makeByte.op.Fits := show [(7 : UInt8)].length ≤ BlockSplitter.maxSplit by decide
  have entered := (started.begin Cluster.makeByte small).serve (k := 0) rfl {} ⟨rfl, ids⟩
  have drafted := entered.serve (k := 0) rfl {} trivial
  have created := drafted.serve (k := 0) rfl {} trivial
  have pushed := created.serve (k := 0) rfl {} trivial
  have making := (pushed.begin makeDirectory trivial).serve (k := 1) rfl {}
    ⟨rfl, show (3 : UInt64).toNat + 1 < 2 ^ 64 by decide⟩
  have drafted' := making.serve (k := 1) rfl {} trivial
  refine ⟨_, _, _, drafted', rfl, rfl, ?_, ?_⟩
  · show FailedWrites.oneNode.nodeMgr.getAnyOnlineNode ≠ 0
    decide
  · show FailedWrites.oneNode.blockAllocator.nextBlockId.toNat = 1
    decide

/-- The writer writes its byte while the handler of `MkDir` holds the mutex. -/
theorem run_writesByte {svc : MetaService} {node : DataNode} (takes : Cluster.TakesMany 1 node)
    (online : svc.nodeMgr.getAnyOnlineNode ≠ 0) (first : svc.blockAllocator.nextBlockId.toNat = 1)
    (inside : Option Inside) : ∃ sys i',
    (writesByte.expand handler).run (serving threads.answer fun _ => {}) (⟨⟨svc, node⟩, inside⟩, 0) =
        ((.ok, []), (⟨sys, inside⟩, i')) ∧
      (writesByte.expand handler).Along (fun s q => Admits s.1 q) (serving threads.answer fun _ => {})
        (⟨⟨svc, node⟩, inside⟩, 0) := by
  have some : BlockSplitter.split [(7 : UInt8)].length [7] ≠ [] := by decide
  have one : (BlockSplitter.split [(7 : UInt8)].length [7]).length = 1 := by decide
  obtain ⟨ok, along⟩ := @Cluster.run_writeData_taken (fun _ => {}) [7] ⟨svc, node⟩ 0 { initialized := true } byteFile
    some online takes (by rw [one]; show svc.blockAllocator.nextBlockId.toNat + 1 < 2 ^ 64; omega)
  have along' : writesByte.Along (fun s q => Cluster.IdsLast s.1 q) (serving cluster.answer fun _ => {})
      (⟨svc, node⟩, 0) := (Prog.along_bind _ _ _).mpr ⟨along, trivial⟩
  have free : writesByte.Uses fun q => handler q = locking q → inside = none := by
    refine Prog.uses_bind ((FailedWrites.uses_writeData _ _ _).mono fun q later locks => ?_) fun _ =>
      Prog.uses_pure _ _
    cases q with
    | allocateBlocks => cases locks
    | commitBlocks => cases locks
    | writeBlock => cases locks
    | _ => exact later.elim
  obtain ⟨i', run, goes⟩ := run_expand {} writesByte ⟨svc, node⟩ free 0 0 along'
  refine ⟨_, i', run.trans (Prod.ext ?_ rfl), goes⟩
  show (Prog.run _ (writeData { initialized := true } byteFile [7] >>= fun r => pure (r.1, [])) _).1 = _
  rw [Prog.run_bind]
  exact Prod.ext ok rfl

/-- A record that is drafted is created, and its entry is pushed, or the handler returns. -/
theorem conclude_create (ns : NamespaceManager) (hand : Status → Except Status Inode) (draft : Inode) :
    ∃ res ns', conclude 2 hand (ns, .inside (.create draft)) = some (res, ns') := by
  rw [conclude_inside]
  simp only [advance]
  generalize ns.inodeTable.create draft = created
  obtain ⟨s, table⟩ := created
  cases s <;> exact ⟨_, _, rfl⟩

/-- A byte is written while the handler of `MkDir` holds the mutex. -/
abbrev turns (made : Outcome) : Trace :=
  [.returned 1 made, .returned 0 (.ok, []), .called 1 makeDirectory, .called 0 Cluster.makeByte]

theorem exists_turns : ∃ made st sys, threads.Traced (fun _ c => c.op.Fits) Admits (turns made) st ∧
    st.server = ⟨sys, none⟩ ∧ st.tasks.length = 2 := by
  obtain ⟨node, installed, length, roomy⟩ := DataNode.exists_roomy
  have takes : Cluster.TakesMany 1 node := (Cluster.takesMany_of_roomy roomy).of_le _ (by decide)
  have fresh : Cluster.Fresh ⟨.init 0, node⟩ := ⟨⟨0, rfl⟩, installed, by rw [length]; decide⟩
  have first : threads.start ⟨⟨.init 0, node⟩, none⟩ := ⟨fresh, rfl⟩
  have started : threads.Traced (fun _ c => c.op.Fits) Admits [] { server := ⟨⟨FailedWrites.oneNode, node⟩, none⟩ } :=
    .drift (.start first) ⟨.register 0 "localhost:8200".toList 0, rfl⟩
  obtain ⟨st, svc, draft, making, server, tasks, online, next_one⟩ := exists_making started
  obtain ⟨sys, i, run, goes⟩ := run_writesByte takes online next_one (some (.create draft))
  rw [← server] at run goes
  have waits : (writesByte.expand handler).Waits := trivial
  obtain ⟨st₁, written, server₁, tasks₁⟩ := making.finish (k := 0) (by rw [tasks]; rfl) waits _ 0 goes
  rw [run] at written server₁ tasks₁
  rw [tasks] at tasks₁
  obtain ⟨res, ns, concluded⟩ := conclude_create sys.svc.namespaceMgr .error draft
  obtain ⟨j, run', goes'⟩ := run_goOn {} (q := .mkDir ['/', 'd'] 0o755 0 0) (s := ⟨sys, some (.create draft)⟩) rfl
    concluded 0
  have along : makesDirectory.Along (fun s q => Admits s.1 q) (serving threads.answer fun _ => {}) (st₁.server, 0) := by
    rw [server₁]
    exact (Prog.along_bind _ _ _).mpr ⟨goes', trivial⟩
  obtain ⟨st₂, made, server₂, tasks₂⟩ := written.finish (k := 1) (p := makesDirectory) (by rw [tasks₁]; rfl) trivial _
    0 along
  refine ⟨_, st₂, within sys ns, made, ?_, ?_⟩
  · rw [server₂, server₁]
    unfold makesDirectory
    rw [Prog.run_bind, run']
    rfl
  · rw [tasks₂, tasks₁]
    rfl

theorem threads_read_writes_byte : ∃ out made st, threads.Traced (fun _ c => c.op.Fits) Admits
    (.returned 2 out :: .called 2 Cluster.takeByte :: turns made) st ∧ out = (.ok, [7]) := by
  obtain ⟨made, st₁, sys, traced, free, length⟩ := exists_turns
  obtain ⟨st₂, taken, -, -⟩ := exists_alone {} traced free Cluster.takeByte trivial (Cluster.along_takeByte (_, 0))
  rw [length] at taken
  generalize ((cluster.prog Cluster.takeByte).run _ _).1 = out at taken
  refine ⟨out, made, st₂, taken, ?_⟩
  have quiet : FileStore.Quiet (.returned 2 out :: .called 2 Cluster.takeByte :: turns made) := by
    intro k c called
    simp only [List.mem_cons, List.not_mem_nil, Visible.called.injEq, reduceCtorEq, or_false, false_or] at called
    rcases called with ⟨-, rfl⟩ | ⟨-, rfl⟩ | ⟨-, rfl⟩ <;> exact trivial
  have cut : (.returned 2 out :: .called 2 Cluster.takeByte :: turns made : Trace) =
      [] ++ .returned 2 out :: ([] ++ .called 2 Cluster.takeByte :: turns made) := rfl
  have wrote : .called 0 Cluster.makeByte ∈ turns made := by simp
  have done : .returned 0 (.ok, []) ∈ turns made := by simp
  have at_a : NameTree.target ['/', 'a'] = .ok [['a']] := by decide
  refine threads_read_writes taken quiet cut rfl (by decide) wrote done rfl at_a at_a
    fun m deleter p deleted => ?_
  simp [Cluster.makeByte, makeDirectory] at deleted

end OpenFS.Threads
