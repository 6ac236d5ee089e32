import OpenFS.Client.ThreadReplies

/-!
# What a step does to the namespace

The servers with threads are compared with servers that answer a call in one step. As long as a
handler is inside, the others have not answered its call, and `Pending` says that what it will
conclude is what they will answer.
-/

namespace OpenFS.Threads

open Requests Handlers NamespaceManager

/-- The system with another namespace. -/
def within (sys : System) (ns : NamespaceManager) : System := { sys with svc := { sys.svc with namespaceMgr := ns } }

/-! ## Answers that only depend on what is never stale -/

section
variable {ns ns' : NamespaceManager}

theorem get_congr (same : ns.bare = ns'.bare) (i : UInt64) :
    (ns.inodeTable.get i).map Inode.bare = (ns'.inodeTable.get i).map Inode.bare := by
  have records : (ns.inodeTable.inodes i).map Inode.bare = (ns'.inodeTable.inodes i).map Inode.bare :=
    congrArg (fun ns => ns.inodeTable.inodes i) same
  unfold InodeTable.get
  cases live : ns.inodeTable.inodes i with
  | none =>
    rw [live] at records
    rw [Option.map_eq_none_iff.mp records.symm]
  | some inode =>
    rw [live] at records
    obtain ⟨inode', live', bare⟩ := Option.map_eq_some_iff.mp records.symm
    rw [live']
    exact congrArg Except.ok bare.symm

theorem lookup_congr (same : ns.bare = ns'.bare) (path : Str) :
    (ns.lookup path).map Inode.bare = (ns'.lookup path).map Inode.bare := by
  have entries : ns.dirEntries = ns'.dirEntries := congrArg (fun ns => ns.dirEntries) same
  unfold lookup
  rw [resolvePath_of_entries entries, entries]
  split
  · exact get_congr same 1
  · split
    · rfl
    · split
      · rfl
      · split
        · rfl
        · exact get_congr same _

theorem readDir_congr (same : ns.bare = ns'.bare) (path : Str) : ns.readDir path = ns'.readDir path := by
  have entries : ns.dirEntries = ns'.dirEntries := congrArg (fun ns => ns.dirEntries) same
  unfold readDir
  rw [resolvePath_of_entries entries, entries]
  rcases bare_cases (get_congr same 1) with ⟨s, left, right⟩ | ⟨inode, inode', left, right, bare⟩
  · rw [left, right]
  · rw [left, right]
    have id : inode.bare.inodeId = inode'.bare.inodeId := congrArg Inode.inodeId bare
    rw [Inode.bare_inodeId, Inode.bare_inodeId] at id
    simp only [id]

end

/-! ## Answers of the servers -/

/-- A call of the namespace is answered with what its handler concludes alone. -/
theorem answer_call {q : Rpc} {call : Call} (is : namespaceCall q = some call) (r : Readings) (sys : System) :
    ∃ res ns', conclude 3 .error (enter sys.svc.namespaceMgr (r.clock 0) call) = some (res, ns') ∧
      sys.answer r q = (handed q res, within sys ns') := by
  cases q with
  | createFile path mode uid gid fileSize =>
    cases is
    exact ⟨_, _, conclude_createFile _ _ path mode uid gid fileSize, rfl⟩
  | mkDir path mode uid gid =>
    cases is
    exact ⟨_, _, conclude_mkDir _ _ path mode uid gid, rfl⟩
  | deleteFile path =>
    cases is
    obtain ⟨res, concluded, status⟩ := conclude_exec sys.svc.namespaceMgr (r.clock 0) (.deleteFile path)
    exact ⟨res, _, concluded, Prod.ext status.symm rfl⟩
  | rename src dst =>
    cases is
    obtain ⟨res, concluded, status⟩ := conclude_exec sys.svc.namespaceMgr (r.clock 0) (.rename src dst)
    exact ⟨res, _, concluded, Prod.ext status.symm rfl⟩
  | rmDir path =>
    cases is
    obtain ⟨res, concluded, status⟩ := conclude_exec sys.svc.namespaceMgr (r.clock 0) (.rmDir path)
    exact ⟨res, _, concluded, Prod.ext status.symm rfl⟩
  | _ => cases is

/-- Where the namespace is read only, the reply is that of any system that looks the same. -/
theorem answer_reading {q : Rpc} (reads : namespaceCall q = none) (locks : handler q = locking q) {sys sys' : System}
    (same : sys.svc.namespaceMgr.bare = sys'.svc.namespaceMgr.bare) (r : Readings) :
    Same q (sys.answer r q).1 (sys'.answer r q).1 ∧ (sys'.answer r q).2 = sys' := by
  cases q with
  | getFileInfo path => exact ⟨lookup_congr same path, rfl⟩
  | readDir path => exact ⟨readDir_congr same path, rfl⟩
  | allocateBlocks => cases locks
  | commitBlocks => cases locks
  | getBlockLocations => cases locks
  | writeBlock => cases locks
  | readBlock => cases locks
  | _ => cases reads

/-- The calls whose handlers are one step. -/
def Whole (q : Rpc) : Prop := handler q = Prog.call (Step.serve q)

theorem answer_whole {q : Rpc} (whole : Whole q) (r : Readings) (sys : System) (ns : NamespaceManager) :
    (within sys ns).answer r q = ((sys.answer r q).1, within (sys.answer r q).2 ns) ∧
      (sys.answer r q).2.svc.namespaceMgr = sys.svc.namespaceMgr := by
  cases q with
  | allocateBlocks => exact ⟨rfl, rfl⟩
  | getBlockLocations => exact ⟨rfl, rfl⟩
  | writeBlock => exact ⟨rfl, rfl⟩
  | readBlock => exact ⟨rfl, rfl⟩
  | _ => cases whole

/-- A call that changes the namespace takes the mutex. -/
theorem locks_of_call {q : Rpc} {call : Call} (is : namespaceCall q = some call) : handler q = locking q := by
  cases q with
  | allocateBlocks => cases is
  | commitBlocks => cases is
  | getBlockLocations => cases is
  | writeBlock => cases is
  | readBlock => cases is
  | _ => rfl

/-- The handlers that take the mutex use inode ids only. -/
theorem idsLast_of_next {q : Rpc} (locks : handler q = locking q) {sys sys' : System}
    (next : sys.svc.inodeTable.nextInodeId = sys'.svc.inodeTable.nextInodeId) (lasts : Cluster.IdsLast sys q) :
    Cluster.IdsLast sys' q := by
  cases q with
  | createFile => exact (congrArg (fun i : UInt64 => i.toNat + 1 < 2 ^ 64) next).mp lasts
  | mkDir => exact (congrArg (fun i : UInt64 => i.toNat + 1 < 2 ^ 64) next).mp lasts
  | allocateBlocks => cases locks
  | _ => trivial

/-! ## Records of files that are committed -/

/-- What is known of the servers after a run. -/
structure Facts (h : Log) (sys : System) : Prop where
  sound : Cluster.Sound h sys
  kinds : Cluster.Kinds h sys.svc.inodeTable
  begun : Cluster.Begun h

theorem facts {tr : List (Visible ClientCall Outcome)} {st : Cluster.State}
    (traced : cluster.Traced (fun _ c => c.op.Fits) Cluster.IdsLast tr st) : Facts st.history st.server := by
  obtain ⟨_, _, related⟩ := Cluster.simulated.traced traced
  exact ⟨Cluster.simulated.inv st traced.run, related.rel.kinds, related.rel.begun⟩

section
variable {h h' : Log} {sys : System} {k : Nat} {i : UInt64} {blocks : List BlockMeta} {inode : Inode}

/-- A size that a file with a commit has had is that of its blocks. -/
theorem Facts.size (facts : Facts h sys) (committed : Cluster.Committed h k i blocks) {size : UInt64}
    (sized : Cluster.Sized h i size) : size = MetaService.totalSize blocks := by
  obtain ⟨data, wrote, -, -, spell⟩ := facts.sound.earned k i blocks committed
  have small : data.length ≤ BlockSplitter.maxSplit := by
    obtain ⟨_, _, _, began, -⟩ := wrote
    exact facts.begun.fits _ _ began
  have total : Cluster.Sized h i (MetaService.totalSize blocks) := by
    obtain ⟨_, _, _, -, made⟩ := wrote
    exact ⟨_, _, _, made, .inr ⟨k, blocks, committed, rfl⟩⟩
  exact (facts.sound.size wrote committed spell sized small).trans
    (facts.sound.size wrote committed spell total small).symm

theorem Facts.regular (facts : Facts h sys) (committed : Cluster.Committed h k i blocks)
    (live : sys.svc.inodeTable.inodes i = some inode) : inode.fileType = .regular := by
  obtain ⟨data, ⟨_, _, _, -, made⟩, -⟩ := facts.sound.earned k i blocks committed
  exact facts.kinds.files _ _ _ i inode made live

/-- The record of a file with a commit is never stale in what counts. -/
theorem Facts.current (facts : Facts h sys) (committed : Cluster.Committed h k i blocks)
    (live : sys.svc.inodeTable.inodes i = some inode) :
    inode.bare = { inodeId := i, fileType := .regular, size := MetaService.totalSize blocks } := by
  have regular := facts.regular committed live
  unfold Inode.bare
  rw [facts.sound.names.consistent.keyed live, regular,
    facts.size committed (facts.sound.names.sized i inode live regular)]

theorem Facts.not_next (facts : Facts h sys) (committed : Cluster.Committed h k i blocks) :
    i ≠ sys.svc.inodeTable.nextInodeId := by
  obtain ⟨data, ⟨_, _, _, -, made⟩, -⟩ := facts.sound.earned k i blocks committed
  rintro rfl
  exact Nat.lt_irrefl _ (facts.sound.names.below _ made.mem)

/-- A commit leaves what is never stale. -/
theorem bare_commit (before : Facts h sys) (r : Readings) (sub : h ⊆ h')
    (after : Facts h' (sys.answer r (.commitBlocks i blocks)).2) (committed : Cluster.Committed h' k i blocks) :
    (sys.answer r (.commitBlocks i blocks)).2.svc.namespaceMgr.bare = sys.svc.namespaceMgr.bare := by
  rw [System.answer_commitBlocks] at after ⊢
  unfold NamespaceManager.bare
  dsimp only
  congr 1
  cases live : sys.svc.inodeTable.inodes i with
  | none =>
    have same : sys.svc.sizedTable (r.clock 0) (r.clock 1) i blocks = sys.svc.inodeTable := by
      unfold MetaService.sizedTable
      rw [live]
    rw [same]
  | some inode =>
    have table : sys.svc.sizedTable (r.clock 0) (r.clock 1) i blocks =
        (sys.svc.inodeTable.update (MetaService.committed inode (r.clock 0) (r.clock 1) blocks)).2 := by
      unfold MetaService.sizedTable
      rw [live]
    rw [table] at after ⊢
    have keyed : inode.inodeId = i := before.sound.names.consistent.keyed live
    have at_i : (MetaService.committed inode (r.clock 0) (r.clock 1) blocks).inodeId = i := keyed
    refine InodeTable.bare_update_of_current _ fun record there => ?_
    rw [at_i, live] at there
    obtain rfl := Option.some.inj there
    have regular : (MetaService.committed inode (r.clock 0) (r.clock 1) blocks).fileType = .regular := by
      refine after.regular committed ?_
      show (sys.svc.inodeTable.update (MetaService.committed inode (r.clock 0) (r.clock 1) blocks)).2.inodes i = _
      rw [InodeTable.update_inodes, at_i, live, Option.isSome_some, if_pos rfl, Function.update_self]
    have sized := (before.sound.names.sized i inode live regular).mono sub
    have size := after.size committed sized
    unfold Inode.bare
    rw [size]
    rfl

end

/-! ## The handler inside -/

/-- The id that the handler inside was given, or will be given, is `next`. -/
def Given (table : InodeTable) (next : UInt64) : Inside → Prop
  | .allocate _ => table.nextInodeId = next
  | .create inode => inode.inodeId = next
  | .push inode => inode.inodeId = next
  | _ => True

section
variable {ns : NamespaceManager} {next : UInt64} {stage stage' : Inside}

theorem given_enter {now : UInt64} {call : Call} (inside : (enter ns now call).2 = .inside stage) :
    Given ns.inodeTable ns.inodeTable.nextInodeId stage := by
  cases call <;> simp only [enter] at inside <;> (repeat' split at inside) <;> cases inside
  all_goals first | rfl | trivial

/-- A handler that goes on has changed no record but its own. -/
theorem given_advance (given : Given ns.inodeTable next stage) (inside : (advance ns stage).2 = .inside stage') :
    Given (advance ns stage).1.inodeTable next stage' ∧
      ∀ i, i ≠ next → (advance ns stage).1.inodeTable.inodes i = ns.inodeTable.inodes i := by
  cases stage with
  | allocate draft =>
    cases inside
    exact ⟨given, fun _ _ => rfl⟩
  | create inode =>
    obtain rfl : inode.inodeId = next := given
    simp only [advance] at inside ⊢
    unfold InodeTable.create at inside ⊢
    cases live : ns.inodeTable.inodes inode.inodeId with
    | some record =>
      rw [live] at inside
      cases inside
    | none =>
      rw [live] at inside
      cases inside
      exact ⟨rfl, fun i other => Function.update_of_ne other ..⟩
  | get now inodeId dstName dstParent =>
    simp only [advance] at inside ⊢
    cases found : ns.inodeTable.get inodeId with
    | error s =>
      rw [found] at inside
      cases inside
    | ok inode =>
      rw [found] at inside
      cases inside
      exact ⟨trivial, fun _ _ => rfl⟩
  | _ => cases inside

end

/-- The servers with threads beside others that answer in one step. -/
structure Agree (s : Shared) (sys : System) : Prop where
  rest : s.sys = within sys s.ns
  others : ∀ i, i ≠ sys.svc.inodeTable.nextInodeId →
    (s.ns.inodeTable.inodes i).map Inode.bare = (sys.svc.inodeTable.inodes i).map Inode.bare
  still : s.inside = none → s.ns.bare = sys.svc.namespaceMgr.bare

/-- The handler of `q` inside will conclude what the other servers would answer now. -/
structure Pending (n : Nat) (q : Rpc) (s : Shared) (stage : Inside) (sys : System) : Prop where
  inside : s.inside = some stage
  given : Given s.ns.inodeTable sys.svc.inodeTable.nextInodeId stage
  room : Cluster.IdsLast sys q
  ends : ∃ now call, namespaceCall q = some call ∧
    (conclude n .error (s.ns, .inside stage)).map bareResult =
      (conclude 3 .error (enter sys.svc.namespaceMgr now call)).map bareResult

section
variable {s s' : Shared} {sys sys' : System} {ns ns' : NamespaceManager} {stage : Inside} {n : Nat} {q : Rpc}

theorem records_of_bare (same : ns.bare = ns'.bare) (i : UInt64) :
    (ns.inodeTable.inodes i).map Inode.bare = (ns'.inodeTable.inodes i).map Inode.bare :=
  congrArg (fun ns => ns.inodeTable.inodes i) same

theorem next_of_bare (same : ns.bare = ns'.bare) : ns.inodeTable.nextInodeId = ns'.inodeTable.nextInodeId :=
  congrArg (fun ns => ns.inodeTable.nextInodeId) same

/-- Steps that leave what is never stale keep the servers together. -/
theorem Agree.keep (agree : Agree s sys) (rest : s'.sys = within sys' s'.ns) (inside : s'.inside = s.inside)
    (mine : s'.ns.bare = s.ns.bare) (theirs : sys'.svc.namespaceMgr.bare = sys.svc.namespaceMgr.bare) :
    Agree s' sys' := by
  refine ⟨rest, fun i other => ?_, fun free => ?_⟩
  · rw [records_of_bare mine i]
    unfold MetaService.inodeTable at other ⊢
    rw [next_of_bare theirs] at other
    rw [records_of_bare theirs i]
    exact agree.others i other
  · rw [mine, theirs]
    exact agree.still (inside.symm.trans free)

theorem Pending.keep (pending : Pending n q s stage sys) (inside : s'.inside = s.inside)
    (mine : s'.ns.bare = s.ns.bare) (theirs : sys'.svc.namespaceMgr.bare = sys.svc.namespaceMgr.bare) :
    Pending n q s' stage sys' := by
  obtain ⟨now, call, is, ends⟩ := pending.ends
  have next : sys'.svc.inodeTable.nextInodeId = sys.svc.inodeTable.nextInodeId := next_of_bare theirs
  refine ⟨inside.trans pending.inside, ?_, ?_, now, call, is, ?_⟩
  · have given := pending.given
    rw [next]
    cases stage with
    | allocate draft => exact (next_of_bare mine).trans given
    | _ => exact given
  · exact idsLast_of_next (locks_of_call is) next.symm pending.room
  · rw [conclude_congr n .error mine rfl, ends]
    obtain ⟨left, out⟩ := enter_congr theirs now call
    exact (conclude_congr 3 .error left (congrArg Outcome.bare out)).symm

/-- A handler that has returned has concluded what the others answer. -/
theorem answered_of_concluded {call : Call} (is : namespaceCall q = some call) {hand : Status → Except Status Inode}
    {status : Status} {r : Readings} (ends : (conclude n hand (ns, .returned status)).map bareResult =
      (conclude 3 .error (enter sys.svc.namespaceMgr (r.clock 0) call)).map bareResult) :
    Same q (handed q (hand status)) (sys.answer r q).1 ∧
      ∃ ns', (sys.answer r q).2 = within sys ns' ∧ ns.bare = ns'.bare := by
  obtain ⟨res, ns', concluded, answered⟩ := answer_call is r sys
  rw [concluded, conclude_returned] at ends
  have same : bareResult (hand status, ns) = bareResult (res, ns') := Option.some.inj ends
  rw [answered]
  exact ⟨same_handed q (congrArg Prod.fst same), ns', rfl, congrArg Prod.snd same⟩

/-- The handler inside is not out of steps. -/
theorem steps_left {call : Call} (is : namespaceCall q = some call) {hand : Status → Except Status Inode}
    {now : UInt64} (ends : (conclude n hand (ns, .inside stage)).map bareResult =
      (conclude 3 .error (enter sys.svc.namespaceMgr now call)).map bareResult) : ∃ m, n = m + 1 := by
  obtain ⟨res, ns', concluded, -⟩ := answer_call is { clock := fun _ => now } sys
  rw [concluded] at ends
  cases n with
  | zero => cases ends
  | succ m => exact ⟨m, rfl⟩

/-- The handler has left, and the others have answered. -/
theorem Agree.left (agree : Agree s sys) (same : ns.bare = ns'.bare) :
    Agree { s.withNs ns with inside := none } (within sys ns') := by
  refine ⟨?_, fun i _ => records_of_bare same i, fun _ => same⟩
  show within s.sys ns = _
  rw [agree.rest]
  rfl

/-- The handler goes on. -/
theorem Agree.on (agree : Agree s sys)
    (kept : ∀ i, i ≠ sys.svc.inodeTable.nextInodeId → ns.inodeTable.inodes i = s.ns.inodeTable.inodes i) :
    Agree { s.withNs ns with inside := some stage } sys := by
  refine ⟨?_, fun i other => ?_, fun free => by cases free⟩
  · show within s.sys ns = _
    rw [agree.rest]
    rfl
  · show (ns.inodeTable.inodes i).map Inode.bare = _
    rw [kept i other]
    exact agree.others i other

end

end OpenFS.Threads
