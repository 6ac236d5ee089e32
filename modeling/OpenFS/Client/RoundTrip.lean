import OpenFS.Client.Promises
import OpenFS.Client.SingleWrite
import OpenFS.Meta.Bindings

/-!
# Round trips

A file that was written is bound to its path, and bound it stays until a call deletes or
renames it or a directory above it. So a read of the path comes to the file, and to the
data of the write, which it returns if they fit the blocks.
-/

namespace OpenFS

open Requests OpenFSClient ReadCheck

/-- The operation deletes or renames what it names. -/
def FileOp.TakesAway (c : List Str) : FileOp → Prop
  | .deleteFile path => NamespaceManager.Covers path c
  | .rename src _ => NamespaceManager.Covers src c
  | _ => False

def Rpc.TakesAway (c : List Str) : Rpc → Prop
  | .deleteFile path => NamespaceManager.Covers path c
  | .rename src _ => NamespaceManager.Covers src c
  | _ => False

namespace Cluster

/-- Only operations that take away make such requests. -/
theorem uses_prog (c : List Str) (call : ClientCall) :
    (cluster.prog call).Uses fun q => q.TakesAway c → call.op.TakesAway c := by
  obtain ⟨client, op⟩ := call
  cases op with
  | writeFile path mode data =>
    refine Prog.uses_bind ?_ fun _ => Prog.uses_pure _ _
    unfold writeFile
    refine uses_ready (Prog.uses_bind (Prog.uses_call id) fun reply => ?_)
    rcases reply with s | inode
    · exact Prog.uses_pure _ _
    · dsimp only
      split
      · exact Prog.uses_pure _ _
      · refine (FailedWrites.uses_writeData client inode data).mono fun q later => ?_
        cases q with
        | deleteFile => exact later.elim
        | rename => exact later.elim
        | _ => exact id
  | readFile path outData =>
    refine Prog.uses_bind ?_ fun _ => Prog.uses_pure _ _
    by_cases ready : client.initialized = true
    · rw [readFile_eq ready]
      refine Prog.uses_bind (Prog.uses_call id) fun reply => ?_
      rcases reply with s | inode
      · exact Prog.uses_pure _ _
      · unfold readFound
        dsimp only
        split
        · exact Prog.uses_pure _ _
        · refine (uses_readLocated client inode.inodeId inode.size outData).mono fun q reading => ?_
          cases q with
          | deleteFile => exact reading.elim
          | rename => exact reading.elim
          | _ => exact id
    · unfold readFile
      rw [if_pos (by simpa using ready)]
      exact Prog.uses_pure _ _
  | _ => exact Prog.uses_bind (uses_ready (Prog.uses_call id)) fun _ => Prog.uses_pure _ _

/-- A file keeps its path until a request takes it away. -/
theorem answer_binding (r : Readings) {sys : System} (h : sys.svc.namespaceMgr.Consistent) {path : Str}
    {i : UInt64}
    (bound : sys.svc.namespaceMgr.binding (components path) = some (i, .regular)) {q : Rpc}
    (spared : ¬ q.TakesAway (components path)) :
    (sys.answer r q).2.svc.namespaceMgr.binding (components path) = some (i, .regular) := by
  have exec : ∀ now call, ¬ NamespaceManager.Call.TakesAway (components path) call →
      (sys.svc.namespaceMgr.exec now call).2.binding (components path) = some (i, .regular) :=
    fun now call spared => (NamespaceManager.exec_effect _ now call).binding h bound spared
  cases q with
  | createFile path' mode uid gid size => exact exec (r.clock 0) (.createFile path' mode uid gid size) id
  | mkDir path' mode uid gid => exact exec (r.clock 0) (.mkDir path' mode uid gid) id
  | deleteFile path' => exact exec 0 (.deleteFile path') spared
  | rename src dst => exact exec (r.clock 0) (.rename src dst) spared
  | rmDir path' => exact exec 0 (.rmDir path') id
  | commitBlocks inodeId blocks =>
    rw [System.answer_commitBlocks]
    refine (congrFun (NamespaceManager.binding_congr ?_) (components path)).trans bound
    rfl
  | _ => exact bound

variable {st : State} {begins : State → ClientCall → Prop}

/-- **A file keeps its path** in every run in which calls take turns, until one takes it away. -/
theorem binding_of_made (alone : ∀ st c, begins st c → Setting.Idle st) (run : cluster.Run begins IdsLast st)
    {m : Nat} {path : Str} {size i : UInt64} (made : Made st.history m path size i) (named : components path ≠ [])
    (spared : ∀ n task, m ≤ n → st.tasks[n]? = some task → ¬ task.op.op.TakesAway (components path)) :
    NamespaceManager.WellFormed path ∧
      st.server.svc.namespaceMgr.binding (components path) = some (i, .regular) := by
  induction run with
  | start =>
    obtain ⟨_, _, _, _, member, -⟩ := made
    cases member
  | @begin st c before allowed ih =>
    obtain ⟨mode, uid, gid, inode, member, same⟩ := made
    rcases List.mem_cons.mp member with new | old
    · cases new
    · exact ih ⟨mode, uid, gid, inode, old, same⟩ fun n task late there =>
        spared n task late (Setting.getElem?_begin.mpr (.inl there))
  | @serve st before k op q next asks r admitted ih =>
    have consistent := (kept before).inv.names.consistent
    obtain ⟨mode, uid, gid, inode, member, same⟩ := made
    change _ ∈ .answered k q (cluster.answer r st.server q).1 :: st.history at member
    show _ ∧ (cluster.answer r st.server q).2.svc.namespaceMgr.binding _ = _
    generalize given : (cluster.answer r st.server q).1 = reply at member
    rcases List.mem_cons.mp member with new | old
    · -- the file was just made
      cases new
      subst same
      exact NamespaceManager.binding_createFile consistent given named
    · -- it was there, and the call that is answered leaves it
      obtain ⟨wf, bound⟩ := ih ⟨mode, uid, gid, inode, old, same⟩ fun n task late there => by
        by_cases turn : n = k
        · subst turn
          cases there.symm.trans asks
          exact spared n ⟨op, next _⟩ late ((Setting.getElem?_serve asks r).mpr (.inl ⟨rfl, rfl⟩))
        · exact spared n task late ((Setting.getElem?_serve asks r).mpr (.inr ⟨turn, there⟩))
      have uses : Prog.Uses (fun q => q.TakesAway (components path) → op.op.TakesAway (components path))
          (.ask q next) :=
        before.tasks (P := fun task : Task ClientCall Rpc Rpc.Reply Outcome =>
          task.left.Uses fun q : Rpc => q.TakesAway (components path) → task.op.op.TakesAway (components path))
          (fun _ c _ => uses_prog _ c) (fun _ _ _ reply uses => uses.2 reply) asks
      have late : m ≤ k := by
        by_contra early
        have caller : m < st.tasks.length := (kept before).callers _ old
        obtain ⟨a, ended⟩ := before.turns alone asks (by omega)
        cases ended
      have leaves := spared k _ late ((Setting.getElem?_serve asks r).mpr (.inl ⟨rfl, rfl⟩))
      exact ⟨wf, answer_binding r consistent bound fun takes => leaves (uses.1 takes)⟩
  | drift before drifts ih =>
    cases drifts with
    | register => exact ih made spared
    | heartbeat => exact ih made spared

/-! ## Reading back -/

/-- Call `m` has written the data to the path, and no later call took the path away. -/
structure Standing (st : State) (m : Nat) (path : Str) (data : List UInt8) : Prop where
  written : ∃ writer mode out, st.tasks[m]? = some ⟨⟨writer, .writeFile path mode data⟩, .ret (.ok, out)⟩
  named : components path ≠ []
  spared : ∀ n task, m < n → st.tasks[n]? = some task → ¬ task.op.op.TakesAway (components path)

/-- Any client that reads the path now gets `kOk` and the data. -/
def ReadBack (st : State) (path : Str) (data : List UInt8) : Prop :=
  ∀ (reader : OpenFSClient) outData rs n, reader.initialized = true →
    ∃ reader', ((reader.readFile path outData).run (System.serve rs) (st.server, n)).1 = (.ok, data, reader')

/-- The file that a standing write made. -/
theorem Standing.made (run : cluster.Run begins IdsLast st) {m : Nat} {path : Str} {data : List UInt8}
    (standing : Standing st m path data) : ∃ i, Made st.history m path (UInt64.ofNat data.length) i ∧
      Wrote st.history m i data ∧ (∀ j data', Wrote st.history j i data' → data' = data) ∧
      (data = [] ∨ ∃ blocks, Committed st.history m i blocks) := by
  obtain ⟨writer, mode, out, returned⟩ := standing.written
  obtain ⟨i, made, blocks⟩ := promise run returned rfl
  have wrote : Wrote st.history m i data := ⟨writer, path, mode, run.began_iff.mpr ⟨_, returned⟩, made⟩
  refine ⟨i, made, wrote, fun j data' wrote' => ?_, blocks⟩
  obtain rfl := wrote.unique (kept run).inv.names.distinct wrote'
  obtain ⟨writer', path', mode', began, -⟩ := wrote'
  obtain ⟨left, there⟩ := run.began_iff.mp began
  cases there.symm.trans returned
  rfl

/-- The size of the file is the length of the data, if that fits. -/
theorem Sound.size_of_only {h : Log} {sys : System} (sound : Sound h sys) {m : Nat} {i size : UInt64}
    {data : List UInt8} (wrote : Wrote h m i data) (only : ∀ j data', Wrote h j i data' → data' = data)
    (blocks : data = [] ∨ ∃ blocks, Committed h m i blocks) (small : data.length ≤ BlockSplitter.maxSplit)
    (sized : Sized h i size) : size = UInt64.ofNat data.length := by
  rcases blocks with rfl | ⟨blocks, committed⟩
  · obtain ⟨k, path, made, file, rfl | ⟨j, blocks, committed, -⟩⟩ := sized
    · obtain ⟨_, _, _, -, mine⟩ := wrote
      exact (file.unique sound.names.distinct mine).2.2
    · obtain ⟨data', wrote', -, nonempty, spell⟩ := sound.earned j i blocks committed
      obtain rfl := only j data' wrote'
      exact absurd (List.forall₂_nil_right_iff.mp spell) nonempty
  · obtain ⟨data', wrote', -, -, spell⟩ := sound.earned m i blocks committed
    obtain rfl := only m data' wrote'
    exact sound.size wrote committed spell sized small

theorem idsLast_of_reading {q : Rpc} (reading : Reading q) (sys : System) : IdsLast sys q := by
  cases q with
  | getBlockLocations => trivial
  | readBlock => trivial
  | _ => exact reading.elim

/-- The path of a standing write leads to the file that it made. -/
theorem Standing.found (alone : ∀ st c, begins st c → Setting.Idle st)
    (run : cluster.Run begins IdsLast st) {m : Nat}
    {path : Str} {data : List UInt8} (standing : Standing st m path data) {i : UInt64}
    (made : Made st.history m path (UInt64.ofNat data.length) i) :
    ∃ inode, st.server.svc.namespaceMgr.lookup path = .ok inode ∧ inode.inodeId = i ∧
      inode.fileType = .regular := by
  obtain ⟨wf, bound⟩ := binding_of_made alone run made standing.named fun n task late there => by
    rcases Nat.eq_or_lt_of_le late with rfl | later
    · obtain ⟨writer, mode, out, returned⟩ := standing.written
      cases there.symm.trans returned
      exact id
    · exact standing.spared n task later there
  have looked := NamespaceManager.lookup_eq (kept run).inv.names.consistent wf
  rw [bound] at looked
  obtain ⟨inode, found, -, same, regular⟩ := looked
  exact ⟨inode, found, same, regular⟩

/-- What a read of a file that was written returns: its chunks, laid out in the size that the
file has. -/
theorem read_of_standing (alone : ∀ st c, begins st c → Setting.Idle st) (run : cluster.Run begins IdsLast st)
    {m : Nat} {path : Str} {data : List UInt8} (standing : Standing st m path data) :
    ∃ size : UInt64, (data.length ≤ BlockSplitter.maxSplit → size = UInt64.ofNat data.length) ∧
      ∀ (reader : OpenFSClient) outData rs n, reader.initialized = true →
        ∃ reader', ((reader.readFile path outData).run (System.serve rs) (st.server, n)).1 =
          (.ok, assemble size.toNat 0 (BlockSplitter.chunks data) (resize outData size.toNat), reader') := by
  obtain ⟨i, made, wrote, only, blocks⟩ := standing.made run
  obtain ⟨inode, found, rfl, regular⟩ := standing.found alone run made
  have sound := (kept run).inv
  have sized := sound.sized found regular
  have first : ∀ (reader : OpenFSClient) outData rs n, reader.initialized = true →
      (reader.readFile path outData).run (System.serve rs) (st.server, n) =
        (if inode.size = 0 then pure (.ok, [], reader)
          else readLocated reader inode.inodeId inode.size outData).run
          (System.serve rs) (st.server, n + 1) := by
    intro reader outData rs n ready
    rw [readFile_eq ready, Prog.run_bind, Prog.run_call, System.serve_eq, System.answer_getFileInfo, found]
    rfl
  refine ⟨inode.size, fun small => sound.size_of_only wrote only blocks small sized,
    fun reader outData rs n ready => ?_⟩
  rw [first reader outData rs n ready]
  by_cases empty : inode.size = 0
  · refine ⟨reader, ?_⟩
    have nothing : assemble inode.size.toNat 0 (BlockSplitter.chunks data)
        (resize outData inode.size.toNat) = [] := by
      apply List.eq_nil_of_length_eq_zero
      rw [length_assemble inode.size.toNat_lt (length_resize ..), empty]
      rfl
    rw [if_pos empty, nothing]
    rfl
  · rw [if_neg empty]
    obtain ⟨blocks, committed⟩ := blocks.resolve_left fun none => empty (by
      rw [sound.size_of_only wrote only blocks (by rw [none]; exact Nat.zero_le _) sized, none]
      rfl)
    obtain ⟨data', wrote', -, nonempty, spell⟩ := sound.earned m _ blocks committed
    obtain rfl := only m data' wrote'
    have admitted := (uses_readLocated reader inode.inodeId inode.size outData).mono
      fun q reading => (idsLast_of_reading reading : ∀ sys, IdsLast sys q)
    obtain ⟨h', ⟨status, out⟩, -⟩ := (achieves_readCommitted (k := st.tasks.length) reader committed spell nonempty
      inode.size outData).run admitted sound rs (n + 1)
    exact ⟨_, Prod.ext status (Prod.ext out rfl)⟩

/-- Behind the limit a read returns what the caller's vector had there, or else zeros. -/
theorem getElem?_read (data outData : List UInt8) (size : UInt64) {j : Nat} (behind : BlockSplitter.maxSplit ≤ j) :
    (assemble size.toNat 0 (BlockSplitter.chunks data) (resize outData size.toNat))[j]? =
      (resize outData size.toNat)[j]? :=
  getElem?_assemble size.toNat_lt (length_resize ..) (Nat.le_trans (BlockSplitter.length_stored_le data) behind)

/-- Data beyond the limit is not read back. -/
theorem length_le_of_readBack (alone : ∀ st c, begins st c → Setting.Idle st) (run : cluster.Run begins IdsLast st)
    {m : Nat} {path : Str} {data : List UInt8} (standing : Standing st m path data)
    (readBack : ReadBack st path data) :
    data.length ≤ BlockSplitter.maxSplit := by
  obtain ⟨size, -, reads⟩ := read_of_standing alone run standing
  by_contra long
  -- what comes behind the limit is not of the data
  have same : ∀ outData, assemble size.toNat 0 (BlockSplitter.chunks data) (resize outData size.toNat) = data := by
    intro outData
    obtain ⟨_, read⟩ := reads { initialized := true } outData (fun _ => {}) 0 rfl
    obtain ⟨_, read'⟩ := readBack { initialized := true } outData (fun _ => {}) 0 rfl
    exact (Prod.mk.inj (Prod.mk.inj (read.symm.trans read')).2).1
  have length : size.toNat = data.length := by
    rw [← same [], length_assemble size.toNat_lt (length_resize ..)]
  have zero := getElem?_read data [] size (Nat.le_refl _)
  have one := getElem?_read data (List.replicate size.toNat 1) size (Nat.le_refl _)
  have inside : BlockSplitter.maxSplit < size.toNat := by omega
  rw [same] at zero one
  rw [one] at zero
  simp [resize, inside] at zero

/-- **A write is read back**, as long as calls take turns and none takes the path away,
exactly if its data fits the blocks that can be counted. -/
theorem readBack_iff {m : Nat} {path : Str} {data : List UInt8}
    (run : cluster.Run (fun st _ => Setting.Idle st) IdsLast st) (standing : Standing st m path data) :
    ReadBack st path data ↔ data.length ≤ BlockSplitter.maxSplit := by
  refine ⟨length_le_of_readBack (fun _ _ => id) run standing, fun small reader outData rs n ready => ?_⟩
  obtain ⟨size, fits, reads⟩ := read_of_standing (fun _ _ => id) run standing
  obtain ⟨reader', read⟩ := reads reader outData rs n ready
  rw [fits small, assemble_chunks small (length_resize ..)] at read
  exact ⟨reader', read⟩

theorem idle_of_nil {st : State} (none : st.tasks = []) : Setting.Idle st := by
  intro k task there
  rw [none] at there
  cases there

theorem idle_append {st st' : State} (idle : Setting.Idle st) {c : ClientCall} {out : Outcome}
    (tasks : st'.tasks = st.tasks ++ [⟨c, .ret out⟩]) : Setting.Idle st' := by
  intro k task there
  rw [tasks] at there
  rcases List.mem_append.mp (List.mem_of_getElem? there) with old | new
  · obtain ⟨j, there'⟩ := List.mem_iff_getElem?.mp old
    exact idle j task there'
  · obtain rfl := List.mem_singleton.mp new
    exact ⟨out, rfl⟩

/-- A write that has returned `kOk` stands while no call after it takes the path away. -/
theorem Standing.of_first {client : OpenFSClient} {mode : UInt32} {data out : List UInt8}
    {rest : List (Task ClientCall Rpc Rpc.Reply Outcome)}
    (tasks : st.tasks = ⟨⟨client, .writeFile ['/', 'a'] mode data⟩, .ret (.ok, out)⟩ :: rest)
    (spared : ∀ task ∈ rest, ¬ task.op.op.TakesAway (components ['/', 'a'])) : Standing st 0 ['/', 'a'] data := by
  refine ⟨⟨client, mode, out, by rw [tasks]; rfl⟩, by decide, fun n task later there => ?_⟩
  obtain ⟨n, rfl⟩ := Nat.exists_eq_add_of_lt later
  rw [tasks, Nat.zero_add, List.getElem?_cons_succ] at there
  exact spared task (List.mem_of_getElem? there)

/-- The only call is such a write. -/
theorem Standing.of_single {client : OpenFSClient} {mode : UInt32} {data out : List UInt8}
    (tasks : st.tasks = [⟨⟨client, .writeFile ['/', 'a'] mode data⟩, .ret (.ok, out)⟩]) :
    Standing st 0 ['/', 'a'] data :=
  .of_first tasks (List.forall_mem_nil _)

/-- A byte is written, the root is listed, and another path is deleted. -/
theorem readBack_iff_byte : ∃ st : State, st.tasks.map (·.op.op) = [.writeFile ['/', 'a'] 0o644 [7],
      .readDir ['/'], .deleteFile ['/', 'b']] ∧ Standing st 0 ['/', 'a'] [7] ∧
    (ReadBack st ['/', 'a'] [7] ↔ [(7 : UInt8)].length ≤ BlockSplitter.maxSplit) := by
  obtain ⟨slice, one⟩ := List.length_eq_one_iff.mp (show (BlockSplitter.split [7].length [7]).length = 1 by decide)
  obtain ⟨st, out, run, tasks⟩ := @exists_run_single (fun st _ => Setting.Idle st) { initialized := true }
    rfl 0o644 [7] slice one fun _ => idle_of_nil
  have idle : Setting.Idle st := idle_append (@idle_of_nil { server := st.server } rfl) tasks
  obtain ⟨st', out', run', tasks', -⟩ := run.complete ⟨{ initialized := true }, .readDir ['/']⟩ idle (fun _ => {})
    (Prog.uses_bind (uses_ready (Prog.uses_call fun _ => trivial)) fun _ => Prog.uses_pure _ _)
  have idle' := idle_append idle tasks'
  obtain ⟨st'', out'', run'', tasks'', -⟩ := run'.complete ⟨{ initialized := true }, .deleteFile ['/', 'b']⟩ idle'
    (fun _ => {}) (Prog.uses_bind (uses_ready (Prog.uses_call fun _ => trivial)) fun _ => Prog.uses_pure _ _)
  rw [tasks', tasks] at tasks''
  have standing : Standing st'' 0 ['/', 'a'] [7] := by
    refine .of_first tasks'' ?_
    intro task member
    rcases List.mem_cons.mp member with rfl | last
    · exact id
    · obtain rfl := List.mem_singleton.mp last
      rintro ⟨-, below⟩
      exact absurd below (by decide)
  exact ⟨st'', by rw [tasks'']; rfl, standing, readBack_iff run'' standing⟩

/-- `2 ^ 57 + 1` bytes are `2 ^ 32 + 1` blocks, of which 32 bits count one. -/
theorem exists_slice {data : List UInt8} (long : data.length = 2 ^ 57 + 1) :
    ∃ slice, BlockSplitter.split data.length data = [slice] := by
  rw [← List.length_eq_one_iff, BlockSplitter.length_split, long]
  decide

/-- Of `2 ^ 57 + 1` bytes only the first block is stored. -/
theorem long_write_not_readBack : ¬ ∀ st m path data,
    cluster.Run (fun st _ => Setting.Idle st) (fun _ _ => True) st → Standing st m path data →
      ReadBack st path data := by
  intro claim
  obtain ⟨data, long⟩ : ∃ data : List UInt8, data.length = 2 ^ 57 + 1 := ⟨.replicate _ 1, List.length_replicate⟩
  obtain ⟨slice, one⟩ := exists_slice long
  obtain ⟨st, out, run, tasks⟩ := @exists_run_single (fun st _ => Setting.Idle st) { initialized := true }
    rfl 0o644 data slice one fun _ => idle_of_nil
  have readBack := claim st 0 _ data (run.mono (fun _ _ => id) fun _ _ _ => trivial) (.of_single tasks)
  have short := length_le_of_readBack (fun _ _ => id) run (.of_single tasks) readBack
  rw [long] at short
  exact absurd short (by decide)

end Cluster

end OpenFS
