import OpenFS.Client.RoundTrip

/-!
# Files appear whole

Readers may come at any time: while a file is created, while its blocks are written,
after it was deleted. What they get is the data of the write that made it, or an error.
-/

namespace OpenFS

open Requests OpenFSClient ReadCheck

/-- What is written fits the blocks that `BlockCount` can count. -/
def FileOp.Fits : FileOp → Prop
  | .writeFile _ _ data => data.length ≤ BlockSplitter.maxSplit
  | _ => True

/-- Writing, reading and deleting files, making and removing directories. -/
def FileOp.OnFilesOrDirectories : FileOp → Prop
  | .writeFile .. => True
  | .readFile .. => True
  | .deleteFile .. => True
  | .mkDir .. => True
  | .rmDir .. => True
  | _ => False

namespace Cluster

variable {st : State}

/-- Every read of a regular file with a size that has returned `kOk` has returned the data of
the one write that created the inode which it looked up. -/
def ReadsWhole (st : State) : Prop :=
  ∀ n reader path outData out, st.tasks[n]? = some ⟨⟨reader, .readFile path outData⟩, .ret (.ok, out)⟩ →
    ∀ inode, .answered n (.getFileInfo path) (.ok inode) ∈ st.history → inode.fileType = .regular →
      inode.size ≠ 0 →
      ∃ m writer path' mode data left size, st.tasks[m]? = some ⟨⟨writer, .writeFile path' mode data⟩, left⟩ ∧
        Made st.history m path' size inode.inodeId ∧
        (∀ m' path'' size', Made st.history m' path'' size' inode.inodeId → m' = m) ∧ out = data

/-- **A file appears whole or not at all**, as long as what is written fits and the ids last. -/
theorem readsWhole_of_run (run : cluster.Run (fun _ c => c.op.Fits) IdsLast st) : ReadsWhole st := by
  intro n reader path outData out returned inode there regular nonempty
  obtain ⟨j, data, wrote, whole⟩ := promise run returned rfl inode there regular nonempty
  obtain ⟨writer, path', mode, began, made⟩ := wrote
  obtain ⟨left, task⟩ := run.began_iff.mp began
  have fits : data.length ≤ BlockSplitter.maxSplit :=
    run.tasks (P := fun task => task.op.op.Fits) (fun _ _ allowed => allowed) (fun _ _ _ _ => id) task
  refine ⟨j, writer, path', mode, data, left, _, task, made, fun m' path'' size' made' => ?_, whole fits⟩
  exact (made'.unique (kept run).inv.names.distinct made).1

/-! ## Reading beside others -/

/-- A read begins with a lookup. -/
theorem prog_readFile (path : Str) (outData : List UInt8) :
    cluster.prog ⟨{ initialized := true }, .readFile path outData⟩ = .ask (.getFileInfo path) fun reply =>
      readFound { initialized := true } outData reply >>= fun r => pure (r.1, r.2.1) := by
  show (OpenFSClient.readFile { initialized := true } path outData >>= _) = _
  rw [readFile_eq rfl]
  rfl

/-- A reader begins, and looks its path up. -/
theorem begin_read {begins : State → ClientCall → Prop} (run : cluster.Run begins IdsLast st) {path : Str}
    (allowed : begins st ⟨{ initialized := true }, .readFile path []⟩) {inode : Inode}
    (found : st.server.svc.namespaceMgr.lookup path = .ok inode) (nonempty : inode.size ≠ 0) :
    ∃ st' : State, cluster.Run begins IdsLast st' ∧
      st'.tasks = st.tasks ++ [⟨⟨{ initialized := true }, .readFile path []⟩,
        readLocated { initialized := true } inode.inodeId inode.size [] >>= fun r => pure (r.1, r.2.1)⟩] ∧
      .answered st.tasks.length (.getFileInfo path) (.ok inode) ∈ st'.history ∧ st.history ⊆ st'.history := by
  have begun := run.begin _ allowed
  have asks : (cluster.begin st ⟨{ initialized := true }, .readFile path []⟩).tasks[st.tasks.length]? =
      some ⟨⟨{ initialized := true }, .readFile path []⟩, .ask (.getFileInfo path) fun reply =>
        readFound { initialized := true } [] reply >>= fun r => pure (r.1, r.2.1)⟩ := by
    rw [← prog_readFile]
    exact Setting.getElem?_begin.mpr (.inr ⟨rfl, rfl⟩)
  have looked := begun.serve asks {} trivial
  have answer : cluster.answer {} (cluster.begin st ⟨{ initialized := true }, .readFile path []⟩).server
      (.getFileInfo path) = (.ok inode, st.server) := by
    show (st.server.svc.namespaceMgr.lookup path, st.server) = _
    rw [found]
  have located : readFound { initialized := true } [] (.ok inode) =
      readLocated { initialized := true } inode.inodeId inode.size [] := if_neg nonempty
  unfold Setting.serve at looked
  rw [answer] at looked
  dsimp only at looked
  rw [located] at looked
  refine ⟨_, looked, ?_, List.mem_cons_self, ?_⟩
  · unfold Setting.begin
    simp
  · exact List.subset_cons_of_subset _ (List.subset_cons_self _ _)

/-- It goes on to its end, and returns what was committed. -/
theorem finish_read {begins : State → ClientCall → Prop} (run : cluster.Run begins IdsLast st) {k : Nat}
    {c : ClientCall} {i size : UInt64}
    (located : st.tasks[k]? = some ⟨c, readLocated { initialized := true } i size [] >>= fun r => pure (r.1, r.2.1)⟩)
    {j : Nat} {blocks : List BlockMeta} {chunks : List (List UInt8)} (committed : Committed st.history j i blocks)
    (some_block : blocks ≠ []) (spell : Spell st.history blocks chunks) :
    ∃ st' : State, cluster.Run begins IdsLast st' ∧
      st'.tasks = st.tasks.set k ⟨c, .ret (.ok, assemble size.toNat 0 chunks (resize [] size.toNat))⟩ ∧
      st.history ⊆ st'.history := by
  have last : ∀ (s : System × Nat) (q : Rpc), Reading q → IdsLast s.1 q :=
    fun s q reading => idsLast_of_reading reading s.1
  have along : (readLocated { initialized := true } i size [] >>= fun r => pure (r.1, r.2.1)).Along
      (fun (s : System × Nat) q => IdsLast s.1 q) (serving cluster.answer fun _ => {}) (st.server, 0) :=
    (Prog.along_bind _ _ _).mpr ⟨((uses_readLocated ..).mono fun q reading s => last s q reading).along _, trivial⟩
  obtain ⟨h, finished, sub⟩ := run.finish located (fun _ => {}) 0 along
  refine ⟨_, finished, ?_, sub⟩
  obtain ⟨_, ⟨status, read⟩, -⟩ := (achieves_readCommitted (k := k) { initialized := true } committed spell some_block
    size []).run ((uses_readLocated ..).mono fun q reading s => idsLast_of_reading reading s) (kept run).inv
    (fun _ => {}) 0
  have outcome : ((readLocated { initialized := true } i size [] >>= fun r => pure (r.1, r.2.1)).run
      (serving cluster.answer fun _ => {}) (st.server, 0)).1 =
        (.ok, assemble size.toNat 0 chunks (resize [] size.toNat)) := by
    rw [Prog.run_bind]
    exact Prod.ext status read
  rw [outcome]

/-- A byte is written. When a reader has looked the file up, another client deletes it, and the
reader goes on to the end. -/
theorem exists_run_beside : ∃ (st : State) (out out' : Outcome) (inode : Inode),
    cluster.Run (fun _ c => c.op.Fits) IdsLast st ∧
      st.tasks = [⟨⟨{ initialized := true }, .writeFile ['/', 'a'] 0o644 [7]⟩, .ret out⟩,
        ⟨⟨{ initialized := true }, .readFile ['/', 'a'] []⟩, .ret (.ok, [7])⟩,
        ⟨⟨{ initialized := true }, .deleteFile ['/', 'a']⟩, .ret out'⟩] ∧
      .answered 1 (.getFileInfo ['/', 'a']) (.ok inode) ∈ st.history ∧ inode.fileType = .regular ∧
      inode.size ≠ 0 := by
  obtain ⟨slice, one⟩ := List.length_eq_one_iff.mp (show (BlockSplitter.split [7].length [7]).length = 1 by decide)
  obtain ⟨st, out, run, tasks⟩ := @exists_run_single (fun st c => Setting.Idle st ∧ c.op.Fits)
    { initialized := true } rfl 0o644 [7] slice one fun _ none =>
      ⟨idle_of_nil none, show [(7 : UInt8)].length ≤ BlockSplitter.maxSplit by decide⟩
  have standing := Standing.of_single tasks
  obtain ⟨i, made, wrote, only, stored⟩ := standing.made run
  obtain ⟨inode, found, rfl, regular⟩ := standing.found (fun _ _ allowed => allowed.1) run made
  have sound := (kept run).inv
  have size : inode.size = UInt64.ofNat [(7 : UInt8)].length :=
    sound.size_of_only wrote only stored (by decide) (sound.sized found regular)
  have nonempty : inode.size ≠ 0 := by
    rw [size]
    decide
  obtain ⟨blocks, committed⟩ := stored.resolve_left (List.cons_ne_nil _ _)
  obtain ⟨data, wrote', -, some_block, spell⟩ := sound.earned 0 _ blocks committed
  obtain rfl := only 0 data wrote'
  have among : cluster.Run (fun _ c => c.op.Fits) IdsLast st := run.mono (fun _ _ => And.right) fun _ _ => id
  obtain ⟨looking, run₁, begun, looked, sub₁⟩ := @begin_read _ _ among ['/', 'a'] trivial _ found nonempty
  obtain ⟨deleting, out', run₂, deleted, sub₂⟩ := run₁.complete ⟨{ initialized := true }, .deleteFile ['/', 'a']⟩
    trivial (fun _ => {})
    (Prog.uses_bind (uses_ready (Prog.uses_call fun _ => trivial)) fun _ => Prog.uses_pure _ _)
  rw [begun, tasks] at deleted
  rw [tasks] at looked
  obtain ⟨ended, run₃, finished, sub₃⟩ := finish_read run₂ (k := 1) (by rw [deleted]; rfl)
    (sub₂ (sub₁ committed)) some_block (spell.mono (List.Subset.trans sub₁ sub₂))
  refine ⟨ended, (.ok, out), out', inode, run₃, ?_, sub₃ (sub₂ looked), regular, nonempty⟩
  rw [finished, deleted, size, assemble_chunks (by decide) (length_resize ..)]
  rfl

theorem readsWhole_of_run_byte : ∃ (st : State) (out out' : Outcome) (inode : Inode),
    st.tasks = [⟨⟨{ initialized := true }, .writeFile ['/', 'a'] 0o644 [7]⟩, .ret out⟩,
      ⟨⟨{ initialized := true }, .readFile ['/', 'a'] []⟩, .ret (.ok, [7])⟩,
      ⟨⟨{ initialized := true }, .deleteFile ['/', 'a']⟩, .ret out'⟩] ∧
      .answered 1 (.getFileInfo ['/', 'a']) (.ok inode) ∈ st.history ∧ inode.fileType = .regular ∧
      inode.size ≠ 0 ∧ ReadsWhole st := by
  obtain ⟨st, out, out', inode, run, tasks, looked, regular, nonempty⟩ := exists_run_beside
  exact ⟨st, out, out', inode, tasks, looked, regular, nonempty, readsWhole_of_run run⟩

/-! ## A file that is too long -/

/-- The file of a long write has a size. -/
theorem size_ne_zero {h : Log} {sys : System} (sound : Sound h sys) {m : Nat} {i size : UInt64} {data : List UInt8}
    (long : data.length = 2 ^ 57 + 1) (wrote : Wrote h m i data)
    (only : ∀ j data', Wrote h j i data' → data' = data) (sized : Sized h i size) : size ≠ 0 := by
  rintro rfl
  obtain ⟨k, path, made, file, zero | ⟨j, blocks, committed, zero⟩⟩ := sized
  · obtain ⟨_, _, _, -, mine⟩ := wrote
    have same := (file.unique sound.names.distinct mine).2.2
    rw [← zero, long] at same
    exact absurd same (by decide)
  · obtain ⟨data', wrote', -, -, spell⟩ := sound.earned j i blocks committed
    obtain rfl := only j data' wrote'
    have total := congrArg UInt64.toNat zero
    have stored : (BlockSplitter.chunks data').flatten.length = 2 ^ 25 := by
      show (BlockSplitter.stored data').length = _
      rw [BlockSplitter.stored_eq, List.length_take, long]
      decide
    rw [MetaService.totalSize_toNat, spell.sum, stored] at total
    exact absurd total (by decide)

theorem idle_of_single {c : ClientCall} {out : Outcome} (tasks : st.tasks = [⟨c, .ret out⟩]) :
    Setting.Idle st := by
  intro k task there
  rw [tasks] at there
  obtain rfl := List.mem_singleton.mp (List.mem_of_getElem? there)
  exact ⟨out, rfl⟩

theorem exists_ones (n : Nat) : ∃ data : List UInt8, (∀ j < data.length, data[j]? = some 1) ∧ data.length = n := by
  refine ⟨List.replicate n 1, fun j inside => ?_, List.length_replicate⟩
  rw [List.length_replicate] at inside
  rw [List.getElem?_replicate, if_pos inside]

/-- After a write that returned, a reader comes. -/
theorem read_after_single {begins : State → ClientCall → Prop} (run : cluster.Run begins IdsLast st)
    {task : Task ClientCall Rpc Rpc.Reply Outcome} (tasks : st.tasks = [task]) {path : Str}
    (allowed : begins st ⟨{ initialized := true }, .readFile path []⟩) {inode : Inode}
    (found : st.server.svc.namespaceMgr.lookup path = .ok inode) (nonempty : inode.size ≠ 0) {j : Nat}
    {blocks : List BlockMeta} {chunks : List (List UInt8)}
    (committed : Committed st.history j inode.inodeId blocks)
    (some_block : blocks ≠ []) (spell : Spell st.history blocks chunks) :
    ∃ st' : State, cluster.Run begins IdsLast st' ∧
      st'.tasks = [task, ⟨⟨{ initialized := true }, .readFile path []⟩,
        .ret (.ok, assemble inode.size.toNat 0 chunks (resize [] inode.size.toNat))⟩] ∧
      .answered 1 (.getFileInfo path) (.ok inode) ∈ st'.history := by
  obtain ⟨st', run', begun, looked, sub⟩ := begin_read run allowed found nonempty
  rw [tasks] at begun looked
  obtain ⟨st'', run'', finished, sub'⟩ := finish_read run' (k := 1) (by rw [begun]; rfl) (sub committed) some_block
    (spell.mono sub)
  refine ⟨st'', run'', ?_, sub' looked⟩
  rw [finished, begun]
  rfl

/-- Of `2 ^ 57 + 1` bytes a reader gets the first block, and zeros. -/
theorem long_file_not_whole :
    ¬ ∀ st, cluster.Run (fun _ c => c.op.OnFilesOrDirectories) (fun _ _ => True) st → ReadsWhole st := by
  intro claim
  have alone : ∀ (st : State) (c : ClientCall), Setting.Idle st ∧ c.op.OnFilesOrDirectories → Setting.Idle st :=
    fun _ _ allowed => allowed.1
  obtain ⟨data, filled, long⟩ := exists_ones (2 ^ 57 + 1)
  obtain ⟨slice, one⟩ := exists_slice long
  have nonempty : data ≠ [] := by
    rintro rfl
    cases long
  obtain ⟨st, out, run, tasks⟩ := @exists_run_single (fun st c => Setting.Idle st ∧ c.op.OnFilesOrDirectories)
    { initialized := true } rfl 0o644 data slice one fun _ none => ⟨idle_of_nil none, trivial⟩
  have standing := Standing.of_single tasks
  obtain ⟨i, made, wrote, only, blocks⟩ := standing.made run
  obtain ⟨inode, found, rfl, regular⟩ := standing.found alone run made
  have sound := (kept run).inv
  have some_size := size_ne_zero sound long wrote only (sound.sized found regular)
  obtain ⟨blocks, committed⟩ := blocks.resolve_left nonempty
  obtain ⟨data', wrote', -, some_block, spell⟩ := sound.earned 0 _ blocks committed
  obtain rfl := only 0 data' wrote'
  obtain ⟨st', run', tasks', looked⟩ := read_after_single run tasks ⟨idle_of_single tasks, trivial⟩ found some_size
    committed some_block spell
  have whole := claim st' (run'.mono (fun _ _ => And.right) fun _ _ _ => trivial) 1 _ _ _ _
    (by rw [tasks']; rfl) inode
    looked regular some_size
  obtain ⟨m, writer, path', mode, data, left, size, task, -, -, same⟩ := whole
  -- the first of the two calls wrote the data
  obtain rfl : data = data' := by
    rw [tasks'] at task
    match m with
    | 0 =>
      cases task
      rfl
    | 1 => cases task
  have one := filled BlockSplitter.maxSplit (by rw [long]; decide)
  have zero := getElem?_read data [] inode.size (Nat.le_refl _)
  rw [same, one] at zero
  simp [resize, List.getElem?_replicate] at zero

end Cluster

end OpenFS
