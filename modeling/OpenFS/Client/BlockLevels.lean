import OpenFS.Client.ChunkLevels
import OpenFS.Client.Promises
import OpenFS.Client.SingleWrite
import OpenFS.Data.HeaderLevels

/-!
# The levels of a file's blocks

The splitter selects a level from the size of the file, and the blocks are allocated and
committed with it. The data node selects again, from the size of the block. Both select
the same unless the file has a short tail.
-/

namespace OpenFS

namespace Cluster

open Requests OpenFSClient

variable {k : Nat} {h : Log}

/-! ## What is committed -/

/-- The blocks that the call commits are of this level. -/
def CommitsAt (h : Log) (k : Nat) (level : BlkLevel) : Prop :=
  ∀ i blocks, Committed h k i blocks → ∀ b ∈ blocks, b.level = level

theorem Uncommitted.commitsAt (first : Uncommitted h k) (level : BlkLevel) : CommitsAt h k level :=
  fun i blocks committed => absurd committed (first i blocks)

/-- What a program has done in the end, with the answers that the servers give. -/
abbrev Observes (k : Nat) {α : Type} (Q : α → Log → Prop) (p : ClientProg α) (h : Log) : Prop :=
  Meets cluster.answer (fun _ _ => True) (fun _ _ => True) k Q p h

theorem observes_any {α : Type} (p : ClientProg α) (h : Log) : Observes k (fun _ _ => True) p h := by
  induction p generalizing h with
  | ret a => exact fun _ _ => trivial
  | ask q next ih => exact fun h' sys r _ _ _ => ⟨trivial, ih _ _⟩

theorem observes_writeBlocks (data : List UInt8) (level : BlkLevel) {pairs : List (BlockMeta × BlockSlice)}
    (allocated : ∀ pair ∈ pairs, pair.1.level = level) (client : OpenFSClient) {committed : List BlockMeta}
    (before : ∀ b ∈ committed, b.level = level) :
    Observes k (fun r _ => ∀ blocks, r.1 = .ok blocks → ∀ b ∈ blocks, b.level = level)
      (writeBlocks data client pairs committed) h := by
  induction pairs generalizing h client committed with
  | nil =>
    refine meets_pure fun _ _ blocks ok => ?_
    cases ok
    exact before
  | cons pair rest ih =>
    obtain ⟨alloc, slice⟩ := pair
    obtain ⟨first, others⟩ := List.forall_mem_cons.mp allocated
    rw [writeBlocks]
    generalize client.dataAddr alloc.nodeId = found
    obtain ⟨addr, client⟩ := found
    dsimp only
    refine meets_call_bind fun h' sys r _ _ _ => ⟨trivial, ?_⟩
    generalize (cluster.answer r sys (.writeBlock addr alloc.blockId alloc.segmentId (slice.bytes data)
      slice.crc32)).1 = reply
    rcases reply with s | ⟨segmentId, offset⟩
    · exact meets_pure fun _ _ blocks ok => by cases ok
    · apply ih others
      intro b member
      rcases List.mem_append.mp member with old | new
      · exact before b old
      · rw [List.mem_singleton.mp new]
        exact first

/-- Step 5. -/
theorem observes_commit (client : OpenFSClient) (i : UInt64) {committed : List BlockMeta} {level : BlkLevel}
    (first : Uncommitted h k) (leveled : ∀ b ∈ committed, b.level = level) :
    Observes k (fun _ h' => CommitsAt h' k level)
      (do let s ← MetaConnection.commitBlocks i committed; pure (s, client)) h := by
  refine meets_call_bind fun h' sys r since _ _ => ⟨trivial, ?_⟩
  generalize (cluster.answer r sys (.commitBlocks i committed)).1 = reply
  refine meets_pure fun h'' later j blocks there => ?_
  rcases List.mem_cons.mp ((later.mem_iff rfl).mp there) with new | old
  · cases new
    exact leveled
  · exact absurd ((since.mem_iff rfl).mp old) (first j blocks)

/-- Steps 2 to 5. -/
theorem observes_writeData (client : OpenFSClient) (inode : Inode) (data : List UInt8) (first : Uncommitted h k) :
    Observes k (fun _ h' => CommitsAt h' k (selectBlockLevel data.length)) (client.writeData inode data) h := by
  have nothing : ∀ {h' : Log}, Without IsCommit k h h' → ∀ r : Status × OpenFSClient,
      Observes k (fun _ h'' => CommitsAt h'' k (selectBlockLevel data.length)) (pure r) h' :=
    fun calm r => meets_pure fun h'' later => (first.without (calm.since later)).commitsAt _
  have level := fun slice => @BlockSplitter.level_of_mem_split data.length data slice
  unfold writeData
  dsimp only
  generalize BlockSplitter.split data.length data = slices at level
  cases slices with
  | nil => exact nothing (.refl _ _ _) _
  | cons slice slices =>
    dsimp only [List.head?_cons]
    refine meets_call_bind fun h' sys r since _ _ => ⟨trivial, ?_⟩
    have before : ∀ reply, Without IsCommit k h (.answered k (.allocateBlocks inode.inodeId
        (UInt32.ofNat (slice :: slices).length) slice.level) reply :: h') :=
      ((Without.refl _ k h).since since).answered id
    generalize given : (cluster.answer r sys (.allocateBlocks inode.inodeId (UInt32.ofNat (slice :: slices).length)
      slice.level)).1 = reply
    rcases reply with s | allocated
    · exact nothing (before _) _
    · dsimp only
      split
      · exact nothing (before _) _
      · have answer : (sys.answer r (.allocateBlocks inode.inodeId (UInt32.ofNat (slice :: slices).length)
          slice.level)).1 = .ok allocated := given
        rw [System.answer_allocateBlocks] at answer
        have leveled : ∀ b ∈ allocated, b.level = selectBlockLevel data.length := by
          rw [← level slice List.mem_cons_self]
          exact (BlockAllocator.of_allocated answer).2
        have zipped : ∀ pair ∈ allocated.zip (slice :: slices), pair.1.level = selectBlockLevel data.length :=
          fun pair member => leveled _ (List.of_mem_zip member).1
        have written := observes_writeBlocks (k := k) (h := .answered k (.allocateBlocks inode.inodeId
            (UInt32.ofNat (slice :: slices).length) slice.level) (.ok allocated) :: h') data
          (selectBlockLevel data.length) zipped client (List.forall_mem_nil _)
        refine meets_bind (written.without (uses_writeBlocks data _ client []) (before _)) ?_
        rintro ⟨out, client⟩ h'' ⟨same, calm⟩
        cases out with
        | error s => exact nothing calm _
        | ok committed => exact observes_commit client _ (first.without calm) (same committed rfl)

theorem observes_writeFile (client : OpenFSClient) (path : Str) (mode : UInt32) (data : List UInt8)
    (first : Uncommitted h k) :
    Observes k (fun _ h' => CommitsAt h' k (selectBlockLevel data.length))
      (client.writeFile path mode data) h := by
  have still := Without.refl IsCommit k h
  unfold writeFile
  split
  · exact meets_pure fun h' since => (first.without (still.since since)).commitsAt _
  · refine meets_call_bind fun h' sys r since _ _ => ⟨trivial, ?_⟩
    generalize (cluster.answer r sys (.createFile path mode 0 0 (UInt64.ofNat data.length))).1 = reply
    have calm := (still.since since).answered (q := .createFile path mode 0 0 (UInt64.ofNat data.length)) id reply
    rcases reply with s | inode
    · exact meets_pure fun h'' later => (first.without (calm.since later)).commitsAt _
    · dsimp only
      split
      · exact meets_pure fun h'' later => (first.without (calm.since later)).commitsAt _
      · exact observes_writeData client inode data (first.without calm)

/-- What call `k` has committed is of the level of its file. -/
def Leveled (k : Nat) (c : ClientCall) (_ : Outcome) (h : Log) : Prop :=
  match c.op with
  | .writeFile _ _ data => CommitsAt h k (selectBlockLevel data.length)
  | _ => True

theorem observes_prog (k : Nat) (c : ClientCall) (h : Log) (first : ∀ e ∈ h, e.caller < k) :
    Observes k (Leveled k c) (cluster.prog c) (.began k c :: h) := by
  obtain ⟨client, op⟩ := c
  cases op with
  | writeFile path mode data =>
    have uncommitted : Uncommitted (.began k ⟨client, .writeFile path mode data⟩ :: h) k := by
      intro i blocks member
      rcases List.mem_cons.mp member with new | old
      · cases new
      · exact Nat.lt_irrefl _ (first _ old)
    refine meets_bind (observes_writeFile client path mode data uncommitted) fun r h' done => ?_
    refine meets_pure fun h'' since i blocks committed => done i blocks ?_
    exact (since.mem_iff rfl).mp committed
  | _ => exact observes_any _ _

variable {st : State} {begins : State → ClientCall → Prop} {admits : System → Rpc → Prop}

theorem commitsAt_of_run (run : cluster.Run begins admits st) {m : Nat} {client : OpenFSClient} {path : Str}
    {mode : UInt32} {data : List UInt8} {out : Outcome}
    (returned : st.tasks[m]? = some ⟨⟨client, .writeFile path mode data⟩, .ret out⟩) :
    CommitsAt st.history m (selectBlockLevel data.length) := by
  have free : cluster.Run begins (fun _ _ => True) st := run.mono (fun _ _ => id) fun _ _ _ => trivial
  have kept : cluster.Kept (fun _ _ => True) (fun _ _ => True) Leveled st :=
    free.keeps (fun _ _ => trivial) (fun _ _ _ _ => id) (fun _ _ _ _ => id) observes_prog
  exact kept.tasks m _ returned st.history (.refl m st.history)

/-! ## What is on the disks -/

/-- Each block that was acknowledged has the level of its own size in its header. -/
def OnDisk (h : Log) (node : DataNode) : Prop :=
  ∀ j addr blockId segmentId bytes crc32 diskId offset,
    .answered j (.writeBlock addr blockId segmentId bytes crc32) (.ok (diskId, offset)) ∈ h →
      node.levelAt diskId offset = some (selectBlockLevel bytes.length).toByte

/-- What is written in one request fits a message. -/
def InMessage : Rpc → Prop
  | .writeBlock _ _ _ bytes _ => bytes.length < 2 ^ 31
  | _ => True

theorem inMessage_writeBlocks {data : List UInt8} {pairs : List (BlockMeta × BlockSlice)}
    (fits : ∀ pair ∈ pairs, BlockSplitter.Describes pair.2 (pair.2.bytes data)) (client : OpenFSClient)
    (committed : List BlockMeta) : (writeBlocks data client pairs committed).Uses InMessage := by
  induction pairs generalizing client committed with
  | nil => exact Prog.uses_pure _ _
  | cons pair rest ih =>
    obtain ⟨alloc, slice⟩ := pair
    obtain ⟨first, others⟩ := List.forall_mem_cons.mp fits
    rw [writeBlocks]
    refine Prog.uses_bind (Prog.uses_call first.small) fun reply => ?_
    rcases reply with s | ⟨segmentId, offset⟩
    · exact Prog.uses_pure _ _
    · exact ih others _ _

theorem inMessage_writeData (client : OpenFSClient) (inode : Inode) (data : List UInt8) :
    (client.writeData inode data).Uses InMessage := by
  have fits := fun slice => @BlockSplitter.describes_of_mem_split data slice
  unfold writeData
  dsimp only
  split
  · exact Prog.uses_pure _ _
  · refine Prog.uses_bind (Prog.uses_call trivial) fun reply => ?_
    rcases reply with s | allocated
    · exact Prog.uses_pure _ _
    · dsimp only
      split
      · exact Prog.uses_pure _ _
      · have zipped : ∀ pair ∈ allocated.zip (BlockSplitter.split data.length data),
            BlockSplitter.Describes pair.2 (pair.2.bytes data) :=
          fun pair member => fits _ (List.of_mem_zip member).2
        refine Prog.uses_bind (inMessage_writeBlocks zipped client []) fun result => ?_
        obtain ⟨s | committed, client⟩ := result
        · exact Prog.uses_pure _ _
        · exact Prog.uses_bind (Prog.uses_call trivial) fun _ => Prog.uses_pure _ _

theorem inMessage_prog (c : ClientCall) : (cluster.prog c).Uses InMessage := by
  obtain ⟨client, op⟩ := c
  cases op with
  | writeFile path mode data =>
    refine Prog.uses_bind ?_ fun _ => Prog.uses_pure _ _
    unfold writeFile
    refine uses_ready (Prog.uses_bind (Prog.uses_call trivial) fun reply => ?_)
    rcases reply with s | inode
    · exact Prog.uses_pure _ _
    · dsimp only
      split
      · exact Prog.uses_pure _ _
      · exact inMessage_writeData client inode data
  | readFile path outData =>
    refine Prog.uses_bind ?_ fun _ => Prog.uses_pure _ _
    by_cases ready : client.initialized = true
    · rw [readFile_eq ready]
      refine Prog.uses_bind (Prog.uses_call trivial) fun reply => ?_
      rcases reply with s | inode
      · exact Prog.uses_pure _ _
      · unfold readFound
        dsimp only
        split
        · exact Prog.uses_pure _ _
        · refine (uses_readLocated client inode.inodeId inode.size outData).mono fun q reading => ?_
          cases q with
          | writeBlock => exact reading.elim
          | _ => trivial
    · unfold readFile
      rw [if_pos (by simpa using ready)]
      exact Prog.uses_pure _ _
  | _ => exact Prog.uses_bind (uses_ready (Prog.uses_call trivial)) fun _ => Prog.uses_pure _ _

/-- Only writes change a level on the disks. -/
theorem levelAt_answer (r : Readings) (sys : System) {q : Rpc}
    (other : ∀ addr blockId segmentId bytes crc32, q ≠ .writeBlock addr blockId segmentId bytes crc32)
    (diskId offset : UInt64) : (sys.answer r q).2.node.levelAt diskId offset = sys.node.levelAt diskId offset := by
  cases q with
  | writeBlock => exact absurd rfl (other _ _ _ _ _)
  | readBlock addr segmentId place =>
    rw [System.answer_readBlock]
    exact DataNode.levelAt_read ..
  | _ => rfl

theorem OnDisk.writeBlock {sys : System} (onDisk : OnDisk h sys.node) (sound : Sound h sys) (r : Readings)
    (addr : Str) (blockId segmentId : UInt64) {bytes : List UInt8} (crc32 : UInt32)
    (small : bytes.length < 2 ^ 31) :
    OnDisk (.answered k (.writeBlock addr blockId segmentId bytes crc32)
        (sys.answer r (.writeBlock addr blockId segmentId bytes crc32)).1 :: h)
      (sys.answer r (.writeBlock addr blockId segmentId bytes crc32)).2.node := by
  obtain ⟨ledger, shelf⟩ := sound.shelves
  obtain ⟨stays, new⟩ := shelf.keeps.write_level blockId crc32 small
  rw [System.answer_writeBlock]
  generalize DataService.writeBlock sys.node blockId bytes crc32 = result at stays new
  obtain ⟨reply, node⟩ := result
  intro j addr' blockId' segmentId' bytes' crc32' diskId offset member
  rcases List.mem_cons.mp member with now | before
  · cases now
    exact new diskId offset rfl
  · exact (stays _ _ _ _ (shelf.shelved _ _ _ _ _ _ _ _ before)).trans (onDisk _ _ _ _ _ _ _ _ before)

theorem onDisk_of_run (run : cluster.Run begins IdsLast st) : OnDisk st.history st.server.node := by
  induction run with
  | start =>
    intro _ _ _ _ _ _ _ _ member
    cases member
  | begin before op allowed ih =>
    intro _ _ _ _ _ _ _ _ member
    rcases List.mem_cons.mp member with new | old
    · cases new
    · exact ih _ _ _ _ _ _ _ _ old
  | @serve st before j op q next asks r admitted ih =>
    have sound := (kept before).inv
    have small : Prog.Uses InMessage (.ask q next) :=
      before.tasks (P := fun task : Task ClientCall Rpc Rpc.Reply Outcome => task.left.Uses InMessage)
        (fun _ c _ => inMessage_prog c) (fun _ _ _ reply uses => uses.2 reply) asks
    by_cases write : ∃ addr blockId segmentId bytes crc32, q = .writeBlock addr blockId segmentId bytes crc32
    · obtain ⟨addr, blockId, segmentId, bytes, crc32, rfl⟩ := write
      exact ih.writeBlock sound r addr blockId segmentId crc32 small.1
    · intro i addr blockId segmentId bytes crc32 diskId offset member
      have other : ∀ addr blockId segmentId bytes crc32, q ≠ .writeBlock addr blockId segmentId bytes crc32 :=
        fun addr blockId segmentId bytes crc32 same => write ⟨addr, blockId, segmentId, bytes, crc32, same⟩
      refine (levelAt_answer r st.server other diskId offset).trans ?_
      change _ ∈ .answered j q (cluster.answer r st.server q).1 :: st.history at member
      generalize (cluster.answer r st.server q).1 = reply at member
      rcases List.mem_cons.mp member with new | old
      · cases new
        exact absurd rfl (other _ _ _ _ _)
      · exact ih _ _ _ _ _ _ _ _ old
  | drift before drifts ih =>
    cases drifts with
    | register => exact ih
    | heartbeat => exact ih

/-! ## What is asked of a file -/

/-- The level of a block is the one that the splitter chose, and it is in the block's header. -/
structure LevelAgrees (node : DataNode) (data : List UInt8) (b : BlockMeta) : Prop where
  chosen : ∀ slice ∈ BlockSplitter.split data.length data, b.level = slice.level
  onDisk : node.levelAt b.segmentId b.offset = some b.level.toByte

/-- The levels agree for every block of a file that call `m` has made with these data. -/
def LevelsAgree (st : State) (m : Nat) (data : List UInt8) : Prop :=
  ∀ i, Wrote st.history m i data → ∀ blocks, st.server.svc.blockMap.getBlocks i = .ok blocks →
    ∀ b ∈ blocks, LevelAgrees st.server.node data b

theorem toByte_inj {a b : BlkLevel} (same : a.toByte = b.toByte) : a = b := by
  revert same
  cases a <;> cases b <;> decide

/-- A block of the file, next to the chunk that it holds. -/
structure Stamped (node : DataNode) (level : BlkLevel) (b : BlockMeta) (chunk : List UInt8) : Prop where
  level : b.level = level
  onDisk : node.levelAt b.segmentId b.offset = some (selectBlockLevel chunk.length).toByte

theorem exists_of_forall₂ {α β : Type} {R : α → β → Prop} {l : List α} {l' : List β} (all : List.Forall₂ R l l') :
    (∀ a ∈ l, ∃ b ∈ l', R a b) ∧ ∀ b ∈ l', ∃ a ∈ l, R a b := by
  induction all with
  | nil => exact ⟨List.forall_mem_nil _, List.forall_mem_nil _⟩
  | cons first _ ih =>
    refine ⟨List.forall_mem_cons.mpr ⟨⟨_, List.mem_cons_self, first⟩, fun a member => ?_⟩,
      List.forall_mem_cons.mpr ⟨⟨_, List.mem_cons_self, first⟩, fun b member => ?_⟩⟩
    · obtain ⟨b, there, related⟩ := ih.1 a member
      exact ⟨b, List.mem_cons_of_mem _ there, related⟩
    · obtain ⟨a, there, related⟩ := ih.2 b member
      exact ⟨a, List.mem_cons_of_mem _ there, related⟩

/-- What the metadata node lists for a file that a call has written and returned from. -/
theorem stamped_of_returned (run : cluster.Run begins IdsLast st) {m : Nat} {writer : OpenFSClient} {path : Str}
    {mode : UInt32} {data : List UInt8} {out : Outcome}
    (returned : st.tasks[m]? = some ⟨⟨writer, .writeFile path mode data⟩, .ret out⟩) {i : UInt64}
    (wrote : Wrote st.history m i data) {blocks : List BlockMeta}
    (listed : st.server.svc.blockMap.getBlocks i = .ok blocks) :
    List.Forall₂ (Stamped st.server.node (selectBlockLevel data.length)) blocks (BlockSplitter.chunks data) := by
  have sound := (kept run).inv
  have asked := System.answer_getBlockLocations {} st.server i
  rw [listed] at asked
  rcases sound.located {} i with ⟨-, unlisted⟩ | ⟨j, data', blocks', wrote', committed, -, spell, located⟩
  · cases asked.symm.trans unlisted
  · cases asked.symm.trans located
    -- the call is the only one that made the file, and these are its data
    obtain rfl := wrote.unique sound.names.distinct wrote'
    obtain ⟨writer', path', mode', began, -⟩ := wrote'
    obtain ⟨left, there⟩ := run.began_iff.mp began
    cases there.symm.trans returned
    have levels := commitsAt_of_run run returned i blocks committed
    have disk := onDisk_of_run run
    refine List.forall₂_iff_zip.mpr ⟨spell.length_eq, fun {b chunk} member => ?_⟩
    have put := List.forall₂_zip spell member
    obtain ⟨k, addr, segmentId, written⟩ := put.written
    exact ⟨levels b (List.of_mem_zip member).1, disk _ _ _ _ _ _ _ _ written⟩

section
variable {m : Nat} {writer : OpenFSClient} {path : Str} {mode : UInt32} {data out : List UInt8}

theorem tailKeeps_of_agree (run : cluster.Run begins IdsLast st)
    (returned : st.tasks[m]? = some ⟨⟨writer, .writeFile path mode data⟩, .ret (.ok, out)⟩)
    (agree : LevelsAgree st m data) : BlockSplitter.TailKeepsLevel data.length := by
  apply (BlockSplitter.levels_of_chunks data).mp
  intro chunk member
  obtain ⟨i, made, blocks⟩ := promise run returned rfl
  have wrote : Wrote st.history m i data := ⟨writer, path, mode, run.began_iff.mpr ⟨_, returned⟩, made⟩
  have some : data ≠ [] := by
    rintro rfl
    cases member
  obtain ⟨blocks, committed⟩ := blocks.resolve_left some
  have listed : st.server.svc.blockMap.getBlocks i = .ok blocks := by
    have located := (kept run).inv.getBlockLocations {} m committed
    rw [System.answer_getBlockLocations] at located
    exact congrArg Prod.fst located
  obtain ⟨b, inside, stamp⟩ := (exists_of_forall₂ (stamped_of_returned run returned wrote listed)).2 chunk member
  have same := stamp.onDisk.symm.trans (agree i wrote blocks listed b inside).onDisk
  rw [stamp.level] at same
  exact toByte_inj (Option.some.inj same)

theorem agree_of_tailKeeps (run : cluster.Run begins IdsLast st)
    (returned : st.tasks[m]? = some ⟨⟨writer, .writeFile path mode data⟩, .ret (.ok, out)⟩)
    (tail : BlockSplitter.TailKeepsLevel data.length) : LevelsAgree st m data := by
  intro i wrote blocks listed b inside
  have same := (BlockSplitter.levels_of_chunks data).mpr tail
  have stamped := stamped_of_returned run returned wrote listed
  obtain ⟨chunk, member, stamp⟩ := (exists_of_forall₂ stamped).1 b inside
  refine ⟨fun slice there => ?_, ?_⟩
  · rw [stamp.level, BlockSplitter.level_of_mem_split there]
  · rw [stamp.onDisk, same chunk member, stamp.level]

/-- **The levels agree exactly if the tail of the file keeps the level**, from when a write has
returned `kOk` on, whatever other calls do. -/
theorem levels_agree_iff (run : cluster.Run begins IdsLast st)
    (returned : st.tasks[m]? = some ⟨⟨writer, .writeFile path mode data⟩, .ret (.ok, out)⟩) :
    LevelsAgree st m data ↔ BlockSplitter.TailKeepsLevel data.length :=
  ⟨tailKeeps_of_agree run returned, agree_of_tailKeeps run returned⟩

end

/-- A byte is one block. -/
theorem levels_agree_byte : ∃ (st : State) (out : List UInt8),
    st.tasks = [⟨⟨{ initialized := true }, .writeFile ['/', 'a'] 0o644 [7]⟩, .ret (.ok, out)⟩] ∧
      (LevelsAgree st 0 [7] ↔ BlockSplitter.TailKeepsLevel [(7 : UInt8)].length) := by
  obtain ⟨slice, one⟩ := List.length_eq_one_iff.mp (show (BlockSplitter.split [7].length [7]).length = 1 by decide)
  obtain ⟨st, out, run, tasks⟩ := @exists_run_single (fun _ _ => True) { initialized := true } rfl 0o644 [7] slice
    one fun _ _ => trivial
  exact ⟨st, out, tasks, levels_agree_iff run (by rw [tasks]; rfl)⟩

/-- A file of 32 MiB and one byte has a block of 32 MiB and one of a byte: the disk has level
L0 for it, the metadata L3. -/
theorem one_byte_tail_loses_level :
    ¬ ∀ (st : State) (m : Nat) (writer : OpenFSClient) (path : Str) (mode : UInt32) (data out : List UInt8),
      cluster.Run (fun _ _ => True) (fun _ _ => True) st →
        st.tasks[m]? = some ⟨⟨writer, .writeFile path mode data⟩, .ret (.ok, out)⟩ → LevelsAgree st m data := by
  intro claim
  obtain ⟨data, length⟩ : ∃ data : List UInt8, data.length = 33554433 := ⟨.replicate _ 0, List.length_replicate⟩
  have two : (BlockSplitter.split data.length data).length = 2 := by
    rw [BlockSplitter.length_split, length]
    decide
  have nonempty : BlockSplitter.split data.length data ≠ [] := by
    intro none
    rw [none] at two
    cases two
  obtain ⟨st, out, run, tasks⟩ :=
    @exists_run_taken (fun _ _ => True) { initialized := true } rfl 0o644 data nonempty
    (by rw [two]; decide) fun _ _ => trivial
  have returned : st.tasks[0]? = some ⟨⟨{ initialized := true }, .writeFile ['/', 'a'] 0o644 data⟩,
    .ret (.ok, out)⟩ := by
    rw [tasks]
    rfl
  have agree := claim st 0 _ _ _ data out (run.mono (fun _ _ => id) fun _ _ _ => trivial) returned
  have tail := tailKeeps_of_agree run returned agree
  rw [length] at tail
  have short := tail (by decide) (by decide)
  revert short
  decide

end Cluster

end OpenFS
