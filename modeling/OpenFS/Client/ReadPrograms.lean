import OpenFS.Client.ReadCheck
import OpenFS.Client.WritePrograms
import OpenFS.Meta.CommitSize

/-!
# `ReadFile` among others

A file with committed blocks is read whatever the others do. What comes out are the
chunks that its maker put, and these are the data as long as they fit the blocks.
-/

namespace OpenFS.Cluster

open Requests OpenFSClient ReadCheck

/-- Chunks that fit are copied whole. -/
theorem copies_of_fit {size off : Nat} {chunks : List (List UInt8)} (wide : size < 2 ^ 64)
    (short : ∀ c ∈ chunks, c.length < 2 ^ 32) (fit : off + chunks.flatten.length ≤ size) :
    copies size off chunks = chunks := by
  induction chunks generalizing off with
  | nil => rfl
  | cons c rest ih =>
    obtain ⟨first, others⟩ := List.forall_mem_cons.mp short
    rw [List.flatten_cons, List.length_append] at fit
    have copied : copySize size off c.length = c.length := by
      rw [(copySize_le c.length (by omega) wide).1, Nat.min_eq_left (by omega)]
      exact Nat.mod_eq_of_lt first
    have next : u64 (off + c.length) = off + c.length := Nat.mod_eq_of_lt (by omega)
    rw [copies, copied, List.take_length, next, ih others (by omega)]

/-- No more is copied than fits. -/
theorem length_copies_le {size off : Nat} (wide : size < 2 ^ 64) (fits : off ≤ size) (chunks : List (List UInt8)) :
    off + (copies size off chunks).flatten.length ≤ size := by
  induction chunks generalizing off with
  | nil => exact fits
  | cons c rest ih =>
    obtain ⟨-, short, inside⟩ := copySize_le c.length fits wide
    have next : u64 (off + copySize size off c.length) = off + copySize size off c.length :=
      Nat.mod_eq_of_lt (by omega)
    have later := ih inside
    rw [copies, next, List.flatten_cons, List.length_append, List.length_take, Nat.min_eq_left short]
    omega

/-- Nor more than there is. -/
theorem length_copies_le_flatten (size off : Nat) (chunks : List (List UInt8)) :
    (copies size off chunks).flatten.length ≤ chunks.flatten.length := by
  induction chunks generalizing off with
  | nil => exact Nat.le_refl _
  | cons c rest ih =>
    rw [copies, List.flatten_cons, List.flatten_cons, List.length_append, List.length_append, List.length_take]
    exact Nat.add_le_add (Nat.min_le_right _ _) (ih _)

theorem length_assemble {size : Nat} (wide : size < 2 ^ 64) {out : List UInt8} (sized : out.length = size)
    (chunks : List (List UInt8)) : (assemble size 0 chunks out).length = size := by
  have inside := length_copies_le wide (Nat.zero_le size) chunks
  rw [assemble_eq (Nat.zero_le _) wide sized, List.length_append, List.length_append, List.length_take,
    List.length_drop]
  omega

/-- Behind the chunks the output stays as it was. -/
theorem getElem?_assemble {size : Nat} (wide : size < 2 ^ 64) {out : List UInt8} (sized : out.length = size)
    {chunks : List (List UInt8)} {j : Nat} (behind : chunks.flatten.length ≤ j) :
    (assemble size 0 chunks out)[j]? = out[j]? := by
  have copied := length_copies_le_flatten size 0 chunks
  rw [assemble_eq (Nat.zero_le _) wide sized, List.take_zero, List.nil_append, Nat.zero_add,
    List.getElem?_append_right (by omega), List.getElem?_drop]
  congr 1
  omega

variable {k : Nat} {h : Log}

/-- Step 3: whatever was put is read and copied. -/
theorem achieves_readBlocks {size : Nat} (wide : size < 2 ^ 64) {blocks : List BlockMeta}
    {chunks : List (List UInt8)} (spell : Spell h blocks chunks) (client : OpenFSClient) {off : Nat}
    {out : List UInt8} (fits : off ≤ size) (sized : out.length = size) :
    Achieves k (fun r _ => r.1 = .ok ∧ r.2.1 = assemble size off chunks out)
      (readBlocks size client blocks off out) h := by
  induction blocks generalizing h chunks client off out with
  | nil =>
    cases spell
    exact meets_pure fun _ _ => ⟨rfl, rfl⟩
  | cons b blocks ih =>
    obtain ⟨bytes, rest, put, others, rfl⟩ := List.forall₂_cons_left_iff.mp spell
    obtain ⟨-, short, inside⟩ := copySize_le bytes.length fits wide
    have next : u64 (off + copySize size off bytes.length) = off + copySize size off bytes.length :=
      Nat.mod_eq_of_lt (by omega)
    have copied : (bytes.take (copySize size off bytes.length)).length = copySize size off bytes.length := by
      rw [List.length_take, Nat.min_eq_left short]
    have kept : (copyAt out off (bytes.take (copySize size off bytes.length))).length = size := by
      rw [length_copyAt, sized]
      rw [copied, sized]
      exact inside
    have whole : bytes.take (u32 bytes.length) = bytes := by
      have small := b.size.toNat_lt
      rw [put.size] at small
      rw [show u32 bytes.length = bytes.length from Nat.mod_eq_of_lt small, List.take_length]
    rw [readBlocks]
    generalize client.dataAddr b.nodeId = found
    obtain ⟨addr, client⟩ := found
    dsimp only
    refine meets_call_bind fun h' sys r since sound _ => ?_
    have answer : cluster.answer r sys (.readBlock addr b.segmentId b.offset) = (.ok (bytes, b.crc32), sys) :=
      sound.readBlock r (put.mono since.subset) addr
    rw [answer]
    refine ⟨sound.read (by exact trivial) rfl, ?_⟩
    dsimp only
    rw [whole, put.crc32, if_neg (by simp), assemble, next, if_pos (by rw [sized]; exact inside)]
    exact ih (Spell.mono others (List.subset_cons_of_subset _ since.subset)) client inside kept

/-! ## A committed file -/

/-- What block locations the service knows for a file. -/
theorem Sound.located {sys : System} (sound : Sound h sys) (r : Readings) (i : UInt64) :
    ((∀ j blocks, ¬ Committed h j i blocks) ∧ sys.answer r (.getBlockLocations i) = (.error .notFound, sys)) ∨
      ∃ j data blocks, Wrote h j i data ∧ Committed h j i blocks ∧ blocks ≠ [] ∧
        Spell h blocks (BlockSplitter.chunks data) ∧ sys.answer r (.getBlockLocations i) = (.ok blocks, sys) := by
  cases listed : sys.svc.blockMap.inodeBlocks i with
  | none =>
    refine .inl ⟨fun j blocks committed => ?_, ?_⟩
    · rw [(sound.mapped.listed j i blocks committed).1] at listed
      cases listed
    · rw [System.answer_getBlockLocations, BlockMap.getBlocks, listed]
  | some ids =>
    obtain ⟨j, blocks, committed⟩ := sound.mapped.committed i ids listed
    obtain ⟨data, wrote, -, nonempty, spell⟩ := sound.earned j i blocks committed
    exact .inr ⟨j, data, blocks, wrote, committed, nonempty, spell, sound.getBlockLocations r j committed⟩

theorem Spell.sum {blocks : List BlockMeta} {chunks : List (List UInt8)} (spell : Spell h blocks chunks) :
    (blocks.map fun b => b.size.toNat).sum = chunks.flatten.length := by
  induction spell with
  | nil => rfl
  | cons put _ ih => rw [List.map_cons, List.sum_cons, List.flatten_cons, List.length_append, put.size, ih]

/-- The file has the size of the data, be it that of the creation or of the commit. -/
theorem Sound.size {sys : System} (sound : Sound h sys) {j : Nat} {i size : UInt64} {data : List UInt8}
    {blocks : List BlockMeta} (wrote : Wrote h j i data) (committed : Committed h j i blocks)
    (spell : Spell h blocks (BlockSplitter.chunks data)) (sized : Sized h i size)
    (small : data.length ≤ BlockSplitter.maxSplit) : size = UInt64.ofNat data.length := by
  obtain ⟨k', path, made, file, origin⟩ := sized
  rcases origin with rfl | ⟨k'', blocks', committed', rfl⟩
  · obtain ⟨_, _, _, -, mine⟩ := wrote
    exact (file.unique sound.names.distinct mine).2.2
  · have answers := (sound.getBlockLocations {} k'' committed').symm.trans (sound.getBlockLocations {} j committed)
    obtain rfl : blocks' = blocks := by
      injection (Prod.mk.inj answers).1
    apply UInt64.toNat_inj.mp
    rw [MetaService.totalSize_toNat, spell.sum, UInt64.toNat_ofNat']
    exact congrArg (fun bytes => List.length bytes % 2 ^ 64) (BlockSplitter.stored_eq_self small)

/-- Data that fits has a 64-bit length. -/
theorem toNat_length {data : List UInt8} (small : data.length ≤ BlockSplitter.maxSplit) :
    (UInt64.ofNat data.length).toNat = data.length := by
  rw [UInt64.toNat_ofNat', Nat.mod_eq_of_lt]
  exact Nat.lt_of_le_of_lt small (by decide)

/-- The chunks fill the output. -/
theorem assemble_chunks {data out : List UInt8} (small : data.length ≤ BlockSplitter.maxSplit)
    (sized : out.length = (UInt64.ofNat data.length).toNat) :
    assemble (UInt64.ofNat data.length).toNat 0 (BlockSplitter.chunks data) out = data := by
  have whole : (BlockSplitter.chunks data).flatten = data := BlockSplitter.stored_eq_self small
  have wide := (UInt64.ofNat data.length).toNat_lt
  rw [toNat_length small] at sized wide ⊢
  have copied : copies data.length 0 (BlockSplitter.chunks data) = BlockSplitter.chunks data :=
    copies_of_fit wide (fun c member => Nat.lt_trans (BlockSplitter.short_of_mem_chunks member)
      (by decide)) (Nat.le_of_eq (by rw [whole, Nat.zero_add]))
  rw [assemble_eq (Nat.zero_le _) wide sized, copied, whole, Nat.zero_add, List.drop_of_length_le (by omega)]
  simp

/-- Steps 2 and 3 of `ReadFile`. -/
def readLocated (client : OpenFSClient) (i size : UInt64) (outData : List UInt8) :
    ClientProg (Status × List UInt8 × OpenFSClient) := do
  match ← MetaConnection.getBlockLocations i with
  | .error s => pure (s, outData, client)
  | .ok blocks =>
    if blocks = [] then pure (.notFound, outData, client)
    else readBlocks size.toNat client blocks 0 (resize outData size.toNat)

/-- `ReadFile` once the inode is looked up. -/
def readFound (client : OpenFSClient) (outData : List UInt8) :
    Except Status Inode → ClientProg (Status × List UInt8 × OpenFSClient)
  | .error s => pure (s, outData, client)
  | .ok inode => if inode.size = 0 then pure (.ok, [], client)
    else readLocated client inode.inodeId inode.size outData

theorem readFile_eq {client : OpenFSClient} (ready : client.initialized = true) (path : Str)
    (outData : List UInt8) :
    client.readFile path outData = MetaConnection.getFileInfo path >>= readFound client outData := by
  unfold readFile
  rw [if_neg (by simp [ready])]
  congr 1

/-- The chunks that blocks spell are read and laid out. -/
theorem achieves_readSpelled (client : OpenFSClient) {blocks : List BlockMeta} {chunks : List (List UInt8)}
    (spell : Spell h blocks chunks) (nonempty : blocks ≠ []) (size : UInt64) (outData : List UInt8) :
    Achieves k (fun r _ => r.1 = .ok ∧ r.2.1 = assemble size.toNat 0 chunks (resize outData size.toNat))
      (if blocks = [] then pure (.notFound, outData, client)
        else readBlocks size.toNat client blocks 0 (resize outData size.toNat)) h := by
  rw [if_neg nonempty]
  exact achieves_readBlocks size.toNat_lt spell client (Nat.zero_le _) (length_resize outData size.toNat)

/-- A file that is committed is read. -/
theorem achieves_readCommitted (client : OpenFSClient) {j : Nat} {i : UInt64} {blocks : List BlockMeta}
    {chunks : List (List UInt8)} (committed : Committed h j i blocks) (spell : Spell h blocks chunks)
    (nonempty : blocks ≠ []) (size : UInt64) (outData : List UInt8) :
    Achieves k (fun r _ => r.1 = .ok ∧ r.2.1 = assemble size.toNat 0 chunks (resize outData size.toNat))
      (readLocated client i size outData) h := by
  refine meets_call_bind fun h' sys r since sound _ => ?_
  have answer : cluster.answer r sys (.getBlockLocations i) = (.ok blocks, sys) :=
    sound.getBlockLocations r j (since.subset committed)
  rw [answer]
  refine ⟨sound.read (by exact trivial) rfl, ?_⟩
  exact achieves_readSpelled client (spell.mono (List.subset_cons_of_subset _ since.subset)) nonempty size outData

/-- What is read is the data of the file's maker, if it fits. -/
theorem achieves_readLocated (client : OpenFSClient) (i size : UInt64) (outData : List UInt8) :
    Achieves k (fun r h' => r.1 = .ok → ∃ j data, Wrote h' j i data ∧
        (Sized h i size → data.length ≤ BlockSplitter.maxSplit → r.2.1 = data))
      (readLocated client i size outData) h := by
  refine meets_call_bind fun h' sys r since sound _ => ?_
  have kept : ∀ reply, Sound (.answered k (.getBlockLocations i) reply :: h') sys :=
    fun reply => sound.read (by exact trivial) rfl
  rcases sound.located r i with ⟨none, answer⟩ | ⟨j, data, blocks, wrote, committed, nonempty, spell, answer⟩
  · have answer : cluster.answer r sys (.getBlockLocations i) = (.error .notFound, sys) := answer
    rw [answer]
    exact ⟨kept _, meets_pure fun h'' _ ok => by cases ok⟩
  · have answer : cluster.answer r sys (.getBlockLocations i) = (.ok blocks, sys) := answer
    rw [answer]
    refine ⟨kept _, ?_⟩
    have sub := List.subset_cons_self (.answered k (.getBlockLocations i) (.ok blocks)) h'
    refine (achieves_readSpelled client (spell.mono sub) nonempty size outData).grown.mono
      fun result h'' done _ => ?_
    obtain ⟨⟨-, out⟩, later⟩ := done
    refine ⟨j, data, wrote.mono (List.Subset.trans sub later), fun sized small => ?_⟩
    have length := sound.size wrote committed spell (sized.mono since.subset) small
    rw [out, length]
    exact assemble_chunks small (length_resize ..)

/-! ## The whole call -/

/-- The requests of steps 2 and 3. -/
def Reading : Rpc → Prop
  | .getBlockLocations .. => True
  | .readBlock .. => True
  | _ => False

theorem uses_readBlocks (size : Nat) (blocks : List BlockMeta) (client : OpenFSClient) (off : Nat)
    (out : List UInt8) : (readBlocks size client blocks off out).Uses Reading := by
  induction blocks generalizing client off out with
  | nil => exact Prog.uses_pure _ _
  | cons block blocks ih =>
    rw [readBlocks]
    refine Prog.uses_bind (Prog.uses_call trivial) fun reply => ?_
    rcases reply with s | ⟨blockData, blockCrc⟩
    · exact Prog.uses_pure _ _
    · dsimp only
      split
      · exact Prog.uses_pure _ _
      · exact ih _ _ _

theorem uses_readLocated (client : OpenFSClient) (i size : UInt64) (outData : List UInt8) :
    (readLocated client i size outData).Uses Reading := by
  refine Prog.uses_bind (Prog.uses_call trivial) fun reply => ?_
  rcases reply with s | blocks
  · exact Prog.uses_pure _ _
  · dsimp only
    split
    · exact Prog.uses_pure _ _
    · exact uses_readBlocks _ _ _ _ _

def IsLookup : Rpc → Prop
  | .getFileInfo .. => True
  | _ => False

theorem not_isLookup {q : Rpc} (reading : Reading q) : ¬ IsLookup q := by
  cases q with
  | getFileInfo => exact reading.elim
  | _ => exact id

/-- What is looked up is in the table. -/
theorem inodes_of_lookup {ns : NamespaceManager} {path : Str} {inode : Inode}
    (found : ns.lookup path = .ok inode) :
    ∃ i, ns.inodeTable.inodes i = some inode := by
  unfold NamespaceManager.lookup at found
  split at found
  · exact ⟨_, InodeTable.get_eq_ok.mp found⟩
  · split at found
    · cases found
    · split at found
      · cases found
      · split at found
        · cases found
        · exact ⟨_, InodeTable.get_eq_ok.mp found⟩

/-- The regular file that a lookup finds has the size of its creation or of a commit. -/
theorem Sound.sized {sys : System} (sound : Sound h sys) {path : Str} {inode : Inode}
    (found : sys.svc.namespaceMgr.lookup path = .ok inode) (regular : inode.fileType = .regular) :
    Sized h inode.inodeId inode.size := by
  obtain ⟨i, live⟩ := inodes_of_lookup found
  obtain rfl := sound.names.consistent.keyed live
  exact sound.names.sized _ inode live regular

/-- **A read that returns `kOk` returns what was written to the file that it looked up.** -/
theorem achieves_readFile (client : OpenFSClient) (path : Str) (outData : List UInt8)
    (first : ∀ q reply, .answered k q reply ∉ h) :
    Achieves k (fun r h' => r.1 = .ok → ∀ inode, .answered k (.getFileInfo path) (.ok inode) ∈ h' →
        inode.fileType = .regular → inode.size ≠ 0 →
        ∃ j data, Wrote h' j inode.inodeId data ∧ (data.length ≤ BlockSplitter.maxSplit → r.2.1 = data))
      (client.readFile path outData) h := by
  by_cases ready : client.initialized = true
  · rw [readFile_eq ready]
    refine meets_call_bind fun h' sys r since sound _ => ?_
    have answer : cluster.answer r sys (.getFileInfo path) = (sys.svc.namespaceMgr.lookup path, sys) := rfl
    rw [answer]
    refine ⟨sound.read (by exact trivial) rfl, ?_⟩
    have only : ∀ reply' h'', Without IsLookup k (.answered k (.getFileInfo path)
        (sys.svc.namespaceMgr.lookup path) :: h') h'' → .answered k (.getFileInfo path) reply' ∈ h'' →
        reply' = sys.svc.namespaceMgr.lookup path := by
      intro reply' h'' without there
      rcases List.mem_cons.mp (without.none (.getFileInfo path) reply' trivial there) with new | old
      · cases new
        rfl
      · exact absurd ((since.mem_iff rfl).mp old) (first _ _)
    generalize found : sys.svc.namespaceMgr.lookup path = reply at only ⊢
    rcases reply with s | inode
    · refine meets_pure fun h'' later _ inode there => ?_
      cases only _ h'' ((Without.refl _ _ _).since later) there
    · unfold readFound
      dsimp only
      split
      · next empty =>
        refine meets_pure fun h'' later _ inode' there _ nonempty => ?_
        cases only _ h'' ((Without.refl _ _ _).since later) there
        exact absurd empty nonempty
      · have read := achieves_readLocated (k := k) (h := .answered k (.getFileInfo path) (.ok inode) :: h') client
          inode.inodeId inode.size outData
        refine (read.without ((uses_readLocated _ _ _ _).mono fun _ => not_isLookup) (.refl _ _ _)).mono ?_
        rintro result h'' ⟨reads, calm⟩ ok inode' there regular _
        cases only _ h'' calm there
        obtain ⟨j, data, wrote, whole⟩ := reads ok
        exact ⟨j, data, wrote, whole ((sound.sized found regular).mono (List.subset_cons_self _ _))⟩
  · unfold readFile
    rw [if_pos (by simpa using ready)]
    exact meets_pure fun _ _ ok => by cases ok

end OpenFS.Cluster
