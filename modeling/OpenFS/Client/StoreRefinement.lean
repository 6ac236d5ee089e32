import OpenFS.Client.SingleWrite
import OpenFS.Client.StoreRelation

/-!
# The cluster is a file store

Each client's program follows the store's program of the same operation, so whatever is seen
of a cluster, the calls and their results in any order, can be seen of clients at the store.
-/

namespace OpenFS.Cluster

open Requests OpenFSClient NamespaceManager ReadCheck

abbrev Tracks (k : Nat) (p : ClientProg Outcome) (p' : StoreProg Outcome) (h : Log) : Prop :=
  Setting.Follows cluster fileStore IdsLast FileStore.IdsLast Sound Shows k p p' h

abbrev Settled (k : Nat) (p : ClientProg Outcome) (p' : StoreProg Outcome) (h : Log) : Prop :=
  Setting.Settles cluster fileStore IdsLast FileStore.IdsLast Sound Shows k p p' h

variable {h : Log} {k : Nat}

/-- Requests that leave the store. -/
theorem silent_of_steady {q : Rpc} (steady : Steady q) : Setting.Silent cluster IdsLast Sound Shows k q :=
  fun _ _ _ r _ shows _ => shows.steady r steady

theorem Shows.idsLast {sys : System} {store : FileStore} (shows : Shows h sys store)
    (room : sys.svc.inodeTable.nextInodeId.toNat + 1 < 2 ^ 64) : store.tree.next.toNat + 1 < 2 ^ 64 := by
  rw [shows.tree]
  exact room

/-! ## Operations of one step -/

/-- One request, answered with what a step of the store answers. -/
theorem tracks_step (q : Rpc) (q' : StoreReq) (view : q.Reply → Status) (status : q'.Reply → Status)
    (answered : ∀ h sys store r, Sound h sys → Shows h sys store → IdsLast sys q →
      FileStore.IdsLast store q' ∧ view (sys.answer r q).1 = status (FileStore.answer .ok store q').1 ∧
        Shows (.answered k q (sys.answer r q).1 :: h) (sys.answer r q).2 (FileStore.answer .ok store q').2) :
    Tracks k (Prog.call q >>= fun reply => pure (view reply, [])) (FileStore.step q' status) h := by
  refine ⟨trivial, fun h' sys store r _ sound shows admitted => ?_⟩
  obtain ⟨room, same, shows'⟩ := answered h' sys store r sound shows admitted
  refine ⟨_, _, .step (.ok : Status) room (.refl _ _), shows', ?_⟩
  show Prog.ret (status (FileStore.answer .ok store q').1, []) = Prog.ret (view (sys.answer r q).1, [])
  rw [same]

theorem tracks_createFile (path : Str) (mode : UInt32) (size : UInt64) :
    Tracks k (Prog.call (Rpc.createFile path mode 0 0 size) >>= fun reply => pure (statusOf reply, []))
      (FileStore.step (.create path size) statusOf) h := by
  refine tracks_step (.createFile path mode 0 0 size) (.create path size) statusOf statusOf
    fun h sys store r sound shows admitted => ?_
  obtain ⟨after, created, shows'⟩ := shows.createFile (k := k) sound r path mode 0 0 size admitted
  have answer : FileStore.answer .ok store (.create path size) = store.create path size := rfl
  rw [answer, created]
  refine ⟨shows.idsLast admitted, ?_, shows'⟩
  cases (sys.answer r (.createFile path mode 0 0 size)).1 <;> rfl

theorem tracks_mkDir (path : Str) (mode : UInt32) :
    Tracks k (Prog.call (Rpc.mkDir path mode 0 0) >>= fun reply => pure (statusOf reply, []))
      (FileStore.step (.change (.mkDir path mode 0 0)) id) h :=
  tracks_step (.mkDir path mode 0 0) (.change (.mkDir path mode 0 0)) statusOf id
    fun _ _ _ r sound shows admitted => ⟨shows.idsLast admitted, shows.mkDir sound r path mode 0 0 admitted⟩

/-- A call of the namespace that only returns a status. -/
theorem tracks_change (q : Rpc) (now : Readings → UInt64) (call : Call) (view : q.Reply → Status)
    (creates : call.creates = false) (calm : ∀ reply, Calm (.answered k q reply))
    (answer : ∀ (sys : System) (r : Readings), view (sys.answer r q).1 = (sys.svc.namespaceMgr.exec (now r) call).1 ∧
      (sys.answer r q).2 = { sys with svc := { sys.svc with
        namespaceMgr := (sys.svc.namespaceMgr.exec (now r) call).2 } }) :
    Tracks k (Prog.call q >>= fun reply => pure (view reply, [])) (FileStore.step (.change call) id) h := by
  refine tracks_step q (.change call) view id fun h sys store r sound shows _ => ?_
  obtain ⟨status, left⟩ := answer sys r
  obtain ⟨same, shows'⟩ := shows.change sound (now r) creates (calm (sys.answer r q).1)
  rw [left, status]
  refine ⟨?_, same, shows'⟩
  cases call <;> trivial

theorem tracks_getFileInfo (path : Str) :
    Tracks k (Prog.call (Rpc.getFileInfo path) >>= fun reply => pure (statusOf reply, []))
      (FileStore.step (.find path) statusOf) h := by
  refine tracks_step (.getFileInfo path) (.find path) statusOf statusOf fun h sys store r sound shows _ => ?_
  have looked := lookup_tree sound.names.consistent path
  rw [← shows.tree] at looked
  refine ⟨trivial, ?_, shows.steady r (q := .getFileInfo path) trivial⟩
  show statusOf (sys.svc.namespaceMgr.lookup path) = statusOf (store.tree.lookup path)
  rw [← looked]
  cases sys.svc.namespaceMgr.lookup path <;> rfl

theorem tracks_readDir (path : Str) :
    Tracks k (Prog.call (Rpc.readDir path) >>= fun reply => pure (statusOf reply, []))
      (FileStore.step (.list path) id) h := by
  refine tracks_step (.readDir path) (.list path) statusOf id fun h sys store r sound shows _ => ?_
  have reads := reads_tree sound.names.consistent path
  refine ⟨trivial, ?_, shows.steady r (q := .readDir path) trivial⟩
  show statusOf (sys.svc.namespaceMgr.readDir path) = statusOf (store.tree.openDir path)
  rw [shows.tree]
  cases opened : sys.svc.namespaceMgr.tree.openDir path with
  | error s => rw [reads.refused s opened]; rfl
  | ok c =>
    obtain ⟨entries, read, -⟩ := reads.listed c opened
    rw [read]
    rfl

/-! ## Writing -/

/-- Data that is refused leaves the store. -/
theorem settled_refused {i : UInt64} {data : List UInt8} {s : Status} (refused : s ≠ .ok) :
    Settled k (.ret (s, [])) (.ask (.publish i data) fun s => pure (s, [])) h := by
  intro sys store sound shows
  have answer : FileStore.answer s store (.publish i data) = (s, store) := by
    show FileStore.publish s store i data = _
    cases s with
    | ok => exact absurd rfl refused
    | _ => rfl
  have reached : fileStore.Reaches FileStore.IdsLast _ _ _ _ := .once (StoreReq.publish i data)
    (fun s => (pure (s, []) : StoreProg Outcome)) store s trivial
  rw [show fileStore.answer s store (.publish i data) = (s, store) from answer] at reached
  exact ⟨_, _, reached, shows, rfl⟩

/-- Step 5 publishes the data. -/
theorem tracks_commit (client : OpenFSClient) {i : UInt64} {data : List UInt8} {committed : List BlockMeta}
    (wrote : Wrote h k i data) (first : Uncommitted h k) :
    Tracks k (MetaConnection.commitBlocks i committed >>= fun s => pure (s, client) >>= fun r => pure (r.1, []))
      (.ask (.publish i data) fun s => pure (s, [])) h := by
  refine ⟨trivial, fun h' sys store r since sound shows _ => ?_⟩
  have still : Uncommitted h' k := first.without ((Without.refl IsCommit k h).since since)
  have shows' := shows.commitBlocks sound r committed (wrote.mono since.subset) still
  have answered : (sys.answer r (.commitBlocks i committed)).1 = .ok :=
    congrArg Prod.fst (System.answer_commitBlocks r sys i committed)
  refine ⟨_, _, .step (.ok : Status) trivial (.refl _ _), shows', ?_⟩
  show Prog.ret _ = Prog.ret ((sys.answer r (.commitBlocks i committed)).1, [])
  rw [answered]
  rfl

theorem uses_writeBlocks_of {P : Rpc → Prop}
    (all : ∀ addr blockId segmentId bytes crc32, P (.writeBlock addr blockId segmentId bytes crc32))
    (data : List UInt8) (pairs : List (BlockMeta × BlockSlice)) (client : OpenFSClient)
    (committed : List BlockMeta) : (writeBlocks data client pairs committed).Uses P := by
  induction pairs generalizing client committed with
  | nil => exact Prog.uses_pure _ _
  | cons pair rest ih =>
    obtain ⟨alloc, slice⟩ := pair
    rw [writeBlocks]
    refine Prog.uses_bind (Prog.uses_call (all _ _ _ _ _)) fun reply => ?_
    rcases reply with s | ⟨segmentId, offset⟩
    · exact Prog.uses_pure _ _
    · exact ih _ _

theorem waits_writeBlocks (data : List UInt8) (pair : BlockMeta × BlockSlice)
    (pairs : List (BlockMeta × BlockSlice)) (client : OpenFSClient) (committed : List BlockMeta) :
    (writeBlocks data client (pair :: pairs) committed).Waits := trivial

/-- Data that fits and is not empty has slices. -/
theorem split_ne_nil {data : List UInt8} (some : data ≠ []) (small : data.length ≤ BlockSplitter.maxSplit) :
    BlockSplitter.split data.length data ≠ [] := by
  intro none
  apply some
  have whole := BlockSplitter.stored_eq_self small
  unfold BlockSplitter.stored BlockSplitter.chunks at whole
  rw [none] at whole
  exact whole.symm

/-- Step 5, if all blocks were written. -/
def commitWritten (i : UInt64) : Except Status (List BlockMeta) × OpenFSClient → ClientProg (Status × OpenFSClient)
  | (.error s, client) => pure (s, client)
  | (.ok committed, client) => do
    let s ← MetaConnection.commitBlocks i committed
    pure (s, client)

/-- Steps 3 to 5. -/
def writeAllotted (client : OpenFSClient) (i : UInt64) (data : List UInt8) (slices : List BlockSlice) :
    Except Status (List BlockMeta) → ClientProg (Status × OpenFSClient)
  | .error s => pure (s, client)
  | .ok allocated =>
    if allocated.length ≠ slices.length then pure (.internal, client)
    else writeBlocks data client (allocated.zip slices) [] >>= commitWritten i

theorem writeData_eq (client : OpenFSClient) (inode : Inode) (data : List UInt8) {slice : BlockSlice}
    {slices : List BlockSlice} (split : BlockSplitter.split data.length data = slice :: slices) :
    client.writeData inode data =
      MetaConnection.allocateBlocks inode.inodeId (UInt32.ofNat (slice :: slices).length) slice.level >>=
        writeAllotted client inode.inodeId data (slice :: slices) := by
  unfold writeData
  dsimp only
  rw [split]
  rfl

/-- Steps 4 and 5. -/
theorem tracks_writeBlocks (client : OpenFSClient) {i : UInt64} {data : List UInt8} {slice : BlockSlice}
    {slices : List BlockSlice} {allocated : List BlockMeta}
    (fits : ∀ s ∈ slice :: slices, BlockSplitter.Describes s (s.bytes data))
    (length : allocated.length = (slice :: slices).length) (wrote : Wrote h k i data) (first : Uncommitted h k) :
    Tracks k (writeBlocks data client (allocated.zip (slice :: slices)) [] >>= fun written =>
        commitWritten i written >>= fun r => pure (r.1, []))
      (.ask (.publish i data) fun s => pure (s, [])) h := by
  have fitting : ∀ pair ∈ allocated.zip (slice :: slices), BlockSplitter.Describes pair.2 (pair.2.bytes data) :=
    fun pair member => fits pair.2 (List.of_mem_zip member).2
  have written := achieves_writeBlocks (k := k) data fitting client (⟨.nil, rfl⟩ : Spelled h [] [] [])
  have waits : (writeBlocks data client (allocated.zip (slice :: slices)) []).Waits := by
    obtain ⟨alloc, rest, rfl⟩ := List.exists_cons_of_length_eq_add_one length
    rw [List.zip_cons_cons]
    exact waits_writeBlocks ..
  refine Setting.follows_bind (written.without (uses_writeBlocks data _ client []) (.refl IsCommit k _))
    (uses_writeBlocks_of (fun _ _ _ _ _ => silent_of_steady trivial) data _ client []) waits trivial ?_
  rintro ⟨out, client⟩ h' ⟨⟨refused, -⟩, later⟩
  cases out with
  | error s =>
    refine settled_refused ?_
    rintro rfl
    exact refused rfl
  | ok committed => exact (tracks_commit client (wrote.mono later.sub) (first.without later)).settles

/-- Steps 2 to 5. -/
theorem tracks_writeData (client : OpenFSClient) {inode : Inode} {data : List UInt8} (some : data ≠ [])
    (small : data.length ≤ BlockSplitter.maxSplit) (wrote : Wrote h k inode.inodeId data)
    (first : Uncommitted h k) :
    Tracks k (client.writeData inode data >>= fun r => pure (r.1, []))
      (.ask (.publish inode.inodeId data) fun s => pure (s, [])) h := by
  obtain ⟨slice, slices, split⟩ := List.exists_cons_of_ne_nil (split_ne_nil some small)
  have fits : ∀ s ∈ slice :: slices, BlockSplitter.Describes s (s.bytes data) := by
    intro s member
    rw [← split] at member
    exact BlockSplitter.describes_of_mem_split member
  rw [writeData_eq client inode data split, Prog.bind_assoc]
  refine ⟨trivial, fun h' sys store r since sound shows admitted => ?_⟩
  have still := shows.steady r (k := k)
    (q := .allocateBlocks inode.inodeId (UInt32.ofNat (slice :: slices).length) slice.level) trivial
  have kept := sound.plain r k
    (q := .allocateBlocks inode.inodeId (UInt32.ofNat (slice :: slices).length) slice.level) trivial admitted
  have without : Without IsCommit k h h' := (Without.refl _ k h).since since
  have before := without.answered (q := .allocateBlocks inode.inodeId (UInt32.ofNat (slice :: slices).length)
    slice.level) id
  generalize given : (sys.answer r (.allocateBlocks inode.inodeId (UInt32.ofNat (slice :: slices).length)
    slice.level)).1 = reply at still kept
  rw [show (cluster.answer r sys (.allocateBlocks inode.inodeId (UInt32.ofNat (slice :: slices).length)
    slice.level)).1 = reply from given]
  suffices settled : Settled k (writeAllotted client inode.inodeId data (slice :: slices) reply >>=
      fun r => pure (r.1, [])) (.ask (.publish inode.inodeId data) fun s => pure (s, []))
      (.answered k (.allocateBlocks inode.inodeId (UInt32.ofNat (slice :: slices).length) slice.level) reply :: h')
    from settled _ _ kept still
  rcases reply with s | allocated
  · refine settled_refused ?_
    rw [System.answer_allocateBlocks] at given
    exact BlockAllocator.allocate_error given
  · rw [writeAllotted]
    by_cases same : allocated.length = (slice :: slices).length
    · rw [if_neg (not_not.mpr same), Prog.bind_assoc]
      exact (tracks_writeBlocks client fits same (wrote.mono (before _).sub) (first.without (before _))).settles
    · rw [if_pos same]
      exact settled_refused (s := .internal) (by decide)

/-- Steps 2 to 5, once the file is made. -/
def writeMade (client : OpenFSClient) (data : List UInt8) :
    Except Status Inode → ClientProg (Status × OpenFSClient)
  | .error s => pure (s, client)
  | .ok inode => if data = [] then pure (.ok, client) else client.writeData inode data

theorem writeFile_eq {client : OpenFSClient} (ready : client.initialized = true) (path : Str) (mode : UInt32)
    (data : List UInt8) : client.writeFile path mode data =
      MetaConnection.createFile path mode 0 0 (UInt64.ofNat data.length) >>= writeMade client data := by
  unfold writeFile
  rw [if_neg (by simp [ready])]
  rfl

theorem tracks_writeFile {client : OpenFSClient} (ready : client.initialized = true) (path : Str) (mode : UInt32)
    {data : List UInt8} (small : data.length ≤ BlockSplitter.maxSplit)
    (began : .began k ⟨client, .writeFile path mode data⟩ ∈ h) (first : Uncommitted h k) :
    Tracks k (client.writeFile path mode data >>= fun r => pure (r.1, [])) (FileStore.writeFile path data) h := by
  rw [writeFile_eq ready, Prog.bind_assoc]
  refine ⟨trivial, fun h' sys store r since sound shows admitted => ?_⟩
  obtain ⟨after, created, shows'⟩ := shows.createFile (k := k) sound r path mode 0 0 (UInt64.ofNat data.length)
    admitted
  have reaches : fileStore.Reaches FileStore.IdsLast _ _ _ _ := .once (StoreReq.create path (UInt64.ofNat data.length))
    (FileStore.publishMade data) store (.ok : Status) (shows.idsLast admitted)
  rw [show fileStore.answer .ok store (.create path (UInt64.ofNat data.length)) = _ from created] at reaches
  have still := ((Without.refl IsCommit k h).since since).answered
    (q := .createFile path mode 0 0 (UInt64.ofNat data.length)) id
  suffices tracks : ∀ reply, Tracks k (writeMade client data reply >>= fun r => pure (r.1, []))
      (FileStore.publishMade data (reply.map Inode.inodeId))
      (.answered k (.createFile path mode 0 0 (UInt64.ofNat data.length)) reply :: h') from
    ⟨_, _, reaches, shows', tracks _⟩
  intro reply
  rcases reply with s | inode
  · exact rfl
  · rw [writeMade, Except.map, FileStore.publishMade]
    by_cases some : data = []
    · rw [if_pos some, if_pos some]
      exact rfl
    · rw [if_neg some, if_neg some]
      refine tracks_writeData client some small ⟨client, path, mode, (still _).sub began, ?_⟩
        (first.without (still _))
      exact ⟨mode, 0, 0, inode, List.mem_cons_self, rfl⟩

/-! ## Reading -/

/-- What the store holds is fetched. -/
theorem reaches_fetch (store : FileStore) (i : UInt64) (outData : List UInt8) :
    fileStore.Reaches FileStore.IdsLast (.ask (.fetch i) fun content => pure (FileStore.outcome outData content))
      store (.ret (FileStore.outcome outData (store.content i))) store :=
  .once (StoreReq.fetch i) (fun content => (pure (FileStore.outcome outData content) : StoreProg Outcome)) store
    (.ok : Status) trivial

/-- The size of a file that has one says that its content is not there yet, or that it is. -/
theorem Shows.pending {sys : System} {store : FileStore} (shows : Shows h sys store) {i size : UInt64}
    (sized : Sized h i size) (none : ∀ j blocks, ¬ Committed h j i blocks) :
    store.content i = .blank size := by
  obtain ⟨j, path, made, file, rfl | ⟨j', blocks, committed, -⟩⟩ := sized
  · exact shows.holds.made j path size i file none
  · exact absurd committed (none j' blocks)

/-- Steps 2 and 3 fetch what the file holds. -/
theorem tracks_readLocated (client : OpenFSClient) {i size : UInt64} (outData : List UInt8) (sized : Sized h i size)
    (some : size ≠ 0) :
    Tracks k (readLocated client i size outData >>= fun r => pure (r.1, r.2.1))
      (.ask (.fetch i) fun content => pure (FileStore.outcome outData content)) h := by
  refine ⟨trivial, fun h' sys store r since sound shows admitted => ?_⟩
  have kept : ∀ reply, Sound (.answered k (.getBlockLocations i) reply :: h') sys :=
    fun reply => sound.read (by exact trivial) rfl
  have still : ∀ reply, Shows (.answered k (.getBlockLocations i) reply :: h') sys store :=
    fun reply => shows.same (by exact trivial) rfl
  rcases sound.located r i with ⟨none, answer⟩ | ⟨j, data, blocks, wrote, committed, nonempty, spell, answer⟩
  · have answer : cluster.answer r sys (.getBlockLocations i) = (.error .notFound, sys) := answer
    rw [answer]
    have held := shows.pending (sized.mono since.subset) none
    rw [Content.blank, if_neg some] at held
    have fetched := reaches_fetch store i outData
    rw [held] at fetched
    exact ⟨_, _, fetched, still _, rfl⟩
  · have answer : cluster.answer r sys (.getBlockLocations i) = (.ok blocks, sys) := answer
    rw [answer]
    have sub := List.subset_cons_self (.answered k (.getBlockLocations i) (.ok blocks)) h'
    have small : data.length ≤ BlockSplitter.maxSplit := by
      obtain ⟨_, _, _, began, -⟩ := wrote
      exact shows.begun.fits _ _ began
    have length := sound.size wrote committed spell (sized.mono since.subset) small
    refine ⟨_, _, .refl _ _, still _, ?_⟩
    show Tracks k ((if blocks = [] then pure (.notFound, outData, client)
      else readBlocks size.toNat client blocks 0 (resize outData size.toNat)) >>= fun r => pure (r.1, r.2.1)) _ _
    rw [if_neg nonempty]
    have waits : (readBlocks size.toNat client blocks 0 (resize outData size.toNat)).Waits := by
      obtain ⟨block, rest, rfl⟩ := List.exists_cons_of_ne_nil nonempty
      exact trivial
    refine Setting.follows_bind (achieves_readBlocks (k := k) size.toNat_lt (spell.mono sub) client (Nat.zero_le _)
      (length_resize outData size.toNat)).grown
      ((uses_readBlocks _ _ _ _ _).mono fun q reading => silent_of_steady ?_) waits trivial ?_
    · cases q with
      | getBlockLocations => trivial
      | readBlock => trivial
      | _ => exact reading.elim
    · rintro ⟨status, out, client⟩ h'' ⟨⟨rfl, rfl⟩, later⟩ sys' store' sound' shows'
      have held := shows'.holds.stored j i blocks data (later (sub committed)) (wrote.mono (List.Subset.trans sub later))
      have fetched := reaches_fetch store' i outData
      rw [held] at fetched
      refine ⟨_, _, fetched, shows', ?_⟩
      show Prog.ret _ = Prog.ret _
      dsimp only [FileStore.outcome]
      rw [length, assemble_chunks small (length_resize ..)]

/-- A node without a size holds nothing. -/
theorem Shows.hollow {sys : System} {store : FileStore} (shows : Shows h sys store) (sound : Sound h sys)
    {path : Str} {inode : Inode} (found : sys.svc.namespaceMgr.lookup path = .ok inode) (empty : inode.size = 0) :
    store.content inode.inodeId = .empty := by
  obtain ⟨i, live⟩ := inodes_of_lookup found
  obtain rfl := sound.names.consistent.keyed live
  by_cases regular : inode.fileType = .regular
  · have sized := sound.sized found regular
    rw [empty] at sized
    have none : ∀ j blocks, ¬ Committed h j inode.inodeId blocks := by
      intro j blocks committed
      obtain ⟨data, wrote, -, nonempty, spell⟩ := sound.earned j _ blocks committed
      have small : data.length ≤ BlockSplitter.maxSplit := by
        obtain ⟨_, _, _, began, -⟩ := wrote
        exact shows.begun.fits _ _ began
      have length := congrArg UInt64.toNat (sound.size wrote committed spell sized small)
      rw [toNat_length small] at length
      obtain rfl : data = [] := List.eq_nil_of_length_eq_zero length.symm
      exact nonempty (List.forall₂_nil_right_iff.mp spell)
    rw [shows.pending sized none]
    rfl
  · exact shows.holds.unmade _ fun k path size made => regular (shows.kinds.files k path size _ inode made live)

theorem tracks_readFile {client : OpenFSClient} (ready : client.initialized = true) (path : Str)
    (outData : List UInt8) :
    Tracks k (client.readFile path outData >>= fun r => pure (r.1, r.2.1)) (FileStore.readFile path outData) h := by
  rw [readFile_eq ready, Prog.bind_assoc]
  refine ⟨trivial, fun h' sys store r since sound shows admitted => ?_⟩
  have looked := lookup_tree sound.names.consistent path
  rw [← shows.tree] at looked
  have still := shows.steady r (k := k) (q := .getFileInfo path) trivial
  have found : ∀ {p'' : StoreProg Outcome} {t' : FileStore},
      fileStore.Reaches FileStore.IdsLast (FileStore.fetchFound outData (store.tree.lookup path)) store p'' t' →
        fileStore.Reaches FileStore.IdsLast (FileStore.readFile path outData) store p'' t' :=
    (Setting.Reaches.once (S := fileStore) (.find path) (FileStore.fetchFound outData) store (.ok : Status)
      trivial).trans
  suffices tracks : ∀ reply, sys.svc.namespaceMgr.lookup path = reply → ∃ p'' t',
      fileStore.Reaches FileStore.IdsLast (FileStore.fetchFound outData (reply.map fun r => (r.inodeId, r.fileType)))
        store p'' t' ∧
        t' = store ∧ Tracks k (readFound client outData reply >>= fun r => pure (r.1, r.2.1)) p''
          (.answered k (.getFileInfo path) reply :: h') by
    obtain ⟨p'', t', reaches, same, left⟩ := tracks _ rfl
    subst same
    rw [looked] at reaches
    exact ⟨p'', t', found reaches, still, left⟩
  intro reply answer
  rcases reply with s | inode
  · exact ⟨_, _, .refl _ _, rfl, rfl⟩
  · rw [readFound, Except.map, FileStore.fetchFound]
    by_cases empty : inode.size = 0
    · rw [if_pos empty]
      have fetched := reaches_fetch store inode.inodeId outData
      rw [shows.hollow sound answer empty] at fetched
      exact ⟨_, _, fetched, rfl, rfl⟩
    · rw [if_neg empty]
      obtain ⟨i, live⟩ := inodes_of_lookup answer
      have regular : inode.fileType = .regular := by
        by_contra other
        exact empty (shows.kinds.others i inode live other)
      exact ⟨_, _, .refl _ _, rfl, tracks_readLocated client outData
        ((sound.sized answer regular).mono (List.subset_cons_self _ _)) empty⟩

/-! ## The whole -/

/-- A client that is not initialized makes no request. -/
theorem prog_refused {client : OpenFSClient} (idle : client.initialized = false) (op : FileOp) :
    op.prog client = pure (FileStore.refused op) := by
  cases op <;> simp only [FileOp.prog, OpenFSClient.writeFile, OpenFSClient.createFile, OpenFSClient.readFile,
    OpenFSClient.deleteFile, OpenFSClient.getFileInfo, OpenFSClient.rename, OpenFSClient.mkDir,
    OpenFSClient.readDir, OpenFSClient.rmDir, if_pos idle] <;> rfl

/-- **Each operation follows that of the store**, from its beginning on. -/
theorem tracks_prog (c : ClientCall) (fits : c.op.Fits) (first : ∀ e ∈ h, e.caller < k) :
    Tracks k (cluster.prog c) (fileStore.prog c) (.began k c :: h) := by
  obtain ⟨client, op⟩ := c
  cases initialized : client.initialized with
  | false =>
    show Tracks k (op.prog client) (if client.initialized = false then _ else _) _
    rw [if_pos initialized, prog_refused initialized]
    exact rfl
  | true =>
    have ready : ¬ client.initialized = false := by simp [initialized]
    show Tracks k (op.prog client) (if client.initialized = false then _ else FileStore.prog op) _
    rw [if_neg ready]
    cases op with
    | writeFile path mode data =>
      refine tracks_writeFile initialized path mode fits List.mem_cons_self fun i blocks committed => ?_
      rcases List.mem_cons.mp committed with new | old
      · cases new
      · exact Nat.lt_irrefl _ (first _ old)
    | readFile path outData => exact tracks_readFile initialized path outData
    | createFile path mode fileSize =>
      show Tracks k (client.createFile path mode fileSize >>= _) _ _
      rw [OpenFSClient.createFile, if_neg ready]
      exact tracks_createFile path mode fileSize
    | mkDir path mode =>
      show Tracks k (client.mkDir path mode >>= _) _ _
      rw [OpenFSClient.mkDir, if_neg ready]
      exact tracks_mkDir path mode
    | deleteFile path =>
      show Tracks k (client.deleteFile path >>= _) _ _
      rw [OpenFSClient.deleteFile, if_neg ready]
      exact tracks_change (.deleteFile path) (fun _ => 0) (.deleteFile path) id rfl (fun _ => trivial)
        fun _ _ => ⟨rfl, rfl⟩
    | rename src dst =>
      show Tracks k (client.rename src dst >>= _) _ _
      rw [OpenFSClient.rename, if_neg ready]
      exact tracks_change (.rename src dst) (fun r => r.clock 0) (.rename src dst) id rfl (fun _ => trivial)
        fun _ _ => ⟨rfl, rfl⟩
    | rmDir path =>
      show Tracks k (client.rmDir path >>= _) _ _
      rw [OpenFSClient.rmDir, if_neg ready]
      exact tracks_change (.rmDir path) (fun _ => 0) (.rmDir path) id rfl (fun _ => trivial)
        fun _ _ => ⟨rfl, rfl⟩
    | getFileInfo path =>
      show Tracks k (client.getFileInfo path >>= _) _ _
      rw [OpenFSClient.getFileInfo, if_neg ready]
      exact tracks_getFileInfo path
    | readDir path =>
      show Tracks k (client.readDir path >>= _) _ _
      rw [OpenFSClient.readDir, if_neg ready]
      exact tracks_readDir path

/-- A cluster that was just started shows the empty store. -/
theorem Fresh.shows {sys : System} (fresh : Fresh sys) : Shows [] sys {} := by
  obtain ⟨now, svc⟩ := fresh.svc
  have none_made : ∀ k path size i, ¬ Made [] k path size i := by
    rintro k path size i ⟨_, _, _, _, member, -⟩
    cases member
  have table : ∀ i r, sys.svc.inodeTable.inodes i = some r → i = 1 ∧ r = InodeTable.root now := by
    intro i r live
    rw [svc] at live
    change Function.update (fun _ => none) 1 (some (InodeTable.root now)) i = some r at live
    rcases eq_or_ne i 1 with rfl | other
    · rw [Function.update_self] at live
      exact ⟨rfl, (Option.some.inj live).symm⟩
    · rw [Function.update_of_ne other] at live
      cases live
  refine ⟨?_, ⟨fun i r live => ?_, fun k path size i r made => (none_made _ _ _ _ made).elim, fun i r live _ => ?_⟩,
    ⟨fun k path size i made => (none_made _ _ _ _ made).elim, fun j i blocks data committed => ?_, fun _ _ => rfl⟩,
    fun k c c' began => ?_, fun k c began => ?_⟩
  · rw [svc]
    exact (init_tree now).symm
  · obtain ⟨rfl, -⟩ := table i r live
    rw [svc]
    show (1 : UInt64).toNat < (2 : UInt64).toNat
    decide
  · obtain ⟨-, rfl⟩ := table i r live
    rfl
  · cases committed
  · cases began
  · cases began

/-- A call is begun. -/
theorem Shows.began {st : State} {store : FileStore} (shows : Shows st.history st.server store) (c : ClientCall)
    (fits : c.op.Fits) (callers : ∀ e ∈ st.history, e.caller < st.tasks.length) :
    Shows (.began st.tasks.length c :: st.history) st.server store := by
  have made_old : ∀ {k path size i}, Made (.began st.tasks.length c :: st.history) k path size i →
      Made st.history k path size i := by
    rintro k path size i ⟨mode, uid, gid, inode, member, same⟩
    rcases List.mem_cons.mp member with new | old
    · cases new
    · exact ⟨mode, uid, gid, inode, old, same⟩
  have sub := List.subset_cons_self (.began st.tasks.length c) st.history
  have earlier : ∀ {k c'}, .began k c' ∈ st.history → k ≠ st.tasks.length :=
    fun began => Nat.ne_of_lt (callers _ began)
  refine ⟨shows.tree, shows.kinds.carry (.of_eq rfl) (Nat.le_refl _) fun k path size i made =>
    ⟨k, path, size, made_old made⟩, ⟨?_, ?_, ?_⟩, ?_, ?_⟩
  · exact fun k path size i made none => shows.holds.made k path size i (made_old made)
      fun j blocks committed => none j blocks (sub committed)
  · rintro j i blocks data committed ⟨client, path, mode, began, made⟩
    have done : Committed st.history j i blocks := by
      rcases List.mem_cons.mp committed with new | old
      · cases new
      · exact old
    refine shows.holds.stored j i blocks data done ⟨client, path, mode, ?_, made_old made⟩
    rcases List.mem_cons.mp began with new | old
    · cases new
      have early : st.tasks.length < st.tasks.length := callers _ done
      exact absurd early (Nat.lt_irrefl _)
    · exact old
  · exact fun i none => shows.holds.unmade i fun k path size made => none k path size (made.mono sub)
  · intro k c' c'' first second
    rcases List.mem_cons.mp first with new | old <;> rcases List.mem_cons.mp second with new' | old'
    · cases new
      cases new'
      rfl
    · cases new
      exact absurd rfl (earlier old')
    · cases new'
      exact absurd rfl (earlier old)
    · exact shows.begun.once k c' c'' old old'
  · intro k c' began
    rcases List.mem_cons.mp began with new | old
    · cases new
      exact fits
    · exact shows.begun.fits k c' old

theorem simulated : Setting.Simulated cluster fileStore IdsLast FileStore.IdsLast Sound Shows fun _ c => c.op.Fits where
  inv _ run := (kept run).inv
  start _ fresh := ⟨{}, rfl, fresh.shows⟩
  drift h s s' t drifts shows := by
    obtain ⟨tree, kinds, holds, begun⟩ := shows
    cases drifts with
    | register => exact ⟨tree, kinds, holds, begun⟩
    | heartbeat => exact ⟨tree, kinds, holds, begun⟩
  begin _ c _ run fits shows := shows.began c fits (kept run).callers
  follows _ c run fits := tracks_prog c fits (kept run).callers

/-- **What is seen of a cluster is seen of the file store**: every run of any clients whose data
fits has, with its calls and results in their order, a run of clients at the store. -/
theorem cluster_refines_store {tr : List (Visible ClientCall Outcome)} {st : State}
    (traced : cluster.Traced (fun _ c => c.op.Fits) IdsLast tr st) :
    ∃ st', fileStore.Traced (fun _ _ => True) FileStore.IdsLast tr st' := by
  obtain ⟨st', traced', -⟩ := simulated.traced traced
  exact ⟨st', traced'⟩

/-- A byte is written; its reader looks the file up, and another client deletes it before the
reader is done. -/
theorem cluster_refines_store_byte : ∃ tr st out out', st.tasks =
      [⟨⟨{ initialized := true }, .writeFile ['/', 'a'] 0o644 [7]⟩, .ret out⟩,
        ⟨⟨{ initialized := true }, .readFile ['/', 'a'] []⟩, .ret (.ok, [7])⟩,
        ⟨⟨{ initialized := true }, .deleteFile ['/', 'a']⟩, .ret out'⟩] ∧
    cluster.Traced (fun _ c => c.op.Fits) IdsLast tr st ∧
      ∃ st', fileStore.Traced (fun _ _ => True) FileStore.IdsLast tr st' := by
  obtain ⟨st, out, out', inode, run, tasks, -⟩ := exists_run_beside
  obtain ⟨tr, traced⟩ := run.traced
  exact ⟨tr, st, out, out', tasks, traced, cluster_refines_store traced⟩

end OpenFS.Cluster
