import OpenFS.Data.WriteAhead

/-!
# How much the log holds

The first sequence number is 1, and a sequence number is taken for the number of a slot.
So the first slot is never used, and a log of `n` blocks holds `n - 1` entries. `Open`
leaves the stream of a log file that it creates failed, and this log holds none.
-/

namespace OpenFS.LogCapacity

open ByteImage FileLog WalManager

inductive Op
  | append (blockId dataOffset : UInt64) (dataSize crc32 : UInt32)
  | commit (seq : Nat)

/-- The log with its file. -/
structure State where
  wal : WalManager
  world : World Unit

namespace State

/-- A call, with the answer of an append. -/
def exec (s : State) : Op → Option (Except Status Nat) × State
  | .append blockId dataOffset dataSize crc32 =>
    let (r, wal, world) := s.wal.appendEntry s.world () blockId dataOffset dataSize crc32
    (some r, { wal := wal, world := world })
  | .commit seq =>
    let (_, wal, world) := s.wal.commitEntry s.world () seq
    (none, { wal := wal, world := world })

def after (s : State) (ops : List Op) : State := ops.foldl (fun s op => (s.exec op).2) s

/-- The answers of the appends, in their order. -/
def answers (s : State) : List Op → List (Except Status Nat)
  | [] => []
  | op :: ops => (s.exec op).1.toList ++ (s.exec op).2.answers ops

/-- Only sequence numbers that were returned are committed. -/
def Legal (s : State) (returned : List Nat) : List Op → Prop
  | [] => True
  | .append blockId dataOffset dataSize crc32 :: ops =>
    let (r, s') := s.exec (.append blockId dataOffset dataSize crc32)
    s'.Legal (match r with
      | some (.ok seq) => seq :: returned
      | _ => returned) ops
  | .commit seq :: ops => seq ∈ returned ∧ (s.exec (.commit seq)).2.Legal returned ops

/-- A write to the blocks of the log. -/
def Inside (blocks : Nat) (e : Effect Unit) : Prop :=
  ∃ off bs, e = .write () off bs ∧ off + bs.length ≤ blocks * walBlockSize

/-- The log of so many blocks holds so many entries, whatever is committed in between. -/
structure HoldsEntries (blocks entries : Nat) (s : State) : Prop where
  accepts : ∀ ops, s.Legal [] ops → ∀ i, i < entries → ∀ r, (s.answers ops)[i]? = some r → ∃ seq, r = .ok seq
  distinct : ∀ ops, s.Legal [] ops → ∀ i j seq : Nat, (s.answers ops)[i]? = some (Except.ok seq) →
    (s.answers ops)[j]? = some (Except.ok seq) → i = j
  full : ∀ ops, s.Legal [] ops → entries ≤ (s.answers ops).length → ∀ blockId dataOffset dataSize crc32,
    (s.after ops).exec (.append blockId dataOffset dataSize crc32) = (some (.error .noSpace), s.after ops)
  inside : ∀ ops, s.Legal [] ops → ∃ effects, (s.after ops).world = s.world.performAll effects ∧
    ∀ e ∈ effects, Inside blocks e

/-- An empty log of `n` blocks: `Open` creates its file, or finds the zeros of `Format`, or
the log was just `Reset`. -/
inductive Empty (n : Nat) : State → Prop
  | created {world : World Unit} (missing : world.files () = Image.empty) :
    Empty n ⟨(({} : WalManager).open' (world.files ()) n).2, world⟩
  | formatted {world : World Unit} (zeros : world.files () = Image.zeros (n * walBlockSize)) :
    Empty n ⟨(({} : WalManager).open' (world.files ()) n).2, world⟩
  | reset {wal : WalManager} {world : World Unit} (isOpen : wal.isOpen = true) (blocks : wal.walBlocks = n) :
    Empty n ⟨(wal.reset world ()).2.1, (wal.reset world ()).2.2⟩

/-! ## Too few slots -/

/-- What every empty log begins with. -/
structure First (n : Nat) (s : State) : Prop where
  numbered : s.wal.Numbered
  blocks : s.wal.walBlocks = n
  next : s.wal.nextSeq = 1
  blank : FirstBlank (s.world.files ())

theorem first_of_opened {n : Nat} {world : World Unit} (blank : FirstBlank (world.files ())) :
    First n ⟨(({} : WalManager).open' (world.files ()) n).2, world⟩ := by
  obtain ⟨file, opened, -⟩ := blank.open {} n
  refine ⟨numbered_open _ _ _, ?_, ?_, blank⟩
  · exact congrArg walBlocks opened
  · exact congrArg nextSeq opened

theorem Empty.first {n : Nat} {s : State} (empty : Empty n s) : First n s := by
  cases empty with
  | created missing =>
    apply first_of_opened
    rw [missing]
    exact fun _ _ => rfl
  | formatted zeros =>
    apply first_of_opened
    rw [zeros]
    exact fun _ _ => rfl
  | @reset wal world isOpen blocks =>
    obtain ⟨result, numbered⟩ := numbered_reset isOpen world ()
    rw [result]
    refine ⟨numbered, blocks, rfl, ?_⟩
    intro i _
    show (Function.update world.files () Image.empty ()).byte i = 0
    rw [Function.update_self]
    rfl

/-- An entry that is accepted has a slot below the number of blocks. -/
theorem slot_lt {wal : WalManager} (numbered : wal.Numbered) (accepts : wal.Accepts) :
    wal.nextSeq < wal.walBlocks := by
  obtain ⟨-, bound, -⟩ := accepts
  have size : wal.walSize ≤ wal.walBlocks * walBlockSize := Nat.mod_le _ _
  rw [fileOffset_of_bounded numbered.bounded] at bound
  unfold walBlockSize walEntryHeaderSize at *
  omega

/-- Appends that are all accepted go to one slot after the other. -/
theorem accepted_lt {s : State} (numbered : s.wal.Numbered) {m : Nat} (some : 0 < m)
    (accepted : ∀ r ∈ s.answers (List.replicate m (.append 1 0 0 0)), ∃ seq, r = .ok seq) :
    s.wal.nextSeq + m ≤ s.wal.walBlocks := by
  induction m generalizing s with
  | zero => omega
  | succ m ih =>
    rw [List.replicate_succ, answers, List.forall_mem_append] at accepted
    by_cases accepts : s.wal.Accepts
    · have slot := slot_lt numbered accepts
      obtain ⟨next, bounded⟩ := numbered.succ accepts
      have result := appendEntry_of_accepts accepts s.world () 1 0 0 0
      by_cases last : m = 0
      · omega
      · have rest := accepted.2
        simp only [exec, result] at rest
        have later := ih (s := ⟨{ s.wal with nextSeq := u64 (s.wal.nextSeq + 1) }, _⟩) ?_
          (Nat.pos_of_ne_zero last) rest
        · dsimp only at later
          omega
        · refine ⟨numbered.isOpen, ?_, ?_⟩
          · show 1 ≤ u64 _
            omega
          · show u64 _ ≤ _
            omega
    · obtain ⟨status, file, result, -⟩ := appendEntry_of_refused accepts s.world () 1 0 0 0
      obtain ⟨seq, impossible⟩ := accepted.1 (.error status) (by simp [exec, result])
      cases impossible

theorem legal_appends (s : State) (returned : List Nat) (m : Nat) :
    s.Legal returned (List.replicate m (.append 1 0 0 0)) := by
  induction m generalizing s returned with
  | zero => trivial
  | succ m ih => exact ih _ _

theorem length_answers_appends (s : State) (m : Nat) :
    (s.answers (List.replicate m (.append 1 0 0 0))).length = m := by
  induction m generalizing s with
  | zero => rfl
  | succ m ih =>
    rw [List.replicate_succ, answers, List.length_append, ih]
    exact Nat.add_comm 1 m

theorem First.not_holds {n : Nat} {s : State} (first : First n s) (some : 1 ≤ n) : ¬ HoldsEntries n n s := by
  intro holds
  have fits : s.wal.nextSeq + n ≤ s.wal.walBlocks := by
    apply accepted_lt first.numbered some
    intro r member
    obtain ⟨i, there⟩ := List.mem_iff_getElem?.mp member
    apply holds.accepts _ (legal_appends s [] n) i _ r there
    have small := (List.getElem?_eq_some_iff.mp there).1
    rwa [length_answers_appends] at small
  rw [first.next, first.blocks] at fits
  omega

/-- No log of `n` blocks holds `n` entries, however it came to be empty. -/
theorem holds_too_little (n : Nat) (some : 1 ≤ n) (s : State) (empty : Empty n s) : ¬ HoldsEntries n n s :=
  empty.first.not_holds some

/-- A log whose file `Open` creates. -/
theorem holds_too_little_created : ¬ HoldsEntries 4 4
    ⟨(({} : WalManager).open' Image.empty 4).2, ⟨fun _ => Image.empty, []⟩⟩ :=
  holds_too_little 4 (by decide) _ (@Empty.created 4 ⟨fun _ => Image.empty, []⟩ rfl)

/-- A log of four blocks after a reset. -/
theorem four_blocks_refuse : ¬ HoldsEntries 4 4
    ⟨{ walBlocks := 4, nextSeq := 1, file := ⟨true, false⟩ }, ⟨fun _ => Image.empty, []⟩⟩ := by
  apply First.not_holds _ (by decide)
  exact ⟨⟨rfl, Nat.le_refl _, show 1 ≤ _ by decide⟩, rfl, rfl, fun _ _ => rfl⟩

/-! ## One slot less -/

/-- So many entries fill the slots from the second on. -/
structure Filled (n : Nat) (s : State) (k : Nat) : Prop where
  good : s.wal.file.good = true
  blocks : s.wal.walBlocks = n
  next : s.wal.nextSeq = k + 1
  fewer : k < n
  slots : ∀ seq, 1 ≤ seq → seq ≤ k → seq * walBlockSize + WalEntryHeader.bytes ≤ (s.world.files ()).size ∧
    (headerAt (s.world.files ()) seq).magic = UInt32.ofNat walMagic

/-- Writing a header to one slot keeps the magic numbers of all. -/
theorem slots_write {img : Image} {k slot : Nat} {hdr : WalEntryHeader} (reserved : hdr.reserved.length = 7)
    (magic : hdr.magic = UInt32.ofNat walMagic)
    (slots : ∀ seq, 1 ≤ seq → seq ≤ k → seq ≠ slot → seq * walBlockSize + WalEntryHeader.bytes ≤ img.size ∧
      (headerAt img seq).magic = UInt32.ofNat walMagic) (seq : Nat) (low : 1 ≤ seq) (high : seq ≤ k ∨ seq = slot) :
    seq * walBlockSize + WalEntryHeader.bytes ≤ (img.write (slot * walBlockSize) hdr.encode).size ∧
      (headerAt (img.write (slot * walBlockSize) hdr.encode) seq).magic = UInt32.ofNat walMagic := by
  by_cases same : seq = slot
  · subst same
    obtain ⟨header, whole⟩ := headerAt_write img seq hdr reserved
    rw [header]
    exact ⟨whole, magic⟩
  · obtain ⟨whole, there⟩ := slots seq low (high.resolve_right same) same
    constructor
    · exact Nat.le_trans whole (Image.size_le_write ..)
    · unfold headerAt at there ⊢
      rw [Image.bytes_write_of_disjoint, there]
      rw [WalEntryHeader.length_encode reserved]
      unfold WalEntryHeader.bytes walBlockSize
      omega

variable {n k : Nat} {s : State}

theorem exec_append {blockId dataOffset : UInt64} {dataSize crc32 : UInt32} {r : Except Status Nat}
    {wal : WalManager} {world : World Unit}
    (result : s.wal.appendEntry s.world () blockId dataOffset dataSize crc32 = (r, wal, world)) :
    s.exec (.append blockId dataOffset dataSize crc32) = (some r, ⟨wal, world⟩) := by
  simp only [exec, result]

theorem exec_commit {seq : Nat} {status : Status} {wal : WalManager} {world : World Unit}
    (result : s.wal.commitEntry s.world () seq = (status, wal, world)) :
    s.exec (.commit seq) = (none, ⟨wal, world⟩) := by
  simp only [exec, result]

theorem fileOffset_of_fits (fits : n * walBlockSize ≤ 2 ^ 63) {slot : Nat} (small : slot ≤ n) :
    slot ≤ 2 ^ 51 + 2 ∧ fileOffset slot = slot * walBlockSize := by
  have bounded : slot ≤ 2 ^ 51 + 2 := by
    unfold walBlockSize at fits
    omega
  exact ⟨bounded, fileOffset_of_bounded bounded⟩

theorem Filled.walSize (filled : Filled n s k) (fits : n * walBlockSize ≤ 2 ^ 63) :
    s.wal.walSize = n * walBlockSize := by
  unfold WalManager.walSize
  rw [filled.blocks]
  apply Nat.mod_eq_of_lt
  omega

/-- An append while there is a slot. -/
theorem Filled.append (filled : Filled n s k) (fits : n * walBlockSize ≤ 2 ^ 63) (room : k + 1 < n)
    (blockId dataOffset : UInt64) (dataSize crc32 : UInt32) :
    ∃ s', s.exec (.append blockId dataOffset dataSize crc32) = (some (.ok (k + 1)), s') ∧ Filled n s' (k + 1) ∧
      ∃ e, s'.world = s.world.perform e ∧ Inside n e := by
  obtain ⟨-, place⟩ := fileOffset_of_fits fits (Nat.le_of_lt room)
  have size := filled.walSize fits
  have accepts : s.wal.Accepts := by
    refine ⟨filled.good, ?_, ?_⟩
    · rw [filled.next, place, size]
      unfold walBlockSize walEntryHeaderSize
      omega
    · rw [filled.next, place]
      unfold walBlockSize at *
      omega
  have result := appendEntry_of_accepts accepts s.world () blockId dataOffset dataSize crc32
  rw [filled.next, place] at result
  have next : u64 (k + 1 + 1) = k + 1 + 1 := by
    apply Nat.mod_eq_of_lt
    unfold walBlockSize at fits
    omega
  have reserved : (newHeader blockId dataOffset dataSize crc32).reserved.length = 7 := rfl
  rw [next] at result
  refine ⟨_, exec_append result, ⟨filled.good, filled.blocks, rfl, room, ?_⟩, _, rfl, _, _, rfl, ?_⟩
  · intro seq low high
    simp only [World.perform_write_files]
    apply slots_write reserved rfl _ seq low (Nat.le_or_eq_of_le_succ high)
    exact fun seq low high _ => filled.slots seq low high
  · rw [WalEntryHeader.length_encode reserved]
    unfold WalEntryHeader.bytes walBlockSize
    omega

/-- An append when the last slot is taken. -/
theorem Filled.refuse (filled : Filled n s k) (fits : n * walBlockSize ≤ 2 ^ 63) (last : k + 1 = n)
    (blockId dataOffset : UInt64) (dataSize crc32 : UInt32) :
    s.exec (.append blockId dataOffset dataSize crc32) = (some (.error .noSpace), s) := by
  obtain ⟨-, place⟩ := fileOffset_of_fits fits (Nat.le_of_eq last)
  have isOpen : s.wal.isOpen = true := Stream.isOpen_of_good filled.good
  have full : s.wal.walSize < fileOffset s.wal.nextSeq + walEntryHeaderSize := by
    rw [filled.next, place, filled.walSize fits, last]
    exact Nat.lt_add_of_pos_right (by decide)
  apply exec_append
  unfold appendEntry
  rw [if_neg (by simp [isOpen])]
  exact if_pos full

/-- A commit of an entry. -/
theorem Filled.commit (filled : Filled n s k) (fits : n * walBlockSize ≤ 2 ^ 63) {seq : Nat} (low : 1 ≤ seq)
    (high : seq ≤ k) : ∃ s', s.exec (.commit seq) = (none, s') ∧ Filled n s' k ∧
      ∃ e, s'.world = s.world.perform e ∧ Inside n e := by
  have below := filled.fewer
  have inside : seq ≤ n := by omega
  obtain ⟨bounded, place⟩ := fileOffset_of_fits fits inside
  obtain ⟨whole, magic⟩ := filled.slots seq low high
  have size := filled.walSize fits
  have result := commitEntry_of_header filled.good bounded (by
    rw [place, size]
    unfold walBlockSize walEntryHeaderSize
    omega) (by
    rw [place]
    unfold walBlockSize at *
    omega) whole magic
  have reserved :
      ({ headerAt (s.world.files ()) seq with committed := 1 } : WalEntryHeader).reserved.length = 7 := by
    simp [headerAt, WalEntryHeader.decode, WalEntryHeader.bytes]
  refine ⟨_, exec_commit result, ⟨filled.good, filled.blocks, filled.next, below, ?_⟩, _, rfl, _, _, rfl, ?_⟩
  · intro seq' low' high'
    simp only [World.perform_write_files]
    apply slots_write reserved magic _ seq' low' (.inl high')
    exact fun seq low high _ => filled.slots seq low high
  · rw [WalEntryHeader.length_encode reserved]
    unfold WalEntryHeader.bytes walBlockSize
    omega

/-- The answers from a state with `k` entries on: numbers until the slots are taken. -/
def numbered (n k : Nat) : Nat → List (Except Status Nat)
  | 0 => []
  | m + 1 => if k + 1 < n then .ok (k + 1) :: numbered n (k + 1) m else .error .noSpace :: numbered n k m

theorem Filled.run (filled : Filled n s k) (fits : n * walBlockSize ≤ 2 ^ 63) {returned : List Nat}
    (known : ∀ seq ∈ returned, 1 ≤ seq ∧ seq ≤ k) {ops : List Op} (legal : s.Legal returned ops) :
    ∃ k', Filled n (s.after ops) k' ∧ (k + (s.answers ops).length ≤ k' ∨ k' + 1 = n) ∧
      s.answers ops = numbered n k (s.answers ops).length ∧
      ∃ effects, (s.after ops).world = s.world.performAll effects ∧ ∀ e ∈ effects, Inside n e := by
  induction ops generalizing s k returned with
  | nil => exact ⟨k, filled, .inl (Nat.le_refl _), rfl, [], rfl, List.forall_mem_nil _⟩
  | cons op ops ih =>
    cases op with
    | append blockId dataOffset dataSize crc32 =>
      by_cases room : k + 1 < n
      · obtain ⟨s', result, filled', e, world, inside⟩ := filled.append fits room blockId dataOffset dataSize crc32
        simp only [Legal, result] at legal
        have known' : ∀ seq ∈ (k + 1) :: returned, 1 ≤ seq ∧ seq ≤ k + 1 := by
          rw [List.forall_mem_cons]
          exact ⟨by omega, fun seq member => by have := known seq member; omega⟩
        obtain ⟨k', filled'', count, answers, effects, world', inside'⟩ := ih filled' known' legal
        refine ⟨k', ?_, ?_, ?_, e :: effects, ?_, List.forall_mem_cons.mpr ⟨inside, inside'⟩⟩
        · simpa [after, result] using filled''
        · simp only [State.answers, result, Option.toList_some, List.length_append, List.length_singleton]
          omega
        · simp only [State.answers, result, Option.toList_some, List.singleton_append, List.length_cons, numbered,
            if_pos room]
          rw [← answers]
        · rw [World.performAll_cons, ← world, ← world']
          simp [after, result]
      · have last : k + 1 = n := by
          have := filled.fewer
          omega
        have result := filled.refuse fits last blockId dataOffset dataSize crc32
        simp only [Legal, result] at legal
        obtain ⟨k', filled', count, answers, effects, world, inside⟩ := ih filled known legal
        refine ⟨k', ?_, ?_, ?_, effects, ?_, inside⟩
        · simpa [after, result] using filled'
        · have := filled'.fewer
          simp only [State.answers, result, Option.toList_some, List.length_append, List.length_singleton]
          omega
        · simp only [State.answers, result, Option.toList_some, List.singleton_append, List.length_cons, numbered,
            if_neg room]
          rw [← answers]
        · rw [← world]
          simp [after, result]
    | commit seq =>
      obtain ⟨member, legal⟩ := legal
      obtain ⟨low, high⟩ := known seq member
      obtain ⟨s', result, filled', e, world, inside⟩ := filled.commit fits low high
      rw [result] at legal
      obtain ⟨k', filled'', count, answers, effects, world', inside'⟩ := ih filled' known legal
      refine ⟨k', ?_, ?_, ?_, e :: effects, ?_, List.forall_mem_cons.mpr ⟨inside, inside'⟩⟩
      · simpa [after, result] using filled''
      · simpa [State.answers, result] using count
      · simpa [State.answers, result] using answers
      · rw [World.performAll_cons, ← world, ← world']
        simp [after, result]

theorem numbered_getElem? (n k m i : Nat) (seq : Nat) (there : (numbered n k m)[i]? = some (Except.ok seq)) :
    seq = k + i + 1 ∧ k + i + 1 < n := by
  induction m generalizing k i with
  | zero => cases there
  | succ m ih =>
    unfold numbered at there
    split at there
    · next room =>
      cases i with
      | zero =>
        cases there
        exact ⟨rfl, room⟩
      | succ i =>
        have later := ih (k + 1) i there
        omega
    · next full =>
      cases i with
      | zero => cases there
      | succ i =>
        have later := ih k i there
        omega

theorem numbered_accepts {n k m i : Nat} (room : k + i + 1 < n) {r : Except Status Nat}
    (there : (numbered n k m)[i]? = some r) : r = .ok (k + i + 1) := by
  induction m generalizing k i with
  | zero => cases there
  | succ m ih =>
    unfold numbered at there
    rw [if_pos (by omega)] at there
    cases i with
    | zero =>
      cases there
      rfl
    | succ i =>
      rw [ih (k := k + 1) (i := i) (by omega) there]
      congr 1
      omega

/-- A good log of `n` blocks with a blank file holds `n - 1` entries. -/
theorem First.holds_one_less (first : First n s) (good : s.wal.file.good = true) (some : 1 ≤ n)
    (fits : n * walBlockSize ≤ 2 ^ 63) : HoldsEntries n (n - 1) s := by
  have filled : Filled n s 0 := ⟨good, first.blocks, first.next, some, fun seq low high => by omega⟩
  have known : ∀ seq ∈ ([] : List Nat), 1 ≤ seq ∧ seq ≤ 0 := List.forall_mem_nil _
  constructor
  · intro ops legal i small r there
    obtain ⟨-, -, -, answers, -⟩ := filled.run fits known legal
    rw [answers] at there
    exact ⟨_, numbered_accepts (by omega) there⟩
  · intro ops legal i j seq left right
    obtain ⟨-, -, -, answers, -⟩ := filled.run fits known legal
    rw [answers] at left right
    have first := (numbered_getElem? _ _ _ _ _ left).1
    have second := (numbered_getElem? _ _ _ _ _ right).1
    omega
  · intro ops legal many blockId dataOffset dataSize crc32
    obtain ⟨k', filled', count, -⟩ := filled.run fits known legal
    have fewer := filled'.fewer
    exact filled'.refuse fits (by omega) blockId dataOffset dataSize crc32
  · intro ops legal
    obtain ⟨-, -, -, -, effects⟩ := filled.run fits known legal
    exact effects

/-- After a reset, and on the zeros of `Format`, the stream is good. -/
theorem reset_holds_one_less {wal : WalManager} (isOpen : wal.isOpen = true) (world : World Unit)
    (some : 1 ≤ wal.walBlocks) (fits : wal.walBlocks * walBlockSize ≤ 2 ^ 63) :
    HoldsEntries wal.walBlocks (wal.walBlocks - 1) ⟨(wal.reset world ()).2.1, (wal.reset world ()).2.2⟩ := by
  apply (Empty.reset isOpen rfl).first.holds_one_less _ some fits
  rw [(numbered_reset isOpen world ()).1]
  rfl

theorem formatted_holds_one_less {world : World Unit} (zeros : world.files () = Image.zeros (n * walBlockSize))
    (some : 1 ≤ n) (fits : n * walBlockSize ≤ 2 ^ 63) :
    HoldsEntries n (n - 1) ⟨(({} : WalManager).open' (world.files ()) n).2, world⟩ := by
  apply (Empty.formatted zeros).first.holds_one_less _ some fits
  have blank : FirstBlank (world.files ()) := by
    rw [zeros]
    exact fun _ _ => rfl
  have whole : WalEntryHeader.bytes ≤ (world.files ()).size := by
    rw [zeros]
    show _ ≤ n * walBlockSize
    unfold WalEntryHeader.bytes walBlockSize
    omega
  show (WalManager.open' _ _ _).2.file.good = true
  rw [blank.open_of_whole whole rfl]
  rfl

/-! ## A file that was just created -/

/-- Nothing is accepted: the stream has failed, or not even the first entry fits. -/
def Stuck (s : State) : Prop :=
  s.wal.file.failbit = true ∨ s.wal.walSize < fileOffset s.wal.nextSeq + walEntryHeaderSize

theorem Stuck.append (stuck : s.Stuck) (blockId dataOffset : UInt64) (dataSize crc32 : UInt32) :
    ∃ status s', s.exec (.append blockId dataOffset dataSize crc32) = (some (.error status), s') ∧
      s'.world = s.world ∧ s'.Stuck := by
  by_cases isOpen : s.wal.isOpen = true
  · by_cases full : s.wal.walSize < fileOffset s.wal.nextSeq + walEntryHeaderSize
    · refine ⟨.noSpace, s, exec_append ?_, rfl, stuck⟩
      unfold appendEntry
      rw [if_neg (by simp [isOpen])]
      exact if_pos full
    · have bad : ¬ (s.wal.file.good = true ∧ fileOffset s.wal.nextSeq < 2 ^ 63) := by
        simp [Stream.good, stuck.resolve_right full]
      refine ⟨.ioError, ⟨{ s.wal with file := { s.wal.file with failbit := true } }, s.world⟩, exec_append ?_, rfl,
        .inl rfl⟩
      unfold appendEntry
      rw [if_neg (by simp [isOpen])]
      dsimp only
      rw [if_neg full, Stream.write, if_neg bad]
  · refine ⟨.ioError, s, exec_append ?_, rfl, stuck⟩
    unfold appendEntry
    exact if_pos (by simp [isOpen])

theorem Stuck.run (stuck : s.Stuck) {ops : List Op} (legal : s.Legal [] ops) :
    (∀ r ∈ s.answers ops, ∃ status, r = .error status) ∧ (s.after ops).world = s.world := by
  induction ops generalizing s with
  | nil => exact ⟨List.forall_mem_nil _, rfl⟩
  | cons op ops ih =>
    cases op with
    | commit seq => exact absurd legal.1 List.not_mem_nil
    | append blockId dataOffset dataSize crc32 =>
      obtain ⟨status, s', result, world, stuck'⟩ := stuck.append blockId dataOffset dataSize crc32
      simp only [Legal, result] at legal
      obtain ⟨errors, rest⟩ := ih stuck' legal
      constructor
      · simp only [State.answers, result, Option.toList_some, List.singleton_append, List.forall_mem_cons]
        exact ⟨⟨status, rfl⟩, errors⟩
      · rw [← world, ← rest]
        simp [after, result]

/-- `Open` of a file that it creates meets the end of the file, so no append is accepted. -/
theorem created_stuck (n : Nat) (world : World Unit) :
    Stuck ⟨(({} : WalManager).open' Image.empty n).2, world⟩ := by
  have scanned : ∃ file,
      WalManager.scan (Stream.open' Stream.closed) Image.empty (u64 (n * walBlockSize)) 0 = ([], file) ∧
      (file.failbit = true ∨ u64 (n * walBlockSize) < walEntryHeaderSize) := by
    rw [WalManager.scan]
    by_cases inside : 0 + walEntryHeaderSize ≤ u64 (n * walBlockSize)
    · rw [if_pos inside]
      exact ⟨_, rfl, .inl rfl⟩
    · rw [if_neg inside]
      exact ⟨_, rfl, .inr (by omega)⟩
  obtain ⟨file, scanned, stuck⟩ := scanned
  have opened : (({} : WalManager).open' Image.empty n).2 = { walBlocks := n, nextSeq := 1, file := file } := by
    unfold WalManager.open'
    rw [show ({} : WalManager).file.open' = Stream.open' Stream.closed from rfl, scanned]
    rfl
  rw [opened]
  rcases stuck with failed | small
  · exact .inl failed
  · right
    show u64 (n * walBlockSize) < fileOffset 1 + walEntryHeaderSize
    omega

/-- A log whose file `Open` creates holds no entry. -/
theorem created_holds_none (n : Nat) {world : World Unit} {ops : List Op}
    (legal : Legal ⟨(({} : WalManager).open' Image.empty n).2, world⟩ [] ops) :
    (∀ r ∈ answers ⟨(({} : WalManager).open' Image.empty n).2, world⟩ ops, ∃ status, r = .error status) ∧
      (after ⟨(({} : WalManager).open' Image.empty n).2, world⟩ ops).world = world :=
  (created_stuck n world).run legal

end State

end OpenFS.LogCapacity
