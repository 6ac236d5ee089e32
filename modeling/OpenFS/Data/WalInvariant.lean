import OpenFS.Data.WalManager

/-!
# What the log keeps

An open log numbers its entries from 1, and small enough for the slots' offsets
not to wrap. So nothing is ever written to the first slot, and a log whose first
slot is blank stays one.
-/

namespace OpenFS.WalManager

open ByteImage FileLog

structure Numbered (wal : WalManager) : Prop where
  isOpen : wal.isOpen = true
  first : 1 ≤ wal.nextSeq
  bounded : wal.nextSeq ≤ 2 ^ 51 + 2

theorem fileOffset_of_bounded {seq : Nat} (h : seq ≤ 2 ^ 51 + 2) : fileOffset seq = seq * walBlockSize := by
  unfold fileOffset u64 walBlockSize
  omega

/-- The next number after an accepted entry. -/
theorem Numbered.succ {wal : WalManager} (numbered : wal.Numbered) (accepts : wal.Accepts) :
    u64 (wal.nextSeq + 1) = wal.nextSeq + 1 ∧ wal.nextSeq + 1 ≤ 2 ^ 51 + 2 := by
  obtain ⟨-, -, seek⟩ := accepts
  rw [fileOffset_of_bounded numbered.bounded] at seek
  unfold walBlockSize at seek
  unfold u64
  omega

/-! ## Opening -/

theorem scan_isOpen (s : Stream) (img : Image) (walSize offset : Nat) :
    (scan s img walSize offset).2.isOpen = s.isOpen := by
  fun_induction scan s img walSize offset with
  | case1 s offset inside s' reading => rw [← Stream.read_isOpen s, reading]
  | case2 s offset inside bs s' reading hdr noMagic => rw [← Stream.read_isOpen s, reading]
  | case3 s offset inside bs s' reading hdr magic rest s'' again ih =>
    rw [again] at ih
    rw [← Stream.read_isOpen s, reading]
    exact ih
  | case4 s offset outside => rfl

/-- The offsets of a scan can be sought. -/
theorem scan_offset_lt {s : Stream} {img : Image} {walSize offset : Nat} {v : Nat × WalEntryHeader}
    (member : v ∈ (scan s img walSize offset).1) : v.1 < 2 ^ 63 := by
  fun_induction scan s img walSize offset with
  | case1 s offset inside s' reading => cases member
  | case2 s offset inside bs s' reading hdr noMagic => cases member
  | case3 s offset inside bs s' reading hdr magic rest s'' again ih =>
    rcases List.mem_cons.mp member with rfl | later
    · obtain ⟨-, seek, -, -⟩ := Stream.read_eq_some reading
      exact seek
    · exact ih (again ▸ later)
  | case4 s offset outside => cases member

theorem numbered_open (wal : WalManager) (img : Image) (walBlocks : Nat) :
    (wal.open' img walBlocks).2.Numbered := by
  have isOpen := scan_isOpen wal.file.open' img (u64 (walBlocks * walBlockSize)) 0
  have slots := @scan_offset_lt wal.file.open' img (u64 (walBlocks * walBlockSize)) 0
  rw [Stream.open'_isOpen] at isOpen
  unfold WalManager.open'
  generalize scan wal.file.open' img (u64 (walBlocks * walBlockSize)) 0 = scanned at isOpen slots
  obtain ⟨visited, s⟩ := scanned
  have last : ∀ seq, seq ≤ 2 ^ 51 + 1 →
      visited.foldl (fun seq v => if valid v.2 then v.1 / walBlockSize + 1 else seq) seq ≤ 2 ^ 51 + 1 := by
    clear isOpen
    induction visited with
    | nil => exact fun seq h => h
    | cons v visited ih =>
      intro seq h
      apply ih (fun member => slots (List.mem_cons_of_mem _ member))
      have slot := slots (v := v) List.mem_cons_self
      have bound : v.1 / walBlockSize + 1 ≤ 2 ^ 51 + 1 := by
        unfold walBlockSize
        omega
      show (if _ then v.1 / walBlockSize + 1 else seq) ≤ _
      split
      · exact bound
      · exact h
  have bound := last 0 (by omega)
  have exact : ∀ n, n ≤ 2 ^ 51 + 1 → u64 (n + 1) = n + 1 := by
    intro n h
    unfold u64
    omega
  refine ⟨isOpen, ?_, ?_⟩
  · dsimp only
    rw [exact _ bound]
    exact Nat.le_add_left 1 _
  · dsimp only
    rw [exact _ bound]
    exact Nat.succ_le_succ bound

/-! ## Writing behind the first slot -/

def FirstBlank (img : Image) : Prop := ∀ i, i < walBlockSize → img.byte i = 0

variable {F : Type} [DecidableEq F]

/-- A write to a later slot of the log. -/
def BehindFirst (f : F) (e : Effect F) : Prop := ∃ off bs, e = .write f off bs ∧ walBlockSize ≤ off

theorem FirstBlank.write {img : Image} (blank : FirstBlank img) {off : Nat} (bs : List UInt8)
    (behind : walBlockSize ≤ off) : FirstBlank (img.write off bs) := by
  intro i h
  rw [Image.write_byte_of_outside (by omega)]
  exact blank i h

theorem FirstBlank.performAll {f : F} {w : World F} (blank : FirstBlank (w.files f)) {effects : List (Effect F)}
    (behind : ∀ e ∈ effects, BehindFirst f e) : FirstBlank ((w.performAll effects).files f) := by
  induction effects generalizing w with
  | nil => exact blank
  | cons e effects ih =>
    obtain ⟨off, bs, rfl, later⟩ := behind e List.mem_cons_self
    rw [World.performAll_cons]
    apply ih
    · show FirstBlank (Function.update w.files f ((w.files f).write off bs) f)
      rw [Function.update_self]
      exact blank.write bs later
    · exact fun e member => behind e (List.mem_cons_of_mem _ member)

/-- The header in a blank first slot has no magic number. -/
theorem FirstBlank.no_magic {img : Image} (blank : FirstBlank img) :
    (WalEntryHeader.decode (img.bytes 0 WalEntryHeader.bytes)).magic ≠ UInt32.ofNat walMagic := by
  intro magic
  refine WalEntryHeader.magic_decode_zeros (Eq.trans ?_ magic)
  congr 2
  apply List.ext_getElem
  · simp
  · intro j _ h'
    rw [List.getElem_replicate, Image.getElem_bytes, Nat.zero_add]
    refine (blank j ?_).symm
    have bound : j < WalEntryHeader.bytes := by simpa using h'
    unfold WalEntryHeader.bytes at bound
    unfold walBlockSize
    omega

theorem append_effects {wal : WalManager} (numbered : wal.Numbered) (w : World F) (f : F)
    (blockId dataOffset : UInt64) (dataSize crc32 : UInt32) :
    ∃ r wal' effects, wal.appendEntry w f blockId dataOffset dataSize crc32 = (r, wal', w.performAll effects) ∧
      wal'.Numbered ∧ ∀ e ∈ effects, BehindFirst f e := by
  by_cases accepts : wal.Accepts
  · have first := numbered.first
    obtain ⟨next, bounded⟩ := numbered.succ accepts
    refine ⟨_, _, [_], appendEntry_of_accepts accepts w f blockId dataOffset dataSize crc32, ?_, ?_⟩
    · refine ⟨numbered.isOpen, ?_, ?_⟩
      · show 1 ≤ u64 _
        omega
      · show u64 _ ≤ _
        omega
    · intro e member
      rw [List.mem_singleton] at member
      refine ⟨_, _, member, ?_⟩
      rw [fileOffset_of_bounded numbered.bounded]
      unfold walBlockSize
      omega
  · obtain ⟨s, file, result, isOpen⟩ := appendEntry_of_refused accepts w f blockId dataOffset dataSize crc32
    exact ⟨_, _, [], result, ⟨isOpen.trans numbered.isOpen, numbered.first, numbered.bounded⟩, nofun⟩

/-- A commit writes to a slot with the magic number, which a blank first one does not have. -/
theorem commit_effects {wal : WalManager} (numbered : wal.Numbered) {w : World F} {f : F}
    (blank : FirstBlank (w.files f)) (seq : Nat) :
    ∃ r wal' effects, wal.commitEntry w f seq = (r, wal', w.performAll effects) ∧
      wal'.Numbered ∧ ∀ e ∈ effects, BehindFirst f e := by
  obtain ⟨r, file, effects, result, isOpen, outcome⟩ := commitEntry_cases wal w f seq
  refine ⟨r, _, effects, result, ⟨isOpen.trans numbered.isOpen, numbered.first, numbered.bounded⟩, ?_⟩
  rcases outcome with ⟨-, rfl⟩ | ⟨-, -, magic, rfl⟩
  · nofun
  · intro e member
    rw [List.mem_singleton] at member
    refine ⟨_, _, member, ?_⟩
    by_contra front
    have zero : fileOffset seq = 0 := by
      unfold fileOffset u64 walBlockSize at *
      omega
    rw [zero] at magic
    exact blank.no_magic magic

theorem numbered_reset {wal : WalManager} (isOpen : wal.isOpen = true) (w : World F) (f : F) :
    wal.reset w f = (.ok, { wal with file := wal.file.close.open', nextSeq := 1 }, w.perform (.truncate f)) ∧
      { wal with file := wal.file.close.open', nextSeq := 1 }.Numbered :=
  ⟨if_neg (by simp [isOpen]), ⟨rfl, Nat.le_refl _, show 1 ≤ _ by decide⟩⟩

/-! ## A blank first slot -/

theorem FirstBlank.scan {img : Image} (blank : FirstBlank img) (s : Stream) (walSize : Nat) :
    ∃ s', scan s img walSize 0 = ([], s') ∧ s'.isOpen = s.isOpen := by
  apply scan_of_zeros
  intro i h
  apply blank
  unfold WalEntryHeader.bytes at h
  unfold walBlockSize
  omega

/-- The first number after opening. -/
theorem FirstBlank.open {img : Image} (blank : FirstBlank img) (wal : WalManager) (walBlocks : Nat) :
    ∃ s, (wal.open' img walBlocks).2 = { walBlocks := walBlocks, nextSeq := 1, file := s } ∧ s.isOpen = true := by
  obtain ⟨s, scanned, isOpen⟩ := blank.scan wal.file.open' (u64 (walBlocks * walBlockSize))
  refine ⟨s, ?_, ?_⟩
  · unfold WalManager.open'
    rw [scanned]
    rfl
  · rw [isOpen, Stream.open'_isOpen]

/-- Where the first slot can be read, the stream stays good. -/
theorem FirstBlank.open_of_whole {img : Image} (blank : FirstBlank img) (whole : WalEntryHeader.bytes ≤ img.size)
    {wal : WalManager} (closed : wal.file = Stream.closed) (walBlocks : Nat) :
    (wal.open' img walBlocks).2 = { walBlocks := walBlocks, nextSeq := 1, file := ⟨true, false⟩ } := by
  have scanned : WalManager.scan ⟨true, false⟩ img (u64 (walBlocks * walBlockSize)) 0 = ([], ⟨true, false⟩) := by
    rw [WalManager.scan]
    split
    · rw [Stream.read_ok rfl (by decide) (by rwa [Nat.zero_add])]
      exact if_pos blank.no_magic
    · rfl
  unfold WalManager.open'
  rw [closed, show Stream.closed.open' = ⟨true, false⟩ from rfl, scanned]
  rfl

/-- Nothing is ever replayed. -/
theorem FirstBlank.replay {img : Image} (blank : FirstBlank img) {wal : WalManager} (numbered : wal.Numbered) :
    ∃ s, wal.replay img = (.ok [], { wal with file := s }) ∧ s.isOpen = true := by
  obtain ⟨s, scanned, isOpen⟩ := blank.scan wal.file wal.walSize
  refine ⟨s, ?_, isOpen.trans numbered.isOpen⟩
  unfold WalManager.replay
  rw [if_neg (by simp [numbered.isOpen]), scanned]
  rfl

end OpenFS.WalManager
