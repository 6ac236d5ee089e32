import OpenFS.Common.Types
import OpenFS.Lib.FileLog

/-!
# The write-ahead log

One entry header per 4096-byte slot of the log file. The header is 40 bytes in
memory and in the file (its fields end at byte 36), while the bounds checks
count 32. A log file that is missing is created empty, so that a missing file
and an empty one are the same here.
-/

namespace OpenFS

open ByteImage FileLog

/-- The number in bytes `off` to `off + n` of a buffer. -/
def field (bs : List UInt8) (off n : Nat) : Nat := fromLE ((bs.drop off).take n)

structure WalEntryHeader where
  magic : UInt32 := UInt32.ofNat walMagic
  entrySize : UInt32 := 0
  blockId : UInt64 := 0
  dataOffset : UInt64 := 0
  dataSize : UInt32 := 0
  crc32 : UInt32 := 0
  committed : UInt8 := 0
  /-- The reserved bytes and the padding. -/
  reserved : List UInt8 := List.replicate 7 0
  deriving DecidableEq, Repr

namespace WalEntryHeader

/-- `sizeof(WalEntryHeader)`. -/
def bytes : Nat := 40

def encode (h : WalEntryHeader) : List UInt8 :=
  toLE 4 h.magic.toNat ++ toLE 4 h.entrySize.toNat ++ toLE 8 h.blockId.toNat ++ toLE 8 h.dataOffset.toNat ++
    toLE 4 h.dataSize.toNat ++ toLE 4 h.crc32.toNat ++ [h.committed] ++ h.reserved

def decode (bs : List UInt8) : WalEntryHeader :=
  { magic := UInt32.ofNat (field bs 0 4), entrySize := UInt32.ofNat (field bs 4 4),
    blockId := UInt64.ofNat (field bs 8 8), dataOffset := UInt64.ofNat (field bs 16 8),
    dataSize := UInt32.ofNat (field bs 24 4), crc32 := UInt32.ofNat (field bs 28 4),
    committed := UInt8.ofNat (field bs 32 1), reserved := (bs.drop 33).take 7 }

theorem length_encode {h : WalEntryHeader} (reserved : h.reserved.length = 7) : h.encode.length = bytes := by
  simp [encode, reserved, bytes]

theorem decode_encode {h : WalEntryHeader} (reserved : h.reserved.length = 7) : decode h.encode = h := by
  obtain ⟨magic, entrySize, blockId, dataOffset, dataSize, crc32, committed, tail⟩ := h
  simp only at reserved
  simp only [encode, decode, field]
  simp [List.drop_append, List.drop_of_length_le, List.take_of_length_le, reserved, uint8_ofNat_fromLE,
    uint32_ofNat_fromLE, uint64_ofNat_fromLE]

/-- The committed flag stands behind 32 bytes and before the reserved ones. -/
theorem encode_flag (h : WalEntryHeader) : ∃ front : List UInt8, front.length = 32 ∧
    h.encode = front ++ h.committed :: h.reserved ∧
    ({ h with committed := 1 } : WalEntryHeader).encode = front ++ 1 :: h.reserved := by
  refine ⟨toLE 4 h.magic.toNat ++ toLE 4 h.entrySize.toNat ++ toLE 8 h.blockId.toNat ++
    toLE 8 h.dataOffset.toNat ++ toLE 4 h.dataSize.toNat ++ toLE 4 h.crc32.toNat, ?_, ?_, ?_⟩
  · simp
  · simp [encode]
  · simp [encode]

/-- A header read from zeros has no magic number. -/
theorem magic_decode_zeros : (decode (List.replicate bytes 0)).magic ≠ UInt32.ofNat walMagic := by decide

end WalEntryHeader

/-- What `Replay` returns for one entry. -/
structure WalEntry where
  seq : Nat := 0
  blockId : UInt64 := 0
  dataOffset : UInt64 := 0
  dataSize : UInt32 := 0
  crc32 : UInt32 := 0
  committed : Bool := false
  deriving DecidableEq, Repr

structure WalManager where
  walBlocks : Nat := 0
  nextSeq : Nat := 1
  file : Stream := Stream.closed
  deriving DecidableEq, Repr

namespace WalManager

variable {F : Type} [DecidableEq F]

/-- `wal_blocks_ * kWalBlockSize`. -/
def walSize (wal : WalManager) : Nat := u64 (wal.walBlocks * walBlockSize)

/-- The slot of a sequence number. -/
def fileOffset (seq : Nat) : Nat := u64 (seq * walBlockSize)

def isOpen (wal : WalManager) : Bool := wal.file.isOpen

/-- The loop that `Open` and `Replay` share: the headers from `offset` on, as far
as they can be read and carry the magic number. An offset that was read is below
`2 ^ 63`, so that stepping over an entry does not wrap. -/
def scan (s : Stream) (img : Image) (walSize offset : Nat) : List (Nat × WalEntryHeader) × Stream :=
  if offset + walEntryHeaderSize ≤ walSize then
    match s.read img offset WalEntryHeader.bytes with
    | (none, s) => ([], s)
    | (some bs, s) =>
      let hdr := WalEntryHeader.decode bs
      if hdr.magic ≠ UInt32.ofNat walMagic then ([], s)
      else
        let (rest, s) := scan s img walSize (offset + max hdr.entrySize.toNat walBlockSize)
        ((offset, hdr) :: rest, s)
  else ([], s)
termination_by walSize - offset
decreasing_by
  simp only [walEntryHeaderSize, walBlockSize] at *
  omega

/-- The headers that count: `block_id > 0 && entry_size > 0`. -/
def valid (hdr : WalEntryHeader) : Bool := decide (0 < hdr.blockId ∧ 0 < hdr.entrySize)

/-- The last valid header of the scan sets the next sequence number. -/
def open' (wal : WalManager) (img : Image) (walBlocks : Nat) : Status × WalManager :=
  let (visited, s) := scan wal.file.open' img (u64 (walBlocks * walBlockSize)) 0
  let maxSeq := visited.foldl (fun seq v => if valid v.2 then v.1 / walBlockSize + 1 else seq) 0
  (.ok, { walBlocks := walBlocks, nextSeq := u64 (maxSeq + 1), file := s })

def close (wal : WalManager) : WalManager := { wal with file := wal.file.close }

/-- The header that `AppendEntry` writes. -/
def newHeader (blockId dataOffset : UInt64) (dataSize crc32 : UInt32) : WalEntryHeader :=
  { magic := UInt32.ofNat walMagic, entrySize := UInt32.ofNat walBlockSize, blockId := blockId,
    dataOffset := dataOffset, dataSize := dataSize, crc32 := crc32, committed := 0 }

/-- The header is buffered: that `flush` fails does not show, and the entry counts. -/
def appendEntry (wal : WalManager) (w : World F) (f : F) (blockId dataOffset : UInt64)
    (dataSize crc32 : UInt32) (access : Access := .whole) : Except Status Nat × WalManager × World F :=
  if ¬ wal.isOpen then (.error .ioError, wal, w)
  else
    let off := fileOffset wal.nextSeq
    if wal.walSize < off + walEntryHeaderSize then (.error .noSpace, wal, w)
    else
      match wal.file.write w f off (newHeader blockId dataOffset dataSize crc32).encode access with
      | (false, s, w) => (.error .ioError, { wal with file := s }, w)
      | (true, s, w) => (.ok wal.nextSeq, { wal with file := s, nextSeq := u64 (wal.nextSeq + 1) }, w)

def commitEntry (wal : WalManager) (w : World F) (f : F) (seq : Nat) (reading writing : Access := .whole) :
    Status × WalManager × World F :=
  if ¬ wal.isOpen then (.ioError, wal, w)
  else
    let off := fileOffset seq
    if wal.walSize < off + walEntryHeaderSize then (.notFound, wal, w)
    else
      match wal.file.read (w.files f) off WalEntryHeader.bytes reading with
      | (none, s) => (.ioError, { wal with file := s }, w)
      | (some bs, s) =>
        let hdr := WalEntryHeader.decode bs
        if hdr.magic ≠ UInt32.ofNat walMagic then (.notFound, { wal with file := s }, w)
        else
          match s.write w f off { hdr with committed := 1 }.encode writing with
          | (false, s, w) => (.ioError, { wal with file := s }, w)
          | (true, s, w) => (.ok, { wal with file := s }, w)

/-- The entry that `Replay` makes of a valid header. -/
def toEntry (v : Nat × WalEntryHeader) : WalEntry :=
  { seq := v.1 / walBlockSize + 1, blockId := v.2.blockId, dataOffset := v.2.dataOffset,
    dataSize := v.2.dataSize, crc32 := v.2.crc32, committed := v.2.committed ≠ 0 }

def replay (wal : WalManager) (img : Image) : Except Status (List WalEntry) × WalManager :=
  if ¬ wal.isOpen then (.error .ioError, wal)
  else
    let (visited, s) := scan wal.file img wal.walSize 0
    (.ok ((visited.filter fun v => valid v.2).map toEntry), { wal with file := s })

/-- Truncate the file and open it again. -/
def reset (wal : WalManager) (w : World F) (f : F) : Status × WalManager × World F :=
  if ¬ wal.isOpen then (.ioError, wal, w)
  else (.ok, { wal with file := wal.file.close.open', nextSeq := 1 }, w.perform (.truncate f))

/-! ## What the operations do -/

/-- The log takes another entry: the stream is good and the next slot is in the file's bounds. -/
def Accepts (wal : WalManager) : Prop :=
  wal.file.good = true ∧ fileOffset wal.nextSeq + walEntryHeaderSize ≤ wal.walSize ∧
    fileOffset wal.nextSeq < 2 ^ 63

instance (wal : WalManager) : Decidable wal.Accepts := by unfold Accepts; infer_instance

/-- An accepted entry goes to the slot of the next sequence number. -/
theorem appendEntry_of_accepts {wal : WalManager} (accepts : wal.Accepts) (w : World F) (f : F)
    (blockId dataOffset : UInt64) (dataSize crc32 : UInt32) :
    wal.appendEntry w f blockId dataOffset dataSize crc32 =
      (.ok wal.nextSeq, { wal with nextSeq := u64 (wal.nextSeq + 1) },
        w.perform (.write f (fileOffset wal.nextSeq) (newHeader blockId dataOffset dataSize crc32).encode)) := by
  obtain ⟨good, bound, seek⟩ := accepts
  have isOpen : wal.isOpen = true := by
    unfold Stream.good at good
    simp only [Bool.and_eq_true] at good
    exact good.1
  unfold appendEntry
  rw [if_neg (by simp [isOpen]), if_neg (by omega), Stream.write_ok w f _ good seek]

/-- A refused entry leaves the files and the sequence number as they were. -/
theorem appendEntry_of_refused {wal : WalManager} (refused : ¬ wal.Accepts) (w : World F) (f : F)
    (blockId dataOffset : UInt64) (dataSize crc32 : UInt32) (access : Access := .whole) :
    ∃ s file, wal.appendEntry w f blockId dataOffset dataSize crc32 access =
        (.error s, { wal with file := file }, w) ∧
      file.isOpen = wal.file.isOpen := by
  unfold appendEntry
  by_cases isOpen : wal.isOpen
  · rw [if_neg (by simp [isOpen])]
    by_cases full : wal.walSize < fileOffset wal.nextSeq + walEntryHeaderSize
    · exact ⟨.noSpace, wal.file, by rw [if_pos full], rfl⟩
    · rw [if_neg full]
      have bad : ¬ (wal.file.good = true ∧ fileOffset wal.nextSeq < 2 ^ 63) := by
        rintro ⟨good, seek⟩
        exact refused ⟨good, by omega, seek⟩
      refine ⟨.ioError, { wal.file with failbit := true }, ?_, rfl⟩
      rw [Stream.write_bad w f _ access bad]
  · exact ⟨.ioError, wal.file, by rw [if_pos (by simp [isOpen])], rfl⟩

/-- A commit changes one header of the file, one that carries the magic number, or nothing. -/
theorem commitEntry_cases (wal : WalManager) (w : World F) (f : F) (seq : Nat) :
    ∃ s file effects, wal.commitEntry w f seq = (s, { wal with file := file }, w.performAll effects) ∧
      file.isOpen = wal.file.isOpen ∧
      (s ≠ .ok ∧ effects = [] ∨
        s = .ok ∧ file = wal.file ∧
        (WalEntryHeader.decode ((w.files f).bytes (fileOffset seq) WalEntryHeader.bytes)).magic =
          UInt32.ofNat walMagic ∧
        effects = [.write f (fileOffset seq) { WalEntryHeader.decode
          ((w.files f).bytes (fileOffset seq) WalEntryHeader.bytes) with committed := 1 }.encode]) := by
  unfold commitEntry
  by_cases isOpen : wal.isOpen
  · rw [if_neg (by simp [isOpen])]
    by_cases out : wal.walSize < fileOffset seq + walEntryHeaderSize
    · exact ⟨.notFound, wal.file, [], by rw [if_pos out]; rfl, rfl, .inl ⟨nofun, rfl⟩⟩
    · simp only [if_neg out]
      cases reading : wal.file.read (w.files f) (fileOffset seq) WalEntryHeader.bytes with
      | mk bs s =>
        cases bs with
        | none =>
          refine ⟨.ioError, s, [], rfl, ?_, .inl ⟨nofun, rfl⟩⟩
          unfold Stream.read at reading
          split at reading <;> cases reading
          rfl
        | some bs =>
          obtain ⟨good, seek, rfl, rfl⟩ := Stream.read_eq_some reading
          dsimp only
          by_cases magic : (WalEntryHeader.decode
            ((w.files f).bytes (fileOffset seq) WalEntryHeader.bytes)).magic = UInt32.ofNat walMagic
          · rw [if_neg (by simp [magic]), Stream.write_ok w f _ good seek]
            exact ⟨.ok, wal.file, _, rfl, rfl, .inr ⟨rfl, rfl, magic, rfl⟩⟩
          · rw [if_pos magic]
            exact ⟨.notFound, wal.file, [], rfl, rfl, .inl ⟨nofun, rfl⟩⟩
  · exact ⟨.ioError, wal.file, [], by rw [if_pos (by simp [isOpen])]; rfl, rfl, .inl ⟨nofun, rfl⟩⟩

/-- The scan stops at once where the first slot holds zeros or nothing at all. -/
theorem scan_of_zeros {s : Stream} {img : Image} (zeros : ∀ i, i < WalEntryHeader.bytes → img.byte i = 0)
    (walSize : Nat) : ∃ s', scan s img walSize 0 = ([], s') ∧ s'.isOpen = s.isOpen := by
  rw [scan]
  split
  · cases reading : s.read img 0 WalEntryHeader.bytes with
    | mk bs s' =>
      cases bs with
      | none =>
        refine ⟨s', rfl, ?_⟩
        unfold Stream.read at reading
        split at reading <;> cases reading
        rfl
      | some bs =>
        obtain ⟨-, -, rfl, rfl⟩ := Stream.read_eq_some reading
        have blank : img.bytes 0 WalEntryHeader.bytes = List.replicate WalEntryHeader.bytes 0 := by
          apply List.ext_getElem
          · simp
          · intro i h _
            rw [Image.getElem_bytes, List.getElem_replicate, Nat.zero_add]
            exact zeros i (by simpa using h)
        dsimp only
        rw [blank, if_pos WalEntryHeader.magic_decode_zeros]
        exact ⟨s', rfl, rfl⟩
  · exact ⟨s, rfl, rfl⟩

end WalManager

end OpenFS
