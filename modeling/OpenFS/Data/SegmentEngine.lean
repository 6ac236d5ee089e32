import OpenFS.Common.Types
import OpenFS.Lib.OutFile

/-!
# Segment files

Blocks are appended to segment files, each with a header in front and at an aligned
offset. A segment file has a header of its own, and when it is full a footer. The engine
writes one segment at a time and numbers them from 1. What a stream writes is seen by
readers at once, and files can be opened.
-/

namespace OpenFS

open ByteImage

def segmentHeaderSize : Nat := 4096
def segmentFooterSize : Nat := 4096
def blockHeaderSize : Nat := 64
def blockAlignment : Nat := 4096

/-- `kSegmentMagic`: the characters `OFSSG001`. -/
def segmentMagic : List UInt8 := [79, 70, 83, 83, 71, 48, 48, 49]

/-! ## Writing a segment -/

structure SegmentWriter where
  segmentId : UInt64
  path : Str
  maxSize : Nat
  currentOffset : Nat := 0
  file : OutFile Str
  sealed_ : Bool := false

namespace SegmentWriter

def headerBuf (segmentId : UInt64) : List UInt8 :=
  segmentMagic ++ toLE 8 segmentId.toNat ++ List.replicate (segmentHeaderSize - 16) 0

/-- Magic, segment id and the offset up to which there is data. -/
def footerBuf (segmentId : UInt64) (currentOffset : Nat) : List UInt8 :=
  segmentMagic ++ toLE 8 segmentId.toNat ++ toLE 8 currentOffset ++ List.replicate (segmentFooterSize - 24) 0

/-- Bytes 0 to 7 the block id, 8 the level, 12 to 15 the data size, 16 to 19 the checksum. -/
def blockHdr (blockId : UInt64) (level : BlkLevel) (dataSize crc32 : UInt32) : List UInt8 :=
  toLE 8 blockId.toNat ++ [level.toByte] ++ List.replicate 3 0 ++ toLE 4 dataSize.toNat ++ toLE 4 crc32.toNat ++
    List.replicate (blockHeaderSize - 20) 0

/-- Where the footer goes: the difference is an unsigned 64-bit number. -/
def footerPos (maxSize : Nat) : Nat :=
  if segmentFooterSize ≤ maxSize then maxSize - segmentFooterSize else maxSize + 2 ^ 64 - segmentFooterSize

def writeHeader (w : SegmentWriter) (files : Files Str) : Status × SegmentWriter × Files Str :=
  let (file, files) := w.file.write files (headerBuf w.segmentId)
  if ¬ file.good then (.ioError, { w with file := file }, files)
  else (.ok, { w with file := file, currentOffset := segmentHeaderSize }, files)

/-- The constructor: the file is emptied. -/
def create (files : Files Str) (segmentId : UInt64) (path : Str) (maxSize : Nat) : SegmentWriter × Files Str :=
  let (file, files) := OutFile.openTrunc files path
  let w : SegmentWriter := { segmentId := segmentId, path := path, maxSize := maxSize, file := file }
  (w.writeHeader files).2

def isFull (w : SegmentWriter) : Bool := w.maxSize < u64 (w.currentOffset + blockHeaderSize + blockAlignment)

/-- The next multiple of the alignment. -/
def aligned (currentOffset : Nat) : Nat := u64 (currentOffset + blockAlignment - 1)
    / blockAlignment * blockAlignment

/-- A block of this size does not fit before the footer. -/
def noSpaceFor (w : SegmentWriter) (dataSize : UInt32) : Bool :=
  footerPos w.maxSize < u64 (aligned w.currentOffset + blockHeaderSize + dataSize.toNat)

/-- Zeros up to the alignment. -/
def pad (w : SegmentWriter) (files : Files Str) : SegmentWriter × Files Str :=
  if w.currentOffset < aligned w.currentOffset then
    let (file, files) := w.file.write files (List.replicate (aligned w.currentOffset - w.currentOffset) 0)
    if ¬ file.good then ({ w with file := file }, files)
    else ({ w with file := file, currentOffset := aligned w.currentOffset }, files)
  else (w, files)

/-- The offset of the new record. A stream that has failed on the zeros fails on the header. -/
def writeBlock (w : SegmentWriter) (files : Files Str) (blockId : UInt64) (level : BlkLevel) (data : List UInt8)
    (dataSize crc32 : UInt32) : Except Status Nat × SegmentWriter × Files Str :=
  if w.sealed_ then (.error .invalidArgument, w, files)
  else if w.noSpaceFor dataSize then (.error .noSpace, w, files)
  else
    let (w, files) := w.pad files
    let (file, files) := w.file.write files (blockHdr blockId level dataSize crc32)
    if ¬ file.good then (.error .ioError, { w with file := file }, files)
    else
      let (file, files) := file.write files (data.take dataSize.toNat)
      if ¬ file.good then (.error .ioError, { w with file := file }, files)
      else (.ok w.currentOffset,
        { w with file := file, currentOffset := w.currentOffset + blockHeaderSize + dataSize.toNat }, files)

/-- The stream at the place of the footer, or where it is if that is further on. -/
def seekFooter (w : SegmentWriter) : OutFile Str :=
  if w.currentOffset < footerPos w.maxSize then w.file.seekp (footerPos w.maxSize) else w.file

def seal_ (w : SegmentWriter) (files : Files Str) : Status × SegmentWriter × Files Str :=
  if w.sealed_ then (.ok, w, files)
  else
    let (file, files) := w.seekFooter.write files (footerBuf w.segmentId w.currentOffset)
    if ¬ file.good then (.ioError, { w with file := file }, files)
    else (.ok, { w with file := file, sealed_ := true }, files)

end SegmentWriter

/-! ## Reading segments -/

namespace SegmentReader

/-- The id in decimal, six digits at least. -/
def segmentPath (dataDir : Str) (segmentId : UInt64) : Str :=
  dataDir ++ "/segment_".toList ++ (Nat.toDigits 10 segmentId.toNat).leftpad 6 '0' ++ ".dat".toList

/-- The data and its checksum, as the record's header gives them. -/
def readBlock (files : Files Str) (dataDir : Str) (segmentId : UInt64) (offset : Nat) :
    Except Status (List UInt8 × UInt32) :=
  match files (segmentPath dataDir segmentId) with
  | none => .error .notFound
  | some img =>
    if 2 ^ 63 ≤ offset then .error .ioError
    else if img.size < offset + blockHeaderSize then .error .ioError
    else
      let hdr := img.bytes offset blockHeaderSize
      let dataSize := fromLE ((hdr.drop 12).take 4)
      let crc32 := UInt32.ofNat (fromLE ((hdr.drop 16).take 4))
      if img.size < offset + blockHeaderSize + dataSize then .error .ioError
      else .ok (img.bytes (offset + blockHeaderSize) dataSize, crc32)

end SegmentReader

/-! ## The engine -/

structure SegmentEngine where
  dataDir : Str
  segmentSize : Nat
  activeWriter : Option SegmentWriter := none
  nextSegmentId : UInt64 := 1
  blockIndex : UInt64 → Option (UInt64 × Nat) := fun _ => none

namespace SegmentEngine

/-- The new writer takes the next id. -/
def createNewSegment (e : SegmentEngine) (files : Files Str) : SegmentWriter × SegmentEngine × Files Str :=
  let segId := e.nextSegmentId
  let path := e.dataDir ++ "/segment_".toList ++ (Nat.toDigits 10 segId.toNat).leftpad 6 '0' ++ ".dat".toList
  let created := SegmentWriter.create files segId path e.segmentSize
  (created.1, { e with activeWriter := some created.1, nextSegmentId := e.nextSegmentId + 1 }, created.2)

/-- The active segment is sealed, if that works, and another one begun. -/
def rotate (e : SegmentEngine) (w : SegmentWriter) (files : Files Str) :
    SegmentWriter × SegmentEngine × Files Str :=
  let sealing := w.seal_ files
  createNewSegment { e with activeWriter := some sealing.2.1 } sealing.2.2

/-- A block that does not fit is tried once more in a new segment. -/
def append (e : SegmentEngine) (w : SegmentWriter) (files : Files Str) (blockId : UInt64) (level : BlkLevel)
    (data : List UInt8) (dataSize crc32 : UInt32) : Except Status Nat × SegmentWriter × SegmentEngine ×
      Files Str :=
  match w.writeBlock files blockId level data dataSize crc32 with
  | (.error .noSpace, w, files) =>
    let rotated := e.rotate w files
    let retried := rotated.1.writeBlock rotated.2.2 blockId level data dataSize crc32
    (retried.1, retried.2.1, rotated.2.1, retried.2.2)
  | (r, w, files) => (r, w, e, files)

/-- The active writer, or a first one. -/
def begin_ (e : SegmentEngine) (files : Files Str) : SegmentWriter × SegmentEngine × Files Str :=
  match e.activeWriter with
  | none => e.createNewSegment files
  | some w => (w, e, files)

/-- A segment that is full is left. -/
def leaveFull (e : SegmentEngine) (w : SegmentWriter) (files : Files Str) :
    SegmentWriter × SegmentEngine × Files Str :=
  if w.isFull then e.rotate w files else (w, e, files)

/-- The segment id and the offset of the new record. -/
def writeBlock (e : SegmentEngine) (files : Files Str) (blockId : UInt64) (level : BlkLevel) (data : List UInt8)
    (dataSize crc32 : UInt32) : Except Status (UInt64 × Nat) × SegmentEngine × Files Str :=
  let begun := e.begin_ files
  let ready := begun.2.1.leaveFull begun.1 begun.2.2
  match ready.2.1.append ready.1 ready.2.2 blockId level data dataSize crc32 with
  | (.error s, w, e, files) => (.error s, { e with activeWriter := some w }, files)
  | (.ok offset, w, e, files) =>
    (.ok (w.segmentId, offset), { e with
      activeWriter := some w
      blockIndex := Function.update e.blockIndex blockId (some (w.segmentId, offset)) }, files)

def readBlock (e : SegmentEngine) (files : Files Str) (segmentId : UInt64) (offset : Nat) :
    Except Status (List UInt8 × UInt32) := SegmentReader.readBlock files e.dataDir segmentId offset

end SegmentEngine

end OpenFS
