import OpenFS.Common.Types
import OpenFS.Lib.FileLog

/-!
# The block IO engine

`ReadAt` and `WriteAt` on a stream, for disks that are files, and on a file
descriptor with `O_DIRECT`, for raw devices. `pread` and `pwrite` with `O_DIRECT`
refuse an offset or a length that is no multiple of the block size. `WriteAt` tests the
stream after `write` and not after `flush`.
-/

namespace OpenFS

open ByteImage FileLog

namespace BlockIOEngine

variable {F : Type} [DecidableEq F]

def readAt (file : Stream) (img : Image) (offset size : Nat) (access : Access := .whole) :
    Except Status (List UInt8) × Stream :=
  if ¬ file.isOpen then (.error .ioError, file)
  else
    match file.read img offset size access with
    | (none, file) => (.error .ioError, file)
    | (some bs, file) => (.ok bs, file)

def writeAt (file : Stream) (w : World F) (f : F) (offset : Nat) (data : List UInt8)
    (access : Access := .whole) : Status × Stream × World F :=
  if ¬ file.isOpen then (.ioError, file, w)
  else
    match file.write w f offset data access with
    | (false, file, w) => (.ioError, file, w)
    | (true, file, w) => (.ok, file, w)

/-! ## The direct path -/

/-- `kAlignSize`. -/
def alignSize : Nat := 4096

def alignedSize (size : Nat) : Nat := (size + alignSize - 1) / alignSize * alignSize

/-- `pread` with `O_DIRECT`. -/
def preadDirect (img : Image) (offset length : Nat) : Option (List UInt8) :=
  if offset % alignSize = 0 ∧ length % alignSize = 0 then some (img.bytes offset length) else none

/-- `pwrite` with `O_DIRECT`. -/
def pwriteDirect (img : Image) (offset : Nat) (bs : List UInt8) : Option Image :=
  if offset % alignSize = 0 ∧ bs.length % alignSize = 0 then some (img.write offset bs) else none

/-- The length is rounded up, and the first `size` bytes are returned. -/
def readAtDirect (img : Image) (offset size : Nat) : Except Status (List UInt8) :=
  match preadDirect img offset (alignedSize size) with
  | none => .error .ioError
  | some buf => .ok (buf.take size)

/-- The data is filled up with zeros to a whole number of blocks. -/
def writeAtDirect (img : Image) (offset : Nat) (data : List UInt8) : Status × Image :=
  match pwriteDirect img offset (data ++ List.replicate (alignedSize data.length - data.length) 0) with
  | none => (.ioError, img)
  | some img => (.ok, img)

/-! ## Calls that go through -/

theorem readAt_of_good {file : Stream} {img : Image} {offset size : Nat} (good : file.good = true)
    (seek : offset < 2 ^ 63) (inside : size = 0 ∨ offset + size ≤ img.size) :
    readAt file img offset size = (.ok (img.bytes offset size), file) := by
  unfold readAt
  rw [if_neg (by simp [Stream.isOpen_of_good good]), Stream.read, if_pos ⟨good, seek, inside, rfl⟩]

theorem writeAt_of_good {file : Stream} (w : World F) (f : F) {offset : Nat} (data : List UInt8)
    (good : file.good = true) (seek : offset < 2 ^ 63) :
    writeAt file w f offset data = (.ok, file, w.perform (.write f offset data)) := by
  unfold writeAt
  rw [if_neg (by simp [Stream.isOpen_of_good good]), Stream.write_ok w f data good seek]

/-- A call that cannot be served leaves an open stream failed. -/
theorem readAt_of_bad {file : Stream} {img : Image} {offset size : Nat} {access : Access}
    (isOpen : file.isOpen = true)
    (bad : ¬ (file.good = true ∧ offset < 2 ^ 63 ∧ (size = 0 ∨ offset + size ≤ img.size) ∧ access = .whole)) :
    readAt file img offset size access = (.error .ioError, { file with failbit := true }) := by
  unfold readAt
  rw [if_neg (by simp [isOpen]), Stream.read, if_neg bad]

theorem writeAt_of_bad {file : Stream} (w : World F) (f : F) {offset : Nat} (data : List UInt8)
    (access : Access) (isOpen : file.isOpen = true) (bad : ¬ (file.good = true ∧ offset < 2 ^ 63)) :
    writeAt file w f offset data access = (.ioError, { file with failbit := true }, w) := by
  unfold writeAt
  rw [if_neg (by simp [isOpen]), Stream.write_bad w f data access bad]

/-- A write on a good stream, whatever the file makes of it: it fails if it is seen to fail,
and leaves the stream failed if any of it is missing in the file. -/
theorem writeAt_of_access {file : Stream} (w : World F) (f : F) {offset : Nat} (data : List UInt8)
    (access : Access) (good : file.good = true) (seek : offset < 2 ^ 63) :
    ∃ s file', writeAt file w f offset data access =
        (s, file', w.perform (.write f offset (access.reached data))) ∧
      (s = .ok ∧ access.Taken ∨ s = .ioError ∧ ¬ access.Taken) ∧ file'.isOpen = file.isOpen ∧
      (access = .whole ∧ file' = file ∨ access ≠ .whole ∧ file'.failbit = true) := by
  obtain ⟨ok, file', result, taken, isOpen, cut⟩ := Stream.write_good w f data access good seek
  unfold writeAt
  rw [if_neg (by simp [Stream.isOpen_of_good good]), result]
  cases ok with
  | true => exact ⟨.ok, file', rfl, .inl ⟨rfl, taken.mp rfl⟩, isOpen, cut⟩
  | false => exact ⟨.ioError, file', rfl, .inr ⟨rfl, fun able => nomatch taken.mpr able⟩, isOpen, cut⟩

end BlockIOEngine

end OpenFS
