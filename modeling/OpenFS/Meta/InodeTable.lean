import Mathlib.Logic.Function.Basic
import OpenFS.Common.Types

/-!
# The inode table

`InodeTable` maps inode ids to records and hands out new ids. Each operation
takes the table's mutex for its whole body, so it is one atomic step.
-/

namespace OpenFS

structure InodeTable where
  inodes : UInt64 → Option Inode
  nextInodeId : UInt64

namespace InodeTable

/-- The record of the root directory. -/
def root (now : UInt64) : Inode :=
  { inodeId := 1, fileType := .directory, mode := 0o755, nlink := 2,
    atimeNs := now, mtimeNs := now, ctimeNs := now, name := ['/'] }

/-- The constructor: only the root is there, and id 1 is taken. -/
def init (now : UInt64) : InodeTable :=
  { inodes := Function.update (fun _ => none) 1 (some (root now)), nextInodeId := 2 }

def create (t : InodeTable) (inode : Inode) : Status × InodeTable :=
  match t.inodes inode.inodeId with
  | some _ => (.alreadyExists, t)
  | none => (.ok, { t with inodes := Function.update t.inodes inode.inodeId (some inode) })

def get (t : InodeTable) (inodeId : UInt64) : Except Status Inode :=
  match t.inodes inodeId with
  | some inode => .ok inode
  | none => .error .notFound

def update (t : InodeTable) (inode : Inode) : Status × InodeTable :=
  match t.inodes inode.inodeId with
  | some _ => (.ok, { t with inodes := Function.update t.inodes inode.inodeId (some inode) })
  | none => (.notFound, t)

def delete (t : InodeTable) (inodeId : UInt64) : Status × InodeTable :=
  match t.inodes inodeId with
  | some _ => (.ok, { t with inodes := Function.update t.inodes inodeId none })
  | none => (.notFound, t)

/-- Hands out the counter's value; the counter wraps at `2 ^ 64`. -/
def allocateInodeId (t : InodeTable) : UInt64 × InodeTable :=
  (t.nextInodeId, { t with nextInodeId := t.nextInodeId + 1 })

/-- Creating succeeds exactly on a free id. -/
theorem create_ok {t t' : InodeTable} {inode : Inode} (h : t.create inode = (.ok, t')) :
    t.inodes inode.inodeId = none ∧ t'.inodes = Function.update t.inodes inode.inodeId (some inode) ∧
      t'.nextInodeId = t.nextInodeId := by
  unfold create at h
  split at h
  · cases h
  · next free => cases h; exact ⟨free, rfl, rfl⟩

/-- A refused creation leaves the table as it was. -/
theorem create_refused {t t' : InodeTable} {inode : Inode} {s : Status}
    (h : t.create inode = (s, t')) (refused : s ≠ .ok) : t' = t := by
  unfold create at h
  split at h
  · cases h; rfl
  · cases h; exact absurd rfl refused

theorem get_eq_ok {t : InodeTable} {i : UInt64} {inode : Inode} :
    t.get i = .ok inode ↔ t.inodes i = some inode := by
  unfold get
  split <;> simp_all

/-- Updating a live record replaces it; updating a dead one does nothing. -/
theorem update_inodes (t : InodeTable) (inode : Inode) :
    (t.update inode).2.inodes =
      if (t.inodes inode.inodeId).isSome then Function.update t.inodes inode.inodeId (some inode)
      else t.inodes := by
  unfold update
  split <;> simp_all

theorem delete_inodes (t : InodeTable) (i : UInt64) :
    (t.delete i).2.inodes = Function.update t.inodes i none := by
  unfold delete
  split
  · rfl
  · next gone => rw [← gone, Function.update_eq_self]

@[simp] theorem update_nextInodeId (t : InodeTable) (inode : Inode) :
    (t.update inode).2.nextInodeId = t.nextInodeId := by
  unfold update; split <;> rfl

@[simp] theorem delete_nextInodeId (t : InodeTable) (i : UInt64) :
    (t.delete i).2.nextInodeId = t.nextInodeId := by
  unfold delete; split <;> rfl

end InodeTable

end OpenFS
