import Mathlib.Logic.Function.Basic
import OpenFS.Lib.ByteImage

/-!
# Output streams of files

Files are images by path. An output stream writes at its position and moves on; once an
operation has failed, all later ones do. Positions are those of a signed 64-bit offset.
-/

open ByteImage

/-- What the files of a machine contain. -/
abbrev Files (π : Type) := π → Option Image

/-- A stream that is open for writing. -/
structure OutFile (π : Type) where
  path : π
  pos : Nat := 0
  good : Bool := true
  deriving DecidableEq, Repr

namespace OutFile

section
variable {π : Type}

@[irreducible] def seekp (f : OutFile π) (pos : Nat) : OutFile π :=
  if f.good ∧ pos < 2 ^ 63 then { f with pos := pos } else { f with good := false }

/-- The file has the bytes at an offset. -/
def Has (files : Files π) (path : π) (off : Nat) (bs : List UInt8) : Prop :=
  ∃ img, files path = some img ∧ img.bytes off bs.length = bs ∧ off + bs.length ≤ img.size

variable [DecidableEq π]

/-- Opens a file and empties it. -/
def openTrunc (files : Files π) (path : π) : OutFile π × Files π :=
  ({ path := path }, Function.update files path (some Image.empty))

@[irreducible] def write (f : OutFile π) (files : Files π) (bs : List UInt8) : OutFile π × Files π :=
  if f.good ∧ f.pos + bs.length < 2 ^ 63 then
    ({ f with pos := f.pos + bs.length },
      Function.update files f.path (some (((files f.path).getD Image.empty).write f.pos bs)))
  else ({ f with good := false }, files)

/-! ## What is written -/

variable {files : Files π} {path : π} {f : OutFile π} {off : Nat} {bs bs' : List UInt8}

theorem write_eq (good : f.good = true) (room : f.pos + bs.length < 2 ^ 63) :
    f.write files bs = ({ f with pos := f.pos + bs.length },
      Function.update files f.path (some (((files f.path).getD Image.empty).write f.pos bs))) := by
  unfold write
  exact if_pos ⟨good, room⟩

@[simp] theorem write_path : (f.write files bs).1.path = f.path := by
  unfold write
  split
  · rfl
  · rfl

/-- A stream that is good after a write was good before, and has moved on. -/
theorem write_good (after : (f.write files bs).1.good = true) :
    f.good = true ∧ f.pos + bs.length < 2 ^ 63 ∧ (f.write files bs).1.pos = f.pos + bs.length := by
  unfold write at after ⊢
  split
  · next able => exact ⟨able.1, able.2, rfl⟩
  · next not =>
    rw [if_neg not] at after
    cases after

omit [DecidableEq π] in
@[simp] theorem seekp_path {pos : Nat} : (f.seekp pos).path = f.path := by
  unfold seekp
  split
  · rfl
  · rfl

omit [DecidableEq π] in
theorem seekp_good {pos : Nat} (after : (f.seekp pos).good = true) : f.good = true ∧ (f.seekp pos).pos = pos := by
  unfold seekp at after ⊢
  split
  · next able => exact ⟨able.1, rfl⟩
  · next not =>
    rw [if_neg not] at after
    cases after

/-- Opening one file leaves the others. -/
theorem Has.openTrunc (has : Has files path off bs) {other : π} (apart : path ≠ other) :
    Has (OutFile.openTrunc files other).2 path off bs := by
  obtain ⟨img, there, same, inside⟩ := has
  refine ⟨img, ?_, same, inside⟩
  show Function.update files other _ path = _
  rw [Function.update_of_ne apart, there]

/-- A write leaves other files, and what is before its position. -/
theorem Has.write (has : Has files path off bs)
    (apart : f.good = true → path ≠ f.path ∨ off + bs.length ≤ f.pos) : Has (f.write files bs').2 path off bs := by
  unfold OutFile.write
  split
  · next able =>
    obtain ⟨img, there, same, inside⟩ := has
    by_cases own : path = f.path
    · subst own
      have before := (apart able.1).resolve_left fun ne => ne rfl
      refine ⟨_, Function.update_self .., ?_, ?_⟩
      · rw [there, Option.getD_some, Image.bytes_write_of_disjoint (.inl before), same]
      · rw [there, Option.getD_some]
        exact Nat.le_trans inside (Image.size_le_write ..)
    · exact ⟨img, (Function.update_of_ne own _ _).trans there, same, inside⟩
  · exact has

/-- What a write leaves at its position. -/
theorem has_write (after : (f.write files bs).1.good = true) (some : bs ≠ []) :
    Has (f.write files bs).2 f.path f.pos bs := by
  obtain ⟨good, room, -⟩ := write_good after
  rw [write_eq good room]
  exact ⟨_, Function.update_self .., Image.bytes_write_same .., Image.end_le_size_write _ _ some⟩

/-- A write that goes on where something ends. -/
theorem Has.write_on (has : Has files f.path off bs) (stop : off + bs.length = f.pos)
    (after : (f.write files bs').1.good = true) : Has (f.write files bs').2 f.path off (bs ++ bs') := by
  have kept : Has (f.write files bs').2 f.path off bs := has.write fun _ => .inr (Nat.le_of_eq stop)
  obtain ⟨img, there, same, inside⟩ := kept
  refine ⟨img, there, ?_, ?_⟩
  · rw [List.length_append, Image.bytes_add, same]
    congr 1
    rw [stop]
    by_cases nothing : bs' = []
    · rw [nothing]
      rfl
    · obtain ⟨img', there', same', -⟩ := has_write after nothing
      cases there.symm.trans there'
      exact same'
  · rw [List.length_append, ← Nat.add_assoc]
    by_cases nothing : bs' = []
    · rw [nothing]
      exact inside
    · obtain ⟨img', there', -, inside'⟩ := has_write after nothing
      cases there.symm.trans there'
      rw [stop]
      exact inside'

end

end OutFile
