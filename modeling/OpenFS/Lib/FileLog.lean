import Mathlib.Data.List.Induction
import Mathlib.Logic.Function.Basic
import OpenFS.Lib.ByteImage

/-!
# Files with a log of writes, and crashes

A `World` is a family of files together with the log of the effects that made
them what they are. A crash interrupts the log: the effects before it are
durable, and of the write in progress an arbitrary subset of the bytes has been
applied. `Stream` is a `std::fstream` on one of the files, with the error flag
that a short read, a bad seek or a failed access leaves set.
-/

namespace FileLog

open ByteImage

/-- One change of one file. -/
inductive Effect (F : Type)
  | write (f : F) (off : Nat) (bs : List UInt8)
  | truncate (f : F)

section
variable {F : Type} [DecidableEq F]

def Effect.file : Effect F → F
  | .write f _ _ => f
  | .truncate f => f

def Effect.apply (files : F → Image) : Effect F → F → Image
  | .write f off bs => Function.update files f ((files f).write off bs)
  | .truncate f => Function.update files f Image.empty

/-- The files after a list of effects. -/
def replay (files : F → Image) (log : List (Effect F)) : F → Image :=
  log.foldl (fun files e => e.apply files) files

/-- What an interrupted effect may leave: some of a write's bytes, with the size
somewhere between the old one and the new, and a truncation whole or not at all. -/
inductive Torn (files : F → Image) : Effect F → (F → Image) → Prop where
  | write (f : F) (off : Nat) (bs : List UInt8) (img : Image)
      (grown : (files f).size ≤ img.size) (bounded : img.size ≤ ((files f).write off bs).size)
      (mixed : ∀ i, img.byte i = (files f).byte i ∨ img.byte i = ((files f).write off bs).byte i) :
      Torn files (.write f off bs) (Function.update files f img)
  | notTruncated (f : F) : Torn files (.truncate f) files
  | truncated (f : F) : Torn files (.truncate f) (Function.update files f Image.empty)

/-- The files that a crash leaves while the effects of `log` are under way. -/
inductive Crash (files : F → Image) (log : List (Effect F)) : (F → Image) → Prop where
  | between {done rest : List (Effect F)} (split : log = done ++ rest) : Crash files log (replay files done)
  | during {done rest : List (Effect F)} {e : Effect F} {left : F → Image} (split : log = done ++ e :: rest)
      (torn : Torn (replay files done) e left) : Crash files log left

@[simp] theorem replay_nil (files : F → Image) : replay files [] = files := rfl

theorem replay_append (files : F → Image) (log log' : List (Effect F)) :
    replay files (log ++ log') = replay (replay files log) log' := by
  simp [replay]

theorem apply_of_other {files : F → Image} {e : Effect F} {f : F} (other : f ≠ e.file) :
    e.apply files f = files f := by
  cases e with
  | write g off bs => exact Function.update_of_ne other _ _
  | truncate g => exact Function.update_of_ne other _ _

/-- A torn effect leaves the other files alone. -/
theorem Torn.of_other {files left : F → Image} {e : Effect F} {f : F} (torn : Torn files e left)
    (other : f ≠ e.file) : left f = files f := by
  cases torn with
  | write g off bs img => exact Function.update_of_ne other _ _
  | notTruncated g => rfl
  | truncated g => exact Function.update_of_ne other _ _

/-- The whole effect is among what a torn one may leave. -/
theorem Torn.whole (files : F → Image) (e : Effect F) : Torn files e (e.apply files) := by
  cases e with
  | write f off bs => exact .write f off bs _ (Image.size_le_write ..) (Nat.le_refl _) fun _ => .inr rfl
  | truncate f => exact .truncated f

/-- A torn write leaves what lies outside its range, and does not shrink the file. -/
theorem Torn.outside {files left : F → Image} {f : F} {off : Nat} {bs : List UInt8}
    (torn : Torn files (.write f off bs) left) :
    (files f).size ≤ (left f).size ∧
      ∀ i, i < off ∨ off + bs.length ≤ i → (left f).byte i = (files f).byte i := by
  cases torn with
  | write _ _ _ img grown bounded mixed =>
    rw [Function.update_self]
    refine ⟨grown, fun i outside => ?_⟩
    rcases mixed i with old | new
    · exact old
    · rw [new, Image.write_byte_of_outside outside]

/-- Inside the range each byte is the old one or the new one. -/
theorem Torn.inside {files left : F → Image} {f : F} {off : Nat} {bs : List UInt8}
    (torn : Torn files (.write f off bs) left) {i : Nat} (h : i < bs.length) :
    (left f).byte (off + i) = (files f).byte (off + i) ∨ (left f).byte (off + i) = bs[i] := by
  cases torn with
  | write _ _ _ img grown bounded mixed =>
    rw [Function.update_self]
    rcases mixed (off + i) with old | new
    · exact .inl old
    · rw [Image.write_byte_of_inside h] at new
      exact .inr new

/-- What every effect of the log keeps, whole or torn, a crash keeps. -/
theorem Crash.keeps {P : (F → Image) → Prop} {files left : F → Image} {log : List (Effect F)}
    (crash : Crash files log left) (start : P files)
    (whole : ∀ (done : List (Effect F)) (e : Effect F) (rest : List (Effect F)), log = done ++ e :: rest →
      P (replay files done) → P (e.apply (replay files done)))
    (torn : ∀ (done : List (Effect F)) (e : Effect F) (rest : List (Effect F)) (left : F → Image),
      log = done ++ e :: rest → P (replay files done) → Torn (replay files done) e left → P left) :
    P left := by
  have upto : ∀ done rest, log = done ++ rest → P (replay files done) := by
    intro done
    induction done using List.reverseRecOn with
    | nil => intro _ _; exact start
    | append_singleton done e ih =>
      intro rest split
      rw [List.append_assoc] at split
      rw [replay_append]
      exact whole done e rest split (ih _ split)
  cases crash with
  | between split => exact upto _ _ split
  | during split interrupted => exact torn _ _ _ _ split (upto _ _ split) interrupted

end

/-- Files and the effects so far. -/
structure World (F : Type) where
  files : F → Image
  log : List (Effect F)

namespace World

variable {F : Type} [DecidableEq F]

def perform (w : World F) (e : Effect F) : World F := ⟨e.apply w.files, w.log ++ [e]⟩

def performAll (w : World F) (effects : List (Effect F)) : World F := effects.foldl perform w

@[simp] theorem performAll_nil (w : World F) : w.performAll [] = w := rfl

@[simp] theorem performAll_cons (w : World F) (e : Effect F) (effects : List (Effect F)) :
    w.performAll (e :: effects) = (w.perform e).performAll effects := rfl

theorem performAll_append (w : World F) (effects effects' : List (Effect F)) :
    w.performAll (effects ++ effects') = (w.performAll effects).performAll effects' := by
  simp [performAll]

@[simp] theorem perform_write_files (w : World F) (f : F) (off : Nat) (bs : List UInt8) :
    (w.perform (.write f off bs)).files f = (w.files f).write off bs := Function.update_self ..

theorem perform_files_of_other (w : World F) {e : Effect F} {f : F} (other : f ≠ e.file) :
    (w.perform e).files f = w.files f :=
  apply_of_other other

theorem performAll_files (w : World F) (effects : List (Effect F)) :
    (w.performAll effects).files = replay w.files effects := by
  induction effects generalizing w with
  | nil => rfl
  | cons e effects ih => rw [performAll_cons, ih]; rfl

theorem performAll_log (w : World F) (effects : List (Effect F)) :
    (w.performAll effects).log = w.log ++ effects := by
  induction effects generalizing w with
  | nil => simp
  | cons e effects ih => rw [performAll_cons, ih]; simp [perform]

end World

/-! ## Streams -/

/-- What the file makes of an access: it goes through as a whole; an error strikes a read,
or a write after `n` of its bytes; or the bytes after the `n`-th are lost in `flush`, when
`write` has returned already. -/
inductive Access
  | whole
  | refused (n : Nat)
  | lost (n : Nat)
  deriving DecidableEq, Repr

namespace Access

/-- What gets into the file of the bytes of a write. -/
def reached : Access → List UInt8 → List UInt8
  | whole, bs => bs
  | refused n, bs => bs.take n
  | lost n, bs => bs.take n

/-- A write of which the first `n` bytes get into the file, if it has as many. -/
def Reaches (n : Nat) : Access → Prop
  | whole => True
  | refused k => n ≤ k
  | lost k => n ≤ k

/-- The write is not seen to fail. -/
def Taken (access : Access) : Prop := ∀ n, access ≠ refused n

theorem taken_whole : Taken whole := fun _ => Access.noConfusion

end Access

/-- `failbit` stands for `badbit` as well: a stream with either set fails. -/
structure Stream where
  isOpen : Bool
  failbit : Bool
  deriving DecidableEq, Repr

namespace Stream

def closed : Stream := ⟨false, false⟩

/-- `open`: on success it clears the flags, on an open stream it fails. -/
def open' (s : Stream) : Stream := if s.isOpen then { s with failbit := true } else ⟨true, false⟩

/-- `close` keeps the flags. -/
def close (s : Stream) : Stream := { s with isOpen := false }

/-- The stream's operations have an effect. -/
def good (s : Stream) : Bool := s.isOpen && !s.failbit

theorem eq_of_good {s : Stream} (good : s.good = true) : s = ⟨true, false⟩ := by
  obtain ⟨isOpen, failbit⟩ := s
  simpa [Stream.good] using good

theorem isOpen_of_good {s : Stream} (good : s.good = true) : s.isOpen = true := by
  rw [eq_of_good good]

/-- `seekg(off)` and `read` of `n` bytes: a stream offset is signed, and a read
that meets the end of the file fails. -/
def read (s : Stream) (img : Image) (off n : Nat) (access : Access := .whole) : Option (List UInt8) × Stream :=
  if s.good = true ∧ off < 2 ^ 63 ∧ (n = 0 ∨ off + n ≤ img.size) ∧ access = .whole then (some (img.bytes off n), s)
  else (none, { s with failbit := true })

/-- `seekp(off)`, `write`, the caller's test of the stream, and `flush`, which no caller tests. -/
def write {F : Type} [DecidableEq F] (s : Stream) (w : World F) (f : F) (off : Nat) (bs : List UInt8)
    (access : Access := .whole) : Bool × Stream × World F :=
  if s.good = true ∧ off < 2 ^ 63 then
    let w := w.perform (.write f off (access.reached bs))
    match access with
    | .whole => (true, s, w)
    | .refused _ => (false, { s with failbit := true }, w)
    | .lost _ => (true, { s with failbit := true }, w)
  else (false, { s with failbit := true }, w)

theorem read_ok {s : Stream} {img : Image} {off n : Nat} (good : s.good = true) (seek : off < 2 ^ 63)
    (inside : off + n ≤ img.size) : s.read img off n = (some (img.bytes off n), s) :=
  if_pos ⟨good, seek, .inr inside, rfl⟩

@[simp] theorem open'_isOpen (s : Stream) : s.open'.isOpen = true := by
  unfold open'
  split
  · assumption
  · rfl

@[simp] theorem read_isOpen (s : Stream) (img : Image) (off n : Nat) (access : Access := .whole) :
    (s.read img off n access).2.isOpen = s.isOpen := by
  unfold read
  split <;> rfl

theorem read_eq_some {s s' : Stream} {img : Image} {off n : Nat} {bs : List UInt8}
    (h : s.read img off n = (some bs, s')) :
    s.good = true ∧ off < 2 ^ 63 ∧ bs = img.bytes off n ∧ s' = s := by
  unfold read at h
  split at h
  · next ok => cases h; exact ⟨ok.1, ok.2.1, rfl, rfl⟩
  · cases h

theorem write_ok {F : Type} [DecidableEq F] {s : Stream} (w : World F) (f : F) {off : Nat} (bs : List UInt8)
    (good : s.good = true) (seek : off < 2 ^ 63) :
    s.write w f off bs = (true, s, w.perform (.write f off bs)) :=
  if_pos ⟨good, seek⟩

theorem write_bad {F : Type} [DecidableEq F] {s : Stream} (w : World F) (f : F) {off : Nat} (bs : List UInt8)
    (access : Access) (bad : ¬ (s.good = true ∧ off < 2 ^ 63)) :
    s.write w f off bs access = (false, { s with failbit := true }, w) :=
  if_neg bad

theorem write_isOpen {F : Type} [DecidableEq F] (s : Stream) (w : World F) (f : F) (off : Nat) (bs : List UInt8)
    (access : Access) : (s.write w f off bs access).2.1.isOpen = s.isOpen := by
  unfold write
  split
  · cases access <;> rfl
  · rfl

/-- What a write on a good stream does, whatever the file makes of it. -/
theorem write_good {F : Type} [DecidableEq F] {s : Stream} (w : World F) (f : F) {off : Nat} (bs : List UInt8)
    (access : Access) (good : s.good = true) (seek : off < 2 ^ 63) :
    ∃ ok s', s.write w f off bs access = (ok, s', w.perform (.write f off (access.reached bs))) ∧
      (ok = true ↔ access.Taken) ∧ s'.isOpen = s.isOpen ∧
      (access = .whole ∧ s' = s ∨ access ≠ .whole ∧ s'.failbit = true) := by
  unfold write
  rw [if_pos ⟨good, seek⟩]
  cases access with
  | whole => exact ⟨true, s, rfl, iff_of_true rfl Access.taken_whole, rfl, .inl ⟨rfl, rfl⟩⟩
  | refused n => exact ⟨false, _, rfl, iff_of_false nofun fun taken => taken n rfl, rfl, .inr ⟨nofun, rfl⟩⟩
  | lost n => exact ⟨true, _, rfl, iff_of_true rfl nofun, rfl, .inr ⟨nofun, rfl⟩⟩

end Stream

end FileLog
