import OpenFS.Data.BlockIOEngine

/-!
# What a failed read leaves behind

The engine never clears its stream. A read that runs past the end, an offset that cannot be
sought, or an access that the file refuses sets the error flag, and every later call fails
however valid its range is. A run goes as if the failed calls had not been made exactly
when no call that could have been served comes after the first of them. A write that is lost
in `flush` sets the flag too, but has not failed: the run without the failed calls has it as
well, and fails after it in the same way.
-/

namespace OpenFS.FailedReads

open ByteImage FileLog BlockIOEngine

inductive Call
  | readAt (offset size : Nat)
  | writeAt (offset : Nat) (data : List UInt8)

/-- A file-backed engine with its device. -/
structure Engine where
  file : Stream
  world : World Unit

namespace Engine

def device (e : Engine) : Image := e.world.files ()

/-- The status and the bytes of a call; a write returns no bytes. -/
def call (e : Engine) (c : Call) (access : Access := .whole) : Except Status (List UInt8) × Engine :=
  match c with
  | .readAt offset size =>
    let (result, file) := readAt e.file e.device offset size access
    (result, { e with file := file })
  | .writeAt offset data =>
    match writeAt e.file e.world () offset data access with
    | (.ok, file, world) => (.ok [], { file := file, world := world })
    | (s, file, world) => (.error s, { file := file, world := world })

/-- A run of calls, each with what the file makes of its access. -/
def run (e : Engine) (calls : List (Call × Access)) : Engine := calls.foldl (fun e c => (e.call c.1 c.2).2) e

/-- The calls of a run that did not return `kIOError`. -/
def kept (e : Engine) : List (Call × Access) → List (Call × Access)
  | [] => []
  | c :: calls =>
    if (e.call c.1 c.2).1 = .error .ioError then (e.call c.1 c.2).2.kept calls
    else c :: (e.call c.1 c.2).2.kept calls

end Engine

/-- The range lies inside the device. -/
def InRange (device : Image) : Call → Prop
  | .readAt offset size => offset < 2 ^ 63 ∧ offset + size ≤ device.size
  | .writeAt offset data => offset < 2 ^ 63 ∧ offset + data.length ≤ device.size

/-- A stream without errors takes the call: a read has its bytes and the file delivers them,
a write may append and the file does not refuse it. -/
def Servable (device : Image) : Call × Access → Prop
  | (.readAt offset size, access) => offset < 2 ^ 63 ∧ (size = 0 ∨ offset + size ≤ device.size) ∧ access = .whole
  | (.writeAt offset _, access) => offset < 2 ^ 63 ∧ access.Taken

/-- Every call inside the device returns what it would return had the calls
before it that failed not been made. -/
def Isolated (e : Engine) (calls : List (Call × Access)) : Prop :=
  ∀ done c rest, calls = done ++ c :: rest → InRange (e.run done).device c.1 →
    ((e.run done).call c.1 c.2).1 = ((e.run (e.kept done)).call c.1 c.2).1

/-- No call inside the device comes after the first one that cannot be served, if it could
have been served in that one's place. The first one finds a stream without errors. -/
def NoneAfterFailure (e : Engine) (calls : List (Call × Access)) : Prop :=
  ∀ done c rest, calls = done ++ c :: rest → InRange (e.run done).device c.1 →
    ∀ before earlier between, done = before ++ earlier :: between → (e.run before).file.good = true →
      ¬ Servable (e.run before).device earlier → ¬ Servable (e.run before).device c

namespace Engine

/-! ## One call -/

/-- On a failed stream a call fails, and changes nothing. -/
theorem call_of_bad {e : Engine} (isOpen : e.file.isOpen = true) (bad : ¬ e.file.good = true) (c : Call)
    (access : Access) : e.call c access = (.error .ioError, e) := by
  have same : { e.file with failbit := true } = e.file := by
    obtain ⟨⟨opened, failbit⟩, world⟩ := e
    cases failbit
    · exact absurd (show Stream.good ⟨opened, false⟩ = true by simpa [Stream.good] using isOpen) bad
    · rfl
  cases c with
  | readAt offset size =>
    have result := @readAt_of_bad e.file e.device offset size access isOpen fun able => bad able.1
    rw [same] at result
    simp only [call, result]
  | writeAt offset data =>
    have result := @writeAt_of_bad Unit _ e.file e.world () offset data access isOpen fun able => bad able.1
    rw [same] at result
    simp only [call, result]

/-- On a good one it succeeds exactly if it can be served; a call that fails leaves the
stream failed. -/
theorem call_of_good {e : Engine} (good : e.file.good = true) (c : Call × Access) :
    (e.call c.1 c.2).2.file.isOpen = true ∧
      ((Servable e.device c ∧ ∃ bs, (e.call c.1 c.2).1 = .ok bs) ∨
        (¬ Servable e.device c ∧ (e.call c.1 c.2).1 = .error .ioError ∧
          ¬ (e.call c.1 c.2).2.file.good = true)) := by
  have isOpen := Stream.isOpen_of_good good
  have failed : ¬ Stream.good { e.file with failbit := true } = true := by simp [Stream.good]
  obtain ⟨c, access⟩ := c
  cases c with
  | readAt offset size =>
    by_cases served : Servable e.device (.readAt offset size, access)
    · obtain ⟨seek, inside, rfl⟩ := id served
      have result := readAt_of_good good seek inside
      simp only [call, result]
      exact ⟨isOpen, .inl ⟨served, _, rfl⟩⟩
    · have result := @readAt_of_bad e.file e.device offset size access isOpen fun able => served able.2
      simp only [call, result]
      exact ⟨isOpen, .inr ⟨served, trivial, failed⟩⟩
  | writeAt offset data =>
    by_cases seek : offset < 2 ^ 63
    · obtain ⟨s, file, result, ⟨rfl, taken⟩ | ⟨rfl, refused⟩, same, cut⟩ :=
        writeAt_of_access e.world () data access good seek
      · simp only [call, result]
        exact ⟨same.trans isOpen, .inl ⟨⟨seek, taken⟩, _, rfl⟩⟩
      · have partly : access ≠ .whole := fun whole => refused (whole ▸ Access.taken_whole)
        have failbit := (cut.resolve_left fun whole => partly whole.1).2
        simp only [call, result]
        refine ⟨same.trans isOpen, .inr ⟨fun served => refused served.2, trivial, ?_⟩⟩
        simp [Stream.good, failbit]
    · have result := @writeAt_of_bad Unit _ e.file e.world () offset data access isOpen fun able => seek able.2
      simp only [call, result]
      exact ⟨isOpen, .inr ⟨fun served => seek served.1, trivial, failed⟩⟩

/-! ## A run -/

theorem run_append (e : Engine) (calls calls' : List (Call × Access)) :
    e.run (calls ++ calls') = (e.run calls).run calls' := by
  simp [run]

theorem kept_append (e : Engine) (calls calls' : List (Call × Access)) :
    e.kept (calls ++ calls') = e.kept calls ++ (e.run calls).kept calls' := by
  induction calls generalizing e with
  | nil => rfl
  | cons c calls ih =>
    show (if _ then _ else _) = (if _ then _ else _) ++ _
    split
    · exact ih _
    · exact congrArg (c :: ·) (ih _)

theorem run_isOpen {e : Engine} (isOpen : e.file.isOpen = true) (calls : List (Call × Access)) :
    (e.run calls).file.isOpen = true := by
  induction calls generalizing e with
  | nil => exact isOpen
  | cons c calls ih =>
    by_cases good : e.file.good = true
    · exact ih (call_of_good good c).1
    · show ((e.call c.1 c.2).2.run calls).file.isOpen = true
      rw [call_of_bad isOpen good]
      exact ih isOpen

/-- A failed stream stays failed, and none of the calls is kept. -/
theorem run_of_bad {e : Engine} (isOpen : e.file.isOpen = true) (bad : ¬ e.file.good = true)
    (calls : List (Call × Access)) : e.run calls = e ∧ e.kept calls = [] := by
  induction calls with
  | nil => exact ⟨rfl, rfl⟩
  | cons c calls ih =>
    have result := call_of_bad isOpen bad c.1 c.2
    constructor
    · show (e.call c.1 c.2).2.run calls = e
      rw [result]
      exact ih.1
    · rw [kept, result, if_pos rfl]
      exact ih.2

/-- The first call that leaves the stream failed. -/
structure Breaks (e : Engine) (done before : List (Call × Access)) (c : Call × Access)
    (between : List (Call × Access)) : Prop where
  split : done = before ++ c :: between
  good : (e.run before).file.good = true
  bad : ¬ (e.run (before ++ [c])).file.good = true

/-- A call that cannot be served on a good stream is the first to leave it failed. -/
theorem Breaks.of_unservable {e : Engine} {done before between : List (Call × Access)} {c : Call × Access}
    (split : done = before ++ c :: between) (good : (e.run before).file.good = true)
    (unservable : ¬ Servable (e.run before).device c) : Breaks e done before c between := by
  refine ⟨split, good, ?_⟩
  obtain ⟨-, ⟨served, -⟩ | ⟨-, -, failed⟩⟩ := call_of_good good c
  · exact absurd served unservable
  · rw [run_append]
    exact failed

section
variable {e : Engine} {done before between before' between' : List (Call × Access)} {c c' : Call × Access}

theorem Breaks.run_bad (isOpen : e.file.isOpen = true) (breaks : Breaks e done before c between) :
    ¬ (e.run done).file.good = true := by
  rw [breaks.split, List.append_cons, run_append, (run_of_bad (run_isOpen isOpen _) breaks.bad between).1]
  exact breaks.bad

/-- It is not after another that leaves the stream failed. -/
theorem Breaks.not_after (isOpen : e.file.isOpen = true) (breaks : Breaks e done before c between)
    {after : List (Call × Access)} (later : before' = before ++ c :: after) :
    ¬ (e.run before').file.good = true :=
  Breaks.run_bad isOpen ⟨later, breaks.good, breaks.bad⟩

/-- There is only one. -/
theorem Breaks.unique (isOpen : e.file.isOpen = true) (breaks : Breaks e done before c between)
    (breaks' : Breaks e done before' c' between') : before' = before ∧ c' = c := by
  rcases List.append_eq_append_iff.mp (breaks.split.symm.trans breaks'.split) with
    ⟨after, front, rest⟩ | ⟨after, front, rest⟩
  · cases after with
    | nil => exact ⟨by rw [front, List.append_nil], (List.cons.inj rest).1.symm⟩
    | cons d after =>
      obtain ⟨rfl, -⟩ := List.cons.inj rest
      exact absurd breaks'.good (breaks.not_after isOpen front)
  · cases after with
    | nil => exact ⟨by rw [front, List.append_nil], (List.cons.inj rest).1⟩
    | cons d after =>
      obtain ⟨rfl, -⟩ := List.cons.inj rest
      exact absurd breaks.good (breaks'.not_after isOpen front)

end

/-- The course of a run: all calls were served and kept, or those before the first that left the
stream failed, and that one if it was lost in `flush` only. -/
theorem course {e : Engine} (good : e.file.good = true) (done : List (Call × Access)) :
    ((e.run done).file.good = true ∧ e.kept done = done) ∨
      ∃ before c between, Breaks e done before c between ∧
        ((Servable (e.run before).device c ∧ e.kept done = before ++ [c]) ∨
          (¬ Servable (e.run before).device c ∧ e.kept done = before)) := by
  have isOpen := Stream.isOpen_of_good good
  induction done using List.reverseRecOn with
  | nil => exact .inl ⟨good, rfl⟩
  | append_singleton done d ih =>
    rcases ih with ⟨still, kept⟩ | ⟨before, c, between, breaks, outcome⟩
    · obtain ⟨-, ⟨served, bs, ok⟩ | ⟨unservable, error, -⟩⟩ := call_of_good still d
      · have keptAll : e.kept (done ++ [d]) = done ++ [d] := by
          rw [kept_append, kept]
          congr 1
          show (if _ then _ else _) = _
          rw [if_neg (by rw [ok]; nofun)]
          rfl
        by_cases after : (e.run (done ++ [d])).file.good = true
        · exact .inl ⟨after, keptAll⟩
        · exact .inr ⟨done, d, [], ⟨rfl, still, after⟩, .inl ⟨served, keptAll⟩⟩
      · refine .inr ⟨done, d, [], .of_unservable rfl still unservable, .inr ⟨unservable, ?_⟩⟩
        rw [kept_append, kept]
        show done ++ (if _ then _ else _) = _
        rw [if_pos error]
        exact List.append_nil _
    · refine .inr ⟨before, c, between ++ [d], ⟨by rw [breaks.split]; simp, breaks.good, breaks.bad⟩, ?_⟩
      rw [kept_append, (run_of_bad (run_isOpen isOpen done) (breaks.run_bad isOpen) [d]).2, List.append_nil]
      exact outcome

end Engine

/-- **A failed call is harmless** exactly in the runs where nothing that could have been served
in its place comes after it. -/
theorem isolated_iff (e : Engine) (good : e.file.good = true) (calls : List (Call × Access)) :
    Isolated e calls ↔ NoneAfterFailure e calls := by
  refine forall_congr' fun done => forall_congr' fun c => forall_congr' fun rest => imp_congr_right fun _ =>
    imp_congr_right fun _ => ?_
  have isOpen := Stream.isOpen_of_good good
  rcases Engine.course good done with ⟨still, kept⟩ | ⟨before, first, between, breaks, outcome⟩
  · -- No call has failed.
    refine iff_of_true (by rw [kept]) fun before earlier between split good unservable => ?_
    exact absurd still (Engine.Breaks.run_bad isOpen (.of_unservable split good unservable))
  · have failed := Engine.call_of_bad (Engine.run_isOpen isOpen done) (breaks.run_bad isOpen) c.1 c.2
    rw [failed]
    rcases outcome with ⟨served, kept⟩ | ⟨unservable, kept⟩
    · -- The first one was lost, and is lost in the other run too.
      have failed' := Engine.call_of_bad (Engine.run_isOpen isOpen _) breaks.bad c.1 c.2
      rw [kept, failed']
      refine iff_of_true rfl fun before' earlier between' split good' unservable => ?_
      obtain ⟨rfl, rfl⟩ := breaks.unique isOpen (.of_unservable split good' unservable)
      exact absurd served unservable
    · -- The other run stops before the first one, with a good stream.
      rw [kept]
      obtain ⟨-, ⟨served, bs, ok⟩ | ⟨unserved, error, -⟩⟩ := Engine.call_of_good breaks.good c
      · refine iff_of_false (by rw [ok]; nofun) fun none => ?_
        exact none before first between breaks.split breaks.good unservable served
      · refine iff_of_true error.symm fun before' earlier between' split good' unservable' => ?_
        obtain ⟨rfl, rfl⟩ := breaks.unique isOpen (.of_unservable split good' unservable')
        exact unserved

/-- A device of 4096 zeros, freshly opened. -/
def zeroDevice : Engine := { file := Stream.closed.open', world := ⟨fun _ => Image.zeros 4096, []⟩ }

/-- A write and a read inside the device, a write that the file refuses after one byte, and then
only a read past the end. -/
theorem isolated_zeroDevice : Isolated zeroDevice [(.writeAt 0 [7, 8], .whole), (.readAt 0 32, .whole),
    (.writeAt 32 [9, 9], .refused 1), (.readAt 4090 32, .whole)] := by
  refine (isolated_iff zeroDevice rfl _).mpr ?_
  intro done c rest split inside before earlier between split' good unservable
  have bad := Engine.Breaks.run_bad rfl (.of_unservable split' good unservable)
  rcases done with _ | ⟨_, _ | ⟨_, _ | ⟨_, _ | ⟨_, done⟩⟩⟩⟩
  · exact absurd rfl bad
  · cases split
    exact absurd (by decide) bad
  · cases split
    exact absurd (by decide) bad
  · cases split
    exact absurd inside.2 (by decide)
  · simp at split

/-- After one read past the end, a read of the first bytes fails. -/
theorem read_past_end_disables : ¬ ∀ (e : Engine), e.file.good = true → ∀ calls, Isolated e calls := by
  intro claim
  have same := claim zeroDevice rfl [(.readAt 4096 32, .whole), (.readAt 0 32, .whole)]
    [(.readAt 4096 32, .whole)] (.readAt 0 32, .whole) [] rfl ⟨by decide, by decide⟩
  revert same
  decide

end OpenFS.FailedReads
