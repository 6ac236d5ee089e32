import Mathlib.Algebra.Group.Nat.Defs

/-!
# First fit

The scan for `count` consecutive free indices: it walks the indices once and
counts the free ones since the last one in use. It finds the least start of a
free run, and fails only where there is no run at all.
-/

namespace FirstFit

/-- `count` free indices from `s` on. -/
def IsRun (free : ℕ → Bool) (count s : ℕ) : Prop := ∀ k, k < count → free (s + k) = true

/-- The loop: `fuel` indices are left from `i` on, `consecutive` free ones lie
behind it, the first of them at `start`. -/
def scan (free : ℕ → Bool) (count : ℕ) : ℕ → ℕ → ℕ → ℕ → Option ℕ
  | 0, _, _, _ => none
  | fuel + 1, i, consecutive, start =>
    if free i then
      let start := if consecutive = 0 then i else start
      if count ≤ consecutive + 1 then some start
      else scan free count fuel (i + 1) (consecutive + 1) start
    else scan free count fuel (i + 1) 0 start

/-- The indices that the loop looks at. -/
def probes (free : ℕ → Bool) (count : ℕ) : ℕ → ℕ → ℕ → List ℕ
  | 0, _, _ => []
  | fuel + 1, i, consecutive =>
    i :: (if free i then
        if count ≤ consecutive + 1 then [] else probes free count fuel (i + 1) (consecutive + 1)
      else probes free count fuel (i + 1) 0)

/-- The scan of the indices below `n`. -/
def find (free : ℕ → Bool) (count n : ℕ) : Option ℕ := scan free count n 0 0 0

/-- Where the loop stands: every start before the current run is blocked. -/
structure Inv (free : ℕ → Bool) (count i consecutive start : ℕ) : Prop where
  short : consecutive < count
  behind : consecutive ≤ i
  starts : 0 < consecutive → start = i - consecutive
  run : IsRun free consecutive (i - consecutive)
  blocked : ∀ s, s < i - consecutive → ∃ k, k < count ∧ s + k < i ∧ free (s + k) = false

section
variable {free : ℕ → Bool} {count i consecutive start : ℕ}

/-- The loop looks at nothing behind its last index. -/
theorem lt_of_mem_probes {fuel j : ℕ} (member : j ∈ probes free count fuel i consecutive) : j < i + fuel := by
  induction fuel generalizing i consecutive with
  | zero => cases member
  | succ fuel ih =>
    unfold probes at member
    rcases List.mem_cons.mp member with rfl | later
    · omega
    · split at later
      · split at later
        · cases later
        · have := ih later
          omega
      · have := ih later
        omega

theorem Inv.init (pos : 0 < count) : Inv free count 0 0 0 :=
  ⟨pos, Nat.le_refl _, nofun, fun _ h => absurd h (Nat.not_lt_zero _), fun _ h => absurd h (Nat.not_lt_zero _)⟩

/-- The run that a free index completes or extends. -/
theorem Inv.run_succ (inv : Inv free count i consecutive start) (isFree : free i = true) :
    IsRun free (consecutive + 1) (i - consecutive) := by
  intro k h
  rcases Nat.lt_succ_iff_lt_or_eq.mp h with inside | rfl
  · exact inv.run k inside
  · rw [Nat.sub_add_cancel inv.behind]; exact isFree

theorem Inv.start_succ (inv : Inv free count i consecutive start) :
    (if consecutive = 0 then i else start) = i - consecutive := by
  split
  · next zero => rw [zero]; rfl
  · next some => exact inv.starts (Nat.pos_of_ne_zero some)

theorem Inv.extend (inv : Inv free count i consecutive start) (isFree : free i = true)
    (more : consecutive + 1 < count) :
    Inv free count (i + 1) (consecutive + 1) (if consecutive = 0 then i else start) := by
  have behind := inv.behind
  have same : i + 1 - (consecutive + 1) = i - consecutive := by omega
  refine ⟨more, by omega, fun _ => by rw [inv.start_succ, same], by rw [same]; exact inv.run_succ isFree, ?_⟩
  intro s h
  obtain ⟨k, short, inside, used⟩ := inv.blocked s (by omega)
  exact ⟨k, short, by omega, used⟩

theorem Inv.restart (inv : Inv free count i consecutive start) (used : free i = false) :
    Inv free count (i + 1) 0 start := by
  have short := inv.short
  refine ⟨by omega, by omega, nofun, fun _ h => absurd h (Nat.not_lt_zero _), ?_⟩
  intro s h
  by_cases before : s < i - consecutive
  · obtain ⟨k, short, inside, taken⟩ := inv.blocked s before
    exact ⟨k, short, by omega, taken⟩
  · exact ⟨i - s, by omega, by omega, by rwa [show s + (i - s) = i by omega]⟩

/-- A found run is free, inside the range, and the first one. -/
theorem scan_eq_some {fuel s : ℕ} (inv : Inv free count i consecutive start)
    (found : scan free count fuel i consecutive start = some s) :
    IsRun free count s ∧ s + count ≤ i + fuel ∧ ∀ s', s' < s → ¬ IsRun free count s' := by
  induction fuel generalizing i consecutive start with
  | zero => cases found
  | succ fuel ih =>
    unfold scan at found
    split at found
    · next isFree =>
      dsimp only at found
      split at found
      · next enough =>
        have short := inv.short
        have behind := inv.behind
        have full : consecutive + 1 = count := by omega
        rw [inv.start_succ] at found
        cases found
        refine ⟨by rw [← full]; exact inv.run_succ isFree, by omega, fun s' before run => ?_⟩
        obtain ⟨k, short, -, used⟩ := inv.blocked s' before
        rw [run k short] at used
        cases used
      · next more =>
        obtain ⟨run, inside, least⟩ := ih (inv.extend isFree (by omega)) found
        exact ⟨run, by omega, least⟩
    · next used =>
      obtain ⟨run, inside, least⟩ := ih (inv.restart (by simpa using used)) found
      exact ⟨run, by omega, least⟩

/-- The scan fails only where there is no run. -/
theorem scan_eq_none {fuel : ℕ} (inv : Inv free count i consecutive start)
    (failed : scan free count fuel i consecutive start = none) (s : ℕ) (inside : s + count ≤ i + fuel) :
    ¬ IsRun free count s := by
  induction fuel generalizing i consecutive start with
  | zero =>
    intro run
    have short := inv.short
    obtain ⟨k, shorter, -, used⟩ := inv.blocked s (by omega)
    rw [run k shorter] at used
    cases used
  | succ fuel ih =>
    unfold scan at failed
    split at failed
    · next isFree =>
      dsimp only at failed
      split at failed
      · cases failed
      · exact ih (inv.extend isFree (by omega)) failed (by omega)
    · next used => exact ih (inv.restart (by simpa using used)) failed (by omega)

theorem find_eq_some {n s : ℕ} (pos : 0 < count) (found : find free count n = some s) :
    IsRun free count s ∧ s + count ≤ n ∧ ∀ s', s' < s → ¬ IsRun free count s' := by
  simpa using scan_eq_some (.init pos) found

theorem find_eq_none {n : ℕ} (pos : 0 < count) (failed : find free count n = none) (s : ℕ)
    (inside : s + count ≤ n) : ¬ IsRun free count s :=
  scan_eq_none (.init pos) failed s (by simpa using inside)

/-- Where everything is free, the first index starts the run. -/
theorem find_of_free {n : ℕ} (pos : 0 < count) (fits : count ≤ n) (isFree : ∀ k, k < count → free k = true) :
    find free count n = some 0 := by
  have run : IsRun free count 0 := fun k h => by rw [Nat.zero_add]; exact isFree k h
  cases found : find free count n with
  | none => exact absurd run (find_eq_none pos found 0 (by omega))
  | some s =>
    obtain ⟨-, -, least⟩ := find_eq_some pos found
    rcases Nat.eq_zero_or_pos s with rfl | later
    · rfl
    · exact absurd run (least 0 later)

end

end FirstFit
