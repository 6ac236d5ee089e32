import OpenFS.Client.CacheContents

/-!
# Which version stays in the metadata cache

Entries carry a version, but no `Put` looks at the one that is there: what is left under a
key is what was delivered last, and this is the highest version only if it came last.
-/

namespace OpenFS

namespace MetadataCache

/-- What a run puts under a key, in the order of its calls. -/
def deliveries (key : Key) (calls : List Call) : List (key.Content × UInt64) :=
  calls.filterMap fun call => call.delivers key

/-- No call of the run evicts or invalidates the entry of the key, or finds it expired. -/
def Undisturbed (key : Key) : MetadataCache → List Call → Prop
  | _, [] => True
  | c, call :: calls => ∀ c', call.exec c = some c' →
    ((c.cached key).isSome ∨ (call.delivers key).isSome → (c'.cached key).isSome) ∧ Undisturbed key c' calls

/-- The highest of the versions delivered. -/
def Highest {α : Type} (delivered : List (α × UInt64)) (p : α × UInt64) : Prop := ∀ q ∈ delivered, q.2 ≤ p.2

/-- The delivery of the highest version is what is left under the key. -/
def HighestLeft (key : Key) (delivered : List (key.Content × UInt64)) (c : MetadataCache) : Prop :=
  ∀ p ∈ delivered, Highest delivered p → c.cached key = some p

section
variable {c c' : MetadataCache} {key : Key}

/-- What was delivered last is left, and without deliveries what there was. -/
theorem run_cached (rep : Rep c) {calls : List Call} (undisturbed : Undisturbed key c calls)
    (ran : run c calls = some c') : c'.cached key = (deliveries key calls).getLast?.or (c.cached key) := by
  induction calls generalizing c with
  | nil =>
    cases ran
    rfl
  | cons call calls ih =>
    obtain ⟨c₁, first, rest⟩ := Option.bind_eq_some_iff.mp ran
    obtain ⟨stays, undisturbed⟩ := undisturbed c₁ first
    obtain ⟨rep₁, leaves⟩ := exec_spec rep first
    have step : c₁.cached key = (call.delivers key).or (c.cached key) := by
      rcases leaves key with gone | left
      · rw [gone] at stays ⊢
        cases delivered : call.delivers key with
        | some p => exact absurd (stays (.inr (by rw [delivered]; rfl))) (by simp)
        | none =>
          cases there : c.cached key with
          | some p => exact absurd (stays (.inl (by rw [there]; rfl))) (by simp)
          | none => rfl
      · exact left
    have tail := ih rep₁ undisturbed rest
    rw [tail, step]
    unfold deliveries
    rw [List.filterMap_cons]
    cases call.delivers key with
    | none => rfl
    | some p =>
      dsimp only
      rw [List.getLast?_cons]
      cases (List.filterMap (fun call => call.delivers key) calls).getLast? <;> rfl

theorem exists_highest {α : Type} {delivered : List (α × UInt64)} (some : delivered ≠ []) :
    ∃ p ∈ delivered, Highest delivered p := by
  induction delivered with
  | nil => exact absurd rfl some
  | cons p delivered ih =>
    by_cases rest : delivered = []
    · subst rest
      exact ⟨p, List.mem_cons_self, fun q member => by rw [List.mem_singleton.mp member]; exact UInt64.le_refl _⟩
    · obtain ⟨m, member, highest⟩ := ih rest
      rcases UInt64.le_total p.2 m.2 with below | above
      · exact ⟨m, List.mem_cons_of_mem _ member, List.forall_mem_cons.mpr ⟨below, highest⟩⟩
      · refine ⟨p, List.mem_cons_self, List.forall_mem_cons.mpr ⟨UInt64.le_refl _, fun q later => ?_⟩⟩
        exact UInt64.le_trans (highest q later) above

end

/-- **The highest version is left exactly if it is delivered last**, for inodes, block
locations and directories, from any state of the cache. -/
theorem highestLeft_iff (maxEntries : Nat) (ttlSeconds : UInt64) (before calls : List Call) (c c' : MetadataCache)
    (key : Key) (reached : run (new maxEntries ttlSeconds) before = some c) (ran : run c calls = some c')
    (undisturbed : Undisturbed key c calls) (distinct : ((deliveries key calls).map Prod.snd).Nodup) :
    HighestLeft key (deliveries key calls) c' ↔
      ∀ p ∈ (deliveries key calls).getLast?, Highest (deliveries key calls) p := by
  have left := run_cached (run_rep (rep_new maxEntries ttlSeconds) reached) undisturbed ran
  unfold HighestLeft
  rw [left]
  constructor
  · intro kept p last
    have inside := List.mem_of_getLast? last
    obtain ⟨m, member, highest⟩ := exists_highest (List.ne_nil_of_mem inside)
    have same := kept m member highest
    rw [Option.mem_def.mp last, Option.some_or, Option.some.injEq] at same
    exact same ▸ highest
  · intro ordered p member highest
    cases last : (deliveries key calls).getLast? with
    | none =>
      rw [List.getLast?_eq_none_iff] at last
      rw [last] at member
      cases member
    | some l =>
      have inside := List.mem_of_getLast? last
      have equal : l.2 = p.2 := UInt64.le_antisymm (highest l inside) (ordered l last p member)
      rw [List.inj_on_of_nodup_map distinct inside member equal]
      rfl

/-- Two deliveries, the newer one last. -/
theorem highestLeft_inOrder : ∃ c, run (new 10 30) [.putInode 5 {} 1 0, .putInode 5 { size := 7 } 2 0] = some c ∧
    HighestLeft (.inode 5) (deliveries (.inode 5) [.putInode 5 {} 1 0, .putInode 5 { size := 7 } 2 0]) c := by
  refine ⟨_, rfl, (highestLeft_iff 10 30 [] _ _ _ _ rfl rfl ?_ (by decide)).mpr ?_⟩
  · rintro c ⟨⟩
    refine ⟨fun _ => rfl, ?_⟩
    rintro c ⟨⟩
    exact ⟨fun _ => rfl, trivial⟩
  · rintro p ⟨⟩ q member
    revert q
    decide

/-- A late delivery replaces a newer one. -/
theorem late_delivery_replaces :
    ¬ ∀ (maxEntries : Nat) (ttlSeconds : UInt64) (before calls : List Call) (c c' : MetadataCache) (key : Key),
      run (new maxEntries ttlSeconds) before = some c → run c calls = some c' → Undisturbed key c calls →
      ((deliveries key calls).map Prod.snd).Nodup → HighestLeft key (deliveries key calls) c' := by
  intro claim
  have kept := claim 10 30 [] [.putInode 5 { size := 7 } 2 0, .putInode 5 {} 1 0] _ _ (.inode 5) rfl rfl
    (by
      rintro c ⟨⟩
      refine ⟨fun _ => rfl, ?_⟩
      rintro c ⟨⟩
      exact ⟨fun _ => rfl, trivial⟩) (by decide)
  have there := kept _ List.mem_cons_self (by unfold Highest; decide)
  cases there

end MetadataCache

end OpenFS
