import OpenFS.Common.IdGenerator

/-!
# Unique ids

In a millisecond that a call finds the clock to have entered, the ids get the sequence
numbers 0, 2, 4 and so on. The test for the overflow looks at the odd numbers in between,
which are never 0. So the 4097th call of such a millisecond returns its first id again.
-/

namespace OpenFS.IdGenerator

/-- The clock is where the last call left it, and the number that comes next is 0 again. -/
def Full (g : IdGenerator) (clock : List UInt64) : Prop :=
  clock.head? = some g.lastTimestampMs ∧ g.sequence &&& 0x1FFF = 0x1FFF

instance (g : IdGenerator) (clock : List UInt64) : Decidable (g.Full clock) := inferInstanceAs (Decidable (_ ∧ _))

/-- No call of a run finds it so. -/
def NeverFull (g : IdGenerator) : Nat → List UInt64 → Prop
  | 0, _ => True
  | n + 1, clock =>
    match g.nextId clock with
    | none => True
    | some ((_, g'), rest) => ¬ g.Full clock ∧ g'.NeverFull n rest

/-- What is known of the ids so far, and of what will be read from the clock. -/
structure Issued (g : IdGenerator) (history clock : List UInt64) : Prop where
  node : g.nodeId.toNat < 2 ^ 10
  sorted : (g.lastTimestampMs :: clock).Pairwise (· ≤ ·)
  early : ∀ t ∈ g.lastTimestampMs :: clock, t.toNat < 2 ^ 41
  known : ∀ id ∈ history, ∃ t seq, id = pack t g.nodeId seq ∧ seq.toNat < 2 ^ 13 ∧ (t < g.lastTimestampMs ∨
    t = g.lastTimestampMs ∧ (g.sequence.toNat % 2 ^ 13 = 0 ∨ seq.toNat < g.sequence.toNat % 2 ^ 13))
  begun : g.sequence.toNat % 2 = 1 → pack g.lastTimestampMs g.nodeId 0 ∈ history

section
variable {g g' : IdGenerator} {history clock rest : List UInt64} {id now : UInt64}

/-! ## One call -/

theorem waitNext_spec {last : UInt64} (sorted : (last :: clock).Pairwise (· ≤ ·))
    (waited : waitNext last clock = some (now, rest)) : now :: rest <:+ clock ∧ last < now := by
  induction clock with
  | nil => cases waited
  | cons t clock ih =>
    unfold waitNext at waited
    split at waited
    · next same =>
      obtain ⟨suffix, later⟩ := ih (same ▸ (List.pairwise_cons.mp sorted).2) waited
      exact ⟨suffix.trans (List.suffix_cons _ _), later⟩
    · next moved =>
      cases clock with
      | nil => cases waited
      | cons _ _ =>
        cases waited
        obtain ⟨first, second⟩ := List.pairwise_cons.mp sorted
        have le := first t List.mem_cons_self
        have le' := (List.pairwise_cons.mp second).1 now List.mem_cons_self
        exact ⟨List.suffix_cons _ _, UInt64.lt_of_lt_of_le (UInt64.lt_of_le_of_ne le (Ne.symm moved)) le'⟩

/-- What a call does: a new millisecond, the same one, or the next one after all numbers. -/
inductive Outcome (g : IdGenerator) (clock : List UInt64) (now : UInt64) (rest : List UInt64) : IdGenerator → Prop
  | moved (entered : clock = now :: rest) (other : now ≠ g.lastTimestampMs) :
    Outcome g clock now rest { g with sequence := 0 }
  | same (stayed : clock = g.lastTimestampMs :: rest) (here : now = g.lastTimestampMs)
      (some : g.sequence.toNat % 2 ^ 13 ≠ 0) : Outcome g clock now rest { g with sequence := g.sequence + 1 }
  | waited (left : g.lastTimestampMs < now) (none : g.sequence.toNat % 2 ^ 13 = 0)
    (suffix : now :: rest <:+ clock) :
      Outcome g clock now rest { g with sequence := g.sequence + 1 }

theorem lowBits_eq_zero {x : UInt64} : x &&& 0x1FFF = 0 ↔ x.toNat % 2 ^ 13 = 0 := by
  rw [← UInt64.toNat_inj, toNat_lowBits]
  rfl

theorem nextId_spec (sorted : (g.lastTimestampMs :: clock).Pairwise (· ≤ ·))
    (next : g.nextId clock = some ((id, g'), rest)) :
    ∃ now g₁, Outcome g clock now rest g₁ ∧ g₁.issue now = (id, g') := by
  unfold nextId at next
  cases clock with
  | nil => cases next
  | cons now clock =>
    dsimp only at next
    split at next
    · next here =>
      split at next
      · next none =>
        obtain ⟨⟨now', rest'⟩, waited, result⟩ := Option.map_eq_some_iff.mp next
        obtain ⟨issued, rfl⟩ := Prod.mk.inj result
        obtain ⟨suffix, left⟩ := waitNext_spec (here ▸ (List.pairwise_cons.mp sorted).2) waited
        exact ⟨now', _, .waited left (lowBits_eq_zero.mp none) (suffix.trans (List.suffix_cons _ _)), issued⟩
      · next some =>
        obtain ⟨issued, rfl⟩ := Prod.mk.inj (Option.some.inj next)
        exact ⟨now, _, .same (here ▸ rfl) here (fun none => some (lowBits_eq_zero.mpr none)), issued⟩
    · next other =>
      obtain ⟨issued, rfl⟩ := Prod.mk.inj (Option.some.inj next)
      exact ⟨now, _, .moved rfl other, issued⟩

theorem Outcome.suffix {g₁ : IdGenerator} (outcome : Outcome g clock now rest g₁) : now :: rest <:+ clock := by
  cases outcome with
  | moved entered => exact entered ▸ List.suffix_refl _
  | same stayed here => exact stayed ▸ here ▸ List.suffix_refl _
  | waited _ _ suffix => exact suffix

theorem toNat_next (x : UInt64) : (x + 1).toNat = (x.toNat + 1) % 2 ^ 64 := UInt64.toNat_add x 1

/-- An id with a later timestamp, or with a number above those of its timestamp. -/
theorem Issued.issue (issued : Issued g history clock) {g₁ : IdGenerator} (suffix : now :: rest <:+ clock)
    (node : g₁.nodeId = g.nodeId)
    (above : ∀ t seq : UInt64, (t < g.lastTimestampMs ∨
        t = g.lastTimestampMs ∧ (g.sequence.toNat % 2 ^ 13 = 0 ∨ seq.toNat < g.sequence.toNat % 2 ^ 13)) →
      t < now ∨ t = now ∧ seq.toNat < g₁.sequence.toNat % 2 ^ 13)
    (begun : (g₁.sequence + 1).toNat % 2 = 1 → pack now g.nodeId 0 ∈ (g₁.issue now).1 :: history) :
    (g₁.issue now).1 ∉ history ∧ Issued (g₁.issue now).2 ((g₁.issue now).1 :: history) rest := by
  have inside := suffix.subset
  have early (t : UInt64) (member : t ∈ now :: rest) : t.toNat < 2 ^ 41 :=
    issued.early t (List.mem_cons_of_mem _ (inside member))
  have earlier (t : UInt64) (before : t ≤ g.lastTimestampMs) : t.toNat < 2 ^ 41 :=
    Nat.lt_of_le_of_lt (UInt64.le_iff_toNat_le.mp before) (issued.early _ List.mem_cons_self)
  have number := toNat_lowBits g₁.sequence
  have low : (g₁.sequence &&& 0x1FFF).toNat < 2 ^ 13 := by
    rw [number]
    exact Nat.mod_lt _ (by decide)
  have next := toNat_next g₁.sequence
  unfold IdGenerator.issue at begun ⊢
  dsimp only at begun ⊢
  rw [node] at begun ⊢
  refine ⟨fun old => ?_, issued.node, (List.pairwise_cons.mp issued.sorted).2.sublist suffix.sublist,
    early, ?_, begun⟩
  · obtain ⟨t, seq, same, short, before⟩ := issued.known _ old
    have le : t ≤ g.lastTimestampMs := by
      rcases before with lt | ⟨rfl, -⟩
      · exact UInt64.le_of_lt lt
      · exact UInt64.le_refl _
    obtain ⟨rfl, rfl⟩ := pack_inj (early now List.mem_cons_self) (earlier t le) issued.node low short same
    rcases above now _ before with lt | ⟨-, less⟩
    · exact UInt64.lt_irrefl _ lt
    · exact Nat.lt_irrefl _ (number ▸ less)
  · intro id member
    rcases List.mem_cons.mp member with rfl | old
    · refine ⟨now, _, rfl, low, .inr ⟨rfl, ?_⟩⟩
      dsimp only
      omega
    · obtain ⟨t, seq, same, short, before⟩ := issued.known id old
      refine ⟨t, seq, same, short, ?_⟩
      rcases above t seq before with lt | ⟨here, less⟩
      · exact .inl lt
      · refine .inr ⟨here, ?_⟩
        dsimp only
        omega

/-- Before it is full, a call returns an id that is new; then it returns one that is not. -/
theorem Issued.step (issued : Issued g history clock) (next : g.nextId clock = some ((id, g'), rest)) :
    (g.Full clock → id ∈ history) ∧ (¬ g.Full clock → id ∉ history ∧ Issued g' (id :: history) rest) := by
  obtain ⟨now, g₁, outcome, result⟩ := nextId_spec issued.sorted next
  obtain ⟨rfl, rfl⟩ : (g₁.issue now).1 = id ∧ (g₁.issue now).2 = g' := by rw [result]; exact ⟨rfl, rfl⟩
  have number := toNat_lowBits g.sequence
  have count := toNat_next g.sequence
  have count' := toNat_next (g.sequence + 1)
  have last : g.sequence &&& 0x1FFF = 0x1FFF ↔ g.sequence.toNat % 2 ^ 13 = 2 ^ 13 - 1 := by
    rw [← UInt64.toNat_inj, number]
    rfl
  have suffix := outcome.suffix
  cases outcome with
  | moved entered other =>
    have le := (List.pairwise_cons.mp issued.sorted).1 now (suffix.subset List.mem_cons_self)
    have lt := UInt64.lt_of_le_of_ne le (Ne.symm other)
    subst entered
    refine ⟨fun full => absurd (Option.some.inj full.1) other, fun _ => ?_⟩
    refine issued.issue suffix rfl (fun t seq before => .inl ?_) fun _ => ?_
    · rcases before with earlier | ⟨rfl, -⟩
      · exact UInt64.lt_trans earlier lt
      · exact lt
    · rw [show (0 : UInt64) = 0 &&& 0x1FFF by decide]
      exact List.mem_cons_self
  | same stayed here some =>
    subst here
    refine ⟨fun full => ?_, fun room => ?_⟩
    · have odd := last.mp full.2
      have zero : (g.sequence + 1) &&& 0x1FFF = 0 := lowBits_eq_zero.mpr (by omega)
      show pack g.lastTimestampMs g.nodeId ((g.sequence + 1) &&& 0x1FFF) ∈ history
      rw [zero]
      exact issued.begun (by omega)
    · have below : g.sequence.toNat % 2 ^ 13 ≠ 2 ^ 13 - 1 := fun full => room ⟨by rw [stayed]; rfl, last.mpr full⟩
      have above (t seq : UInt64) (before : t < g.lastTimestampMs ∨
          t = g.lastTimestampMs ∧ (g.sequence.toNat % 2 ^ 13 = 0 ∨ seq.toNat < g.sequence.toNat % 2 ^ 13)) :
          t < g.lastTimestampMs ∨ t = g.lastTimestampMs ∧ seq.toNat < (g.sequence + 1).toNat % 2 ^ 13 := by
        rcases before with earlier | ⟨here, less⟩
        · exact .inl earlier
        · exact .inr ⟨here, by omega⟩
      refine issued.issue suffix rfl above fun odd => List.mem_cons_of_mem _ (issued.begun ?_)
      have odd : (g.sequence + 1 + 1).toNat % 2 = 1 := odd
      omega
  | waited left none suffix =>
    refine ⟨fun full => ?_, fun _ => ?_⟩
    · have := last.mp full.2
      omega
    · refine issued.issue suffix rfl (fun t seq before => .inl ?_) fun odd => ?_
      · rcases before with earlier | ⟨rfl, -⟩
        · exact UInt64.lt_trans earlier left
        · exact left
      · have odd : (g.sequence + 1 + 1).toNat % 2 = 1 := odd
        omega

end

/-! ## Runs -/

theorem ids_succ (g : IdGenerator) (n : Nat) (clock : List UInt64) : g.ids (n + 1) clock =
    match g.nextId clock with
    | none => []
    | some ((id, g'), rest) => id :: g'.ids n rest := rfl

/-- The ids of a run are new and distinct exactly if no call finds the millisecond full. -/
theorem Issued.run {g : IdGenerator} {history clock : List UInt64} (issued : Issued g history clock) (n : Nat) :
    ((∀ id ∈ g.ids n clock, id ∉ history) ∧ (g.ids n clock).Nodup) ↔ g.NeverFull n clock := by
  induction n generalizing g history clock with
  | zero => simp [ids, NeverFull]
  | succ n ih =>
    rw [ids_succ, NeverFull]
    cases next : g.nextId clock with
    | none => simp
    | some result =>
      obtain ⟨⟨id, g'⟩, rest⟩ := result
      obtain ⟨again, fresh⟩ := issued.step next
      by_cases full : g.Full clock
      · refine ⟨fun claim => absurd (again full) (claim.1 id List.mem_cons_self), fun never => absurd full never.1⟩
      · obtain ⟨new, issued'⟩ := fresh full
        have rest_iff := ih issued'
        dsimp only
        rw [List.forall_mem_cons, List.nodup_cons]
        constructor
        · rintro ⟨⟨-, others⟩, apart, distinct⟩
          refine ⟨full, rest_iff.mp ⟨fun x member old => ?_, distinct⟩⟩
          rcases List.mem_cons.mp old with rfl | older
          · exact apart member
          · exact others x member older
        · rintro ⟨-, never⟩
          obtain ⟨others, distinct⟩ := rest_iff.mpr never
          exact ⟨⟨new, fun x member older => others x member (List.mem_cons_of_mem _ older)⟩,
            fun member => others id member List.mem_cons_self, distinct⟩

theorem issued_create (nodeId : UInt16) {clock : List UInt64} (sorted : clock.Pairwise (· ≤ ·))
    (early : ∀ t ∈ clock, t.toNat < 2 ^ 41) : Issued (create nodeId) [] clock := by
  refine ⟨create_nodeId nodeId, List.pairwise_cons.mpr ⟨fun t _ => ?_, sorted⟩, ?_,
    fun _ old => (by cases old), fun odd => ?_⟩
  · exact UInt64.le_iff_toNat_le.mpr (Nat.zero_le _)
  · exact List.forall_mem_cons.mpr ⟨show (0 : UInt64).toNat < 2 ^ 41 by decide, early⟩
  · cases odd

/-- **When ids are unique**: over every run, exactly if no call finds its millisecond full. -/
theorem unique_ids_iff (nodeId : UInt16) (n : Nat) (clock : List UInt64) (sorted : clock.Pairwise (· ≤ ·))
    (early : ∀ t ∈ clock, t.toNat < 2 ^ 41) :
    ((create nodeId).ids n clock).Nodup ↔ (create nodeId).NeverFull n clock := by
  rw [← (issued_create nodeId sorted early).run n]
  exact ⟨fun distinct => ⟨fun _ _ old => (by cases old), distinct⟩, fun both => both.2⟩

/-- Two calls in one millisecond. -/
theorem unique_ids_two : ((create 0).ids 2 [5, 5]).Nodup :=
  (unique_ids_iff 0 2 [5, 5] (by decide) (List.forall_mem_cons.mpr
    ⟨by decide, List.forall_mem_singleton.mpr (by decide)⟩)).mpr ⟨by decide, by decide, trivial⟩

/-! ## A burst -/

/-- The generator in the middle of a burst in millisecond 1. -/
def burst (j : Nat) : IdGenerator := { nodeId := 0, sequence := UInt64.ofNat (2 * j + 1), lastTimestampMs := 1 }

theorem nextId_burst (j : Nat) (clock : List UInt64) : (burst j).nextId (1 :: clock) =
    some ((pack 1 0 (UInt64.ofNat (2 * j + 2) &&& 0x1FFF), burst (j + 1)), clock) := by
  have odd : ¬ UInt64.ofNat (2 * j + 1) &&& 0x1FFF = 0 := by
    rw [lowBits_eq_zero, UInt64.toNat_ofNat']
    omega
  have next (k : Nat) : UInt64.ofNat k + 1 = UInt64.ofNat (k + 1) := (UInt64.ofNat_add k 1).symm
  unfold nextId burst
  dsimp only
  rw [if_pos rfl, if_neg odd]
  unfold issue
  dsimp only
  rw [next, next]
  rfl

theorem ids_burst (j n : Nat) : (burst j).ids n (List.replicate n 1) =
    (List.range n).map fun i => pack 1 0 (UInt64.ofNat (2 * (j + i) + 2) &&& 0x1FFF) := by
  induction n generalizing j with
  | zero => rfl
  | succ n ih =>
    rw [List.replicate_succ, ids_succ, nextId_burst, List.range_succ_eq_map, List.map_cons, List.map_map]
    dsimp only
    rw [ih]
    refine congrArg _ (List.map_congr_left fun i _ => ?_)
    show _ = pack 1 0 (UInt64.ofNat (2 * (j + (i + 1)) + 2) &&& 0x1FFF)
    rw [Nat.add_right_comm j 1 i, Nat.add_assoc j i 1]

/-- The first and the last id of 4097 calls in one millisecond are the same. -/
theorem burst_repeats :
    ¬ ∀ (nodeId : UInt16) (n : Nat) (clock : List UInt64), clock.Pairwise (· ≤ ·) →
      (∀ t ∈ clock, t.toNat < 2 ^ 41) →
      ((create nodeId).ids n clock).Nodup := by
  intro claim
  have distinct := claim 0 4097 (List.replicate 4097 1) (List.pairwise_replicate.mpr (.inr (UInt64.le_refl 1)))
    fun t member => by rw [List.eq_of_mem_replicate member]; decide
  rw [List.replicate_succ, ids_succ, show (create 0).nextId (1 :: List.replicate 4096 1) =
    some ((pack 1 0 0, burst 0), List.replicate 4096 1) from rfl] at distinct
  dsimp only at distinct
  rw [ids_burst] at distinct
  refine (List.nodup_cons.mp distinct).1 (List.mem_map.mpr ⟨4095, List.mem_range.mpr (by decide), by decide⟩)

end OpenFS.IdGenerator
