import Mathlib.Data.List.Basic
import Mathlib.Data.List.Count
import Mathlib.Data.List.Nodup
import Mathlib.Logic.Function.Basic
import Mathlib.Logic.Relation

/-!
# Calls over a channel that loses messages

Parties that call one server, each one call at a time. A message comes late or never. A call that
is given up fails, though its request may still be served; a request is served once at most. A
party that is started again has forgotten everything.
-/

namespace LossyCalls

/-- What the parties and the server do; `ρ` is what the server reads of its surroundings. -/
structure Service (ι P Q R S ρ : Type) where
  boot : ι → P
  ask : P → Q
  take : P → R → P
  answer : ρ → S → Q → R × S

/-- A call, made by a caller since its so many-th start. -/
structure Call (ι Q : Type) where
  number : Nat
  caller : ι
  start : Nat
  request : Q

/-- The parties, the server, and the messages between them. What was served, the latest first, and
the number of failed calls are kept for the record. -/
structure Net (ι P Q R S : Type) where
  server : S
  party : ι → P
  starts : ι → Nat
  fails : ι → Nat
  waits : ι → Option (Call ι Q)
  calls : Nat
  requests : List (Call ι Q)
  replies : List (Call ι Q × R)
  served : List (Call ι Q × R)

namespace Net

variable {ι P Q R S : Type}

/-- The party is about to ask for what it lacks. -/
def due (lacks : P → Prop) [DecidablePred lacks] (net : Net ι P Q R S) (i : ι) : Nat :=
  if net.waits i = none ∧ lacks (net.party i) then 1 else 0

/-- The calls of a party with such a request. -/
def asked [DecidableEq ι] (B : Q → Prop) [DecidablePred B] (net : Net ι P Q R S) (i : ι) : Nat :=
  (net.requests ++ net.served.map Prod.fst).countP fun c => decide (c.caller = i ∧ B c.request)

section
variable {lacks : P → Prop} [DecidablePred lacks] {i : ι}

theorem due_le_one (lacks : P → Prop) [DecidablePred lacks] (net : Net ι P Q R S) (i : ι) :
    net.due lacks i ≤ 1 := by
  unfold due
  split <;> omega

theorem due_of_waits {net : Net ι P Q R S} {c : Call ι Q} (waits : net.waits i = some c) :
    net.due lacks i = 0 := by
  unfold due
  simp [waits]

theorem due_of_has {net : Net ι P Q R S} (has : ¬ lacks (net.party i)) : net.due lacks i = 0 := by
  unfold due
  simp [has]

end

theorem asked_of_perm [DecidableEq ι] {B : Q → Prop} [DecidablePred B] {i : ι} (net net' : Net ι P Q R S)
    (perm : (net'.requests ++ net'.served.map Prod.fst).Perm (net.requests ++ net.served.map Prod.fst)) :
    net'.asked B i = net.asked B i := perm.countP_eq _

end Net

namespace Service

section
variable {ι P Q R S ρ : Type} [DecidableEq ι] (V : Service ι P Q R S ρ)

def initial (s : S) : Net ι P Q R S where
  server := s
  party := V.boot
  starts _ := 1
  fails _ := 0
  waits _ := none
  calls := 0
  requests := []
  replies := []
  served := []

/-- The call that the party makes next. -/
def nextCall (net : Net ι P Q R S) (i : ι) : Call ι Q := ⟨net.calls, i, net.starts i, V.ask (net.party i)⟩

inductive Step (net : Net ι P Q R S) : Net ι P Q R S → Prop where
  | call (i : ι) (idle : net.waits i = none) : Step net { net with
      waits := Function.update net.waits i (some (V.nextCall net i))
      calls := net.calls + 1
      requests := V.nextCall net i :: net.requests }
  | serve (before after : List (Call ι Q)) (c : Call ι Q) (there : net.requests = before ++ c :: after) (r : ρ) :
      Step net { net with
        server := (V.answer r net.server c.request).2
        requests := before ++ after
        replies := (c, (V.answer r net.server c.request).1) :: net.replies
        served := (c, (V.answer r net.server c.request).1) :: net.served }
  | deliver (c : Call ι Q) (reply : R) (there : (c, reply) ∈ net.replies) (waits : net.waits c.caller = some c) :
      Step net { net with
        party := Function.update net.party c.caller (V.take (net.party c.caller) reply)
        waits := Function.update net.waits c.caller none }
  | fail (i : ι) (c : Call ι Q) (waits : net.waits i = some c) : Step net { net with
      waits := Function.update net.waits i none
      fails := Function.update net.fails i (net.fails i + 1) }
  | restart (i : ι) : Step net { net with
      party := Function.update net.party i (V.boot i)
      starts := Function.update net.starts i (net.starts i + 1)
      waits := Function.update net.waits i none }

/-- The runs from a state of the server on. -/
abbrev Runs (s : S) : Net ι P Q R S → Prop := Relation.ReflTransGen V.Step (V.initial s)

end

variable {ι P Q R S ρ : Type} [DecidableEq ι] {V : Service ι P Q R S ρ} {net net' : Net ι P Q R S} {s : S}

/-! ## What is served -/

theorem served_suffix (later : Relation.ReflTransGen V.Step net net') : net.served <:+ net'.served := by
  induction later with
  | refl => exact List.suffix_refl _
  | tail _ step ih =>
    cases step with
    | serve before after c there r => exact ih.trans (List.suffix_cons _ _)
    | _ => exact ih

/-- A property that served requests keep holds of the server. -/
theorem Runs.server {J : List (Call ι Q × R) → S → Prop} (run : V.Runs s net) (start : J [] s)
    (serve : ∀ served s c r, J served s → J ((c, (V.answer r s c.request).1) :: served)
    (V.answer r s c.request).2) :
    J net.served net.server := by
  induction run with
  | refl => exact start
  | tail _ step ih =>
    cases step with
    | serve before after c there r => exact serve _ _ c r ih
    | _ => exact ih

/-- Messages and callers fit together. -/
structure Orderly (V : Service ι P Q R S ρ) (net : Net ι P Q R S) : Prop where
  replies : net.replies ⊆ net.served
  waits : ∀ i c, net.waits i = some c → c.caller = i ∧ c.start = net.starts i ∧ c.request = V.ask (net.party i)

theorem Runs.orderly (run : V.Runs s net) : Orderly V net := by
  induction run with
  | refl => exact ⟨List.Subset.refl _, fun i c waits => by cases waits⟩
  | @tail net _ _ step ih =>
    have cleared : ∀ {i j : ι} {c : Call ι Q}, Function.update net.waits i none j = some c → j ≠ i ∧
        net.waits j = some c := by
      intro i j c waits
      by_cases same : j = i
      · subst same
        rw [Function.update_self] at waits
        cases waits
      · rw [Function.update_of_ne same] at waits
        exact ⟨same, waits⟩
    cases step with
    | call i idle =>
      refine ⟨ih.replies, fun j c waits => ?_⟩
      by_cases same : j = i
      · subst same
        dsimp only at waits
        rw [Function.update_self] at waits
        cases waits
        exact ⟨rfl, rfl, rfl⟩
      · dsimp only at waits
        rw [Function.update_of_ne same] at waits
        exact ih.waits j c waits
    | serve before after c there r =>
      exact ⟨List.cons_subset_cons _ ih.replies, ih.waits⟩
    | deliver c reply there waits =>
      refine ⟨ih.replies, fun j c' waits' => ?_⟩
      obtain ⟨other, waits⟩ := cleared waits'
      dsimp only
      rw [Function.update_of_ne other]
      exact ih.waits j c' waits
    | fail i c waits => exact ⟨ih.replies, fun j c' waits' => ih.waits j c' (cleared waits').2⟩
    | restart i =>
      refine ⟨ih.replies, fun j c waits' => ?_⟩
      obtain ⟨other, waits⟩ := cleared waits'
      dsimp only
      rw [Function.update_of_ne other, Function.update_of_ne other]
      exact ih.waits j c waits

/-- A party knows what the replies to its calls since its start have told it. -/
theorem Runs.parties {K : ι → Nat → List (Call ι Q × R) → P → Prop} (run : V.Runs s net)
    (boot : ∀ i n served, K i n served (V.boot i))
    (mono : ∀ i n served served' p, K i n served p → served <:+ served' → K i n served' p)
    (take : ∀ served p c reply, K c.caller c.start served p → (c, reply) ∈ served →
      K c.caller c.start served (V.take p reply)) (i : ι) : K i (net.starts i) net.served (net.party i) := by
  induction run generalizing i with
  | refl => exact boot i _ _
  | @tail net _ run step ih =>
    cases step with
    | call => exact ih i
    | serve before after c there r => exact mono _ _ _ _ _ (ih i) (List.suffix_cons _ _)
    | deliver c reply there waits =>
      dsimp only
      by_cases same : i = c.caller
      · obtain ⟨-, start, -⟩ := (Runs.orderly run).waits _ c waits
        subst same
        rw [Function.update_self, ← start]
        exact take _ _ c reply (start ▸ ih c.caller) ((Runs.orderly run).replies there)
      · rw [Function.update_of_ne same]
        exact ih i
    | fail => exact ih i
    | restart j =>
      dsimp only
      by_cases same : i = j
      · subst same
        rw [Function.update_self, Function.update_self]
        exact boot i _ _
      · rw [Function.update_of_ne same, Function.update_of_ne same]
        exact ih i

/-- A request says what its caller knew. -/
theorem Runs.requests {K : ι → Nat → List (Call ι Q × R) → P → Prop}
    {A : ι → Nat → List (Call ι Q × R) → Q → Prop} (run : V.Runs s net)
    (known : ∀ net, V.Runs s net → ∀ i, K i (net.starts i) net.served (net.party i))
    (ask : ∀ i n served p, K i n served p → A i n served (V.ask p))
    (mono : ∀ i n served served' q, A i n served q → served <:+ served' → A i n served' q) {c : Call ι Q}
    (made : c ∈ net.requests ++ net.served.map Prod.fst) : A c.caller c.start net.served c.request := by
  induction run with
  | refl => cases made
  | @tail net _ run step ih =>
    cases step with
    | call i idle =>
      rcases List.mem_cons.mp made with rfl | old
      · exact ask _ _ _ _ (known net run i)
      · exact ih old
    | serve before after c' there r =>
      refine mono _ _ _ _ _ (ih ?_) (List.suffix_cons _ _)
      rw [there]
      simp only [List.map_cons, List.mem_append, List.mem_cons] at made ⊢
      tauto
    | deliver => exact ih made
    | fail => exact ih made
    | restart => exact ih made

/-! ## How often something is asked for -/

section
variable {B : Q → Prop} [DecidablePred B] {lacks : P → Prop} [DecidablePred lacks]

/-- A party that asks for what it lacks, until it has it, asks once after each start and failure. -/
theorem Runs.asked_le (run : V.Runs s net) (asks : ∀ p, B (V.ask p) ↔ lacks p)
    (gives : ∀ c reply, (c, reply) ∈ net.served → B c.request → ∀ p, ¬ lacks (V.take p reply))
    (keeps : ∀ c reply, (c, reply) ∈ net.served → ¬ B c.request → ∀ p, ¬ lacks p → ¬ lacks (V.take p reply))
    (i : ι) : net.asked B i + net.due lacks i ≤ net.starts i + net.fails i := by
  induction run with
  | refl =>
    have one := Net.due_le_one lacks (V.initial s) i
    show 0 + _ ≤ 1 + 0
    omega
  | @tail net net' run step ih =>
    cases step with
    | call j idle =>
      have before := ih gives keeps
      by_cases mine : i = j
      · subst mine
        rw [Net.due_of_waits (Function.update_self ..)]
        unfold Net.asked at before ⊢
        unfold Net.due at before
        simp only [idle, true_and] at before
        simp only [List.cons_append, List.countP_cons, nextCall, asks, true_and, decide_eq_true_eq]
        omega
      · have other : ¬ (j = i ∧ B (V.ask (net.party j))) := fun both => mine both.1.symm
        simpa [Net.due, Net.asked, Function.update_of_ne mine, List.countP_cons, nextCall, other] using before
    | serve front back c there r =>
      have before := ih (fun c reply member => gives c reply (List.mem_cons_of_mem _ member))
        fun c reply member => keeps c reply (List.mem_cons_of_mem _ member)
      rw [Net.asked_of_perm net]
      · exact before
      · rw [there]
        simp only [List.map_cons, List.append_assoc, List.cons_append]
        exact List.Perm.append_left front List.perm_middle
    | deliver c reply there waits =>
      have before := ih gives keeps
      by_cases mine : i = c.caller
      · subst mine
        obtain ⟨-, -, request⟩ := (Runs.orderly run).waits _ c waits
        have served := (Runs.orderly run).replies there
        have done : ¬ lacks (V.take (net.party c.caller) reply) := by
          by_cases wanted : B c.request
          · exact gives c reply served wanted _
          · refine keeps c reply served wanted _ ?_
            rw [request, asks] at wanted
            exact wanted
        rw [Net.due_of_has (by simpa using done)]
        rw [Net.due_of_waits waits] at before
        exact before
      · simpa only [Net.due, Net.asked, Function.update_of_ne mine] using before
    | fail j c waits =>
      have before := ih gives keeps
      by_cases mine : i = j
      · subst mine
        rw [Net.due_of_waits waits] at before
        refine Nat.le_trans (Nat.add_le_add_left (Net.due_le_one lacks _ i) _) ?_
        show net.asked B i + 1 ≤ net.starts i + Function.update net.fails i (net.fails i + 1) i
        rw [Function.update_self]
        omega
      · simpa only [Net.due, Net.asked, Function.update_of_ne mine] using before
    | restart j =>
      have before := ih gives keeps
      by_cases mine : i = j
      · subst mine
        refine Nat.le_trans (Nat.add_le_add_left (Net.due_le_one lacks _ i) _) ?_
        show net.asked B i + 1 ≤ Function.update net.starts i (net.starts i + 1) i + net.fails i
        rw [Function.update_self]
        omega
      · simpa only [Net.due, Net.asked, Function.update_of_ne mine] using before

end

end Service

end LossyCalls
