import OpenFS.Lib.Simulation

/-!
# Requests that are served in steps

A server may serve a request by a program of its own, whose steps take turns with the steps of
others. A call has then done its work before it returns, and so it may seem to return early.
-/

namespace Requests

section
variable {Req Req' : Type} {Reply : Req → Type} {Reply' : Req' → Type} {α β : Type}

/-- The program with the handler of each request in its place. -/
def Prog.expand (handler : (q : Req) → Prog Req' Reply' (Reply q)) : Prog Req Reply α → Prog Req' Reply' α
  | .ret a => .ret a
  | .ask q next => Prog.bind (handler q) fun reply => (next reply).expand handler

/-- The programs go the same way when they see replies that look alike. -/
def Prog.Alike (same : (q : Req) → Reply q → Reply q → Prop) : Prog Req Reply α → Prog Req Reply α → Prop
  | .ret a, p' => p' = .ret a
  | .ask q next, p' => ∃ next', p' = .ask q next' ∧
      ∀ reply reply', same q reply reply' → Alike same (next reply) (next' reply')

variable {same : (q : Req) → Reply q → Reply q → Prop}

theorem Prog.alike_pure (a : α) : (pure a : Prog Req Reply α).Alike same (pure a) := rfl

theorem Prog.alike_call_bind {q : Req} {f f' : Reply q → Prog Req Reply α}
    (rest : ∀ reply reply', same q reply reply' → (f reply).Alike same (f' reply')) :
    (Prog.call q >>= f).Alike same (Prog.call q >>= f') := ⟨f', rfl, rest⟩

theorem Prog.Alike.bind {p p' : Prog Req Reply β} {f f' : β → Prog Req Reply α} (first : p.Alike same p')
    (rest : ∀ b, (f b).Alike same (f' b)) : (p >>= f).Alike same (p' >>= f') := by
  show (Prog.bind p f).Alike same (Prog.bind p' f')
  induction p generalizing p' with
  | ret b =>
    obtain rfl := first
    exact rest b
  | ask q next ih =>
    obtain ⟨next', rfl, later⟩ := first
    exact ⟨_, rfl, fun reply reply' like => ih reply (later reply reply' like)⟩

/-- What tells no replies apart. -/
theorem Prog.Uses.alike {p : Prog Req Reply α}
    (uses : p.Uses fun q => ∀ reply reply', same q reply reply' → reply = reply') : p.Alike same p := by
  induction p with
  | ret a => rfl
  | ask q next ih =>
    refine ⟨next, rfl, fun reply reply' like => ?_⟩
    obtain rfl := uses.1 reply reply' like
    exact ih reply (uses.2 reply)

/-- A program whose handlers all ask waits when the program does. -/
theorem Prog.Alike.returns_expand {ι : Type} {handler : (q : Req) → Prog Req' Reply' (Reply q)}
    (asks : ∀ q, (handler q).Waits) {p p' : Prog Req Reply α} (alike : p.Alike same p') (k : Nat) :
    (returns k (p.expand handler) : List (Visible ι α)) = returns k p' := by
  cases p with
  | ret a =>
    obtain rfl := alike
    rfl
  | ask q next =>
    obtain ⟨next', rfl, -⟩ := alike
    refine returns_of_waits ?_
    show (Prog.bind (handler q) _).Waits
    have waits := asks q
    cases left : handler q with
    | ret => rw [left] at waits; exact waits.elim
    | ask => trivial

end

section
variable {ι α : Type}

/-- The same is seen, but that calls return later; those that are due have not returned yet. -/
inductive Delays : List (Nat × α) → List (Visible ι α) → List (Visible ι α) → Prop where
  | nil : Delays [] [] []
  | cons {due : List (Nat × α)} {tr tr' : List (Visible ι α)} (before : Delays due tr tr') (e : Visible ι α) :
      Delays due (e :: tr) (e :: tr')
  | early {due : List (Nat × α)} {tr tr' : List (Visible ι α)} (before : Delays due tr tr') (k : Nat) (a : α) :
      Delays ((k, a) :: due) tr (.returned k a :: tr')
  | back {front rest : List (Nat × α)} {tr tr' : List (Visible ι α)} {k : Nat} {a : α}
      (before : Delays (front ++ (k, a) :: rest) tr tr') : Delays (front ++ rest) (.returned k a :: tr) tr'

variable {due : List (Nat × α)} {tr tr' : List (Visible ι α)}

theorem Delays.append (delays : Delays due tr tr') (es : List (Visible ι α)) : Delays due (es ++ tr) (es ++ tr') := by
  induction es with
  | nil => exact delays
  | cons e es ih => exact ih.cons e

/-- What is due when the program returns early. -/
def owed {Req : Type} {Reply : Req → Type} (k : Nat) : Prog Req Reply α → List (Nat × α)
  | .ret a => [(k, a)]
  | .ask .. => []

theorem Delays.ahead (delays : Delays due tr tr') {Req : Type} {Reply : Req → Type} (k : Nat)
    (p : Prog Req Reply α) : Delays (owed k p ++ due) tr (returns k p ++ tr') := by
  cases p with
  | ret a => exact delays.early k a
  | ask => exact delays

/-- What has returned here, or is due, has returned there. -/
theorem Delays.returned (delays : Delays due tr tr') {k : Nat} {a : α} (heard : .returned k a ∈ tr ∨ (k, a) ∈ due) :
    .returned k a ∈ tr' := by
  induction delays with
  | nil => rcases heard with heard | owed <;> contradiction
  | cons _ e ih =>
    rcases heard with heard | owed
    · rcases List.mem_cons.mp heard with rfl | old
      · exact List.mem_cons_self
      · exact List.mem_cons_of_mem _ (ih (.inl old))
    · exact List.mem_cons_of_mem _ (ih (.inr owed))
  | early _ j b ih =>
    rcases heard with heard | owed
    · exact List.mem_cons_of_mem _ (ih (.inl heard))
    · rcases List.mem_cons.mp owed with mine | owed
      · cases mine
        exact List.mem_cons_self
      · exact List.mem_cons_of_mem _ (ih (.inr owed))
  | back _ ih =>
    apply ih
    rcases heard with heard | owed
    · rcases List.mem_cons.mp heard with mine | old
      · cases mine
        exact .inr (List.mem_append_right _ List.mem_cons_self)
      · exact .inl old
    · rcases List.mem_append.mp owed with front | rest
      · exact .inr (List.mem_append_left _ front)
      · exact .inr (List.mem_append_right _ (List.mem_cons_of_mem _ rest))

/-- The same calls are made. -/
theorem Delays.called_iff (delays : Delays due tr tr') {k : Nat} {op : ι} :
    .called k op ∈ tr' ↔ .called k op ∈ tr := by
  induction delays with
  | nil => rfl
  | cons _ e ih => rw [List.mem_cons, List.mem_cons, ih]
  | early _ j b ih => rw [List.mem_cons, ih, or_iff_right (by simp)]
  | back _ ih => rw [List.mem_cons, ih, or_iff_right (by simp)]

/-- What had been seen at some time here, beside what had been seen there. -/
theorem Delays.cut (delays : Delays due tr tr') {later before : List (Visible ι α)} (cut : tr = later ++ before) :
    ∃ later' before' due', tr' = later' ++ before' ∧ Delays due' before before' := by
  induction delays generalizing later with
  | nil =>
    obtain ⟨rfl, rfl⟩ := List.append_eq_nil_iff.mp cut.symm
    exact ⟨[], [], [], rfl, .nil⟩
  | cons earlier e ih =>
    cases later with
    | nil =>
      obtain rfl := cut
      exact ⟨[], _, _, rfl, earlier.cons e⟩
    | cons e' later =>
      obtain ⟨later', before', due', rfl, delays⟩ := ih (List.cons.inj cut).2
      exact ⟨e :: later', before', due', rfl, delays⟩
  | early _ j b ih =>
    obtain ⟨later', before', due', rfl, delays⟩ := ih cut
    exact ⟨.returned j b :: later', before', due', rfl, delays⟩
  | back earlier ih =>
    cases later with
    | nil =>
      obtain rfl := cut
      exact ⟨[], _, _, rfl, earlier.back⟩
    | cons e' later => exact ih (List.cons.inj cut).2

theorem Delays.cut_called (delays : Delays due tr tr') {later before : List (Visible ι α)} {k : Nat} {op : ι}
    (cut : tr = later ++ .called k op :: before) :
    ∃ later' before' due', tr' = later' ++ .called k op :: before' ∧ Delays due' before before' := by
  induction delays generalizing later with
  | nil => cases later <;> cases cut
  | cons earlier e ih =>
    cases later with
    | nil =>
      cases cut
      exact ⟨[], _, _, rfl, earlier⟩
    | cons e' later =>
      obtain ⟨later', before', due', rfl, delays⟩ := ih (List.cons.inj cut).2
      exact ⟨e :: later', before', due', rfl, delays⟩
  | early _ j b ih =>
    obtain ⟨later', before', due', rfl, delays⟩ := ih cut
    exact ⟨.returned j b :: later', before', due', rfl, delays⟩
  | back _ ih =>
    cases later with
    | nil => cases cut
    | cons e' later => exact ih (List.cons.inj cut).2

/-- A call that has returned here, from its beginning on: before it was called there, the same had
happened, and before it returned there, no more had been called. -/
theorem Delays.cut_returned {Req σ ρ : Type} {Reply : Req → Type} {S : Setting ι Req Reply α σ ρ}
    {begins : Concurrent ι Req Reply α σ → ι → Prop} {admits : σ → Req → Prop} {st : Concurrent ι Req Reply α σ}
    (delays : Delays due tr tr') (traced : S.Traced begins admits tr' st) {later mid earlier : List (Visible ι α)}
    {k : Nat} {op : ι} {a : α} (cut : tr = later ++ .returned k a :: (mid ++ .called k op :: earlier)) :
    ∃ later' mid' earlier' due', tr' = later' ++ .returned k a :: (mid' ++ .called k op :: earlier') ∧
      Delays due' earlier earlier' ∧ ∀ j op', .called j op' ∈ mid' ++ .called k op :: earlier' →
        .called j op' ∈ mid ++ .called k op :: earlier := by
  obtain ⟨beyond, whole, due₁, split, delays₁⟩ := delays.cut cut
  obtain ⟨front, before, rfl⟩ := List.append_of_mem (delays₁.returned (.inl List.mem_cons_self))
  have fewer : ∀ {j op'}, .called j op' ∈ before → .called j op' ∈ mid ++ .called k op :: earlier := by
    intro j op' called
    have here := delays₁.called_iff.mp (List.mem_append_right front (List.mem_cons_of_mem (.returned k a) called))
    rcases List.mem_cons.mp here with new | old
    · cases new
    · exact old
  have cut₂ : tr = (later ++ .returned k a :: mid) ++ .called k op :: earlier := by
    rw [cut, List.append_assoc, List.cons_append]
  obtain ⟨later₂, earlier', due', split₂, delays₂⟩ := delays.cut_called cut₂
  rw [split, ← List.append_assoc] at split₂
  rcases List.append_eq_append_iff.mp split₂ with ⟨gap, -, inside⟩ | ⟨gap, -, inside⟩
  · cases gap with
    | nil => cases inside
    | cons e mid' =>
      rw [List.cons_append] at inside
      obtain ⟨rfl, rfl⟩ := List.cons.inj inside
      exact ⟨beyond ++ front, mid', earlier', due', by rw [split, List.append_assoc], delays₂, fun _ _ => fewer⟩
  · -- it had returned there before it was called
    exfalso
    have back : .returned k a ∈ earlier' := by
      cases gap with
      | nil => cases inside
      | cons e gap =>
        obtain ⟨-, rfl⟩ := List.cons.inj inside
        exact List.mem_append_right _ List.mem_cons_self
    rw [split, ← List.append_assoc, split₂] at traced
    obtain ⟨st', traced', length, -⟩ := traced.cut_called rfl
    obtain ⟨op', there⟩ := traced'.task_of_returned back
    have inside := (List.getElem?_eq_some_iff.mp there).1
    rw [length] at inside
    exact Nat.lt_irrefl _ inside

end

end Requests
