import OpenFS.Lib.Simulation

/-!
# Front ends

A front end offers operations of its own at the server of another setting. When each of its
programs makes the requests of some program behind it, whatever is seen at the front end has
something to be seen behind, call by call and result by result.
-/

namespace Requests

section
variable {Req : Type} {Reply : Req → Type} {α β γ : Type}

/-- Programs that make the same requests, with related results. -/
inductive Twin (R : α → β → Prop) : Prog Req Reply α → Prog Req Reply β → Prop where
  | ret {a : α} {b : β} (related : R a b) : Twin R (.ret a) (.ret b)
  | ask (q : Req) {next : Reply q → Prog Req Reply α} {next' : Reply q → Prog Req Reply β}
      (later : ∀ reply, Twin R (next reply) (next' reply)) : Twin R (.ask q next) (.ask q next')

variable {R : α → β → Prop}

theorem twin_pure {a : α} {b : β} (related : R a b) : Twin R (pure a : Prog Req Reply α) (pure b) := .ret related

/-- Two ways to go on from one program. -/
theorem twin_bind (p : Prog Req Reply γ) {f : γ → Prog Req Reply α} {g : γ → Prog Req Reply β}
    (related : ∀ x, Twin R (f x) (g x)) : Twin R (p >>= f) (p >>= g) := by
  show Twin R (Prog.bind p f) (Prog.bind p g)
  induction p with
  | ret x => exact related x
  | ask q next ih => exact .ask q ih

end

namespace Setting

variable {ι κ Req : Type} {Reply : Req → Type} {α β σ ρ : Type}

/-- Other programs at the same server. -/
def front (S : Setting ι Req Reply α σ ρ) (prog : κ → Prog Req Reply β) : Setting κ Req Reply β σ ρ where
  prog := prog
  answer := S.answer
  start := S.start
  drift := S.drift

variable (f : κ → ι) (R : κ → α → β → Prop)

/-- What is seen behind, beside what is seen at the front end. -/
inductive Mirrors : List (Visible ι α) → List (Visible κ β) → Prop where
  | nil : Mirrors [] []
  | called {tr : List (Visible ι α)} {tr' : List (Visible κ β)} (before : Mirrors tr tr') (k : Nat) (op : κ) :
      Mirrors (.called k (f op) :: tr) (.called k op :: tr')
  | returned {tr : List (Visible ι α)} {tr' : List (Visible κ β)} (before : Mirrors tr tr') {k : Nat} {op : κ}
      (mine : .called k op ∈ tr') {a : α} {b : β} (related : R op a b) :
      Mirrors (.returned k a :: tr) (.returned k b :: tr')

/-- The servers are one, and each call has its twin behind. -/
structure Behind (st : Concurrent ι Req Reply α σ) (st' : Concurrent κ Req Reply β σ) : Prop where
  server : st.server = st'.server
  length : st.tasks.length = st'.tasks.length
  tasks : ∀ (k : Nat) (task : Task κ Req Reply β), st'.tasks[k]? = some task →
    ∃ p, st.tasks[k]? = some ⟨f task.op, p⟩ ∧ Twin (R task.op) p task.left

variable {f R} {tr : List (Visible ι α)} {tr' : List (Visible κ β)}

theorem Mirrors.returns (mirrors : Mirrors f R tr tr') {k : Nat} {op : κ} (mine : .called k op ∈ tr')
    {p : Prog Req Reply α} {p' : Prog Req Reply β} (twin : Twin (R op) p p') :
    Mirrors f R (returns k p ++ tr) (returns k p' ++ tr') := by
  cases twin with
  | ret related => exact .returned mirrors mine related
  | ask => exact mirrors

theorem Mirrors.called_iff (mirrors : Mirrors f R tr tr') {k : Nat} {op : ι} :
    .called k op ∈ tr ↔ ∃ op', f op' = op ∧ .called k op' ∈ tr' := by
  induction mirrors with
  | nil => simp
  | called _ j op' ih =>
    simp only [List.mem_cons, Visible.called.injEq, ih]
    constructor
    · rintro (⟨rfl, rfl⟩ | ⟨op'', same, earlier⟩)
      · exact ⟨op', rfl, .inl ⟨rfl, rfl⟩⟩
      · exact ⟨op'', same, .inr earlier⟩
    · rintro ⟨op'', rfl, ⟨rfl, rfl⟩ | earlier⟩
      · exact .inl ⟨rfl, rfl⟩
      · exact .inr ⟨op'', rfl, earlier⟩
  | returned _ _ _ ih => simpa using ih

/-- What was seen up to a return. -/
theorem Mirrors.cut_returned (mirrors : Mirrors f R tr tr') {later' before' : List (Visible κ β)} {k : Nat} {b : β}
    (cut : tr' = later' ++ .returned k b :: before') : ∃ later before a op, tr = later ++ .returned k a :: before ∧
      Mirrors f R before before' ∧ .called k op ∈ before' ∧ R op a b := by
  induction mirrors generalizing later' with
  | nil => cases later' <;> cases cut
  | called _ j op ih =>
    cases later' with
    | nil => cases cut
    | cons e later' =>
      obtain ⟨later, before, a, op', rfl, rest⟩ := ih (List.cons.inj cut).2
      exact ⟨_ :: later, before, a, op', rfl, rest⟩
  | returned earlier mine related ih =>
    cases later' with
    | nil =>
      cases cut
      exact ⟨[], _, _, _, rfl, earlier, mine, related⟩
    | cons e later' =>
      obtain ⟨later, before, a, op', rfl, rest⟩ := ih (List.cons.inj cut).2
      exact ⟨_ :: later, before, a, op', rfl, rest⟩

/-- What was seen up to a call. -/
theorem Mirrors.cut_called (mirrors : Mirrors f R tr tr') {later' before' : List (Visible κ β)} {k : Nat} {op : κ}
    (cut : tr' = later' ++ .called k op :: before') : ∃ later before, tr = later ++ .called k (f op) :: before ∧
      Mirrors f R before before' := by
  induction mirrors generalizing later' with
  | nil => cases later' <;> cases cut
  | called earlier j op ih =>
    cases later' with
    | nil =>
      cases cut
      exact ⟨[], _, rfl, earlier⟩
    | cons e later' =>
      obtain ⟨later, before, rfl, rest⟩ := ih (List.cons.inj cut).2
      exact ⟨_ :: later, before, rfl, rest⟩
  | returned _ _ _ ih =>
    cases later' with
    | nil => cases cut
    | cons e later' =>
      obtain ⟨later, before, rfl, rest⟩ := ih (List.cons.inj cut).2
      exact ⟨_ :: later, before, rfl, rest⟩

variable {S : Setting ι Req Reply α σ ρ} {prog : κ → Prog Req Reply β} {admits : σ → Req → Prop}
  {begins : Concurrent ι Req Reply α σ → ι → Prop} {begins' : Concurrent κ Req Reply β σ → κ → Prop}

/-- **What is seen at the front end has been seen behind.** -/
theorem Traced.behind (twins : ∀ op, Twin (R op) (S.prog (f op)) (prog op))
    (allowed : ∀ st st' op, begins' st' op → begins st (f op)) {st' : Concurrent κ Req Reply β σ}
    (traced : (S.front prog).Traced begins' admits tr' st') :
    ∃ tr st, S.Traced begins admits tr st ∧ Mirrors f R tr tr' ∧ Behind f R st st' := by
  induction traced with
  | start first =>
    refine ⟨[], _, .start first, .nil, rfl, rfl, fun k task there => ?_⟩
    rw [List.getElem?_nil] at there
    cases there
  | @begin tr' st' before op may ih =>
    obtain ⟨tr, st, traced, mirrors, server, length, tasks⟩ := ih
    have begun := traced.begin (f op) (allowed st st' op may)
    rw [length] at begun
    refine ⟨_, _, begun, (mirrors.called _ op).returns List.mem_cons_self (twins op), server, ?_,
      fun k task there => ?_⟩
    · show (st.tasks ++ [_]).length = (st'.tasks ++ [_]).length
      rw [List.length_append, List.length_append, length]
      rfl
    · rcases getElem?_begin.mp there with old | ⟨rfl, rfl⟩
      · obtain ⟨p, there', twin⟩ := tasks k task old
        exact ⟨p, getElem?_begin.mpr (.inl there'), twin⟩
      · exact ⟨_, getElem?_begin.mpr (.inr ⟨length.symm, rfl⟩), twins op⟩
  | @serve tr' st' before k op q next asks r admitted ih =>
    obtain ⟨tr, st, traced, mirrors, server, length, tasks⟩ := ih
    obtain ⟨p, there, twin⟩ := tasks k _ asks
    cases twin with
    | @ask _ next' _ later =>
      have served := traced.serve there r (server ▸ admitted)
      have called : .called k op ∈ tr' := before.called_iff.mpr (before.run.began_iff.mpr ⟨_, asks⟩)
      rw [server] at served
      refine ⟨_, _, served, mirrors.returns called (later _), ?_, ?_, fun j task at_j => ?_⟩
      · show (S.answer r st.server q).2 = (S.answer r st'.server q).2
        rw [server]
      · show (st.tasks.set k _).length = (st'.tasks.set k _).length
        rw [List.length_set, List.length_set, length]
      · rcases (getElem?_serve asks r).mp at_j with ⟨rfl, rfl⟩ | ⟨other, same⟩
        · exact ⟨_, (getElem?_serve there r).mpr (.inl ⟨rfl, rfl⟩), server ▸ later _⟩
        · obtain ⟨p', there', twin'⟩ := tasks j task same
          exact ⟨p', (getElem?_serve there r).mpr (.inr ⟨other, there'⟩), twin'⟩
  | drift _ drifts ih =>
    obtain ⟨tr, st, traced, mirrors, server, length, tasks⟩ := ih
    exact ⟨tr, _, traced.drift (server ▸ drifts), mirrors, rfl, length, tasks⟩

end Setting

end Requests
