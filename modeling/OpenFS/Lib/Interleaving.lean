import OpenFS.Lib.Requests

/-!
# Interleaved programs

Callers run their programs against one server, which answers one request at a time,
in any order. The history says which calls were begun and what was answered to them.
`Meets` is what a program achieves while others are at work between its requests, and
`Run.keeps` that every program of a run achieves it.
-/

namespace Requests

variable {ι Req : Type} {Reply : Req → Type} {α β σ ρ : Type}

/-- A call is begun, or a request of it is answered. -/
inductive Event (ι Req : Type) (Reply : Req → Type) where
  | began (caller : Nat) (op : ι)
  | answered (caller : Nat) (q : Req) (reply : Reply q)

def Event.caller : Event ι Req Reply → Nat
  | began caller _ => caller
  | answered caller _ _ => caller

/-- What happened, the latest first. -/
abbrev History (ι Req : Type) (Reply : Req → Type) := List (Event ι Req Reply)

/-- Nothing of call `k` happened since. -/
def Since (k : Nat) (h h' : History ι Req Reply) : Prop := ∃ es, h' = es ++ h ∧ ∀ e ∈ es, e.caller ≠ k

namespace Since

variable {k : Nat} {h h' h'' : History ι Req Reply}

theorem refl (k : Nat) (h : History ι Req Reply) : Since k h h := ⟨[], rfl, List.forall_mem_nil _⟩

theorem trans (first : Since k h h') (second : Since k h' h'') : Since k h h'' := by
  obtain ⟨es, rfl, others⟩ := first
  obtain ⟨es', rfl, others'⟩ := second
  refine ⟨es' ++ es, (List.append_assoc ..).symm, fun e member => ?_⟩
  rcases List.mem_append.mp member with new | old
  · exact others' e new
  · exact others e old

theorem cons {e : Event ι Req Reply} (other : e.caller ≠ k) : Since k h (e :: h) :=
  ⟨[e], rfl, List.forall_mem_singleton.mpr other⟩

theorem subset (since : Since k h h') : h ⊆ h' := by
  obtain ⟨es, rfl, -⟩ := since
  exact List.subset_append_right es h

/-- The call's own events are those it had. -/
theorem mem_iff (since : Since k h h') {e : Event ι Req Reply} (own : e.caller = k) : e ∈ h' ↔ e ∈ h := by
  obtain ⟨es, rfl, others⟩ := since
  rw [List.mem_append, or_iff_right]
  intro new
  exact others e new own

end Since

/-- Since `h`, call `k` made no request of the kind. -/
structure Without (P : Req → Prop) (k : Nat) (h h' : History ι Req Reply) : Prop where
  sub : h ⊆ h'
  none : ∀ q reply, P q → .answered k q reply ∈ h' → .answered k q reply ∈ h

namespace Without

variable {P : Req → Prop} {k : Nat} {h h' h'' : History ι Req Reply}

theorem refl (P : Req → Prop) (k : Nat) (h : History ι Req Reply) : Without P k h h :=
  ⟨List.Subset.refl h, fun _ _ _ member => member⟩

theorem since (without : Without P k h h') (later : Since k h' h'') : Without P k h h'' :=
  ⟨List.Subset.trans without.sub later.subset,
    fun q reply kind member => without.none q reply kind ((later.mem_iff rfl).mp member)⟩

theorem trans (first : Without P k h h') (second : Without P k h' h'') : Without P k h h'' :=
  ⟨List.Subset.trans first.sub second.sub,
    fun q reply kind member => first.none q reply kind (second.none q reply kind member)⟩

theorem answered (without : Without P k h h') {q : Req} (other : ¬ P q) (reply : Reply q) :
    Without P k h (.answered k q reply :: h') := by
  refine ⟨List.subset_cons_of_subset _ without.sub, fun q' reply' kind member => ?_⟩
  rcases List.mem_cons.mp member with new | old
  · cases new
    exact absurd kind other
  · exact without.none q' reply' kind old

end Without

/-! ## What a program achieves -/

section
variable (answer : ρ → Server Req Reply σ) (admits : σ → Req → Prop) (Inv : History ι Req Reply → σ → Prop)
  (k : Nat)

/-- Each answer to a request of the program keeps the invariant, as long as the request is
admitted; and the result is as `Q` says, whatever the others do. -/
def Meets (Q : α → History ι Req Reply → Prop) : Prog Req Reply α → History ι Req Reply → Prop
  | .ret a, h => ∀ h', Since k h h' → Q a h'
  | .ask q next, h => ∀ h' s r, Since k h h' → Inv h' s → admits s q →
      Inv (.answered k q (answer r s q).1 :: h') (answer r s q).2 ∧
        Meets Q (next (answer r s q).1) (.answered k q (answer r s q).1 :: h')

variable {answer admits Inv k} {Q : α → History ι Req Reply → Prop} {h h' : History ι Req Reply}

theorem Meets.since {p : Prog Req Reply α} (meets : Meets answer admits Inv k Q p h) (since : Since k h h') :
    Meets answer admits Inv k Q p h' := by
  cases p with
  | ret a => exact fun h'' later => meets h'' (since.trans later)
  | ask q next => exact fun h'' s r later => meets h'' s r (since.trans later)

theorem meets_pure {a : α} (result : ∀ h', Since k h h' → Q a h') :
    Meets answer admits Inv k Q (pure a) h := result

theorem meets_bind {p : Prog Req Reply β} {f : β → Prog Req Reply α} {R : β → History ι Req Reply → Prop}
    (first : Meets answer admits Inv k R p h)
    (rest : ∀ b h', R b h' → Meets answer admits Inv k Q (f b) h') : Meets answer admits Inv k Q (p >>= f) h := by
  show Meets answer admits Inv k Q (Prog.bind p f) h
  induction p generalizing h with
  | ret b => exact rest b h (first h (.refl k h))
  | ask q next ih =>
    intro h' s r since inv admitted
    obtain ⟨kept, later⟩ := first h' s r since inv admitted
    exact ⟨kept, ih _ later⟩

/-- One request and what follows it. -/
theorem meets_call_bind {q : Req} {f : Reply q → Prog Req Reply α}
    (step : ∀ h' s r, Since k h h' → Inv h' s → admits s q →
      Inv (.answered k q (answer r s q).1 :: h') (answer r s q).2 ∧
        Meets answer admits Inv k Q (f (answer r s q).1) (.answered k q (answer r s q).1 :: h')) :
    Meets answer admits Inv k Q (Prog.call q >>= f) h := step

theorem Meets.mono {p : Prog Req Reply α} {R : α → History ι Req Reply → Prop}
    (meets : Meets answer admits Inv k Q p h) (weaker : ∀ a h', Q a h' → R a h') :
    Meets answer admits Inv k R p h := by
  induction p generalizing h with
  | ret a => exact fun h' since => weaker a h' (meets h' since)
  | ask q next ih =>
    intro h' s r since inv admitted
    obtain ⟨kept, later⟩ := meets h' s r since inv admitted
    exact ⟨kept, ih _ later⟩

/-- A program that makes no request of a kind has made none in the end. -/
theorem Meets.without {P : Req → Prop} {p : Prog Req Reply α} {h₀ : History ι Req Reply}
    (meets : Meets answer admits Inv k Q p h) (uses : p.Uses fun q => ¬ P q) (before : Without P k h₀ h) :
    Meets answer admits Inv k (fun a h' => Q a h' ∧ Without P k h₀ h') p h := by
  induction p generalizing h with
  | ret a => exact fun h' since => ⟨meets h' since, before.since since⟩
  | ask q next ih =>
    intro h' s r since inv admitted
    obtain ⟨kept, later⟩ := meets h' s r since inv admitted
    exact ⟨kept, ih _ later (uses.2 _) ((before.since since).answered uses.1 _)⟩

/-- The history only grows. -/
theorem Meets.grown {p : Prog Req Reply α} (meets : Meets answer admits Inv k Q p h) :
    Meets answer admits Inv k (fun a h' => Q a h' ∧ h ⊆ h') p h := by
  have quiet := Without.refl (fun _ => False) k h
  exact (meets.without (Prog.uses_all fun _ => id) quiet).mono fun _ _ done => ⟨done.1, done.2.sub⟩

/-- Answers with one reading after the other. -/
def serving (answer : ρ → Server Req Reply σ) (rs : Nat → ρ) : Server Req Reply (σ × Nat) :=
  fun s q => ((answer (rs s.2) s.1 q).1, ((answer (rs s.2) s.1 q).2, s.2 + 1))

/-- Run on its own, the program does what it does among others. -/
theorem Meets.run {p : Prog Req Reply α} (meets : Meets answer admits Inv k Q p h)
    (admitted : p.Uses fun q => ∀ s, admits s q) {s : σ} (inv : Inv h s) (rs : Nat → ρ) (i : Nat) :
    ∃ h', Q (p.run (serving answer rs) (s, i)).1 h' ∧ Inv h' (p.run (serving answer rs) (s, i)).2.1 := by
  induction p generalizing h s i with
  | ret a => exact ⟨h, meets h (.refl k h), inv⟩
  | ask q next ih =>
    obtain ⟨kept, later⟩ := meets h s (rs i) (.refl k h) inv (admitted.1 s)
    exact ih _ later (admitted.2 _) kept (i + 1)

end

/-! ## Runs -/

/-- A call, and what is left of its program. -/
structure Task (ι Req : Type) (Reply : Req → Type) (α : Type) where
  op : ι
  left : Prog Req Reply α

/-- The server, the calls that were begun, and what happened. -/
structure Concurrent (ι Req : Type) (Reply : Req → Type) (α σ : Type) where
  server : σ
  tasks : List (Task ι Req Reply α) := []
  history : History ι Req Reply := []

/-- A server and its callers: the program of each operation, how requests are answered,
the servers to start from, and what else may happen to them. -/
structure Setting (ι Req : Type) (Reply : Req → Type) (α σ ρ : Type) where
  prog : ι → Prog Req Reply α
  answer : ρ → Server Req Reply σ
  start : σ → Prop
  drift : σ → σ → Prop

namespace Setting

variable (S : Setting ι Req Reply α σ ρ)

def begin (st : Concurrent ι Req Reply α σ) (op : ι) : Concurrent ι Req Reply α σ :=
  { st with tasks := st.tasks ++ [⟨op, S.prog op⟩], history := .began st.tasks.length op :: st.history }

/-- Request `q` of call `k` is answered. -/
def serve (st : Concurrent ι Req Reply α σ) (r : ρ) (k : Nat) (op : ι) (q : Req)
    (next : Reply q → Prog Req Reply α) : Concurrent ι Req Reply α σ where
  server := (S.answer r st.server q).2
  tasks := st.tasks.set k ⟨op, next (S.answer r st.server q).1⟩
  history := .answered k q (S.answer r st.server q).1 :: st.history

/-- The calls take turns, a request at a time; one that has begun need not go on. -/
inductive Run (begins : Concurrent ι Req Reply α σ → ι → Prop) (admits : σ → Req → Prop) :
    Concurrent ι Req Reply α σ → Prop where
  | start {s : σ} (first : S.start s) : Run begins admits { server := s }
  | begin {st : Concurrent ι Req Reply α σ} (before : Run begins admits st) (op : ι) (allowed : begins st op) :
      Run begins admits (S.begin st op)
  | serve {st : Concurrent ι Req Reply α σ} (before : Run begins admits st) {k : Nat} {op : ι} {q : Req}
      {next : Reply q → Prog Req Reply α} (asks : st.tasks[k]? = some ⟨op, .ask q next⟩) (r : ρ)
      (admitted : admits st.server q) : Run begins admits (S.serve st r k op q next)
  | drift {st : Concurrent ι Req Reply α σ} (before : Run begins admits st) {s : σ}
    (drifts : S.drift st.server s) :
      Run begins admits { st with server := s }

variable {S} {begins : Concurrent ι Req Reply α σ → ι → Prop} {admits : σ → Req → Prop}
  {st : Concurrent ι Req Reply α σ}

theorem getElem?_begin {op : ι} {k : Nat} {task : Task ι Req Reply α} :
    (S.begin st op).tasks[k]? = some task ↔
      st.tasks[k]? = some task ∨ (k = st.tasks.length ∧ task = ⟨op, S.prog op⟩) := by
  unfold Setting.begin
  dsimp only
  rw [List.getElem?_append]
  split
  · next old =>
    rw [or_iff_left]
    rintro ⟨rfl, -⟩
    exact Nat.lt_irrefl _ old
  · next new =>
    rw [List.getElem?_eq_none (Nat.le_of_not_lt new), List.getElem?_singleton]
    split
    · next first =>
      have last : k = st.tasks.length := by omega
      simp [last, eq_comm]
    · next other =>
      have past : k ≠ st.tasks.length := by omega
      simp [past]

theorem getElem?_serve {k j : Nat} {op : ι} {q : Req} {next : Reply q → Prog Req Reply α}
    {task : Task ι Req Reply α} (asks : st.tasks[k]? = some ⟨op, .ask q next⟩) (r : ρ) :
    (S.serve st r k op q next).tasks[j]? = some task ↔
      (j = k ∧ task = ⟨op, next (S.answer r st.server q).1⟩) ∨ (j ≠ k ∧ st.tasks[j]? = some task) := by
  have here := (List.getElem?_eq_some_iff.mp asks).1
  unfold Setting.serve
  dsimp only
  by_cases same : j = k
  · subst same
    rw [List.getElem?_set_self here]
    simp [eq_comm]
  · rw [List.getElem?_set_ne (Ne.symm same)]
    simp [same]

/-- What is allowed with less is allowed with more. -/
theorem Run.mono {begins' : Concurrent ι Req Reply α σ → ι → Prop} {admits' : σ → Req → Prop}
    (run : S.Run begins admits st) (more : ∀ st op, begins st op → begins' st op)
    (more' : ∀ s q, admits s q → admits' s q) : S.Run begins' admits' st := by
  induction run with
  | start first => exact .start first
  | begin _ op allowed ih => exact .begin ih op (more _ op allowed)
  | serve _ asks r admitted ih => exact .serve ih asks r (more' _ _ admitted)
  | drift _ drifts ih => exact .drift ih drifts

/-- What holds of the tasks when they begin and after each reply. -/
theorem Run.tasks {P : Task ι Req Reply α → Prop} (begun : ∀ st op, begins st op → P ⟨op, S.prog op⟩)
    (served : ∀ op q next reply, P ⟨op, .ask q next⟩ → P ⟨op, next reply⟩) (run : S.Run begins admits st) {k : Nat}
    {task : Task ι Req Reply α} (there : st.tasks[k]? = some task) : P task := by
  induction run generalizing k task with
  | start => cases there
  | begin _ op allowed ih =>
    rcases getElem?_begin.mp there with old | ⟨-, rfl⟩
    · exact ih old
    · exact begun _ op allowed
  | serve _ asks r _ ih =>
    rcases (getElem?_serve asks r).mp there with ⟨-, rfl⟩ | ⟨-, other⟩
    · exact served _ _ _ _ (ih asks)
    · exact ih other
  | drift _ _ ih => exact ih there

/-- The calls that were begun are the tasks. -/
theorem Run.began_iff (run : S.Run begins admits st) {k : Nat} {op : ι} :
    .began k op ∈ st.history ↔ ∃ p, st.tasks[k]? = some ⟨op, p⟩ := by
  induction run with
  | start =>
    constructor
    · intro member
      cases member
    · rintro ⟨p, there⟩
      cases there
  | @begin st _ op' _ ih =>
    show .began k op ∈ .began st.tasks.length op' :: st.history ↔ _
    simp only [List.mem_cons, getElem?_begin, ih, exists_or, Event.began.injEq, Task.mk.injEq]
    constructor
    · rintro (⟨rfl, rfl⟩ | old)
      · exact .inr ⟨_, rfl, rfl, rfl⟩
      · exact .inl old
    · rintro (old | ⟨p, rfl, rfl, -⟩)
      · exact .inr old
      · exact .inl ⟨rfl, rfl⟩
  | @serve st _ j op' q next asks r _ ih =>
    show .began k op ∈ .answered j q _ :: st.history ↔ _
    simp only [List.mem_cons, getElem?_serve asks r, ih, exists_or, Task.mk.injEq, reduceCtorEq, false_or]
    constructor
    · rintro ⟨p, there⟩
      by_cases same : k = j
      · subst same
        cases there.symm.trans asks
        exact .inl ⟨_, rfl, rfl, rfl⟩
      · exact .inr ⟨p, same, there⟩
    · rintro (⟨p, rfl, rfl, -⟩ | ⟨p, -, there⟩)
      · exact ⟨_, asks⟩
      · exact ⟨p, there⟩
  | drift _ _ ih => exact ih

/-- All calls have returned. -/
def Idle (st : Concurrent ι Req Reply α σ) : Prop :=
  ∀ (k : Nat) (task : Task ι Req Reply α), st.tasks[k]? = some task → ∃ a, task.left = .ret a

/-- Where a call begins only when the others have returned, only the last has not. -/
theorem Run.turns (alone : ∀ st op, begins st op → Idle st) (run : S.Run begins admits st) {k : Nat}
    {task : Task ι Req Reply α} (there : st.tasks[k]? = some task) (earlier : k + 1 < st.tasks.length) :
    ∃ a, task.left = .ret a := by
  induction run generalizing k task with
  | start => cases there
  | begin _ op allowed ih =>
    rcases getElem?_begin.mp there with old | ⟨rfl, -⟩
    · exact alone _ op allowed _ _ old
    · unfold Setting.begin at earlier
      rw [List.length_append, List.length_singleton] at earlier
      exact absurd earlier (Nat.lt_irrefl _)
  | serve _ asks r _ ih =>
    unfold Setting.serve at earlier
    rw [List.length_set] at earlier
    rcases (getElem?_serve asks r).mp there with ⟨rfl, -⟩ | ⟨-, other⟩
    · obtain ⟨a, ended⟩ := ih asks earlier
      cases ended
    · exact ih other earlier
  | drift _ _ ih => exact ih there earlier

/-- A call can be run to its end while the others wait. -/
theorem Run.finish {k : Nat} {op : ι} {p : Prog Req Reply α} (run : S.Run begins admits st)
    (here : st.tasks[k]? = some ⟨op, p⟩) (rs : Nat → ρ) (i : Nat)
    (admitted : p.Along (fun s q => admits s.1 q) (serving S.answer rs) (st.server, i)) :
    ∃ h, S.Run begins admits
      { server := (p.run (serving S.answer rs) (st.server, i)).2.1
        tasks := st.tasks.set k ⟨op, .ret (p.run (serving S.answer rs) (st.server, i)).1⟩
        history := h } ∧ st.history ⊆ h := by
  induction p generalizing st i with
  | ret a =>
    refine ⟨st.history, ?_, List.Subset.refl _⟩
    have same : st.tasks.set k ⟨op, .ret a⟩ = st.tasks := by
      rw [List.getElem?_eq_some_iff] at here
      obtain ⟨inside, there⟩ := here
      rw [← there, List.set_getElem_self]
    show S.Run begins admits { server := st.server, tasks := st.tasks.set k ⟨op, .ret a⟩, history := st.history }
    rw [same]
    exact run
  | ask q next ih =>
    obtain ⟨h, later, sub⟩ := ih _ (run.serve here (rs i) admitted.1) (i := i + 1)
      ((getElem?_serve here (rs i)).mpr (.inl ⟨rfl, rfl⟩)) admitted.2
    refine ⟨h, ?_, List.Subset.trans (List.subset_cons_self _ _) sub⟩
    unfold Setting.serve at later
    rw [List.set_set] at later
    exact later

/-- After any run a call can be begun and run to its end. -/
theorem Run.complete (run : S.Run begins admits st) (op : ι) (allowed : begins st op) (rs : Nat → ρ)
    (admitted : (S.prog op).Uses fun q => ∀ s, admits s q) :
    ∃ (st' : Concurrent ι Req Reply α σ) (a : α), S.Run begins admits st' ∧
      st'.tasks = st.tasks ++ [⟨op, .ret a⟩] ∧ st.history ⊆ st'.history := by
  have last : (S.begin st op).tasks[st.tasks.length]? = some ⟨op, S.prog op⟩ := getElem?_begin.mpr (.inr ⟨rfl, rfl⟩)
  have along : (S.prog op).Along (fun s q => admits s.1 q) (serving S.answer rs) ((S.begin st op).server, 0) :=
    (admitted.mono fun q every (s : σ × Nat) => every s.1).along _
  obtain ⟨h, finished, sub⟩ := (run.begin op allowed).finish last rs 0 along
  refine ⟨_, ((S.prog op).run (serving S.answer rs) ((S.begin st op).server, 0)).1, finished, ?_,
    List.Subset.trans (List.subset_cons_self _ _) sub⟩
  unfold Setting.begin
  simp

/-! ## What a run keeps -/

/-- Everything holds that is kept: of the server, and of every call. -/
structure Kept (S : Setting ι Req Reply α σ ρ) (admits : σ → Req → Prop) (Inv : History ι Req Reply → σ → Prop)
    (Q : Nat → ι → α → History ι Req Reply → Prop) (st : Concurrent ι Req Reply α σ) : Prop where
  inv : Inv st.history st.server
  callers : ∀ e ∈ st.history, e.caller < st.tasks.length
  tasks : ∀ k task, st.tasks[k]? = some task → Meets S.answer admits Inv k (Q k task.op) task.left st.history

/-- **Callers that keep an invariant by themselves keep it together.** -/
theorem Run.keeps {Inv : History ι Req Reply → σ → Prop} {Q : Nat → ι → α → History ι Req Reply → Prop}
    (start : ∀ s, S.start s → Inv [] s) (drift : ∀ h s s', S.drift s s' → Inv h s → Inv h s')
    (began : ∀ h s k op, Inv h s → Inv (.began k op :: h) s)
    (meets : ∀ k op h, (∀ e ∈ h, e.caller < k) →
      Meets S.answer admits Inv k (Q k op) (S.prog op) (.began k op :: h))
    (run : S.Run begins admits st) : S.Kept admits Inv Q st := by
  induction run with
  | start first =>
    refine ⟨start _ first, List.forall_mem_nil _, fun k task there => ?_⟩
    rw [List.getElem?_nil] at there
    cases there
  | @begin st _ op _ ih =>
    refine ⟨began _ _ _ _ ih.inv, ?_, fun k task there => ?_⟩
    · unfold Setting.begin
      rw [List.length_append, List.length_singleton]
      refine List.forall_mem_cons.mpr ⟨Nat.lt_succ_self _, fun e member => ?_⟩
      exact Nat.lt_succ_of_lt (ih.callers e member)
    · rcases getElem?_begin.mp there with old | ⟨rfl, rfl⟩
      · have earlier := (List.getElem?_eq_some_iff.mp old).1
        exact (ih.tasks k task old).since (.cons (Nat.ne_of_gt earlier))
      · exact meets _ op _ ih.callers
  | @serve st _ k op q next asks r admitted ih =>
    obtain ⟨kept, later⟩ := ih.tasks k _ asks _ _ r (.refl k _) ih.inv admitted
    refine ⟨kept, ?_, fun j task there => ?_⟩
    · unfold Setting.serve
      rw [List.length_set]
      exact List.forall_mem_cons.mpr ⟨(List.getElem?_eq_some_iff.mp asks).1, ih.callers⟩
    · rcases (getElem?_serve asks r).mp there with ⟨rfl, rfl⟩ | ⟨other, same⟩
      · exact later
      · exact (ih.tasks j task same).since (.cons (Ne.symm other))
  | drift _ drifts ih => exact ⟨drift _ _ _ drifts ih.inv, ih.callers, ih.tasks⟩

end Setting

end Requests
