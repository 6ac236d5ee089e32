import OpenFS.Lib.Interleaving

/-!
# Simulation between servers

Outside, only calls and their results are seen. One setting simulates another if each of
its programs follows the other's program of the same operation: whenever a request of it is
answered, the other makes requests of its own, or waits, so that the two servers stay related.
Then all that is seen of the one can be seen of the other.
-/

namespace Requests

/-- What is seen from outside. -/
inductive Visible (ι α : Type) where
  | called (caller : Nat) (op : ι)
  | returned (caller : Nat) (result : α)

section
variable {ι Req : Type} {Reply : Req → Type} {α : Type}

/-- A program that has come to its end returns. -/
def returns (k : Nat) : Prog Req Reply α → List (Visible ι α)
  | .ret a => [.returned k a]
  | .ask .. => []

/-- The program has not come to its end. -/
def Prog.Waits : Prog Req Reply α → Prop
  | .ret _ => False
  | .ask .. => True

theorem Prog.bind_assoc {β γ : Type} (p : Prog Req Reply α) (f : α → Prog Req Reply β) (g : β → Prog Req Reply γ) :
    p >>= f >>= g = p >>= fun a => f a >>= g := by
  show Prog.bind (Prog.bind p f) g = Prog.bind p fun a => Prog.bind (f a) g
  induction p with
  | ret a => rfl
  | ask q next ih => exact congrArg (Prog.ask q) (funext ih)

theorem returns_of_waits {k : Nat} {p : Prog Req Reply α} (waits : p.Waits) :
    (returns k p : List (Visible ι α)) = [] := by
  cases p with
  | ret => exact waits.elim
  | ask => rfl

end

namespace Setting

section
variable {ι Req : Type} {Reply : Req → Type} {α σ ρ : Type} (S : Setting ι Req Reply α σ ρ)

/-- Runs with what is seen of them, the latest first. -/
inductive Traced (begins : Concurrent ι Req Reply α σ → ι → Prop) (admits : σ → Req → Prop) :
    List (Visible ι α) → Concurrent ι Req Reply α σ → Prop where
  | start {s : σ} (first : S.start s) : Traced begins admits [] { server := s }
  | begin {tr : List (Visible ι α)} {st : Concurrent ι Req Reply α σ} (before : Traced begins admits tr st)
      (op : ι) (allowed : begins st op) :
      Traced begins admits (returns st.tasks.length (S.prog op) ++ .called st.tasks.length op :: tr)
        (S.begin st op)
  | serve {tr : List (Visible ι α)} {st : Concurrent ι Req Reply α σ} (before : Traced begins admits tr st)
      {k : Nat} {op : ι} {q : Req} {next : Reply q → Prog Req Reply α}
      (asks : st.tasks[k]? = some ⟨op, .ask q next⟩) (r : ρ) (admitted : admits st.server q) :
      Traced begins admits (returns k (next (S.answer r st.server q).1) ++ tr) (S.serve st r k op q next)
  | drift {tr : List (Visible ι α)} {st : Concurrent ι Req Reply α σ} (before : Traced begins admits tr st)
      {s : σ} (drifts : S.drift st.server s) : Traced begins admits tr { st with server := s }

/-- Requests of the program that are admitted are answered, none in between. -/
inductive Reaches (admits : σ → Req → Prop) : Prog Req Reply α → σ → Prog Req Reply α → σ → Prop where
  | refl (p : Prog Req Reply α) (s : σ) : Reaches admits p s p s
  | step {q : Req} {next : Reply q → Prog Req Reply α} {s s' : σ} {p : Prog Req Reply α} (r : ρ)
      (admitted : admits s q) (rest : Reaches admits (next (S.answer r s q).1) (S.answer r s q).2 p s') :
      Reaches admits (.ask q next) s p s'

variable {S}

theorem Reaches.once {admits : σ → Req → Prop} (q : Req) (next : Reply q → Prog Req Reply α) (s : σ) (r : ρ)
    (admitted : admits s q) : S.Reaches admits (.ask q next) s (next (S.answer r s q).1) (S.answer r s q).2 :=
  .step r admitted (.refl _ _)

theorem Reaches.trans {admits : σ → Req → Prop} {p p' p'' : Prog Req Reply α} {s s' s'' : σ}
    (first : S.Reaches admits p s p' s') (second : S.Reaches admits p' s' p'' s'') :
    S.Reaches admits p s p'' s'' := by
  induction first with
  | refl => exact second
  | step r admitted _ ih => exact .step r admitted (ih second)

variable {begins : Concurrent ι Req Reply α σ → ι → Prop} {admits : σ → Req → Prop}
  {tr : List (Visible ι α)} {st : Concurrent ι Req Reply α σ}

theorem Traced.run (traced : S.Traced begins admits tr st) : S.Run begins admits st := by
  induction traced with
  | start first => exact .start first
  | begin _ op allowed ih => exact .begin ih op allowed
  | serve _ asks r admitted ih => exact .serve ih asks r admitted
  | drift _ drifts ih => exact .drift ih drifts

theorem Run.traced (run : S.Run begins admits st) : ∃ tr, S.Traced begins admits tr st := by
  induction run with
  | start first => exact ⟨_, .start first⟩
  | begin _ op allowed ih =>
    obtain ⟨tr, before⟩ := ih
    exact ⟨_, .begin before op allowed⟩
  | serve _ asks r admitted ih =>
    obtain ⟨tr, before⟩ := ih
    exact ⟨_, .serve before asks r admitted⟩
  | drift _ drifts ih =>
    obtain ⟨tr, before⟩ := ih
    exact ⟨_, .drift before drifts⟩

/-- A call that waits is led on by answers to its requests. -/
theorem Traced.reach {k : Nat} {op : ι} {p p' : Prog Req Reply α} {s' : σ} {st : Concurrent ι Req Reply α σ}
    (before : S.Traced begins admits tr st) (there : st.tasks[k]? = some ⟨op, p⟩) (waits : p.Waits)
    (reaches : S.Reaches admits p st.server p' s') : ∃ h, S.Traced begins admits (returns k p' ++ tr)
      { server := s', tasks := st.tasks.set k ⟨op, p'⟩, history := h } := by
  generalize from_here : st.server = s at reaches
  induction reaches generalizing st tr with
  | refl p s =>
    subst from_here
    refine ⟨st.history, ?_⟩
    have same : st.tasks.set k ⟨op, p⟩ = st.tasks := by
      obtain ⟨inside, at_k⟩ := List.getElem?_eq_some_iff.mp there
      rw [← at_k, List.set_getElem_self]
    rw [returns_of_waits waits, same]
    exact before
  | @step q next s s' p' r admitted rest ih =>
    subst from_here
    have served := Traced.serve before there r admitted
    cases left : next (S.answer r st.server q).1 with
    | ret a =>
      rw [left] at rest served
      cases rest
      unfold Setting.serve at served
      rw [left] at served
      exact ⟨_, served⟩
    | ask q' next' =>
      have there' := (getElem?_serve (S := S) there r).mpr (.inl ⟨rfl, rfl⟩)
      rw [left] at served there' ih
      obtain ⟨h, traced⟩ := ih served there' trivial rfl
      refine ⟨h, ?_⟩
      unfold Setting.serve at traced
      rw [List.set_set] at traced
      exact traced

/-- What has been seen up to a return. -/
theorem Traced.cut_returned (traced : S.Traced begins admits tr st) {later before : List (Visible ι α)} {k : Nat}
    {a : α} (cut : tr = later ++ .returned k a :: before) : ∃ st',
      S.Traced begins admits (.returned k a :: before) st' ∧
      ∃ op, st'.tasks[k]? = some ⟨op, .ret a⟩ := by
  induction traced generalizing later with
  | start =>
    cases later <;> cases cut
  | @begin tr st earlier op allowed ih =>
    have whole := Traced.begin earlier op allowed
    cases left : S.prog op with
    | ret a' =>
      rw [left] at cut whole
      cases later with
      | nil =>
        cases cut
        exact ⟨_, whole, op, getElem?_begin.mpr (.inr ⟨rfl, by rw [left]⟩)⟩
      | cons e later =>
        cases later with
        | nil => cases cut
        | cons e' later => exact ih (List.cons.inj (List.cons.inj cut).2).2
    | ask q next =>
      rw [left] at cut
      cases later with
      | nil => cases cut
      | cons e later => exact ih (List.cons.inj cut).2
  | @serve tr st earlier j op q next asks r admitted ih =>
    have whole := Traced.serve earlier asks r admitted
    cases left : next (S.answer r st.server q).1 with
    | ret a' =>
      rw [left] at cut whole
      cases later with
      | nil =>
        cases cut
        exact ⟨_, whole, op, (getElem?_serve asks r).mpr (.inl ⟨rfl, by rw [left]⟩)⟩
      | cons e later => exact ih (List.cons.inj cut).2
    | ask q' next' =>
      rw [left] at cut
      exact ih cut
  | drift _ _ ih => exact ih cut

/-- A call that is led on alone. -/
theorem Traced.finish {k : Nat} {op : ι} {p : Prog Req Reply α} (traced : S.Traced begins admits tr st)
    (here : st.tasks[k]? = some ⟨op, p⟩) (waits : p.Waits) (rs : Nat → ρ) (i : Nat)
    (admitted : p.Along (fun s q => admits s.1 q) (serving S.answer rs) (st.server, i)) :
    ∃ st', S.Traced begins admits (.returned k (p.run (serving S.answer rs) (st.server, i)).1 :: tr) st' ∧
      st'.server = (p.run (serving S.answer rs) (st.server, i)).2.1 ∧
      st'.tasks = st.tasks.set k ⟨op, .ret (p.run (serving S.answer rs) (st.server, i)).1⟩ := by
  induction p generalizing st tr i with
  | ret a => exact waits.elim
  | ask q next ih =>
    have served := traced.serve here (rs i) admitted.1
    have tasks : (S.serve st (rs i) k op q next).tasks = st.tasks.set k ⟨op, next (S.answer (rs i) st.server q).1⟩ :=
      rfl
    have there := (getElem?_serve (S := S) here (rs i)).mpr (.inl ⟨rfl, rfl⟩)
    have along : (next (S.answer (rs i) st.server q).1).Along (fun s q => admits s.1 q) (serving S.answer rs)
        ((S.answer (rs i) st.server q).2, i + 1) := admitted.2
    have run : (Prog.ask q next).run (serving S.answer rs) (st.server, i) =
        (next (S.answer (rs i) st.server q).1).run (serving S.answer rs) ((S.answer (rs i) st.server q).2, i + 1) := rfl
    rw [run]
    cases left : next (S.answer (rs i) st.server q).1 with
    | ret a =>
      rw [left] at served tasks
      exact ⟨_, served, rfl, tasks⟩
    | ask q' next' =>
      rw [left] at served there along
      have later := @ih (S.answer (rs i) st.server q).1 tr (S.serve st (rs i) k op q next)
      rw [left] at later
      obtain ⟨st', traced', server, tasks'⟩ := later served there trivial (i + 1) along
      rw [tasks, List.set_set] at tasks'
      exact ⟨st', traced', server, tasks'⟩

/-- A call that is begun and led on alone. -/
theorem Traced.alone (traced : S.Traced begins admits tr st) (op : ι) (allowed : begins st op) (rs : Nat → ρ)
    (admitted : (S.prog op).Along (fun s q => admits s.1 q) (serving S.answer rs) (st.server, 0)) :
    ∃ st', S.Traced begins admits (.returned st.tasks.length
      ((S.prog op).run (serving S.answer rs) (st.server, 0)).1 ::
      .called st.tasks.length op :: tr) st' ∧
        st'.server = ((S.prog op).run (serving S.answer rs) (st.server, 0)).2.1 ∧
        st'.tasks.length = st.tasks.length + 1 := by
  have begun := traced.begin op allowed
  have length : (S.begin st op).tasks.length = st.tasks.length + 1 := by
    unfold Setting.begin
    rw [List.length_append, List.length_singleton]
  cases left : S.prog op with
  | ret a =>
    rw [left] at begun
    exact ⟨_, begun, rfl, length⟩
  | ask q next =>
    have there : (S.begin st op).tasks[st.tasks.length]? = some ⟨op, .ask q next⟩ :=
      getElem?_begin.mpr (.inr ⟨rfl, by rw [left]⟩)
    rw [left] at begun admitted
    obtain ⟨st', traced', server, tasks⟩ := begun.finish there trivial rs 0 admitted
    refine ⟨st', traced', server, ?_⟩
    rw [tasks, List.length_set, length]

/-- A call that has returned has come to its end. -/
theorem Traced.task_of_returned (traced : S.Traced begins admits tr st) {k : Nat} {a : α}
    (returned : .returned k a ∈ tr) : ∃ op, st.tasks[k]? = some ⟨op, .ret a⟩ := by
  have mine : ∀ {j : Nat} {p : Prog Req Reply α}, (.returned k a : Visible ι α) ∈ returns j p → j = k ∧
    p = .ret a := by
    intro j p member
    cases p with
    | ret a' =>
      cases List.mem_singleton.mp member
      exact ⟨rfl, rfl⟩
    | ask => cases member
  induction traced with
  | start => cases returned
  | @begin tr st _ op _ ih =>
    rcases List.mem_append.mp returned with now | old
    · obtain ⟨rfl, ended⟩ := mine now
      exact ⟨op, getElem?_begin.mpr (.inr ⟨rfl, by rw [ended]⟩)⟩
    · rcases List.mem_cons.mp old with new | earlier
      · cases new
      · obtain ⟨op', there⟩ := ih earlier
        exact ⟨op', getElem?_begin.mpr (.inl there)⟩
  | @serve tr st _ j op q next asks r _ ih =>
    rcases List.mem_append.mp returned with now | earlier
    · obtain ⟨rfl, ended⟩ := mine now
      exact ⟨op, (getElem?_serve asks r).mpr (.inl ⟨rfl, by rw [ended]⟩)⟩
    · obtain ⟨op', there⟩ := ih earlier
      refine ⟨op', (getElem?_serve asks r).mpr (.inr ⟨?_, there⟩)⟩
      rintro rfl
      cases there.symm.trans asks
  | drift _ _ ih => exact ih returned

/-- What had happened when a call was begun. -/
theorem Traced.cut_called (traced : S.Traced begins admits tr st) {later before : List (Visible ι α)} {k : Nat}
    {op : ι} (cut : tr = later ++ .called k op :: before) : ∃ st', S.Traced begins admits before st' ∧
      st'.tasks.length = k ∧ ∃ es, st.history = es ++ .began k op :: st'.history := by
  induction traced generalizing later with
  | start =>
    cases later <;> cases cut
  | @begin tr st earlier op' allowed ih =>
    have further : ∀ {later}, tr = later ++ .called k op :: before → ∃ st', S.Traced begins admits before st' ∧
        st'.tasks.length = k ∧ ∃ es, (S.begin st op').history = es ++ .began k op :: st'.history := by
      intro later cut
      obtain ⟨st', traced', length, es, history⟩ := ih cut
      refine ⟨st', traced', length, .began st.tasks.length op' :: es, ?_⟩
      rw [List.cons_append, ← history]
      rfl
    have now : ∀ {later}, Visible.called st.tasks.length op' :: tr = later ++ .called k op :: before →
        ∃ st', S.Traced begins admits before st' ∧
          st'.tasks.length = k ∧ ∃ es, (S.begin st op').history = es ++ .began k op :: st'.history := by
      intro later cut
      cases later with
      | nil =>
        cases cut
        exact ⟨st, earlier, rfl, [], rfl⟩
      | cons e later => exact further (List.cons.inj cut).2
    cases left : S.prog op' with
    | ret a =>
      rw [left] at cut
      cases later with
      | nil => cases cut
      | cons e later => exact now (List.cons.inj cut).2
    | ask q next =>
      rw [left] at cut
      exact now cut
  | @serve tr st earlier j op' q next asks r admitted ih =>
    have further : ∀ {later}, tr = later ++ .called k op :: before → ∃ st', S.Traced begins admits before st' ∧
        st'.tasks.length = k ∧ ∃ es, (S.serve st r j op' q next).history = es ++ .began k op :: st'.history := by
      intro later cut
      obtain ⟨st', traced', length, es, history⟩ := ih cut
      refine ⟨st', traced', length, .answered j q (S.answer r st.server q).1 :: es, ?_⟩
      rw [List.cons_append, ← history]
      rfl
    cases left : next (S.answer r st.server q).1 with
    | ret a =>
      rw [left] at cut
      cases later with
      | nil => cases cut
      | cons e later => exact further (List.cons.inj cut).2
    | ask q' next' =>
      rw [left] at cut
      exact further cut
  | drift _ _ ih => exact ih cut

/-- The calls that are seen are those that were begun. -/
theorem Traced.called_iff (traced : S.Traced begins admits tr st) {k : Nat} {op : ι} :
    .called k op ∈ tr ↔ .began k op ∈ st.history := by
  have quiet : ∀ {j : Nat} {p : Prog Req Reply α}, (.called k op : Visible ι α) ∉ returns j p := by
    intro j p member
    cases p with
    | ret a => simp [returns] at member
    | ask q next => simp [returns] at member
  induction traced with
  | start => simp
  | @begin tr st earlier op' allowed ih =>
    rw [List.mem_append, or_iff_right quiet, List.mem_cons]
    show _ ↔ .began k op ∈ .began st.tasks.length op' :: st.history
    rw [List.mem_cons]
    exact or_congr (by simp) ih
  | @serve tr st earlier j op' q next asks r admitted ih =>
    rw [List.mem_append, or_iff_right quiet]
    show _ ↔ .began k op ∈ .answered j q _ :: st.history
    exact ih.trans (by simp)
  | drift _ _ ih => exact ih

/-- A number stands for one call. -/
theorem Traced.called_once (traced : S.Traced begins admits tr st) {k : Nat} {op op' : ι}
    (first : .called k op ∈ tr)
    (second : .called k op' ∈ tr) : op = op' := by
  obtain ⟨p, there⟩ := traced.run.began_iff.mp (traced.called_iff.mp first)
  obtain ⟨p', there'⟩ := traced.run.began_iff.mp (traced.called_iff.mp second)
  cases there.symm.trans there'
  rfl

end

/-! ## Programs that follow each other -/

section
variable {ι Req Req' : Type} {Reply : Req → Type} {Reply' : Req' → Type} {α β σ σ' ρ ρ' : Type}
  (C : Setting ι Req Reply α σ ρ) (A : Setting ι Req' Reply' α σ' ρ') (admits : σ → Req → Prop)
  (admits' : σ' → Req' → Prop) (Inv : History ι Req Reply → σ → Prop) (Rel : History ι Req Reply → σ → σ' →
    Prop) (k : Nat)

/-- After each answer to a request of the one program, the other can be led on so that the
servers are related; they end together, with the same result. -/
def Follows : Prog Req Reply α → Prog Req' Reply' α → History ι Req Reply → Prop
  | .ret a, p', _ => p' = .ret a
  | .ask q next, p', h => p'.Waits ∧ ∀ h' s t r, Since k h h' → Inv h' s → Rel h' s t → admits s q →
      ∃ p'' t', A.Reaches admits' p' t p'' t' ∧
        Rel (.answered k q (C.answer r s q).1 :: h') (C.answer r s q).2 t' ∧
        Follows (next (C.answer r s q).1) p'' (.answered k q (C.answer r s q).1 :: h')

/-- The other program can be led on now. -/
def Settles (p : Prog Req Reply α) (p' : Prog Req' Reply' α) (h : History ι Req Reply) : Prop :=
  ∀ s t, Inv h s → Rel h s t → ∃ p'' t', A.Reaches admits' p' t p'' t' ∧ Rel h s t' ∧
    Follows C A admits admits' Inv Rel k p p'' h

/-- Answers to the request leave the servers related. -/
def Silent (q : Req) : Prop :=
  ∀ h s t r, Inv h s → Rel h s t → admits s q →
    Rel (.answered k q (C.answer r s q).1 :: h) (C.answer r s q).2 t

variable {C A admits admits' Inv Rel k} {p : Prog Req Reply α} {p' : Prog Req' Reply' α}
  {h h' : History ι Req Reply}

theorem Follows.since (follows : Follows C A admits admits' Inv Rel k p p' h) (since : Since k h h') :
    Follows C A admits admits' Inv Rel k p p' h' := by
  cases p with
  | ret a => exact follows
  | ask q next => exact ⟨follows.1, fun h'' s t r later => follows.2 h'' s t r (since.trans later)⟩

theorem Follows.settles (follows : Follows C A admits admits' Inv Rel k p p' h) :
    Settles C A admits admits' Inv Rel k p p' h :=
  fun _ _ _ rel => ⟨_, _, .refl _ _, rel, follows⟩

/-- They return at the same time. -/
theorem Follows.returns_eq (follows : Follows C A admits admits' Inv Rel k p p' h) :
    (returns k p' : List (Visible ι α)) = returns k p := by
  cases p with
  | ret a => rw [show p' = .ret a from follows]; rfl
  | ask q next => exact returns_of_waits follows.1

/-- A first part with silent requests only, after which the other program is led on. -/
theorem follows_bind {Q : β → History ι Req Reply → Prop} {b : Prog Req Reply β} {f : β → Prog Req Reply α}
    (meets : Meets C.answer admits Inv k Q b h) (silent : b.Uses (Silent C admits Inv Rel k)) (starts : b.Waits)
    (waits : p'.Waits) (rest : ∀ x h', Q x h' → Settles C A admits admits' Inv Rel k (f x) p' h') :
    Follows C A admits admits' Inv Rel k (b >>= f) p' h := by
  induction b generalizing h with
  | ret x => exact starts.elim
  | ask q next ih =>
    refine ⟨waits, fun h' s t r since inv rel admitted => ?_⟩
    obtain ⟨kept, later⟩ := meets h' s r since inv admitted
    have still := silent.1 h' s t r inv rel admitted
    have further := ih (C.answer r s q).1 later (silent.2 _)
    show ∃ p'' t', _ ∧ _ ∧ Follows C A admits admits' Inv Rel k (Prog.bind (next (C.answer r s q).1) f) p'' _
    cases left : next (C.answer r s q).1 with
    | ret x =>
      rw [left] at later
      exact rest x _ (later _ (.refl k _)) _ t kept still
    | ask q' next' =>
      rw [left] at further
      exact ⟨p', t, .refl _ _, still, further trivial⟩

/-! ## Runs -/

variable (C A admits admits' Inv Rel) (begins : Concurrent ι Req Reply α σ → ι → Prop)

/-- What is to be shown of the two settings. -/
structure Simulated : Prop where
  inv : ∀ st, C.Run begins admits st → Inv st.history st.server
  start : ∀ s, C.start s → ∃ t, A.start t ∧ Rel [] s t
  drift : ∀ h s s' t, C.drift s s' → Rel h s t → Rel h s' t
  begin : ∀ st op t, C.Run begins admits st → begins st op → Rel st.history st.server t →
    Rel (.began st.tasks.length op :: st.history) st.server t
  follows : ∀ st op, C.Run begins admits st → begins st op →
    Follows C A admits admits' Inv Rel st.tasks.length (C.prog op) (A.prog op)
      (.began st.tasks.length op :: st.history)

/-- The servers are related, and each call follows the call of the same number. -/
structure Related (st : Concurrent ι Req Reply α σ) (st' : Concurrent ι Req' Reply' α σ') : Prop where
  rel : Rel st.history st.server st'.server
  length : st'.tasks.length = st.tasks.length
  tasks : ∀ k task, st.tasks[k]? = some task → ∃ p', st'.tasks[k]? = some ⟨task.op, p'⟩ ∧
    Follows C A admits admits' Inv Rel k task.left p' st.history

variable {C A admits admits' Inv Rel begins}

/-- **What is seen of the one is seen of the other.** -/
theorem Simulated.traced (simulated : Simulated C A admits admits' Inv Rel begins)
    {tr : List (Visible ι α)} {st : Concurrent ι Req Reply α σ} (traced : C.Traced begins admits tr st) :
    ∃ st', A.Traced (fun _ _ => True) admits' tr st' ∧ Related C A admits admits' Inv Rel st st' := by
  induction traced with
  | start first =>
    obtain ⟨t, first', rel⟩ := simulated.start _ first
    refine ⟨_, .start first', rel, rfl, fun k task there => ?_⟩
    rw [List.getElem?_nil] at there
    cases there
  | @begin tr st before op allowed ih =>
    obtain ⟨st', before', related⟩ := ih
    have follows := simulated.follows st op before.run allowed
    have begun := before'.begin op trivial
    rw [related.length, follows.returns_eq] at begun
    refine ⟨_, begun, simulated.begin st op _ before.run allowed related.rel, ?_, fun k task there => ?_⟩
    · unfold Setting.begin
      rw [List.length_append, List.length_append, related.length]
      rfl
    · rcases getElem?_begin.mp there with old | ⟨rfl, rfl⟩
      · obtain ⟨p', there', left⟩ := related.tasks k task old
        have earlier := (List.getElem?_eq_some_iff.mp old).1
        exact ⟨p', getElem?_begin.mpr (.inl there'), left.since (.cons (Nat.ne_of_gt earlier))⟩
      · exact ⟨_, getElem?_begin.mpr (.inr ⟨related.length.symm, rfl⟩), follows⟩
  | @serve tr st before k op q next asks r admitted ih =>
    obtain ⟨st', before', related⟩ := ih
    obtain ⟨p', there, waits, answered⟩ := related.tasks k _ asks
    obtain ⟨p'', t', reaches, rel, follows⟩ :=
      answered _ _ _ r (.refl k _) (simulated.inv st before.run) related.rel admitted
    obtain ⟨h, reached⟩ := before'.reach there waits reaches
    rw [follows.returns_eq] at reached
    refine ⟨_, reached, rel, ?_, fun j task at_j => ?_⟩
    · unfold Setting.serve
      rw [List.length_set, List.length_set, related.length]
    · have inside := (List.getElem?_eq_some_iff.mp there).1
      rcases (getElem?_serve asks r).mp at_j with ⟨rfl, rfl⟩ | ⟨other, same⟩
      · exact ⟨p'', List.getElem?_set_self inside, follows⟩
      · obtain ⟨p', there', left⟩ := related.tasks j task same
        refine ⟨p', ?_, left.since (.cons (Ne.symm other))⟩
        rw [List.getElem?_set_ne (Ne.symm other)]
        exact there'
  | drift _ drifts ih =>
    obtain ⟨st', before', related⟩ := ih
    exact ⟨st', before', simulated.drift _ _ _ _ drifts related.rel, related.length, related.tasks⟩

end

end Setting

end Requests
