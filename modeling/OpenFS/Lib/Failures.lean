import OpenFS.Lib.Simulation

/-!
# Requests that fail

A caller whose request fails cannot tell what became of it: it may be lost, it may arrive when the
caller has long given up, or it was answered and the answer was lost. Where callers give up at the
first failure, a run with failures shows nothing that a run without them does not show, except
that calls are given up.
-/

namespace Requests

section
variable {Req : Type} {Reply : Req → Type} {α β : Type}

/-- At the first failure the program returns such a result. -/
def Prog.GivesUp (failed : (q : Req) → Reply q) (P : α → Prop) : Prog Req Reply α → Prop
  | .ret _ => True
  | .ask q next => (∃ a, next (failed q) = .ret a ∧ P a) ∧ ∀ reply, GivesUp failed P (next reply)

variable {failed : (q : Req) → Reply q} {P : α → Prop} {Q : β → Prop}

theorem Prog.givesUp_pure (a : α) : (pure a : Prog Req Reply α).GivesUp failed P := trivial

theorem Prog.givesUp_bind {p : Prog Req Reply β} {f : β → Prog Req Reply α} (first : p.GivesUp failed Q)
    (ends : ∀ b, Q b → ∃ a, f b = .ret a ∧ P a) (rest : ∀ b, (f b).GivesUp failed P) : (p >>= f).GivesUp
      failed P := by
  show (Prog.bind p f).GivesUp failed P
  induction p with
  | ret b => exact rest b
  | ask q next ih =>
    obtain ⟨⟨b, ended, bad⟩, later⟩ := first
    refine ⟨?_, fun reply => ih reply (later reply)⟩
    obtain ⟨a, ended', bad'⟩ := ends b bad
    refine ⟨a, ?_, bad'⟩
    show Prog.bind (next (failed q)) f = .ret a
    rw [ended]
    exact ended'

theorem Prog.givesUp_call {q : Req} {Q : Reply q → Prop} (bad : Q (failed q)) :
    (Prog.call q : Prog Req Reply (Reply q)).GivesUp failed Q :=
  ⟨⟨failed q, rfl, bad⟩, fun _ => trivial⟩

end

section
variable {ι Req : Type} {Reply : Req → Type} {α σ ρ : Type}

/-- A program goes on keeping what every answer keeps. -/
theorem Meets.and_server {answer : ρ → Server Req Reply σ} {admits : σ → Req → Prop}
    {Inv : History ι Req Reply → σ → Prop} {J : σ → Prop} {k : Nat} {Q : α → History ι Req Reply → Prop}
    {p : Prog Req Reply α}
    {h : History ι Req Reply} (meets : Meets answer admits Inv k Q p h)
    (keeps : ∀ r s q, J s → J (answer r s q).2) :
    Meets answer admits (fun h s => Inv h s ∧ J s) k Q p h := by
  induction p generalizing h with
  | ret b => exact meets
  | ask q next ih =>
    intro h' s r since inv admitted
    obtain ⟨kept, later⟩ := meets h' s r since inv.1 admitted
    exact ⟨⟨kept, keeps r s q inv.2⟩, ih _ later⟩

end

namespace Setting

/-- What is outstanding in a run with failures. -/
structure Outstanding (Req : Type) where
  /-- The calls whose request was answered, but that will not be told so. -/
  deaf : List Nat := []
  /-- The requests of calls that were given up, which may still arrive. -/
  late : List (Nat × Req) := []

section
variable {ι Req : Type} {Reply : Req → Type} {α σ ρ : Type} (S : Setting ι Req Reply α σ ρ)

/-- A request is answered, and its caller is not told. -/
def answerDeaf (st : Concurrent ι Req Reply α σ) (r : ρ) (k : Nat) (q : Req) : Concurrent ι Req Reply α σ :=
  { st with
    server := (S.answer r st.server q).2
    history := .answered k q (S.answer r st.server q).1 :: st.history }

/-- Call `k` sees its request fail. -/
def failCall (failed : (q : Req) → Reply q) (st : Concurrent ι Req Reply α σ) (k : Nat) (op : ι) (q : Req)
    (next : Reply q → Prog Req Reply α) : Concurrent ι Req Reply α σ :=
  { st with tasks := st.tasks.set k ⟨op, next (failed q)⟩ }

/-- Runs in which requests may fail, with what is seen of them, the latest first. -/
inductive Failing (failed : (q : Req) → Reply q) (begins : ι → Prop) (admits : σ → Req → Prop) :
    List (Visible ι α) → Outstanding Req → Concurrent ι Req Reply α σ → Prop where
  | start {s : σ} (first : S.start s) : Failing failed begins admits [] {} { server := s }
  | begin {tr : List (Visible ι α)} {out : Outstanding Req} {st : Concurrent ι Req Reply α σ}
      (before : Failing failed begins admits tr out st) (op : ι) (allowed : begins op) :
      Failing failed begins admits (returns st.tasks.length (S.prog op) ++ .called st.tasks.length op :: tr) out
        (S.begin st op)
  | serve {tr : List (Visible ι α)} {out : Outstanding Req} {st : Concurrent ι Req Reply α σ}
      (before : Failing failed begins admits tr out st) {k : Nat} {op : ι} {q : Req}
      {next : Reply q → Prog Req Reply α} (asks : st.tasks[k]? = some ⟨op, .ask q next⟩) (hears : k ∉ out.deaf)
      (r : ρ) (admitted : admits st.server q) :
      Failing failed begins admits (returns k (next (S.answer r st.server q).1) ++ tr) out
        (S.serve st r k op q next)
  | drift {tr : List (Visible ι α)} {out : Outstanding Req} {st : Concurrent ι Req Reply α σ}
      (before : Failing failed begins admits tr out st) {s : σ} (drifts : S.drift st.server s) :
      Failing failed begins admits tr out { st with server := s }
  /-- The request has not arrived yet when its caller gives it up. -/
  | lose {tr : List (Visible ι α)} {out : Outstanding Req} {st : Concurrent ι Req Reply α σ}
      (before : Failing failed begins admits tr out st) {k : Nat} {op : ι} {q : Req}
      {next : Reply q → Prog Req Reply α} (asks : st.tasks[k]? = some ⟨op, .ask q next⟩) (hears : k ∉ out.deaf) :
      Failing failed begins admits (returns k (next (failed q)) ++ tr) { out with late := (k, q) :: out.late }
        (failCall failed st k op q next)
  | arrive {tr : List (Visible ι α)} {deaf : List Nat} {front back : List (Nat × Req)} {k : Nat} {q : Req}
      {st : Concurrent ι Req Reply α σ}
      (before : Failing failed begins admits tr { deaf, late := front ++ (k, q) :: back } st) (r : ρ)
      (admitted : admits st.server q) :
      Failing failed begins admits tr { deaf, late := front ++ back } (S.answerDeaf st r k q)
  /-- The answer is lost. -/
  | miss {tr : List (Visible ι α)} {out : Outstanding Req} {st : Concurrent ι Req Reply α σ}
      (before : Failing failed begins admits tr out st) {k : Nat} {op : ι} {q : Req}
      {next : Reply q → Prog Req Reply α} (asks : st.tasks[k]? = some ⟨op, .ask q next⟩) (hears : k ∉ out.deaf)
      (r : ρ) (admitted : admits st.server q) :
      Failing failed begins admits tr { out with deaf := k :: out.deaf } (S.answerDeaf st r k q)
  | tell {tr : List (Visible ι α)} {front back : List Nat} {late : List (Nat × Req)} {k : Nat} {op : ι} {q : Req}
      {next : Reply q → Prog Req Reply α} {st : Concurrent ι Req Reply α σ}
      (before : Failing failed begins admits tr { deaf := front ++ k :: back, late } st)
      (asks : st.tasks[k]? = some ⟨op, .ask q next⟩) :
      Failing failed begins admits (returns k (next (failed q)) ++ tr) { deaf := front ++ back, late }
        (failCall failed st k op q next)

variable {S} {failed : (q : Req) → Reply q} {begins : ι → Prop} {admits : σ → Req → Prop} {P : α → Prop}
  {tr tr' : List (Visible ι α)} {out : Outstanding Req} {st st' : Concurrent ι Req Reply α σ}

/-- Requests need not fail. -/
theorem Traced.failing (traced : S.Traced (fun _ op => begins op) admits tr st) :
    S.Failing failed begins admits tr {} st := by
  induction traced with
  | start first => exact .start first
  | begin _ op allowed ih => exact .begin ih op allowed
  | serve _ asks r admitted ih => exact .serve ih asks List.not_mem_nil r admitted
  | drift _ drifts ih => exact .drift ih drifts

theorem getElem?_replaced {tasks : List (Task ι Req Reply α)} {k j : Nat} {task' : Task ι Req Reply α}
    {task : Task ι Req Reply α} (there : tasks[k]? = some task) (p : Prog Req Reply α) :
    (tasks.set k ⟨task.op, p⟩)[j]? = some task' ↔
      (j = k ∧ task' = ⟨task.op, p⟩) ∨ (j ≠ k ∧ tasks[j]? = some task') := by
  have here := (List.getElem?_eq_some_iff.mp there).1
  by_cases same : j = k
  · subst same
    rw [List.getElem?_set_self here]
    simp [eq_comm]
  · rw [List.getElem?_set_ne (Ne.symm same)]
    simp [same]

theorem getElem?_failCall {k j : Nat} {op : ι} {q : Req} {next : Reply q → Prog Req Reply α}
    {task : Task ι Req Reply α} (asks : st.tasks[k]? = some ⟨op, .ask q next⟩) :
    (failCall failed st k op q next).tasks[j]? = some task ↔
      (j = k ∧ task = ⟨op, next (failed q)⟩) ∨ (j ≠ k ∧ st.tasks[j]? = some task) :=
  getElem?_replaced asks _

/-- The programs of all calls give up. -/
theorem Failing.givesUp (all : ∀ op, (S.prog op).GivesUp failed P)
    (run : S.Failing failed begins admits tr out st) (k : Nat) (task : Task ι Req Reply α)
    (there : st.tasks[k]? = some task) : task.left.GivesUp failed P := by
  induction run generalizing k task with
  | start => cases there
  | begin _ op _ ih =>
    rcases getElem?_begin.mp there with old | ⟨-, rfl⟩
    · exact ih k task old
    · exact all op
  | serve _ asks _ r _ ih =>
    rcases (getElem?_serve asks r).mp there with ⟨-, rfl⟩ | ⟨-, old⟩
    · exact (ih _ _ asks).2 _
    · exact ih k task old
  | drift _ _ ih => exact ih k task there
  | arrive _ _ _ ih => exact ih k task there
  | miss _ _ _ _ _ ih => exact ih k task there
  | lose _ asks _ ih | tell _ asks ih =>
    rcases (getElem?_failCall asks).mp there with ⟨-, rfl⟩ | ⟨-, old⟩
    · exact (ih _ _ asks).2 _
    · exact ih k task old

/-! ## Runs without failures -/

/-- The same is seen, but that calls which were given up do not return, or do with another result. -/
inductive Masks (P : α → Prop) : List (Visible ι α) → List (Visible ι α) → Prop where
  | nil : Masks P [] []
  | cons {tr tr' : List (Visible ι α)} (before : Masks P tr tr') (e : Visible ι α) : Masks P (e :: tr) (e :: tr')
  | quit {tr tr' : List (Visible ι α)} (before : Masks P tr tr') (k : Nat) {a : α} (bad : P a) :
      Masks P (.returned k a :: tr) tr'
  | unheard {tr tr' : List (Visible ι α)} (before : Masks P tr tr') (k : Nat) (a : α) :
      Masks P tr (.returned k a :: tr')

theorem Masks.append (masks : Masks P tr tr') (es : List (Visible ι α)) : Masks P (es ++ tr) (es ++ tr') := by
  induction es with
  | nil => exact masks
  | cons e es ih => exact ih.cons e

theorem Masks.not_heard (masks : Masks P tr tr') (k : Nat) (p : Prog Req Reply α) :
    Masks P tr (returns k p ++ tr') := by
  cases p with
  | ret a => exact masks.unheard k a
  | ask => exact masks

/-- What stands in the one has its place in the other. -/
theorem Masks.cut (masks : Masks P tr tr') {later before : List (Visible ι α)} {e : Visible ι α}
    (good : ∀ k a, e = .returned k a → ¬ P a) (cut : tr = later ++ e :: before) :
    ∃ later' before', tr' = later' ++ e :: before' ∧ Masks P before before' := by
  induction masks generalizing later with
  | nil => cases later <;> cases cut
  | @cons tr tr' earlier e' ih =>
    cases later with
    | nil =>
      cases cut
      exact ⟨[], tr', rfl, earlier⟩
    | cons e'' later =>
      obtain ⟨later', before', rfl, masks⟩ := ih (List.cons.inj cut).2
      exact ⟨e' :: later', before', rfl, masks⟩
  | @quit tr tr' earlier k a bad ih =>
    cases later with
    | nil =>
      cases cut
      exact absurd bad (good k a rfl)
    | cons e'' later => exact ih (List.cons.inj cut).2
  | @unheard tr tr' earlier k a ih =>
    obtain ⟨later', before', rfl, masks⟩ := ih cut
    exact ⟨.returned k a :: later', before', rfl, masks⟩

theorem Masks.mem (masks : Masks P tr tr') {e : Visible ι α} (good : ∀ k a, e = .returned k a → ¬ P a)
    (member : e ∈ tr) : e ∈ tr' := by
  obtain ⟨before, later, rfl⟩ := List.append_of_mem member
  obtain ⟨later', before', rfl, -⟩ := masks.cut good rfl
  exact List.mem_append_right _ List.mem_cons_self

/-- No call is made up. -/
theorem Masks.called (masks : Masks P tr tr') {k : Nat} {op : ι} (member : .called k op ∈ tr') :
    .called k op ∈ tr := by
  induction masks with
  | nil => cases member
  | cons _ e ih =>
    rcases List.mem_cons.mp member with rfl | old
    · exact List.mem_cons_self
    · exact List.mem_cons_of_mem _ (ih old)
  | quit _ k bad ih => exact List.mem_cons_of_mem _ (ih member)
  | unheard _ k a ih =>
    rcases List.mem_cons.mp member with new | old
    · cases new
    · exact ih old

/-- Calls that were given up in the one hang in the other, until their request arrives there. -/
structure Hangs (out : Outstanding Req) (st st' : Concurrent ι Req Reply α σ) : Prop where
  server : st'.server = st.server
  length : st'.tasks.length = st.tasks.length
  tasks : ∀ (k : Nat) (task : Task ι Req Reply α), st.tasks[k]? = some task → k ∉ out.deaf →
    st'.tasks[k]? = some task ∨ ∃ a, task.left = .ret a
  late : ∀ k q, (k, q) ∈ out.late → (∃ op next, st'.tasks[k]? = some ⟨op, .ask q next⟩) ∧
    ∃ op a, st.tasks[k]? = some ⟨op, .ret a⟩
  once : (out.late.map Prod.fst).Nodup

theorem Hangs.asks (hangs : Hangs out st st') {k : Nat} {op : ι} {q : Req} {next : Reply q → Prog Req Reply α}
    (there : st.tasks[k]? = some ⟨op, .ask q next⟩) (hears : k ∉ out.deaf) :
    st'.tasks[k]? = some ⟨op, .ask q next⟩ := by
  rcases hangs.tasks k _ there hears with same | ⟨a, ended⟩
  · exact same
  · cases ended

/-- A call that waits has no request outstanding. -/
theorem Hangs.not_late (hangs : Hangs out st st') {k : Nat} {op : ι} {q : Req} {next : Reply q → Prog Req Reply α}
    (there : st.tasks[k]? = some ⟨op, .ask q next⟩) {j : Nat} {q' : Req} (late : (j, q') ∈ out.late) : j ≠ k := by
  rintro rfl
  obtain ⟨-, op', a, ended⟩ := hangs.late _ _ late
  cases there.symm.trans ended

/-- A request that is answered in the one is answered in the other. -/
theorem Hangs.serve (hangs : Hangs out st st') {k : Nat} {op : ι} {q : Req} {next : Reply q → Prog Req Reply α}
    (asks : st.tasks[k]? = some ⟨op, .ask q next⟩) (hears : k ∉ out.deaf) (r : ρ) :
    Hangs out (S.serve st r k op q next) (S.serve st' r k op q next) := by
  have asks' := hangs.asks asks hears
  constructor
  · show (S.answer r st'.server q).2 = (S.answer r st.server q).2
    rw [hangs.server]
  · unfold Setting.serve
    rw [List.length_set, List.length_set, hangs.length]
  · intro j task there hears'
    rcases (getElem?_serve asks r).mp there with ⟨rfl, rfl⟩ | ⟨other, same⟩
    · exact .inl ((getElem?_serve asks' r).mpr (.inl ⟨rfl, by rw [hangs.server]⟩))
    · exact (hangs.tasks j task same hears').imp_left fun there' =>
        (getElem?_serve asks' r).mpr (.inr ⟨other, there'⟩)
  · intro j q' late
    have other := hangs.not_late asks late
    obtain ⟨⟨op', next', asks''⟩, op'', a, ended⟩ := hangs.late j q' late
    exact ⟨⟨op', next', (getElem?_serve asks' r).mpr (.inr ⟨other, asks''⟩)⟩, op'', a,
      (getElem?_serve asks r).mpr (.inr ⟨other, ended⟩)⟩
  · exact hangs.once

/-- The request of a call that was given up may still be on its way. -/
theorem Hangs.lose (hangs : Hangs out st st') {k : Nat} {op : ι} {q : Req}
    {next : Reply q → Prog Req Reply α} {a : α}
    (asks : st.tasks[k]? = some ⟨op, .ask q next⟩) (hears : k ∉ out.deaf) (ended : next (failed q) = .ret a) :
    Hangs { out with late := (k, q) :: out.late } (failCall failed st k op q next) st' := by
  constructor
  · exact hangs.server
  · unfold failCall
    rw [List.length_set, hangs.length]
  · intro j task there hears'
    rcases (getElem?_failCall asks).mp there with ⟨-, rfl⟩ | ⟨-, same⟩
    · exact .inr ⟨a, ended⟩
    · exact hangs.tasks j task same hears'
  · intro j q' late
    rcases List.mem_cons.mp late with new | old
    · cases new
      exact ⟨⟨op, next, hangs.asks asks hears⟩, op, a, (getElem?_failCall asks).mpr (.inl ⟨rfl, by rw [ended]⟩)⟩
    · obtain ⟨hanging, op', a', ended'⟩ := hangs.late j q' old
      exact ⟨hanging, op', a', (getElem?_failCall asks).mpr (.inr ⟨hangs.not_late asks old, ended'⟩)⟩
  · refine List.nodup_cons.mpr ⟨fun again => ?_, hangs.once⟩
    obtain ⟨⟨j, q'⟩, late, rfl⟩ := List.mem_map.mp again
    exact hangs.not_late asks late rfl

/-- A call is told at last that its request failed. -/
theorem Hangs.tell {front back : List Nat} {late : List (Nat × Req)} {k : Nat}
    (hangs : Hangs { deaf := front ++ k :: back, late } st st') {op : ι} {q : Req}
    {next : Reply q → Prog Req Reply α}
    {a : α} (asks : st.tasks[k]? = some ⟨op, .ask q next⟩) (ended : next (failed q) = .ret a) :
    Hangs { deaf := front ++ back, late } (failCall failed st k op q next) st' := by
  constructor
  · exact hangs.server
  · unfold failCall
    rw [List.length_set, hangs.length]
  · intro j task there hears
    rcases (getElem?_failCall asks).mp there with ⟨-, rfl⟩ | ⟨other, same⟩
    · exact .inr ⟨a, ended⟩
    · refine hangs.tasks j task same fun deaf => hears ?_
      simpa [other] using deaf
  · intro j q' outstanding
    obtain ⟨hanging, op', a', ended'⟩ := hangs.late j q' outstanding
    exact ⟨hanging, op', a', (getElem?_failCall asks).mpr (.inr ⟨hangs.not_late asks outstanding, ended'⟩)⟩
  · exact hangs.once

/-- The answer to a call that will not hear it. -/
theorem Hangs.miss (hangs : Hangs out st st') {k : Nat} {op : ι} {q : Req} {next : Reply q → Prog Req Reply α}
    (asks : st.tasks[k]? = some ⟨op, .ask q next⟩) (hears : k ∉ out.deaf) (r : ρ) :
    Hangs { out with deaf := k :: out.deaf } (S.answerDeaf st r k q) (S.serve st' r k op q next) := by
  have asks' := hangs.asks asks hears
  constructor
  · show (S.answer r st'.server q).2 = (S.answer r st.server q).2
    rw [hangs.server]
  · exact (List.length_set ..).trans hangs.length
  · intro j task there hears'
    obtain ⟨other, hears''⟩ := not_or.mp (mt List.mem_cons.mpr hears')
    exact (hangs.tasks j task there hears'').imp_left fun there' =>
      (getElem?_serve asks' r).mpr (.inr ⟨other, there'⟩)
  · intro j q' late
    obtain ⟨⟨op', next', asks''⟩, ended⟩ := hangs.late j q' late
    exact ⟨⟨op', next', (getElem?_serve asks' r).mpr (.inr ⟨hangs.not_late asks late, asks''⟩)⟩, ended⟩
  · exact hangs.once

/-- The request of a call that was given up arrives: the call that hangs is led on. -/
theorem Hangs.arrive {deaf : List Nat} {front back : List (Nat × Req)} {k : Nat} {q : Req}
    (hangs : Hangs { deaf, late := front ++ (k, q) :: back } st st') {op : ι} {next : Reply q → Prog Req Reply α}
    (asks' : st'.tasks[k]? = some ⟨op, .ask q next⟩) (r : ρ) :
    Hangs { deaf, late := front ++ back } (S.answerDeaf st r k q) (S.serve st' r k op q next) := by
  have older : (front ++ back).Sublist (front ++ (k, q) :: back) := (List.sublist_cons_self _ _).append_left front
  constructor
  · show (S.answer r st'.server q).2 = (S.answer r st.server q).2
    rw [hangs.server]
  · exact (List.length_set ..).trans hangs.length
  · intro j task there hears
    by_cases same : j = k
    · subst same
      obtain ⟨-, op', a, ended⟩ := hangs.late j q (List.mem_append_right _ List.mem_cons_self)
      cases there.symm.trans ended
      exact .inr ⟨a, rfl⟩
    · exact (hangs.tasks j task there hears).imp_left fun there' =>
        (getElem?_serve asks' r).mpr (.inr ⟨same, there'⟩)
  · intro j q' late
    obtain ⟨⟨op', next', asks''⟩, ended⟩ := hangs.late j q' (older.subset late)
    refine ⟨⟨op', next', (getElem?_serve asks' r).mpr (.inr ⟨?_, asks''⟩)⟩, ended⟩
    rintro rfl
    have once := (List.perm_middle.map Prod.fst).nodup hangs.once
    exact (List.nodup_cons.mp once).1 (List.mem_map.mpr ⟨_, late, rfl⟩)
  · exact hangs.once.sublist (older.map _)

/-- **Failures can be left out**: what is seen can be seen without them, where calls that were given up
hang. -/
theorem Failing.masked (all : ∀ op, (S.prog op).GivesUp failed P)
    (run : S.Failing failed begins admits tr out st) :
    ∃ tr' st', S.Traced (fun _ op => begins op) admits tr' st' ∧ Masks P tr tr' ∧ Hangs out st st' := by
  induction run with
  | start first =>
    exact ⟨[], _, .start first, .nil, rfl, rfl, fun k task there _ => .inl there, fun k q late => (by cases late),
      List.nodup_nil⟩
  | @begin tr out st _ op allowed ih =>
    obtain ⟨tr', st', traced, masks, hangs⟩ := ih
    have begun := traced.begin op allowed
    rw [hangs.length] at begun
    refine ⟨_, _, begun, (masks.cons _).append _, hangs.server, ?_, fun k task there hears => ?_,
      fun k q late => ?_, hangs.once⟩
    · unfold Setting.begin
      rw [List.length_append, List.length_append, hangs.length]
    · rcases getElem?_begin.mp there with old | ⟨rfl, rfl⟩
      · exact (hangs.tasks k task old hears).imp_left fun same => getElem?_begin.mpr (.inl same)
      · exact .inl (getElem?_begin.mpr (.inr ⟨hangs.length.symm, rfl⟩))
    · obtain ⟨⟨op', next, asks⟩, op'', a, ended⟩ := hangs.late k q late
      exact ⟨⟨op', next, getElem?_begin.mpr (.inl asks)⟩, op'', a, getElem?_begin.mpr (.inl ended)⟩
  | @serve tr out st _ k op q next asks hears r admitted ih =>
    obtain ⟨tr', st', traced, masks, hangs⟩ := ih
    have asks' := hangs.asks asks hears
    rw [← hangs.server] at admitted
    have served := traced.serve asks' r admitted
    rw [hangs.server] at served
    exact ⟨_, _, served, masks.append _, hangs.serve asks hears r⟩
  | @drift tr out st _ s drifts ih =>
    obtain ⟨tr', st', traced, masks, hangs⟩ := ih
    rw [← hangs.server] at drifts
    exact ⟨tr', _, traced.drift drifts, masks, rfl, hangs.length, hangs.tasks, hangs.late, hangs.once⟩
  | @lose tr out st before k op q next asks hears ih =>
    obtain ⟨tr', st', traced, masks, hangs⟩ := ih
    obtain ⟨a, ended, bad⟩ := (before.givesUp all k _ asks).1
    rw [ended]
    exact ⟨tr', st', traced, masks.quit k bad, hangs.lose asks hears ended⟩
  | @arrive tr deaf front back k q st before r admitted ih =>
    obtain ⟨tr', st', traced, masks, hangs⟩ := ih
    obtain ⟨⟨op, next, asks'⟩, -⟩ := hangs.late k q (List.mem_append_right _ List.mem_cons_self)
    rw [← hangs.server] at admitted
    exact ⟨_, _, traced.serve asks' r admitted, masks.not_heard _ _, hangs.arrive asks' r⟩
  | @miss tr out st before k op q next asks hears r admitted ih =>
    obtain ⟨tr', st', traced, masks, hangs⟩ := ih
    rw [← hangs.server] at admitted
    exact ⟨_, _, traced.serve (hangs.asks asks hears) r admitted, masks.not_heard _ _, hangs.miss asks hears r⟩
  | @tell tr front back late k op q next st before asks ih =>
    obtain ⟨tr', st', traced, masks, hangs⟩ := ih
    obtain ⟨a, ended, bad⟩ := (before.givesUp all k _ asks).1
    rw [ended]
    exact ⟨tr', st', traced, masks.quit k bad, hangs.tell asks ended⟩

end

/-! ## Programs that follow each other -/

section
variable {ι Req Req' : Type} {Reply : Req → Type} {Reply' : Req' → Type} {α σ σ' ρ ρ' : Type}
  {C C' : Setting ι Req Reply α σ ρ} {A : Setting ι Req' Reply' α σ' ρ'} {admits : σ → Req → Prop}
  {admits' : σ' → Req' → Prop} {Inv Inv' : History ι Req Reply → σ → Prop}
    {Rel : History ι Req Reply → σ → σ' → Prop}

/-- To follow is a matter of the answers. -/
theorem Follows.of_answer {k : Nat} {p : Prog Req Reply α} {p' : Prog Req' Reply' α} {h : History ι Req Reply}
    (follows : Follows C A admits admits' Inv Rel k p p' h) (same : C'.answer = C.answer)
    (more : ∀ h s, Inv' h s → Inv h s) : Follows C' A admits admits' Inv' Rel k p p' h := by
  induction p generalizing p' h with
  | ret a => exact follows
  | ask q next ih =>
    refine ⟨follows.1, fun h' s t r since inv rel admitted => ?_⟩
    obtain ⟨p'', t', reaches, rel', later⟩ := follows.2 h' s t r since (more h' s inv) rel admitted
    rw [same]
    exact ⟨p'', t', reaches, rel', ih _ later⟩

end

end Setting

end Requests
