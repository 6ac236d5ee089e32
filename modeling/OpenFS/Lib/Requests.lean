import Mathlib.Logic.Basic

/-!
# Programs that make requests

A program is a result, or a request together with what follows each reply. It
can be run against any server: a function that answers a request from a state.
-/

namespace Requests

inductive Prog (Req : Type) (Reply : Req → Type) (α : Type) where
  | ret (a : α)
  | ask (q : Req) (next : Reply q → Prog Req Reply α)

/-- How requests are answered. -/
abbrev Server (Req : Type) (Reply : Req → Type) (σ : Type) := σ → (q : Req) → Reply q × σ

namespace Prog

variable {Req : Type} {Reply : Req → Type} {α β γ σ τ : Type}

def bind : Prog Req Reply α → (α → Prog Req Reply β) → Prog Req Reply β
  | ret a, f => f a
  | ask q next, f => ask q fun r => bind (next r) f

instance : Monad (Prog Req Reply) where
  pure := ret
  bind := bind

/-- Make a request and return the reply. -/
def call (q : Req) : Prog Req Reply (Reply q) := ask q ret

def run (serve : Server Req Reply σ) : Prog Req Reply α → σ → α × σ
  | ret a, s => (a, s)
  | ask q next, s => run serve (next (serve s q).1) (serve s q).2

section
variable (serve : Server Req Reply σ)

@[simp] theorem run_pure (a : α) (s : σ) : run serve (pure a) s = (a, s) := rfl

@[simp] theorem run_call (q : Req) (s : σ) : run serve (call q) s = serve s q := rfl

@[simp] theorem run_bind (p : Prog Req Reply α) (f : α → Prog Req Reply β) (s : σ) :
    run serve (p >>= f) s = run serve (f (run serve p s).1) (run serve p s).2 := by
  show run serve (bind p f) s = _
  induction p generalizing s with
  | ret a => rfl
  | ask q next ih => exact ih _ _

end

/-- All requests that the program can come to satisfy `P`. -/
def Uses (P : Req → Prop) : Prog Req Reply α → Prop
  | ret _ => True
  | ask q next => P q ∧ ∀ r, Uses P (next r)

theorem uses_pure (P : Req → Prop) (a : α) : Uses P (pure a : Prog Req Reply α) := trivial

theorem uses_call {P : Req → Prop} {q : Req} (allowed : P q) : Uses P (call q : Prog Req Reply (Reply q)) :=
  ⟨allowed, fun _ => trivial⟩

theorem uses_bind {P : Req → Prop} {p : Prog Req Reply α} {f : α → Prog Req Reply β} (first : Uses P p)
    (rest : ∀ a, Uses P (f a)) : Uses P (p >>= f) := by
  show Uses P (bind p f)
  induction p with
  | ret a => exact rest a
  | ask q next ih => exact ⟨first.1, fun r => ih r (first.2 r)⟩

theorem uses_all {P : Req → Prop} (all : ∀ q, P q) {p : Prog Req Reply α} : Uses P p := by
  induction p with
  | ret a => trivial
  | ask q next ih => exact ⟨all q, ih⟩

theorem Uses.mono {P P' : Req → Prop} {p : Prog Req Reply α} (uses : Uses P p) (weaker : ∀ q, P q → P' q) :
    Uses P' p := by
  induction p with
  | ret a => trivial
  | ask q next ih => exact ⟨weaker q uses.1, fun r => ih r (uses.2 r)⟩

/-- Each request of the run satisfies `ok` where it is made. -/
def Along (ok : σ → Req → Prop) (serve : Server Req Reply σ) : Prog Req Reply α → σ → Prop
  | ret _, _ => True
  | ask q next, s => ok s q ∧ Along ok serve (next (serve s q).1) (serve s q).2

section
variable {ok : σ → Req → Prop} {serve : Server Req Reply σ}

@[simp] theorem along_pure (a : α) (s : σ) : Along ok serve (pure a) s ↔ True := Iff.rfl

@[simp] theorem along_call (q : Req) (s : σ) : Along ok serve (call q) s ↔ ok s q := and_iff_left trivial

@[simp] theorem along_bind (p : Prog Req Reply α) (f : α → Prog Req Reply β) (s : σ) :
    Along ok serve (p >>= f) s ↔ Along ok serve p s ∧ Along ok serve (f (run serve p s).1) (run serve p s).2 := by
  show Along ok serve (bind p f) s ↔ _
  induction p generalizing s with
  | ret a => exact (and_iff_right trivial).symm
  | ask q next ih => exact (and_congr_right fun _ => ih _ _).trans and_assoc.symm

theorem Uses.along {p : Prog Req Reply α} (uses : Uses (fun q => ∀ s, ok s q) p) (s : σ) : Along ok serve p s := by
  induction p generalizing s with
  | ret a => trivial
  | ask q next ih => exact ⟨uses.1 s, ih _ (uses.2 _) _⟩

end

/-- What the answers to its requests keep, a run keeps. -/
theorem run_keeps {serve : Server Req Reply σ} {P : Req → Prop} {I : σ → Prop}
    (keeps : ∀ s q, P q → I s → I (serve s q).2) {p : Prog Req Reply α} (uses : Uses P p) {s : σ} (holds : I s) :
    I (run serve p s).2 := by
  induction p generalizing s with
  | ret a => exact holds
  | ask q next ih => exact ih _ (uses.2 _) (keeps s q uses.1 holds)

end Prog

end Requests
