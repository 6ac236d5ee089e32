import Mathlib.Logic.Function.Basic
import OpenFS.Data.L2CacheInvariant

/-!
# What a cache hit hands out

The lists always hold the bytes of the last `Put` of each block. But `Get` copies through
a reference to the node that it found, and where the access makes it the second one, the
entry has been moved out of that node and the node freed before the copy is made.
-/

namespace OpenFS

open NodeList

namespace L2Cache

/-- The data of the last `Put` of each block. -/
abbrev Puts := UInt64 → Option (List UInt8)

def Call.note (last : Puts) : Call → Puts
  | .put blockId data => Function.update last blockId (some data)
  | _ => last

/-- The lists hold what was put. -/
def Remembers (last : Puts) (c : L2Cache) : Prop := ∀ n ∈ c.nodes, last n.val.blockId = some n.val.data

/-- Every hit hands out the data of the last `Put`, from a node that is in the cache. -/
def Served (c : L2Cache) (last : Puts) : List Call → Prop
  | [] => True
  | call :: calls =>
    (∀ blockId stale hit, call = .get blockId stale → (c.get blockId stale).1 = some hit →
      hit.live = true ∧ last blockId = some hit.data) ∧ Served (call.exec c).1 (call.note last) calls

/-- A block that `Get` asks for is not cached, or its access count stays below 2 when it is counted up. -/
def Call.Stays (c : L2Cache) : Call → Prop
  | .get blockId _ => ∀ it e, find c.index blockId = some it → c.entry it = some e → intSucc e.accessCount < 2
  | _ => True

section
variable {c : L2Cache} {last : Puts}

theorem Remembers.exec (remembers : Remembers last c) (rep : Rep c) (call : Call) :
    Remembers (call.note last) (call.exec c).1 := by
  cases call with
  | put blockId data =>
    obtain ⟨-, -, content⟩ := put_spec rep blockId data
    intro n member
    show Function.update last blockId (some data) n.val.blockId = _
    rcases content n member with ⟨same, bytes⟩ | ⟨other, old⟩
    · rw [same, bytes, Function.update_self]
    · rw [Function.update_of_ne other]
      exact remembers n old
  | get blockId stale =>
    obtain ⟨-, -, content, -⟩ := get_spec rep blockId stale
    intro n member
    obtain ⟨m, old, same, bytes⟩ := content n member
    show last n.val.blockId = _
    rw [← same, ← bytes]
    exact remembers m old
  | remove blockId =>
    obtain ⟨-, content, -⟩ := remove_spec rep blockId
    exact fun n member => remembers n (content member)
  | clear => exact List.forall_mem_nil _

/-- A hit is served exactly if the entry stays where it is. -/
theorem hit_served_iff (remembers : Remembers last c) (rep : Rep c) (call : Call) :
    (∀ blockId stale hit, call = .get blockId stale → (c.get blockId stale).1 = some hit →
      hit.live = true ∧ last blockId = some hit.data) ↔ call.Stays c := by
  cases call with
  | get blockId stale =>
    obtain ⟨-, -, -, handed⟩ := get_spec rep blockId stale
    constructor
    · intro served it e found there
      by_contra often
      have some : ∃ hit, (c.get blockId stale).1 = some hit := by
        unfold get
        rw [found]
        dsimp only
        rw [there]
        exact ⟨_, rfl⟩
      obtain ⟨hit, some⟩ := some
      obtain ⟨it', e', found', there', -, result⟩ := handed hit some
      cases found.symm.trans found'
      cases there.symm.trans there'
      rw [if_pos (by omega)] at result
      have live := (served _ _ hit rfl some).1
      rw [result] at live
      cases live
    · intro stays blockId' stale' hit same some
      cases same
      obtain ⟨it, e, found, there, named, result⟩ := handed hit some
      have member := (deref_eq_some_iff rep.indexed.ids).mp there
      rw [if_neg (by have := stays it e found there; omega)] at result
      rw [result]
      exact ⟨rfl, named ▸ remembers _ member⟩
  | put blockId data => exact ⟨fun _ => trivial, fun _ _ _ _ same => by cases same⟩
  | remove blockId => exact ⟨fun _ => trivial, fun _ _ _ _ same => by cases same⟩
  | clear => exact ⟨fun _ => trivial, fun _ _ _ _ same => by cases same⟩

theorem served_iff (remembers : Remembers last c) (rep : Rep c) (calls : List Call) :
    Served c last calls ↔ Along (fun c call => call.Stays c) c calls := by
  induction calls generalizing c last with
  | nil => exact Iff.rfl
  | cons call calls ih =>
    unfold Served Along
    rw [hit_served_iff remembers rep call, ih (remembers.exec rep call) (exec_spec rep call).1]

end

/-- **Hits are served through a run exactly if** no `Get` moves the entry that it hits. -/
theorem served_run_iff (maxSizeBytes : UInt64) (calls : List Call) :
    Served (new maxSizeBytes) (fun _ => none) calls ↔
      Along (fun c call => call.Stays c) (new maxSizeBytes) calls :=
  served_iff (fun _ member => by cases member) (rep_new maxSizeBytes) calls

/-- The first hit of a block is copied from a freed node. -/
theorem first_hit_dangles :
    ¬ ∀ (maxSizeBytes : UInt64) (calls : List Call), Served (new maxSizeBytes) (fun _ => none) calls := by
  intro claim
  have served := claim 100 [.put 7 [1], .get 7 []]
  have handed : (((Call.put 7 [1]).exec (new 100)).1.get 7 []).1 = some ⟨[], false⟩ := by decide +kernel
  exact absurd (served.2.1 7 [] _ rfl handed).1 (by decide)

end L2Cache

end OpenFS
