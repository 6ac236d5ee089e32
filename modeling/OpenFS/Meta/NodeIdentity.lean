import Mathlib.Data.List.Induction
import OpenFS.Meta.BlockAllocator

/-!
# The identity of a data node

`Register` ignores the node id of the request and gives every registration the next
number, also that of an address it has seen. A data node registers until a reply gives it
an id, and again after a restart.
-/

namespace OpenFS.NodeManager

/-- A request to the node service. -/
inductive Request where
  | register (nodeId : UInt64) (address : Str) (capacity : UInt64)
  | heartbeat (nodeId : UInt64) (diskUsage : List UInt64)

/-- `Register` of the node service; the first component is the node id of the reply. -/
def register (mgr : NodeManager) (now _nodeId : UInt64) (address : Str) (capacity : UInt64) :
    UInt64 × NodeManager :=
  mgr.registerNode now address capacity

/-- `Heartbeat` of the node service. -/
def heartbeat (mgr : NodeManager) (now nodeId : UInt64) (diskUsage : List UInt64) : NodeManager :=
  mgr.updateHeartbeat now nodeId (diskUsage.foldl (· + ·) 0)

/-- A request with the clock reading at which it is served. -/
abbrev Arrival := UInt64 × Request

def serve (mgr : NodeManager) : Arrival → NodeManager
  | (now, .register nodeId address capacity) => (mgr.register now nodeId address capacity).2
  | (now, .heartbeat nodeId diskUsage) => mgr.heartbeat now nodeId diskUsage

def run (arrivals : List Arrival) : NodeManager := arrivals.foldl serve init

/-- The address that a request registers. -/
def addressOf : Arrival → Option Str
  | (_, .register _ address _) => some address
  | (_, .heartbeat _ _) => none

/-- The addresses that were registered, in this order, each with the id it was given. -/
def issuedFrom (mgr : NodeManager) : List Arrival → List (Str × UInt64)
  | [] => []
  | (now, .register nodeId address capacity) :: rest =>
    let (id, mgr) := mgr.register now nodeId address capacity
    (address, id) :: mgr.issuedFrom rest
  | (now, .heartbeat nodeId diskUsage) :: rest => (mgr.heartbeat now nodeId diskUsage).issuedFrom rest

def issued (arrivals : List Arrival) : List (Str × UInt64) := issuedFrom init arrivals

/-- One address has one identity throughout the run. -/
structure OneIdentity (arrivals : List Arrival) : Prop where
  /-- At no point do two records that are online share an address. -/
  single : ∀ before, before <+: arrivals →
    (run before).nodes.Pairwise fun m n => m.online = true → n.online = true → m.address ≠ n.address
  /-- Whoever registers a known address is given the id that it was first given. -/
  kept : ∀ before now nodeId address capacity after first,
    arrivals = before ++ (now, .register nodeId address capacity) :: after →
    (issued before).find? (fun known => known.1 = address) = some first →
    ((run before).register now nodeId address capacity).1 = first.2

/-- No address is registered twice, except when the counter of the ids has come round. -/
def RegistersOnce (arrivals : List Arrival) : Prop :=
  ∀ i j address, (arrivals.filterMap addressOf)[i]? = some address →
    (arrivals.filterMap addressOf)[j]? = some address → i % 2 ^ 64 = j % 2 ^ 64

/-! ## What is known of the records -/

/-- The records belong to registrations, and the ids are their numbers. -/
structure Numbers (mgr : NodeManager) (issued : List (Str × UInt64)) : Prop where
  next : mgr.nextNodeId = UInt64.ofNat (issued.length + 1)
  ids : ∀ i known, issued[i]? = some known → known.2 = UInt64.ofNat (i + 1)
  records : ∀ n ∈ mgr.nodes, (n.address, n.nodeId) ∈ issued
  distinct : mgr.nodes.Pairwise fun m n => m.nodeId ≠ n.nodeId

theorem numbers_init : Numbers init [] where
  next := rfl
  ids i known there := by simp at there
  records n there := by simp [init] at there
  distinct := List.Pairwise.nil

variable {mgr : NodeManager} {given : List (Str × UInt64)}

theorem Numbers.register (numbers : Numbers mgr given) (now nodeId : UInt64) (address : Str) (capacity : UInt64) :
    Numbers (mgr.register now nodeId address capacity).2 (given ++ [(address, mgr.nextNodeId)]) where
  next := by
    show mgr.nextNodeId + 1 = _
    rw [numbers.next, List.length_append, List.length_singleton, UInt64.ofNat_add (given.length + 1)]
    rfl
  ids i known there := by
    rcases Nat.lt_trichotomy i given.length with small | last | large
    · rw [List.getElem?_append_left small] at there
      exact numbers.ids i known there
    · subst last
      simp only [List.getElem?_concat_length, Option.some.injEq] at there
      rw [← there]
      exact numbers.next
    · rw [List.getElem?_eq_none (by simp; omega)] at there
      cases there
  records n there := by
    rcases List.mem_cons.mp there with rfl | old
    · simp
    · exact List.mem_append_left _ (numbers.records n (List.mem_filter.mp old).1)
  distinct := by
    apply List.pairwise_cons.mpr
    constructor
    · intro n old
      have other := (List.mem_filter.mp old).2
      simp only [decide_not, Bool.not_eq_true', decide_eq_false_iff_not] at other
      exact Ne.symm other
    · exact numbers.distinct.filter _

theorem Numbers.heartbeat (numbers : Numbers mgr given) (now nodeId : UInt64) (diskUsage : List UInt64) :
    Numbers (mgr.heartbeat now nodeId diskUsage) given where
  next := numbers.next
  ids := numbers.ids
  records n there := by
    obtain ⟨m, old, rfl⟩ := List.mem_map.mp there
    have known := numbers.records m old
    split <;> exact known
  distinct := by
    apply List.pairwise_map.mpr
    apply numbers.distinct.imp
    intro m n other
    split <;> split <;> exact other

theorem issuedFrom_append (mgr : NodeManager) (before after : List Arrival) :
    mgr.issuedFrom (before ++ after) = mgr.issuedFrom before ++ (before.foldl serve mgr).issuedFrom after := by
  induction before generalizing mgr with
  | nil => rfl
  | cons arrival rest ih =>
    obtain ⟨now, request⟩ := arrival
    cases request with
    | register nodeId address capacity =>
      simp only [List.cons_append, issuedFrom, List.foldl_cons, ih]
      rfl
    | heartbeat nodeId diskUsage =>
      simp only [List.cons_append, issuedFrom, List.foldl_cons, ih]
      rfl

theorem issued_append (before after : List Arrival) :
    issued (before ++ after) = issued before ++ (run before).issuedFrom after := issuedFrom_append _ _ _

theorem numbers_run (arrivals : List Arrival) : Numbers (run arrivals) (issued arrivals) := by
  induction arrivals using List.reverseRecOn with
  | nil => exact numbers_init
  | append_singleton before arrival ih =>
    have after : run (before ++ [arrival]) = (run before).serve arrival := by simp [run]
    rw [issued_append, after]
    obtain ⟨now, request⟩ := arrival
    cases request with
    | register nodeId address capacity => exact ih.register now nodeId address capacity
    | heartbeat nodeId diskUsage =>
      simp only [issuedFrom, List.append_nil]
      exact ih.heartbeat now nodeId diskUsage

theorem issuedFrom_addresses (mgr : NodeManager) (arrivals : List Arrival) :
    (mgr.issuedFrom arrivals).map Prod.fst = arrivals.filterMap addressOf := by
  induction arrivals generalizing mgr with
  | nil => rfl
  | cons arrival rest ih =>
    obtain ⟨now, request⟩ := arrival
    cases request with
    | register nodeId address capacity => simp [issuedFrom, addressOf, ih]
    | heartbeat nodeId diskUsage =>
      rw [List.filterMap_cons_none rfl]
      exact ih _

theorem length_issued (arrivals : List Arrival) :
    (issued arrivals).length = (arrivals.filterMap addressOf).length := by
  rw [← issuedFrom_addresses init arrivals, List.length_map]
  rfl

/-- The registrations of a run by their numbers. -/
theorem issued_getElem? (arrivals : List Arrival) (i : Nat) :
    (issued arrivals)[i]? =
      (arrivals.filterMap addressOf)[i]?.map fun address => (address, UInt64.ofNat (i + 1)) := by
  rw [← issuedFrom_addresses init arrivals, List.getElem?_map, Option.map_map]
  change (issued arrivals)[i]? = (issued arrivals)[i]?.map _
  cases there : (issued arrivals)[i]? with
  | none => rfl
  | some known => simp [← (numbers_run arrivals).ids i known there]

theorem ofNat_succ_eq_iff {i j : Nat} :
    UInt64.ofNat (i + 1) = UInt64.ofNat (j + 1) ↔ i % 2 ^ 64 = j % 2 ^ 64 := by
  rw [← UInt64.toNat_inj, UInt64.toNat_ofNat', UInt64.toNat_ofNat']
  omega

/-! ## Registering once -/

theorem single_of_once {arrivals : List Arrival} (once : RegistersOnce arrivals) {before : List Arrival}
    (start : before <+: arrivals) :
    (run before).nodes.Pairwise fun m n => m.online = true → n.online = true → m.address ≠ n.address := by
  have numbers := numbers_run before
  have place : ∀ n ∈ (run before).nodes, ∃ i, (arrivals.filterMap addressOf)[i]? = some n.address ∧
      n.nodeId = UInt64.ofNat (i + 1) := by
    intro n member
    obtain ⟨i, there⟩ := List.mem_iff_getElem?.mp (numbers.records n member)
    have number := numbers.ids i _ there
    rw [issued_getElem?] at there
    obtain ⟨address, listed, same⟩ := Option.map_eq_some_iff.mp there
    have found : (before.filterMap addressOf)[i]? = some n.address := by
      rw [listed, (Prod.mk.inj same).1]
    obtain ⟨rest, split⟩ := start
    refine ⟨i, ?_, number⟩
    rw [← split, List.filterMap_append, List.getElem?_append_left (List.getElem?_eq_some_iff.mp found).1, found]
  apply numbers.distinct.imp_of_mem
  intro m n left right other _ _ same
  obtain ⟨i, there, number⟩ := place m left
  obtain ⟨j, there', number'⟩ := place n right
  apply other
  rw [number, number', ofNat_succ_eq_iff]
  exact once i j n.address (same ▸ there) there'

/-- A registration and its number. -/
theorem number_of_registration {arrivals before after : List Arrival} {now nodeId capacity : UInt64}
    {address : Str}
    (split : arrivals = before ++ (now, .register nodeId address capacity) :: after) :
    (arrivals.filterMap addressOf)[(issued before).length]? = some address ∧
      ((run before).register now nodeId address capacity).1 = UInt64.ofNat ((issued before).length + 1) := by
  constructor
  · rw [split, length_issued, List.filterMap_append, List.getElem?_append_right (Nat.le_refl _)]
    simp [addressOf]
  · exact (numbers_run before).next

theorem kept_of_once {arrivals : List Arrival} (once : RegistersOnce arrivals) {before after : List Arrival}
    {now nodeId capacity : UInt64} {address : Str} {first : Str × UInt64}
    (split : arrivals = before ++ (now, .register nodeId address capacity) :: after)
    (known : (issued before).find? (fun known => known.1 = address) = some first) :
    ((run before).register now nodeId address capacity).1 = first.2 := by
  obtain ⟨listed, number⟩ := number_of_registration split
  have same : first.1 = address := by simpa using List.find?_some known
  obtain ⟨i, there⟩ := List.mem_iff_getElem?.mp (List.mem_of_find?_eq_some known)
  have earlier : (arrivals.filterMap addressOf)[i]? = some address := by
    rw [issued_getElem?] at there
    obtain ⟨address', listed', same'⟩ := Option.map_eq_some_iff.mp there
    rw [split, List.filterMap_append, List.getElem?_append_left (List.getElem?_eq_some_iff.mp listed').1, listed',
      ← same, ← same']
  rw [number, (numbers_run before).ids i first there, ofNat_succ_eq_iff]
  exact once _ _ address listed earlier

/-! ## Registering again -/

/-- The registration with a number. -/
theorem registration_of_number {arrivals : List Arrival} {i : Nat} {address : Str}
    (listed : (arrivals.filterMap addressOf)[i]? = some address) :
    ∃ before now nodeId capacity after,
      arrivals = before ++ (now, .register nodeId address capacity) :: after ∧ (issued before).length = i := by
  induction arrivals using List.reverseRecOn with
  | nil => simp at listed
  | append_singleton earlier last ih =>
    rw [List.filterMap_append] at listed
    by_cases small : i < (earlier.filterMap addressOf).length
    · rw [List.getElem?_append_left small] at listed
      obtain ⟨before, now, nodeId, capacity, after, split, length⟩ := ih listed
      exact ⟨before, now, nodeId, capacity, after ++ [last], by rw [split]; simp, length⟩
    · rw [List.getElem?_append_right (Nat.le_of_not_lt small)] at listed
      obtain ⟨now, request⟩ := last
      cases request with
      | heartbeat nodeId diskUsage =>
        rw [List.filterMap_cons_none rfl] at listed
        cases listed
      | register nodeId address' capacity =>
        have selected : addressOf (now, .register nodeId address' capacity) = some address' := rfl
        rw [List.filterMap_cons_some selected, List.filterMap_nil, List.getElem?_singleton] at listed
        split at listed
        · next here =>
          cases listed
          refine ⟨earlier, now, nodeId, capacity, [], rfl, ?_⟩
          have length : (issued earlier).length = (earlier.filterMap addressOf).length := length_issued earlier
          omega
        · cases listed

/-- Under one identity the first id of an address is the number of each of its registrations. -/
theorem first_of_oneIdentity {arrivals : List Arrival} (one : OneIdentity arrivals) {i : Nat} {address : Str}
    (listed : (arrivals.filterMap addressOf)[i]? = some address) :
    ((issued arrivals).find? fun known => known.1 = address) = some (address, UInt64.ofNat (i + 1)) := by
  obtain ⟨before, now, nodeId, capacity, after, split, length⟩ := registration_of_number listed
  obtain ⟨-, number⟩ := number_of_registration split
  rw [length] at number
  rw [split, issued_append, List.find?_append]
  cases known : (issued before).find? fun known => known.1 = address with
  | none => simp [issuedFrom, number]
  | some first =>
    have same : first.1 = address := by simpa using List.find?_some known
    rw [Option.some_or, ← number, one.kept before now nodeId address capacity after first split known, ← same]

/-- One address has one identity exactly in the runs that register no address twice. -/
theorem one_identity_iff (arrivals : List Arrival) : OneIdentity arrivals ↔ RegistersOnce arrivals := by
  constructor
  · intro one i j address left right
    have first := first_of_oneIdentity one left
    rw [first_of_oneIdentity one right] at first
    simp only [Option.some.injEq, Prod.mk.injEq, true_and] at first
    exact (ofNat_succ_eq_iff.mp first).symm
  · intro once
    exact ⟨fun before start => single_of_once once start,
      fun before now nodeId address capacity after first split known => kept_of_once once split known⟩

/-! ## The sender -/

/-- What a data node knows of its identity. -/
structure Sender where
  listenAddr : Str
  nodeId : UInt64 := 0

/-- One round of `HeartbeatLoop` with the requests that it sends: a node without an id
registers. `arrives` tells whether the reply does. -/
def Sender.round (sender : Sender) (mgr : NodeManager) (now : UInt64) (arrives : Bool) : Arrival × Sender :=
  if 0 < sender.nodeId then ((now, .heartbeat sender.nodeId [0]), sender)
  else
    ((now, .register 0 sender.listenAddr 0),
      if arrives then { sender with nodeId := (mgr.register now 0 sender.listenAddr 0).1 } else sender)

/-- The requests of rounds of one data node. -/
def Sender.rounds (sender : Sender) (mgr : NodeManager) : List (UInt64 × Bool) → List Arrival
  | [] => []
  | (now, arrives) :: rest =>
    let (arrival, sender) := sender.round mgr now arrives
    arrival :: sender.rounds (mgr.serve arrival) rest

/-- A node whose first reply is lost registers again, and has two records online. -/
theorem lost_reply_splits :
    ({ listenAddr := ['a'] } : Sender).rounds init [(1, false), (2, true)] =
      [(1, .register 0 ['a'] 0), (2, .register 0 ['a'] 0)] ∧
    ¬ OneIdentity [(1, .register 0 ['a'] 0), (2, .register 0 ['a'] 0)] := by
  constructor
  · rfl
  · intro one
    have kept := one.kept [(1, .register 0 ['a'] 0)] 2 0 ['a'] 0 [] (['a'], 1) rfl (by decide)
    revert kept
    decide

end OpenFS.NodeManager
