import Mathlib.Data.List.Perm.Subperm
import OpenFS.Lib.LossyCalls
import OpenFS.Meta.NodeIdentity

/-!
# Data nodes register

`data_node.cpp`, `meta_node_client.cpp`: a data node calls the node service in rounds, to register
while it has no id and then to say that it is there. Any number of data nodes that fail and come
back, and one metadata node that does not.
-/

namespace OpenFS.NodeManager

open LossyCalls

inductive Reply
  | registered (nodeId : UInt64)
  | alive

/-- The request of a round of `HeartbeatLoop`, or of `RegisterWithMeta` before the first one. -/
def Sender.request (sender : Sender) : Request :=
  if 0 < sender.nodeId then .heartbeat sender.nodeId [0] else .register 0 sender.listenAddr 0

/-- `Register` of the client hands out the id of the reply. -/
def Sender.accept (sender : Sender) : Reply → Sender
  | .registered nodeId => { sender with nodeId := nodeId }
  | .alive => sender

/-- The node service. -/
def reply (now : UInt64) (mgr : NodeManager) : Request → Reply × NodeManager
  | .register nodeId address capacity =>
    let (id, mgr) := mgr.register now nodeId address capacity
    (.registered id, mgr)
  | .heartbeat nodeId diskUsage => (.alive, mgr.heartbeat now nodeId diskUsage)

/-- Data nodes that listen on these addresses. -/
def dataNodes {ι : Type} (addr : ι → Str) : Service ι Sender Request Reply NodeManager UInt64 where
  boot i := { listenAddr := addr i }
  ask := Sender.request
  take := Sender.accept
  answer := reply

/-- The address that a request registers. -/
def Request.address : Request → Str
  | .register _ address _ => address
  | .heartbeat .. => []

def Request.Registers : Request → Prop
  | .register .. => True
  | .heartbeat .. => False

instance : DecidablePred Request.Registers
  | .register .. => .isTrue trivial
  | .heartbeat .. => .isFalse id

section
variable {ι : Type}

abbrev Served (ι : Type) := List (Call ι Request × Reply)

/-- The id that was given, if one was. -/
def given : Call ι Request × Reply → Option (Call ι Request × UInt64)
  | (c, .registered id) => some (c, id)
  | (_, .alive) => none

/-- The calls that registered, in their order, each with the id it was given. -/
def registrations (served : Served ι) : List (Call ι Request × UInt64) := served.reverse.filterMap given

theorem registrations_cons (e : Call ι Request × Reply) (served : Served ι) :
    registrations (e :: served) = registrations served ++ (given e).toList := by
  unfold registrations
  rw [List.reverse_cons, List.filterMap_append]
  cases same : given e with
  | none => simp [same]
  | some g => simp [same]

theorem registrations_mono {served served' : Served ι} (later : served <:+ served') :
    registrations served <+: registrations served' := by
  obtain ⟨es, rfl⟩ := later
  unfold registrations
  rw [List.reverse_append, List.filterMap_append]
  exact List.prefix_append _ _

theorem mem_registrations {served : Served ι} {c : Call ι Request} {id : UInt64} :
    (c, id) ∈ registrations served ↔ (c, .registered id) ∈ served := by
  unfold registrations
  rw [List.mem_filterMap]
  constructor
  · rintro ⟨⟨c', reply⟩, member, same⟩
    cases reply with
    | registered id' =>
      cases same
      exact List.mem_reverse.mp member
    | alive => cases same
  · exact fun member => ⟨_, List.mem_reverse.mpr member, rfl⟩

/-- The registrations as the service knows them. -/
def entries (served : Served ι) : List (Str × UInt64) :=
  (registrations served).map fun g => (g.1.request.address, g.2)

/-! ## The service -/

/-- What the service has written down of what it served. -/
structure Booked (served : Served ι) (mgr : NodeManager) : Prop where
  numbers : Numbers mgr (entries served)
  kind : ∀ e ∈ served, e.1.request.Registers ↔ ∃ id, e.2 = .registered id
  records : (registrations served).length + 1 < 2 ^ 64 → ∀ g ∈ registrations served,
    ∃ record ∈ mgr.nodes, record.nodeId = g.2 ∧ record.address = g.1.request.address ∧ record.online = true

theorem booked_init : Booked ([] : Served ι) init where
  numbers := numbers_init
  kind e member := by cases member
  records _ g member := by cases member

variable {served served' : Served ι} {mgr : NodeManager} {c : Call ι Request}

theorem length_entries (served : Served ι) : (entries served).length = (registrations served).length :=
  List.length_map ..

/-- The ids are the numbers of the registrations. -/
theorem Booked.id_eq (booked : Booked served mgr) {i : Nat} {g : Call ι Request × UInt64}
    (there : (registrations served)[i]? = some g) : g.2 = UInt64.ofNat (i + 1) := by
  have entry : (entries served)[i]? = some (g.1.request.address, g.2) := by
    unfold entries
    rw [List.getElem?_map, there]
    rfl
  exact booked.numbers.ids i _ entry

/-- As long as the counter lasts, the ids are different, and none is 0. -/
theorem Booked.id_toNat (booked : Booked served mgr) (few : (registrations served).length + 1 < 2 ^ 64) {i : Nat}
    {g : Call ι Request × UInt64} (there : (registrations served)[i]? = some g) : g.2.toNat = i + 1 := by
  have inside := (List.getElem?_eq_some_iff.mp there).1
  have small : i + 1 < 2 ^ 64 := by omega
  rw [booked.id_eq there, UInt64.toNat_ofNat_of_lt' small]

theorem Booked.next_toNat (booked : Booked served mgr) (few : (registrations served).length + 1 < 2 ^ 64) :
    mgr.nextNodeId.toNat = (registrations served).length + 1 := by
  rw [booked.numbers.next, length_entries, UInt64.toNat_ofNat_of_lt' few]

theorem Booked.eq_of_id (booked : Booked served mgr) (few : (registrations served).length + 1 < 2 ^ 64)
    {g g' : Call ι Request × UInt64} (first : g ∈ registrations served) (second : g' ∈ registrations served)
    (same : g.2 = g'.2) : g = g' := by
  obtain ⟨i, at_i⟩ := List.getElem?_of_mem first
  obtain ⟨j, at_j⟩ := List.getElem?_of_mem second
  have left := booked.id_toNat few at_i
  have right := booked.id_toNat few at_j
  rw [same] at left
  obtain rfl : i = j := by omega
  exact Option.some.inj (at_i.symm.trans at_j)

theorem Booked.id_ne_zero (booked : Booked served mgr) (few : (registrations served).length + 1 < 2 ^ 64)
    {g : Call ι Request × UInt64} (member : g ∈ registrations served) : g.2 ≠ 0 := by
  obtain ⟨i, at_i⟩ := List.getElem?_of_mem member
  have number := booked.id_toNat few at_i
  intro zero
  rw [zero] at number
  cases number

theorem Booked.answer (booked : Booked served mgr) (now : UInt64) (c : Call ι Request) :
    Booked ((c, (reply now mgr c.request).1) :: served) (reply now mgr c.request).2 := by
  cases asks : c.request with
  | register nodeId address capacity =>
    have grown : registrations ((c, .registered mgr.nextNodeId) :: served) =
        registrations served ++ [(c, mgr.nextNodeId)] := registrations_cons _ _
    refine ⟨?_, ?_, fun few g member => ?_⟩
    · have listed : entries ((c, .registered mgr.nextNodeId) :: served) = entries served ++
        [(address, mgr.nextNodeId)] := by
        unfold entries
        rw [grown, List.map_append, List.map_singleton, asks]
        rfl
      show Numbers _ (entries ((c, .registered mgr.nextNodeId) :: served))
      rw [listed]
      exact booked.numbers.register now nodeId address capacity
    · intro e member
      rcases List.mem_cons.mp member with rfl | old
      · rw [asks]
        exact iff_of_true trivial ⟨_, rfl⟩
      · exact booked.kind e old
    · change g ∈ registrations ((c, .registered mgr.nextNodeId) :: served) at member
      change (registrations ((c, .registered mgr.nextNodeId) :: served)).length + 1 < 2 ^ 64 at few
      rw [grown, List.length_append, List.length_singleton] at few
      rw [grown] at member
      rcases List.mem_append.mp member with old | new
      · obtain ⟨record, there, id, rest⟩ := booked.records (by omega) g old
        refine ⟨record, List.mem_cons_of_mem _ (List.mem_filter.mpr ⟨there, ?_⟩), id, rest⟩
        -- the new id is another one
        obtain ⟨i, at_i⟩ := List.getElem?_of_mem old
        have number := booked.id_toNat (by omega) at_i
        have next := booked.next_toNat (by omega)
        have inside := (List.getElem?_eq_some_iff.mp at_i).1
        have other : record.nodeId ≠ mgr.nextNodeId := by
          intro same
          rw [id] at same
          rw [same] at number
          omega
        simpa using other
      · obtain rfl := List.mem_singleton.mp new
        refine ⟨_, List.mem_cons_self, rfl, ?_, rfl⟩
        rw [asks]
        rfl
  | heartbeat nodeId diskUsage =>
    have same : registrations ((c, .alive) :: served) = registrations served := by
      rw [registrations_cons]
      exact List.append_nil _
    refine ⟨?_, ?_, fun few g member => ?_⟩
    · have listed : entries ((c, .alive) :: served) = entries served := by
        unfold entries
        rw [same]
      show Numbers _ (entries ((c, .alive) :: served))
      rw [listed]
      exact booked.numbers.heartbeat now nodeId diskUsage
    · intro e member
      rcases List.mem_cons.mp member with rfl | old
      · rw [asks]
        refine iff_of_false id ?_
        rintro ⟨id, same⟩
        cases same
      · exact booked.kind e old
    · change g ∈ registrations ((c, .alive) :: served) at member
      change (registrations ((c, .alive) :: served)).length + 1 < 2 ^ 64 at few
      rw [same] at few member
      obtain ⟨record, there, id, address, online⟩ := booked.records few g member
      have kept : ∀ r : NodeInfo, (if r.nodeId = nodeId then
          { r with used := diskUsage.foldl (· + ·) 0, lastHeartbeat := now } else r).nodeId = r.nodeId ∧
          (if r.nodeId = nodeId then
          { r with used := diskUsage.foldl (· + ·) 0, lastHeartbeat := now } else r).address = r.address ∧
          (if r.nodeId = nodeId then
          { r with used := diskUsage.foldl (· + ·) 0, lastHeartbeat := now } else r).online = r.online := by
        intro r
        split <;> exact ⟨rfl, rfl, rfl⟩
      obtain ⟨id', address', online'⟩ := kept record
      exact ⟨_, List.mem_map_of_mem there, id'.trans id, address'.trans address, online'.trans online⟩

/-! ## The data nodes -/

variable {addr : ι → Str}

/-- A node knows its address, and has no id or one that it was given since its start. -/
structure Knows (addr : ι → Str) (i : ι) (start : Nat) (served : Served ι) (sender : Sender) : Prop where
  address : sender.listenAddr = addr i
  given : sender.nodeId ≠ 0 → ∃ c, (c, sender.nodeId) ∈ registrations served ∧ c.caller = i ∧ c.start = start

theorem Knows.mono {i : ι} {n : Nat} {sender : Sender} (knows : Knows addr i n served sender)
    (later : served <:+ served') : Knows addr i n served' sender := by
  refine ⟨knows.address, fun held => ?_⟩
  obtain ⟨c, member, mine⟩ := knows.given held
  exact ⟨c, (registrations_mono later).subset member, mine⟩

theorem Knows.accept {sender : Sender} {answer : Reply} (knows : Knows addr c.caller c.start served sender)
    (there : (c, answer) ∈ served) : Knows addr c.caller c.start served (sender.accept answer) := by
  cases answer with
  | registered nodeId => exact ⟨knows.address, fun _ => ⟨c, mem_registrations.mpr there, rfl, rfl⟩⟩
  | alive => exact knows

/-- A request registers the address of its sender, or bears the id that it was given. -/
def Means (addr : ι → Str) (i : ι) (start : Nat) (served : Served ι) (q : Request) : Prop :=
  q = .register 0 (addr i) 0 ∨
    ∃ id c, q = .heartbeat id [0] ∧ (c, id) ∈ registrations served ∧ c.caller = i ∧ c.start = start

theorem Means.mono {i : ι} {n : Nat} {q : Request} (means : Means addr i n served q)
    (later : served <:+ served') : Means addr i n served' q := by
  rcases means with registers | ⟨id, c, reports, member, mine⟩
  · exact .inl registers
  · exact .inr ⟨id, c, reports, (registrations_mono later).subset member, mine⟩

theorem Knows.request {i : ι} {n : Nat} {sender : Sender} (knows : Knows addr i n served sender) :
    Means addr i n served sender.request := by
  unfold Sender.request
  split
  · next held =>
    have filled : sender.nodeId ≠ 0 := by
      intro zero
      rw [zero] at held
      exact absurd held (by decide)
    obtain ⟨c, member, mine⟩ := knows.given filled
    exact .inr ⟨_, c, rfl, member, mine⟩
  · exact .inl (by rw [knows.address])

/-! ## Runs -/

variable [DecidableEq ι] {net net' : Net ι Sender Request Reply NodeManager}

theorem booked_of_run (run : (dataNodes addr).Runs init net) : Booked net.served net.server :=
  Service.Runs.server run booked_init fun _ _ c now booked => booked.answer now c

theorem knows_of_run (run : (dataNodes addr).Runs init net) (i : ι) :
    Knows addr i (net.starts i) net.served (net.party i) :=
  Service.Runs.parties run (fun _ _ _ => ⟨rfl, fun held => absurd rfl held⟩)
    (fun _ _ _ _ _ knows later => knows.mono later) (fun _ _ _ _ knows there => knows.accept there) i

theorem means_of_run (run : (dataNodes addr).Runs init net) {c : Call ι Request}
    (made : c ∈ net.requests ++ net.served.map Prod.fst) : Means addr c.caller c.start net.served c.request :=
  Service.Runs.requests run (fun _ run i => knows_of_run run i) (fun _ _ _ _ knows => knows.request)
    (fun _ _ _ _ _ means later => means.mono later) made

/-- The addresses of two data nodes. -/
def twoAddresses (i : Bool) : Str := if i then ['a'] else ['b']

/-- A node whose first reply is lost registers twice, and the other one after it. -/
theorem exists_lost_reply : ∃ net net', (dataNodes twoAddresses).Runs init net ∧
    Relation.ReflTransGen (dataNodes twoAddresses).Step net net' ∧ (net.party true).nodeId = 2 ∧
    (net'.party false).nodeId = 3 ∧ net.starts true = 1 ∧ net.fails true = 1 ∧
    (registrations net'.served).length + 1 < 2 ^ 64 := by
  have asked : (dataNodes twoAddresses).Runs init _ := .tail .refl (.call true rfl)
  have served := asked.tail (.serve [] [] _ rfl 1)
  have failed := served.tail (.fail true _ rfl)
  have again := failed.tail (.call true rfl)
  have served' := again.tail (.serve [] [] _ rfl 2)
  have registered := served'.tail (.deliver _ _ (.head _) rfl)
  refine ⟨_, _, registered, .tail (.tail (.single (.call false rfl)) (.serve [] [] _ rfl 3))
    (.deliver _ _ (.head _) rfl), rfl, rfl, rfl, rfl, ?_⟩
  decide

/-- The registrations of a run are no fewer later. -/
theorem few_before (later : Relation.ReflTransGen (dataNodes addr).Step net net')
    (few : (registrations net'.served).length + 1 < 2 ^ 64) : (registrations net.served).length + 1 < 2 ^ 64 := by
  have fewer := (registrations_mono (Service.served_suffix later)).length_le
  omega

/-- **An id stands for one data node**: whoever holds it, now or later, is the same node since the
same start. -/
theorem ids_are_held_once (run : (dataNodes addr).Runs init net)
    (later : Relation.ReflTransGen (dataNodes addr).Step net net')
    (few : (registrations net'.served).length + 1 < 2 ^ 64) {i j : ι} (held : (net.party i).nodeId ≠ 0)
    (same : (net'.party j).nodeId = (net.party i).nodeId) : i = j ∧ net.starts i = net'.starts j := by
  have booked := booked_of_run (run.trans later)
  obtain ⟨c, first, rfl, start⟩ := (knows_of_run run i).given held
  obtain ⟨c', second, rfl, start'⟩ := (knows_of_run (run.trans later) j).given (same ▸ held)
  have member := (registrations_mono (Service.served_suffix later)).subset first
  obtain rfl := congrArg Prod.fst (booked.eq_of_id few member second same.symm)
  exact ⟨rfl, start.symm.trans start'⟩

theorem ids_are_held_once_second : ∃ net net', (dataNodes twoAddresses).Runs init net ∧
    Relation.ReflTransGen (dataNodes twoAddresses).Step net net' ∧ (net.party true).nodeId = 2 ∧
    (net'.party false).nodeId = 3 ∧
      ∀ j, (net'.party j).nodeId = (net.party true).nodeId → true = j ∧ net.starts true = net'.starts j := by
  obtain ⟨net, net', run, later, id, other, -, -, few⟩ := exists_lost_reply
  have held : (net.party true).nodeId ≠ 0 := by
    rw [id]
    decide
  exact ⟨net, net', run, later, id, other, fun j same => ids_are_held_once run later few held same⟩

/-- What the service and the data nodes know of each other. -/
structure Acquainted (addr : ι → Str) (net : Net ι Sender Request Reply NodeManager) : Prop where
  /-- Who holds an id has a record. -/
  listed : ∀ i, (net.party i).nodeId ≠ 0 → ∃ record ∈ net.server.nodes,
    record.nodeId = (net.party i).nodeId ∧ record.address = addr i ∧ record.online = true
  /-- Each record is that of a registration. -/
  given : ∀ record ∈ net.server.nodes, ∃ c, (c, .registered record.nodeId) ∈ net.served ∧
    addr c.caller = record.address
  /-- What is reported for an id is reported by the node that it was given to. -/
  reported : ∀ c id use, c ∈ net.requests ++ net.served.map Prod.fst → c.request = .heartbeat id use →
    ∃ c', (c', .registered id) ∈ net.served ∧ c'.caller = c.caller ∧ c'.start = c.start
  /-- A block is put on such an id. -/
  online : net.server.getAnyOnlineNode ≠ 0 → ∃ c, (c, .registered net.server.getAnyOnlineNode) ∈ net.served

theorem request_of_registration (run : (dataNodes addr).Runs init net) {c : Call ι Request} {id : UInt64}
    (member : (c, .registered id) ∈ net.served) : c.request = .register 0 (addr c.caller) 0 := by
  have registers := ((booked_of_run run).kind _ member).mpr ⟨id, rfl⟩
  rcases means_of_run run (List.mem_append_right _ (List.mem_map_of_mem member)) with same | ⟨id', c', reports, -⟩
  · exact same
  · rw [reports] at registers
    exact registers.elim

theorem acquainted_of_run (run : (dataNodes addr).Runs init net)
    (few : (registrations net.served).length + 1 < 2 ^ 64) : Acquainted addr net := by
  have booked := booked_of_run run
  have given : ∀ record ∈ net.server.nodes, ∃ c, (c, .registered record.nodeId) ∈ net.served ∧
      addr c.caller = record.address := by
    intro record there
    obtain ⟨⟨c, id⟩, member, same⟩ := List.mem_map.mp (booked.numbers.records record there)
    obtain ⟨address, rfl⟩ := Prod.mk.inj same
    have served := mem_registrations.mp member
    rw [request_of_registration run served] at address
    exact ⟨c, served, address⟩
  refine ⟨fun i held => ?_, given, fun c id use made asks => ?_, fun online => ?_⟩
  · obtain ⟨c, member, rfl, -⟩ := (knows_of_run run i).given held
    obtain ⟨record, there, id, address, online⟩ := booked.records few _ member
    rw [request_of_registration run (mem_registrations.mp member)] at address
    exact ⟨record, there, id, address, online⟩
  · rcases means_of_run run made with registers | ⟨id', c', reports, member, mine⟩
    · rw [asks] at registers
      cases registers
    · rw [asks] at reports
      cases reports
      exact ⟨c', mem_registrations.mp member, mine⟩
  · unfold getAnyOnlineNode at online ⊢
    cases found : net.server.nodes.find? (fun n => n.online) with
    | none =>
      rw [found] at online
      exact absurd rfl online
    | some record =>
      obtain ⟨c, served, -⟩ := given record (List.mem_of_find?_eq_some found)
      exact ⟨c, served⟩

theorem acquainted_of_run_lost : ∃ net, (dataNodes twoAddresses).Runs init net ∧ (net.party true).nodeId = 2 ∧
    Acquainted twoAddresses net := by
  obtain ⟨net, net', run, later, id, -, -, -, few⟩ := exists_lost_reply
  exact ⟨net, run, id, acquainted_of_run run (few_before later few)⟩

/-- The registrations of a node. -/
def registered (net : Net ι Sender Request Reply NodeManager) (i : ι) : Nat :=
  (registrations net.served).countP fun g => decide (g.1.caller = i)

theorem registered_le (run : (dataNodes addr).Runs init net)
    (few : (registrations net.served).length + 1 < 2 ^ 64) (i : ι) :
    registered net i ≤ net.starts i + net.fails i := by
  have booked := booked_of_run run
  have asks : ∀ sender : Sender, ((dataNodes addr).ask sender).Registers ↔ sender.nodeId = 0 := by
    intro sender
    show sender.request.Registers ↔ _
    unfold Sender.request
    by_cases held : 0 < sender.nodeId
    · rw [if_pos held]
      refine iff_of_false id fun zero => ?_
      rw [zero] at held
      exact absurd held (by decide)
    · rw [if_neg held]
      refine iff_of_true trivial (UInt64.toNat_inj.mp ?_)
      rw [UInt64.lt_iff_toNat_lt] at held
      exact Nat.eq_zero_of_not_pos held
  have gives : ∀ c answer, (c, answer) ∈ net.served → c.request.Registers →
      ∀ sender : Sender, ¬ (sender.accept answer).nodeId = 0 := by
    intro c answer member registers sender
    obtain ⟨id, rfl⟩ := (booked.kind _ member).mp registers
    exact booked.id_ne_zero few (mem_registrations.mpr member)
  have keeps : ∀ c answer, (c, answer) ∈ net.served → ¬ c.request.Registers →
      ∀ sender : Sender, ¬ sender.nodeId = 0 → ¬ (sender.accept answer).nodeId = 0 := by
    intro c answer member other sender held
    cases answer with
    | registered id => exact absurd ((booked.kind _ member).mpr ⟨id, rfl⟩) other
    | alive => exact held
  have bound := Service.Runs.asked_le run asks gives keeps i
  have counted : registered net i ≤ net.asked Request.Registers i := by
    unfold registered registrations Net.asked
    rw [List.countP_filterMap, List.countP_reverse, List.countP_append, List.countP_map]
    refine Nat.le_trans (List.countP_mono_left fun e member mine => ?_) (Nat.le_add_left _ _)
    obtain ⟨c, answer⟩ := e
    cases answer with
    | registered id =>
      have caller : c.caller = i := by simpa [NodeManager.given] using mine
      simpa using ⟨caller, (booked.kind _ member).mpr ⟨id, rfl⟩⟩
    | alive => simp [NodeManager.given] at mine
  omega

/-- **No node has more records than it had starts and failed calls**, where each has an address of its
own. -/
theorem records_of_node_le (run : (dataNodes addr).Runs init net) (own : Function.Injective addr)
    (few : (registrations net.served).length + 1 < 2 ^ 64) (i : ι) :
    net.server.nodes.countP (fun record => decide (record.address = addr i)) ≤ net.starts i + net.fails i := by
  have booked := booked_of_run run
  refine Nat.le_trans ?_ (registered_le run few i)
  have nodup : (net.server.nodes.map fun record => (record.address, record.nodeId)).Nodup := by
    refine List.pairwise_map.mpr (booked.numbers.distinct.imp ?_)
    intro m n other same
    exact other (congrArg Prod.snd same)
  have listed : List.Subperm (net.server.nodes.map fun record => (record.address, record.nodeId))
      (entries net.served) := by
    refine List.Nodup.subperm nodup fun entry member => ?_
    obtain ⟨record, there, rfl⟩ := List.mem_map.mp member
    exact booked.numbers.records record there
  have counted := listed.countP_le fun entry => decide (entry.1 = addr i)
  unfold entries at counted
  rw [List.countP_map, List.countP_map] at counted
  refine Nat.le_trans counted (List.countP_mono_left fun g member here => ?_)
  have request := request_of_registration run (mem_registrations.mp member)
  have address : g.1.request.address = addr i := by simpa using here
  rw [request] at address
  simpa using own address

theorem records_of_node_le_lost : ∃ net, (dataNodes twoAddresses).Runs init net ∧ (net.party true).nodeId = 2 ∧
    net.server.nodes.countP (fun record => decide (record.address = twoAddresses true)) ≤
      net.starts true + net.fails true := by
  obtain ⟨net, net', run, later, id, -, -, -, few⟩ := exists_lost_reply
  have own : ∀ i j, twoAddresses i = twoAddresses j → i = j := by decide
  exact ⟨net, run, id, records_of_node_le run (fun i j => own i j) (few_before later few) true⟩

end

end OpenFS.NodeManager
