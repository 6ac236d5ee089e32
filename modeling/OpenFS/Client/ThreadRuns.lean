import OpenFS.Client.ThreadSteps

/-!
# Handlers on threads refine the store

Every run of the servers with threads is led along by a run of the servers that answer in one
step. A call of the namespace is answered there when its handler leaves, `CommitBlocks` when the
blocks are added, so a call may return there early, but never before it was called.
-/

namespace OpenFS.Threads

open Requests Handlers NamespaceManager

abbrev State := Concurrent ClientCall Step Step.Reply Outcome Shared

abbrev Trace := List (Visible ClientCall Outcome)

/-- How far a call is beside the call that it follows. `inner` is the call whose handler holds the
mutex; the results in `due` have been returned on the other side. -/
inductive Keeps (h : Log) (s : Shared) (sys : System) (inner : Option Nat) (due : List (Nat × Outcome)) (k : Nat) :
    StepProg Outcome → ClientProg Outcome → Prop where
  | between {p p' : ClientProg Outcome} (outside : inner ≠ some k) (alike : p.Alike Same p') :
      Keeps h s sys inner due k (p.expand handler) p'
  | inside {q : Rpc} {next next' : q.Reply → ClientProg Outcome} {n : Nat} {stage : Inside}
      (mine : inner = some k) (pending : Pending n q s stage sys)
      (alike : ∀ reply reply', Same q reply reply' → (next reply).Alike Same (next' reply')) :
      Keeps h s sys inner due k (Prog.bind (goOn q n) fun reply => (next reply).expand handler) (.ask q next')
  | added {i : UInt64} {blocks : List BlockMeta} {next : Status → ClientProg Outcome} {p' : ClientProg Outcome}
      (outside : inner ≠ some k) (committed : Cluster.Committed h k i blocks) (alike : (next .ok).Alike Same p')
      (early : owed k p' ⊆ due) :
      Keeps h s sys inner due k (Prog.bind (resize i blocks) fun reply => (next reply).expand handler) p'
  | fetched {inode : Inode} {blocks : List BlockMeta} {next : Status → ClientProg Outcome}
      {p' : ClientProg Outcome} (outside : inner ≠ some k)
      (committed : Cluster.Committed h k inode.inodeId blocks) (regular : inode.fileType = .regular)
      (alike : (next .ok).Alike Same p') (early : owed k p' ⊆ due) :
      Keeps h s sys inner due k (Prog.bind (writeBack blocks (.ok inode)) fun reply => (next reply).expand handler) p'

structure Related (st : State) (st' : Cluster.State) (inner : Option Nat) (due : List (Nat × Outcome)) : Prop where
  agree : Agree st.server st'.server
  free : st.server.inside = none → inner = none
  begun : ∀ k, inner = some k → k < st.tasks.length
  length : st'.tasks.length = st.tasks.length
  tasks : ∀ k task, st.tasks[k]? = some task → ∃ p', st'.tasks[k]? = some ⟨task.op, p'⟩ ∧
    Keeps st'.history st.server st'.server inner due k task.left p'

/-- A run of the other servers leads to what is seen here, but that calls return later. -/
def Led (tr : Trace) (st : State) : Prop :=
  ∃ tr' st' inner due, Delays due tr tr' ∧ cluster.Traced (fun _ c => c.op.Fits) Cluster.IdsLast tr' st' ∧
    Related st st' inner due

theorem waits_handler (q : Rpc) : (handler q).Waits := by cases q <;> trivial

theorem handler_cases (q : Rpc) : Whole q ∨ handler q = locking q ∨ ∃ i blocks, q = .commitBlocks i blocks := by
  cases q with
  | allocateBlocks => exact .inl rfl
  | getBlockLocations => exact .inl rfl
  | writeBlock => exact .inl rfl
  | readBlock => exact .inl rfl
  | commitBlocks i blocks => exact .inr (.inr ⟨i, blocks, rfl⟩)
  | _ => exact .inr (.inl rfl)

section
variable {h h' : Log} {s s' : Shared} {sys sys' : System} {inner inner' : Option Nat}
  {due due' : List (Nat × Outcome)} {k : Nat}

/-- What the steps of others leave to a call. -/
theorem Keeps.mono {left : StepProg Outcome} {p' : ClientProg Outcome} (keeps : Keeps h s sys inner due k left p')
    (sub : h ⊆ h') (own : inner' = some k ↔ inner = some k)
    (pend : inner = some k → ∀ {n q stage}, Pending n q s stage sys → Pending n q s' stage sys')
    (dues : ∀ a, (k, a) ∈ due → (k, a) ∈ due') : Keeps h' s' sys' inner' due' k left p' := by
  have still : owed k p' ⊆ due → owed k p' ⊆ due' := by
    intro early e member
    cases p' with
    | ret a =>
      obtain rfl := List.mem_singleton.mp member
      exact dues a (early member)
    | ask => cases member
  cases keeps with
  | between outside alike => exact .between (mt own.mp outside) alike
  | inside mine pending alike => exact .inside (own.mpr mine) (pend mine pending) alike
  | added outside committed alike early => exact .added (mt own.mp outside) (sub committed) alike (still early)
  | fetched outside committed regular alike early =>
    exact .fetched (mt own.mp outside) (sub committed) regular alike (still early)

/-- What was due to a call is seen when it returns. -/
theorem settle_due {tr tr' : Trace} {p' : ClientProg Outcome} (delays : Delays due tr tr') (early : owed k p' ⊆ due) :
    ∃ due', Delays due' (returns k p' ++ tr) tr' ∧ ∀ j a, j ≠ k → (j, a) ∈ due → (j, a) ∈ due' := by
  cases p' with
  | ask q next => exact ⟨due, delays, fun _ _ _ member => member⟩
  | ret a =>
    obtain ⟨front, rest, rfl⟩ := List.append_of_mem (early (List.mem_singleton.mpr rfl))
    refine ⟨front ++ rest, delays.back, fun j b other member => ?_⟩
    rcases List.mem_append.mp member with before | behind
    · exact List.mem_append_left _ before
    · rcases List.mem_cons.mp behind with mine | behind
      · exact absurd (congrArg Prod.fst mine) other
      · exact List.mem_append_right _ behind

end

section
variable {st : State} {st' st'' : Cluster.State} {inner inner' : Option Nat} {due due' : List (Nat × Outcome)}
  {tr tr' : Trace} {k : Nat} {op : ClientCall} {step : Step} {next : step.Reply → StepProg Outcome}
  {p' p'' : ClientProg Outcome}

/-- One call makes a step. -/
theorem Related.after (related : Related st st' inner due) (asks : st.tasks[k]? = some ⟨op, .ask step next⟩)
    (there : st'.tasks[k]? = some ⟨op, p'⟩) (r : Readings) (tasks : st''.tasks = st'.tasks.set k ⟨op, p''⟩)
    (sub : st'.history ⊆ st''.history) (agree : Agree (st.server.answer r step).2 st''.server)
    (free : (st.server.answer r step).2.inside = none → inner' = none)
    (mine : Keeps st''.history (st.server.answer r step).2 st''.server inner' due' k
      (next (st.server.answer r step).1) p'')
    (own : ∀ j, j ≠ k → (inner' = some j ↔ inner = some j))
    (pend : ∀ j, j ≠ k → inner = some j → ∀ {n q stage}, Pending n q st.server stage st'.server →
      Pending n q (st.server.answer r step).2 stage st''.server)
    (dues : ∀ j a, j ≠ k → (j, a) ∈ due → (j, a) ∈ due') :
    Related (threads.serve st r k op step next) st'' inner' due' := by
  have inside := (List.getElem?_eq_some_iff.mp there).1
  refine ⟨agree, free, fun j holds => ?_, ?_, fun j task at_j => ?_⟩
  · show j < (st.tasks.set k _).length
    rw [List.length_set]
    rcases eq_or_ne j k with rfl | other
    · exact (List.getElem?_eq_some_iff.mp asks).1
    · exact related.begun j ((own j other).mp holds)
  · show st''.tasks.length = (st.tasks.set k _).length
    rw [tasks, List.length_set, List.length_set, related.length]
  · rw [tasks]
    rcases (Setting.getElem?_serve (S := threads) asks r).mp at_j with ⟨rfl, rfl⟩ | ⟨other, same⟩
    · exact ⟨p'', List.getElem?_set_self inside, mine⟩
    · obtain ⟨p, at_j', keeps⟩ := related.tasks j task same
      refine ⟨p, ?_, keeps.mono sub (own j other) (pend j other) fun a => dues j a other⟩
      rw [List.getElem?_set_ne (Ne.symm other)]
      exact at_j'

/-- The call that it follows waits. -/
theorem Related.wait (related : Related st st' inner due) (asks : st.tasks[k]? = some ⟨op, .ask step next⟩)
    (there : st'.tasks[k]? = some ⟨op, p'⟩) (r : Readings) (agree : Agree (st.server.answer r step).2 st'.server)
    (free : (st.server.answer r step).2.inside = none → inner' = none)
    (mine : Keeps st'.history (st.server.answer r step).2 st'.server inner' due' k
      (next (st.server.answer r step).1) p')
    (own : ∀ j, j ≠ k → (inner' = some j ↔ inner = some j))
    (pend : ∀ j, j ≠ k → inner = some j → ∀ {n q stage}, Pending n q st.server stage st'.server →
      Pending n q (st.server.answer r step).2 stage st'.server)
    (dues : ∀ j a, j ≠ k → (j, a) ∈ due → (j, a) ∈ due') :
    Related (threads.serve st r k op step next) st' inner' due' := by
  have same : st'.tasks = st'.tasks.set k ⟨op, p'⟩ := by
    obtain ⟨inside, at_k⟩ := List.getElem?_eq_some_iff.mp there
    rw [← at_k, List.set_getElem_self]
  exact related.after asks there r same (List.Subset.refl _) agree free mine own pend dues

variable (delays : Delays due tr tr') (traced : cluster.Traced (fun _ c => c.op.Fits) Cluster.IdsLast tr' st')
  (related : Related st st' inner due)

include delays traced related

/-- The other servers answer, and the call goes on with a reply that looks alike. -/
theorem led_both {q : Rpc} {next' : q.Reply → ClientProg Outcome} {p : ClientProg Outcome}
    (asks : st.tasks[k]? = some ⟨op, .ask step next⟩) (there : st'.tasks[k]? = some ⟨op, .ask q next'⟩)
    (r r' : Readings) (room : Cluster.IdsLast st'.server q)
    (goes : next (st.server.answer r step).1 = p.expand handler)
    (alike : p.Alike Same (next' (st'.server.answer r' q).1))
    (agree : Agree (st.server.answer r step).2 (st'.server.answer r' q).2)
    (free : (st.server.answer r step).2.inside = none → inner' = none) (outside : inner' ≠ some k)
    (own : ∀ j, j ≠ k → (inner' = some j ↔ inner = some j))
    (pend : ∀ j, j ≠ k → inner = some j → ∀ {n q' stage}, Pending n q' st.server stage st'.server →
      Pending n q' (st.server.answer r step).2 stage (st'.server.answer r' q).2) :
    Led (returns k (next (st.server.answer r step).1) ++ tr) (threads.serve st r k op step next) := by
  have served := traced.serve there r' room
  refine ⟨_, _, inner', due, ?_, served, related.after asks there r rfl (List.subset_cons_self ..) agree free ?_ own
    pend fun _ _ _ member => member⟩
  · rw [goes, alike.returns_expand waits_handler]
    exact delays.append _
  · rw [goes]
    exact .between outside alike

/-- The call comes to where the other has been before. -/
theorem led_settled {p : ClientProg Outcome} (asks : st.tasks[k]? = some ⟨op, .ask step next⟩)
    (there : st'.tasks[k]? = some ⟨op, p'⟩) (r : Readings) (outside : inner ≠ some k)
    (goes : next (st.server.answer r step).1 = p.expand handler)
    (alike : p.Alike Same p') (early : owed k p' ⊆ due) (agree : Agree (st.server.answer r step).2 st'.server)
    (inside : (st.server.answer r step).2.inside = st.server.inside)
    (bare : (st.server.answer r step).2.ns.bare = st.server.ns.bare) :
    Led (returns k (next (st.server.answer r step).1) ++ tr) (threads.serve st r k op step next) := by
  obtain ⟨due', delays', dues⟩ := settle_due delays early
  refine ⟨_, _, inner, due', ?_, traced, related.wait asks there r agree (fun none => related.free (inside ▸ none)) ?_
    (fun _ _ => Iff.rfl) (fun _ _ _ => fun pending => pending.keep inside bare rfl) dues⟩
  · rw [goes, alike.returns_expand waits_handler]
    exact delays'
  · rw [goes]
    exact .between outside alike

end

/-! ## Steps between calls of the namespace -/

section
variable {st : State} {st' : Cluster.State} {inner : Option Nat} {due : List (Nat × Outcome)} {tr tr' : Trace}
  {k : Nat} {op : ClientCall}

variable (delays : Delays due tr tr') (traced : cluster.Traced (fun _ c => c.op.Fits) Cluster.IdsLast tr' st')
  (related : Related st st' inner due)

include delays traced related

/-- A handler of one step. -/
theorem led_whole (outside : inner ≠ some k) {q : Rpc} (whole : Whole q) {next next' : q.Reply → ClientProg Outcome}
    (alike : ∀ reply reply', Same q reply reply' → (next reply).Alike Same (next' reply'))
    (asks : st.tasks[k]? = some ⟨op, .ask (Step.serve q) fun reply => (next reply).expand handler⟩)
    (there : st'.tasks[k]? = some ⟨op, .ask q next'⟩) (r : Readings) (admitted : Cluster.IdsLast st.server.sys q) :
    Led (returns k ((next (st.server.answer r (.serve q)).1).expand handler) ++ tr)
      (threads.serve st r k op (.serve q) fun reply => (next reply).expand handler) := by
  have rest := related.agree.rest
  obtain ⟨answer, kept⟩ := answer_whole whole r st'.server st.server.ns
  have answered : st.server.sys.answer r q =
      ((st'.server.answer r q).1, within (st'.server.answer r q).2 st.server.ns) :=
    (congrArg (fun sys => sys.answer r q) rest).trans answer
  have reply : (st.server.answer r (.serve q)).1 = (st'.server.answer r q).1 := congrArg Prod.fst answered
  have state : (st.server.answer r (.serve q)).2 =
      { st.server with sys := within (st'.server.answer r q).2 st.server.ns } :=
    congrArg (fun out => { st.server with sys := out.2 }) answered
  have room : Cluster.IdsLast st'.server q := by
    have room : Cluster.IdsLast (within st'.server st.server.ns) q :=
      (congrArg (fun sys => Cluster.IdsLast sys q) rest).mp admitted
    cases q with
    | createFile => cases whole
    | mkDir => cases whole
    | _ => exact room
  have bare : (st'.server.answer r q).2.svc.namespaceMgr.bare = st'.server.svc.namespaceMgr.bare := by rw [kept]
  refine led_both delays traced related asks there r r room rfl (alike _ _ ?_) ?_ ?_ outside (fun _ _ => Iff.rfl)
    fun _ _ _ => ?_
  · rw [reply]
    exact Same.refl q _
  · rw [state]
    exact related.agree.keep rfl rfl rfl bare
  · rw [state]
    exact related.free
  · intro n q' stage pending
    rw [state]
    exact pending.keep rfl rfl bare

/-- `CommitBlocks` adds the blocks, and has been answered. -/
theorem led_addBlocks (outside : inner ≠ some k) {i : UInt64} {blocks : List BlockMeta}
    {next next' : Status → ClientProg Outcome}
    (alike : ∀ reply, (next reply).Alike Same (next' reply)) {rest : Status → StepProg Outcome}
    (asks : st.tasks[k]? = some ⟨op, .ask (Step.addBlocks i blocks) rest⟩)
    (goes : rest .ok = Prog.bind (resize i blocks) fun reply => (next reply).expand handler)
    (there : st'.tasks[k]? = some ⟨op, .ask (.commitBlocks i blocks) next'⟩) (r : Readings) :
    Led (returns k (rest (st.server.answer r (.addBlocks i blocks)).1) ++ tr)
      (threads.serve st r k op (.addBlocks i blocks) rest) := by
  have served := traced.serve there r trivial
  have answer := System.answer_commitBlocks r st'.server i blocks
  have ok : (st'.server.answer r (.commitBlocks i blocks)).1 = .ok := congrArg Prod.fst answer
  have committed : Cluster.Committed (cluster.serve st' r k op (.commitBlocks i blocks) next').history k i blocks := by
    show (.answered k (.commitBlocks i blocks) .ok : Event ClientCall Rpc Rpc.Reply) ∈
      .answered k (.commitBlocks i blocks) (st'.server.answer r (.commitBlocks i blocks)).1 :: _
    rw [ok]
    exact List.mem_cons_self
  have sub : st'.history ⊆ (cluster.serve st' r k op (.commitBlocks i blocks) next').history :=
    List.subset_cons_self ..
  have bare := bare_commit (facts traced) r sub (facts served) committed
  have reply : (st.server.answer r (.addBlocks i blocks)).1 = .ok := rfl
  have waits : (Prog.bind (resize i blocks) fun reply => (next reply).expand handler).Waits := trivial
  refine ⟨_, _, inner, owed k (next' .ok) ++ due, ?_, served, related.after asks there r rfl sub
    (related.agree.keep ?_ rfl rfl bare) related.free ?_ (fun _ _ => Iff.rfl)
    (fun _ _ _ => fun pending => pending.keep rfl rfl bare) fun _ _ _ => List.mem_append_right _⟩
  · rw [reply, goes, returns_of_waits waits]
    show Delays _ _ (returns k (next' (st'.server.answer r (.commitBlocks i blocks)).1) ++ tr')
    rw [ok]
    exact delays.ahead k _
  · have add : ∀ sys : System, within sys st.server.ns = st.server.sys → { st.server.sys with svc :=
        { st.server.sys.svc with blockMap := (st.server.sys.svc.blockMap.addBlocks i blocks).2 } } =
          { sys with svc := { sys.svc with
            blockMap := (sys.svc.blockMap.addBlocks i blocks).2, namespaceMgr := st.server.ns } } := by
      intro sys same
      exact (congrArg (fun sys : System => { sys with svc := { sys.svc with
        blockMap := (sys.svc.blockMap.addBlocks i blocks).2 } }) same).symm
    show _ = within (st'.server.answer r (.commitBlocks i blocks)).2 st.server.ns
    rw [answer]
    exact add st'.server related.agree.rest.symm
  · show Keeps _ _ _ _ _ _ (rest .ok) (next' (st'.server.answer r (.commitBlocks i blocks)).1)
    rw [goes, ok]
    exact .added outside committed (alike .ok) (List.subset_append_left ..)

/-- `CommitBlocks` reads the record. -/
theorem led_getInode (outside : inner ≠ some k) {i : UInt64} {blocks : List BlockMeta}
    {next : Status → ClientProg Outcome} {p' : ClientProg Outcome}
    (committed : Cluster.Committed st'.history k i blocks)
    (alike : (next .ok).Alike Same p') (early : owed k p' ⊆ due)
    (asks : st.tasks[k]? = some ⟨op, .ask (Step.getInode i) fun found =>
      Prog.bind (writeBack blocks found) fun reply => (next reply).expand handler⟩)
    (there : st'.tasks[k]? = some ⟨op, p'⟩) (r : Readings) :
    Led (returns k (Prog.bind (writeBack blocks (st.server.answer r (.getInode i)).1) fun reply =>
      (next reply).expand handler) ++ tr)
      (threads.serve st r k op (.getInode i) fun found =>
        Prog.bind (writeBack blocks found) fun reply => (next reply).expand handler) := by
  cases live : st.server.ns.inodeTable.inodes i with
  | none =>
    have reply : (st.server.answer r (.getInode i)).1 = .error .notFound := by
      show st.server.ns.inodeTable.get i = _
      unfold InodeTable.get
      rw [live]
    refine led_settled delays traced related asks there r outside ?_ alike early related.agree rfl rfl
    rw [reply]
    rfl
  | some inode =>
    have reply : (st.server.answer r (.getInode i)).1 = .ok inode := InodeTable.get_eq_ok.mpr live
    have known := facts traced
    have records := related.agree.others i (known.not_next committed)
    rw [live] at records
    obtain ⟨record, live', same⟩ := Option.map_eq_some_iff.mp records.symm
    have current : inode.bare = _ := same.symm.trans (known.current committed live')
    have named : inode.inodeId = i := congrArg Inode.inodeId current
    have regular : inode.fileType = .regular := congrArg Inode.fileType current
    refine ⟨_, _, inner, due, ?_, traced, related.wait asks there r related.agree related.free ?_ (fun _ _ => Iff.rfl)
      (fun _ _ _ => fun pending => pending) fun _ _ _ member => member⟩
    · rw [reply]
      exact delays
    · rw [reply]
      subst named
      exact .fetched outside committed regular alike early

/-- `CommitBlocks` writes the record back. -/
theorem led_resize (outside : inner ≠ some k) {inode : Inode} {blocks : List BlockMeta}
    {next : Status → ClientProg Outcome} {p' : ClientProg Outcome}
    (committed : Cluster.Committed st'.history k inode.inodeId blocks)
    (regular : inode.fileType = .regular) (alike : (next .ok).Alike Same p') (early : owed k p' ⊆ due)
    (asks : st.tasks[k]? = some ⟨op, .ask (Step.resize inode blocks) fun _ => (next .ok).expand handler⟩)
    (there : st'.tasks[k]? = some ⟨op, p'⟩) (r : Readings) :
    Led (returns k ((next .ok).expand handler) ++ tr)
      (threads.serve st r k op (.resize inode blocks) fun _ => (next .ok).expand handler) := by
  have known := facts traced
  have bare : (st.server.answer r (.resize inode blocks)).2.ns.bare = st.server.ns.bare := by
    refine congrArg (fun table => ({ st.server.ns with inodeTable := table } : NamespaceManager))
      (InodeTable.bare_update_of_current st.server.ns.inodeTable fun record live => ?_)
    have records := related.agree.others _ (known.not_next committed)
    rw [show st.server.ns.inodeTable.inodes inode.inodeId = some record from live] at records
    obtain ⟨record', live', same⟩ := Option.map_eq_some_iff.mp records.symm
    rw [← same, known.current committed live']
    unfold Inode.bare
    rw [← regular]
    rfl
  refine led_settled delays traced related asks there r outside rfl alike early (related.agree.keep ?_ rfl bare rfl)
    rfl bare
  show within st.server.sys _ = _
  rw [related.agree.rest]
  rfl

end

/-! ## Steps of handlers that hold the mutex -/

section
variable {st : State} {st' : Cluster.State} {inner : Option Nat} {due : List (Nat × Outcome)} {tr tr' : Trace}
  {k : Nat} {op : ClientCall} {q : Rpc} {next next' : q.Reply → ClientProg Outcome}

variable (delays : Delays due tr tr') (traced : cluster.Traced (fun _ c => c.op.Fits) Cluster.IdsLast tr' st')
  (related : Related st st' inner due)

include delays traced related

/-- A handler comes to an end or to its next step, where `out` says which. -/
theorem led_outcome (alone : ∀ j, j ≠ k → inner ≠ some j) (room : Cluster.IdsLast st'.server q)
    (alike : ∀ reply reply', Same q reply reply' → (next reply).Alike Same (next' reply')) {step : Step}
    {rest : step.Reply → StepProg Outcome} (asks : st.tasks[k]? = some ⟨op, .ask step rest⟩)
    (there : st'.tasks[k]? = some ⟨op, .ask q next'⟩) (r : Readings) {hand : Status → Except Status Inode}
    {ns : NamespaceManager} {out : Handlers.Outcome} {n : Nat} {now : UInt64} {call : Call}
    (is : namespaceCall q = some call) (ends : (conclude n hand (ns, out)).map bareResult =
      (conclude 3 .error (enter st'.server.svc.namespaceMgr now call)).map bareResult)
    (goesOn : ∀ stage, out = .inside stage → Given ns.inodeTable st'.server.svc.inodeTable.nextInodeId stage ∧
      (∀ i, i ≠ st'.server.svc.inodeTable.nextInodeId → ns.inodeTable.inodes i = st.server.ns.inodeTable.inodes i) ∧
      (st.server.answer r step).2 = { st.server.withNs ns with inside := some stage } ∧
      rest (st.server.answer r step).1 = Prog.bind (goOn q n) fun reply => (next reply).expand handler)
    (leaves : ∀ status, out = .returned status →
      (st.server.answer r step).2 = { st.server.withNs ns with inside := none } ∧
      rest (st.server.answer r step).1 = (next (handed q (hand status))).expand handler) :
    Led (returns k (rest (st.server.answer r step).1) ++ tr) (threads.serve st r k op step rest) := by
  have own : ∀ {inner' : Option Nat}, (∀ j, j ≠ k → inner' ≠ some j) → ∀ j, j ≠ k →
      (inner' = some j ↔ inner = some j) := fun others j other =>
    ⟨fun same => absurd same (others j other), fun same => absurd same (alone j other)⟩
  cases out with
  | inside stage =>
    obtain ⟨given, kept, state, goes⟩ := goesOn stage rfl
    obtain ⟨n, rfl⟩ := steps_left is ends
    have waits : (Prog.bind (goOn q (n + 1)) fun reply => (next reply).expand handler).Waits := trivial
    refine ⟨_, _, some k, due, ?_, traced, related.wait asks there r ?_ ?_ ?_
      (own fun j other same => other (Option.some.inj same).symm) (fun j other mine => absurd mine (alone j other))
      fun _ _ _ member => member⟩
    · rw [goes, returns_of_waits waits]
      exact delays
    · rw [state]
      exact related.agree.on kept
    · rw [state]
      exact fun free => by cases free
    · rw [goes, state]
      exact .inside rfl ⟨rfl, given, room, now, call, is, ends⟩ alike
  | returned status =>
    obtain ⟨state, goes⟩ := leaves status rfl
    obtain ⟨like, ns', left, same⟩ := answered_of_concluded (r := { clock := fun _ => now }) is ends
    refine led_both delays traced related asks there r { clock := fun _ => now } room goes (alike _ _ like) ?_
      (fun _ => rfl) (fun mine => by cases mine) (own fun j _ mine => by cases mine)
      fun j other mine => absurd mine (alone j other)
    rw [state, left]
    exact related.agree.left same

/-- A handler takes the mutex. -/
theorem led_enter (alike : ∀ reply reply', Same q reply reply' → (next reply).Alike Same (next' reply'))
    (locks : handler q = locking q) {rest : Option q.Reply → StepProg Outcome}
    (asks : st.tasks[k]? = some ⟨op, .ask (Step.enter q) rest⟩)
    (goes : ∀ reply, rest (some reply) = (next reply).expand handler)
    (goesOn : rest none = Prog.bind (goOn q 3) fun reply => (next reply).expand handler)
    (there : st'.tasks[k]? = some ⟨op, .ask q next'⟩) (r : Readings) (admitted : Admits st.server (.enter q)) :
    Led (returns k (rest (st.server.answer r (.enter q)).1) ++ tr) (threads.serve st r k op (.enter q) rest) := by
  obtain ⟨free, lasts⟩ := admitted
  obtain rfl := related.free free
  have still := related.agree.still free
  have next_same : st.server.ns.inodeTable.nextInodeId = st'.server.svc.inodeTable.nextInodeId := next_of_bare still
  have room : Cluster.IdsLast st'.server q := idsLast_of_next locks next_same lasts
  cases reads : namespaceCall q with
  | none =>
    have answer : st.server.answer r (.enter q) = (some (st.server.sys.answer r q).1, st.server) := by
      show st.server.enter r q = _
      unfold Shared.enter
      rw [reads]
    obtain ⟨like, state'⟩ := answer_reading reads locks still r
    refine led_both delays traced related asks there r r room (p := next (st.server.sys.answer r q).1) ?_
      (alike _ _ like) ?_ (fun _ => rfl) (fun mine => by cases mine) (fun _ _ => Iff.rfl) fun _ _ mine => by cases mine
    · rw [answer]
      exact goes _
    · rw [answer, state']
      exact related.agree
  | some call =>
    have answer : st.server.answer r (.enter q) =
        st.server.settle q .error (enter st.server.ns (r.clock 0) call) := by
      show st.server.enter r q = _
      unfold Shared.enter
      rw [reads]
    have table := enter_inodeTable st.server.ns (r.clock 0) call
    obtain ⟨left, same⟩ := enter_congr still (r.clock 0) call
    have ends := conclude_congr 3 .error left (congrArg Outcome.bare same)
    have given : ∀ stage, (enter st.server.ns (r.clock 0) call).2 = .inside stage → _ := fun stage => given_enter
    generalize enter st.server.ns (r.clock 0) call = result at answer table ends given
    obtain ⟨ns, out⟩ := result
    refine led_outcome delays traced related (fun _ _ mine => by cases mine) room alike asks there r reads ends
      (fun stage inside => ?_) fun status returned => ?_
    · subst inside
      rw [answer]
      dsimp only at table
      refine ⟨?_, fun i _ => by rw [table], rfl, goesOn⟩
      rw [table, ← next_same]
      exact given stage rfl
    · subst returned
      rw [answer]
      exact ⟨rfl, goes _⟩

/-- The handler inside makes its next step. -/
theorem led_advance (mine : inner = some k)
    (alike : ∀ reply reply', Same q reply reply' → (next reply).Alike Same (next' reply')) {n : Nat} {stage : Inside}
    (pending : Pending (n + 1) q st.server stage st'.server) {rest : Option q.Reply → StepProg Outcome}
    (asks : st.tasks[k]? = some ⟨op, .ask (Step.advance q) rest⟩)
    (goes : ∀ reply, rest (some reply) = (next reply).expand handler)
    (goesOn : rest none = Prog.bind (goOn q n) fun reply => (next reply).expand handler)
    (there : st'.tasks[k]? = some ⟨op, .ask q next'⟩) (r : Readings) :
    Led (returns k (rest (st.server.answer r (.advance q)).1) ++ tr) (threads.serve st r k op (.advance q) rest) := by
  obtain ⟨now, call, is, ends⟩ := pending.ends
  have answer : st.server.answer r (.advance q) = st.server.settle q stage.result (advance st.server.ns stage) := by
    show st.server.advance q = _
    unfold Shared.advance
    rw [pending.inside]
  rw [conclude_inside] at ends
  have on : ∀ stage', (advance st.server.ns stage).2 = .inside stage' → _ := fun stage' =>
    given_advance pending.given
  generalize advance st.server.ns stage = result at answer ends on
  obtain ⟨ns, out⟩ := result
  refine led_outcome delays traced related (fun j other holds => other (Option.some.inj (holds.symm.trans mine)))
    pending.room alike
    asks there r is ends (fun stage' inside => ?_) fun status returned => ?_
  · subst inside
    rw [answer]
    obtain ⟨given, kept⟩ := on stage' rfl
    exact ⟨given, kept, rfl, goesOn⟩
  · subst returned
    rw [answer]
    exact ⟨rfl, goes _⟩

end

/-! ## Runs -/

section
variable {st : State} {tr : Trace}

/-- **A step of a call is led along.** -/
theorem led_serve (led : Led tr st) {k : Nat} {op : ClientCall} {step : Step} {next : step.Reply → StepProg Outcome}
    (asks : st.tasks[k]? = some ⟨op, .ask step next⟩) (r : Readings) (admitted : Admits st.server step) :
    Led (returns k (next (st.server.answer r step).1) ++ tr) (threads.serve st r k op step next) := by
  obtain ⟨tr', st', inner, due, delays, traced, related⟩ := led
  obtain ⟨p', there, keeps⟩ := related.tasks k _ asks
  dsimp only at there keeps
  generalize left : Prog.ask step next = program at keeps
  cases keeps with
  | @between p _ outside alike =>
    cases p with
    | ret a => cases left
    | ask q after =>
      obtain ⟨after', rfl, later⟩ := alike
      rcases handler_cases q with whole | locks | ⟨i, blocks, rfl⟩
      · change _ = Prog.bind (handler q) _ at left
        rw [show handler q = Prog.call (Step.serve q) from whole] at left
        cases left
        exact led_whole delays traced related outside whole later asks there r admitted
      · change _ = Prog.bind (handler q) _ at left
        rw [locks] at left
        cases left
        exact led_enter delays traced related later locks asks (fun _ => rfl) rfl there r admitted
      · cases left
        exact led_addBlocks delays traced related outside (fun reply => later reply reply rfl) asks rfl
          there r
  | @inside q after after' n stage mine pending alike =>
    obtain ⟨now, call, is, ends⟩ := pending.ends
    obtain ⟨m, rfl⟩ := steps_left is ends
    cases left
    exact led_advance delays traced related mine alike pending asks (fun _ => rfl) rfl there r
  | added outside committed alike early =>
    cases left
    exact led_getInode delays traced related outside committed alike early asks there r
  | fetched outside committed regular alike early =>
    cases left
    exact led_resize delays traced related outside committed regular alike early asks there r

/-- A call is begun on both sides. -/
theorem led_begin (led : Led tr st) (c : ClientCall) (fits : c.op.Fits) :
    Led (returns st.tasks.length (threads.prog c) ++ .called st.tasks.length c :: tr) (threads.begin st c) := by
  obtain ⟨tr', st', inner, due, delays, traced, related⟩ := led
  have begun := traced.begin c fits
  rw [related.length] at begun
  have alike := alike_prog c
  refine ⟨_, _, inner, due, ?_, begun, related.agree, related.free, fun k holds => ?_, ?_, fun k task at_k => ?_⟩
  · show Delays due (returns _ ((cluster.prog c).expand handler) ++ _) _
    rw [alike.returns_expand waits_handler]
    exact (delays.cons _).append _
  · show k < (st.tasks ++ [_]).length
    rw [List.length_append]
    exact Nat.lt_add_right _ (related.begun k holds)
  · show (st'.tasks ++ [_]).length = (st.tasks ++ [_]).length
    rw [List.length_append, List.length_append, related.length]
    rfl
  · rcases Setting.getElem?_begin.mp at_k with old | ⟨rfl, rfl⟩
    · obtain ⟨p', there, keeps⟩ := related.tasks k task old
      refine ⟨p', Setting.getElem?_begin.mpr (.inl there), keeps.mono (List.subset_cons_self ..) Iff.rfl
        (fun _ => fun pending => pending) fun _ member => member⟩
    · refine ⟨_, Setting.getElem?_begin.mpr (.inr ⟨related.length.symm, rfl⟩), .between ?_ alike⟩
      exact fun holds => Nat.lt_irrefl _ (related.begun _ holds)

/-- The data node registers, or its heartbeat arrives, on both sides. -/
theorem led_drift (led : Led tr st) {s : Shared} (drifts : threads.drift st.server s) :
    Led tr { st with server := s } := by
  obtain ⟨tr', st', inner, due, delays, traced, related⟩ := led
  obtain ⟨drifts, inside⟩ := drifts
  have moved : ∃ sys, Cluster.Drift st'.server sys ∧ s.sys = within sys st.server.ns ∧
      sys.svc.namespaceMgr = st'.server.svc.namespaceMgr := by
    have rest := related.agree.rest
    generalize after : s.sys = sys at drifts
    cases drifts with
    | register now address capacity =>
      exact ⟨_, .register now address capacity, congrArg (fun sys : System =>
        { sys with svc := sys.svc.handle (.register now address capacity) }) rest, rfl⟩
    | heartbeat now nodeId used =>
      exact ⟨_, .heartbeat now nodeId used, congrArg (fun sys : System =>
        { sys with svc := sys.svc.handle (.heartbeat now nodeId used) }) rest, rfl⟩
  obtain ⟨sys, drifts', rest, kept⟩ := moved
  have mine : s.ns = (within sys st.server.ns).svc.namespaceMgr :=
    congrArg (fun sys : System => sys.svc.namespaceMgr) rest
  have bare : s.ns.bare = st.server.ns.bare := congrArg NamespaceManager.bare mine
  have bare' : sys.svc.namespaceMgr.bare = st'.server.svc.namespaceMgr.bare := congrArg NamespaceManager.bare kept
  refine ⟨_, _, inner, due, delays, traced.drift drifts', related.agree.keep ?_ inside bare bare',
    fun free => related.free (inside ▸ free), related.begun, related.length, fun k task at_k => ?_⟩
  · rw [mine]
    exact rest
  · obtain ⟨p', there, keeps⟩ := related.tasks k task at_k
    exact ⟨p', there, keeps.mono (List.Subset.refl _) Iff.rfl (fun _ => fun pending => pending.keep inside bare bare')
      fun _ member => member⟩

/-- A start is one on both sides. -/
theorem led_start {s : Shared} (first : threads.start s) : Led [] { server := s } := by
  obtain ⟨fresh, free⟩ := first
  refine ⟨_, { server := s.sys }, none, [], .nil, .start fresh, ⟨rfl, fun _ _ => rfl, fun _ => rfl⟩, fun _ => rfl,
    (fun k holds => by cases holds), rfl, fun k task there => ?_⟩
  rw [List.getElem?_nil] at there
  cases there

theorem led_of_traced (traced : threads.Traced (fun _ c => c.op.Fits) Admits tr st) : Led tr st := by
  induction traced with
  | start first => exact led_start first
  | begin _ c fits ih => exact led_begin ih c fits
  | serve _ asks r admitted ih => exact led_serve ih asks r admitted
  | drift _ drifts ih => exact led_drift ih drifts

/-- **Handlers on threads refine the file store**: whatever is seen of the calls and their results
when the handlers take turns, is seen of clients at the store, but that calls may return there
earlier. -/
theorem threads_refine_store (traced : threads.Traced (fun _ c => c.op.Fits) Admits tr st) :
    ∃ due tr' st', Delays due tr tr' ∧ fileStore.Traced (fun _ _ => True) FileStore.IdsLast tr' st' := by
  obtain ⟨tr', _, _, due, delays, traced', -⟩ := led_of_traced traced
  obtain ⟨st', refined⟩ := Cluster.cluster_refines_store traced'
  exact ⟨due, tr', st', delays, refined⟩

end

/-- A directory is looked for while it is made. -/
theorem threads_refine_store_turns : ∃ st,
    threads.Traced (fun _ c => c.op.Fits) Admits [.returned 1 (.ok, []), .returned 0 (.ok, []),
      .called 1 ⟨{ initialized := true }, .getFileInfo ['/', 'd']⟩,
      .called 0 ⟨{ initialized := true }, .mkDir ['/', 'd'] 0o755⟩] st ∧
    ∃ due tr' st', Delays due [.returned 1 (.ok, []), .returned 0 (.ok, []),
      .called 1 ⟨{ initialized := true }, .getFileInfo ['/', 'd']⟩,
      .called 0 ⟨{ initialized := true }, .mkDir ['/', 'd'] 0o755⟩] tr' ∧
      fileStore.Traced (fun _ _ => True) FileStore.IdsLast tr' st' := by
  obtain ⟨node, installed, length, -⟩ := DataNode.exists_roomy
  have fresh : Cluster.Fresh ⟨.init 0, node⟩ := ⟨⟨0, rfl⟩, installed, by rw [length]; decide⟩
  have ids : (MetaService.init 0).inodeTable.nextInodeId.toNat + 1 < 2 ^ 64 := by decide
  have started : threads.Traced (fun _ c => c.op.Fits) Admits [] { server := ⟨⟨.init 0, node⟩, none⟩ } :=
    .start ⟨fresh, rfl⟩
  have entered := (started.begin ⟨{ initialized := true }, .mkDir ['/', 'd'] 0o755⟩ trivial).serve (k := 0) rfl {}
    ⟨rfl, ids⟩
  have waiting := entered.begin ⟨{ initialized := true }, .getFileInfo ['/', 'd']⟩ trivial
  have allotted := waiting.serve (k := 0) rfl {} trivial
  have created := allotted.serve (k := 0) rfl {} trivial
  have pushed := created.serve (k := 0) rfl {} trivial
  have found := pushed.serve (k := 1) rfl {} ⟨rfl, trivial⟩
  exact ⟨_, found, threads_refine_store found⟩

end OpenFS.Threads
