import OpenFS.Client.Threads

/-!
# What operations see of a record

An operation looks at the id and the size of a record only. Replies that differ in what may be stale
lead it the same way, to the same status and the same bytes.
-/

namespace OpenFS.Threads

open Requests OpenFSClient

/-- The reply without what may be stale. -/
def bareReply : (q : Rpc) → q.Reply → q.Reply
  | .createFile .., reply => Except.map Inode.bare reply
  | .mkDir .., reply => Except.map Inode.bare reply
  | .getFileInfo _, reply => Except.map Inode.bare reply
  | _, reply => reply

def Same (q : Rpc) (reply reply' : q.Reply) : Prop := bareReply q reply = bareReply q reply'

theorem Same.refl (q : Rpc) (reply : q.Reply) : Same q reply reply := rfl

theorem bare_cases {out out' : Except Status Inode} (same : out.map Inode.bare = out'.map Inode.bare) :
    (∃ s, out = .error s ∧ out' = .error s) ∨
      ∃ inode inode', out = .ok inode ∧ out' = .ok inode' ∧ inode.bare = inode'.bare := by
  cases out with
  | error s =>
    cases out' with
    | error s' =>
      cases same
      exact .inl ⟨s, rfl, rfl⟩
    | ok => cases same
  | ok inode =>
    cases out' with
    | error => cases same
    | ok inode' => exact .inr ⟨inode, inode', rfl, rfl, Except.ok.inj same⟩

theorem statusOf_bare {out out' : Except Status Inode} (same : out.map Inode.bare = out'.map Inode.bare) :
    statusOf out = statusOf out' := by
  rcases bare_cases same with ⟨s, rfl, rfl⟩ | ⟨inode, inode', rfl, rfl, -⟩ <;> rfl

theorem same_handed (q : Rpc) {out out' : Except Status Inode} (same : out.map Inode.bare = out'.map Inode.bare) :
    Same q (handed q out) (handed q out') := by
  cases q with
  | createFile => exact same
  | mkDir => exact same
  | deleteFile => exact statusOf_bare same
  | rename => exact statusOf_bare same
  | rmDir => exact statusOf_bare same
  | _ => rfl

/-! ## The programs of clients -/

theorem alike_ready {α : Type} {client : OpenFSClient} {a : α} {p : ClientProg α} (alike : p.Alike Same p) :
    (if client.initialized = false then pure a else p : ClientProg α).Alike Same
      (if client.initialized = false then pure a else p) := by
  split
  · exact Prog.alike_pure _
  · exact alike

theorem alike_writeData (client : OpenFSClient) {inode inode' : Inode} (same : inode.bare = inode'.bare)
    (data : List UInt8) : (client.writeData inode data).Alike Same (client.writeData inode' data) := by
  have bare : ∀ inode : Inode, client.writeData inode data = client.writeData inode.bare data := fun _ => rfl
  rw [bare inode, bare inode', same]
  refine ((FailedWrites.uses_writeData client _ data).mono fun q later => ?_).alike
  intro reply reply' like
  cases q with
  | allocateBlocks => exact like
  | writeBlock => exact like
  | commitBlocks => exact like
  | _ => exact later.elim

theorem alike_readFound (client : OpenFSClient) {inode inode' : Inode} (same : inode.bare = inode'.bare)
    (outData : List UInt8) :
    (Cluster.readFound client outData (.ok inode)).Alike Same (Cluster.readFound client outData (.ok inode')) := by
  have bare : ∀ inode : Inode, Cluster.readFound client outData (.ok inode) =
    Cluster.readFound client outData (.ok inode.bare) := fun _ => rfl
  rw [bare inode, bare inode', same]
  unfold Cluster.readFound
  dsimp only
  split
  · exact Prog.alike_pure _
  · refine ((Cluster.uses_readLocated _ _ _ _).mono fun q reading => ?_).alike
    intro reply reply' like
    cases q with
    | getBlockLocations => exact like
    | readBlock => exact like
    | _ => exact reading.elim

/-- **An operation tells no stale record from a current one.** -/
theorem alike_prog (c : ClientCall) : (cluster.prog c).Alike Same (cluster.prog c) := by
  obtain ⟨client, op⟩ := c
  show (op.prog client).Alike Same (op.prog client)
  -- an operation of one request
  have once : ∀ {q : Rpc} {view : q.Reply → Outcome} {a : q.Reply},
      (∀ reply reply', Same q reply reply' → view reply = view reply') →
      ((if client.initialized = false then pure a else Prog.call q : ClientProg q.Reply) >>= fun reply =>
        pure (view reply)).Alike Same ((if client.initialized = false then pure a else Prog.call q) >>= fun reply =>
        pure (view reply)) := by
    intro q view a blind
    split
    · exact Prog.alike_pure _
    · refine Prog.alike_call_bind fun reply reply' like => ?_
      rw [blind reply reply' like]
      exact Prog.alike_pure _
  cases op with
  | writeFile path mode data =>
    refine Prog.Alike.bind ?_ fun _ => Prog.alike_pure _
    refine alike_ready (Prog.alike_call_bind fun reply reply' like => ?_)
    rcases bare_cases like with ⟨s, rfl, rfl⟩ | ⟨inode, inode', rfl, rfl, same⟩
    · exact Prog.alike_pure _
    · dsimp only
      split
      · exact Prog.alike_pure _
      · exact alike_writeData client same data
  | readFile path outData =>
    refine Prog.Alike.bind ?_ fun _ => Prog.alike_pure _
    cases ready : client.initialized with
    | false =>
      unfold readFile
      rw [if_pos ready]
      exact Prog.alike_pure _
    | true =>
      rw [Cluster.readFile_eq ready]
      refine Prog.alike_call_bind fun reply reply' like => ?_
      rcases bare_cases like with ⟨s, rfl, rfl⟩ | ⟨inode, inode', rfl, rfl, same⟩
      · exact Prog.alike_pure _
      · exact alike_readFound client same outData
  | createFile path mode fileSize =>
    exact once (q := .createFile path mode 0 0 fileSize) fun reply reply' like =>
      congrArg (fun s => (s, [])) (statusOf_bare like)
  | getFileInfo path =>
    exact once (q := .getFileInfo path) fun reply reply' like => congrArg (fun s => (s, [])) (statusOf_bare like)
  | mkDir path mode =>
    exact once (q := .mkDir path mode 0 0) fun reply reply' like => congrArg (fun s => (s, [])) (statusOf_bare like)
  | deleteFile path =>
    exact once (q := .deleteFile path) fun reply reply' like =>
      congrArg (fun s => ((s, []) : Outcome)) like
  | rename src dst =>
    exact once (q := .rename src dst) fun reply reply' like =>
      congrArg (fun s => ((s, []) : Outcome)) like
  | readDir path =>
    exact once (q := .readDir path) fun reply reply' like =>
      congrArg (fun reply => ((statusOf reply, []) : Outcome)) like
  | rmDir path =>
    exact once (q := .rmDir path) fun reply reply' like =>
      congrArg (fun s => ((s, []) : Outcome)) like

end OpenFS.Threads
