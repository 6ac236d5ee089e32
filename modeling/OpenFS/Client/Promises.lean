import OpenFS.Client.ReadPrograms

/-!
# What calls promise

Every call of a cluster does what it promises when it returns `kOk`, whatever the others
do: a write leaves the file with its blocks, a read returns what was written.
-/

namespace OpenFS

open Requests OpenFSClient

namespace Cluster

/-- What call `k` has achieved when it returns `kOk`. -/
def Promise (k : Nat) (c : ClientCall) (out : Outcome) (h : Log) : Prop :=
  out.1 = .ok →
    match c.op with
    | .writeFile path _ data => ∃ i, Made h k path (UInt64.ofNat data.length) i ∧
        (data = [] ∨ ∃ blocks, Committed h k i blocks)
    | .readFile path _ => ∀ inode, .answered k (.getFileInfo path) (.ok inode) ∈ h → inode.fileType = .regular →
        inode.size ≠ 0 → ∃ j data, Wrote h j inode.inodeId data ∧
          (data.length ≤ BlockSplitter.maxSplit → out.2 = data)
    | _ => True

theorem uses_ready {α : Type} {P : Rpc → Prop} {client : OpenFSClient} {a : α} {p : ClientProg α}
    (uses : p.Uses P) :
    (if client.initialized = false then pure a else p : ClientProg α).Uses P := by
  split
  · exact Prog.uses_pure _ _
  · exact uses

/-- **Every call keeps its promise.** -/
theorem achieves_prog (k : Nat) (c : ClientCall) (h : Log) (first : ∀ e ∈ h, e.caller < k) :
    Achieves k (Promise k c) (cluster.prog c) (.began k c :: h) := by
  have fresh : ∀ q reply, .answered k q reply ∉ (.began k c :: h : Log) := by
    intro q reply member
    rcases List.mem_cons.mp member with new | old
    · cases new
    · exact Nat.lt_irrefl _ (first _ old)
  obtain ⟨client, op⟩ := c
  have plain : ∀ p : ClientProg Outcome, p.Uses Plain → (∀ out h', Promise k ⟨client, op⟩ out h') →
      Achieves k (Promise k ⟨client, op⟩) p (.began k ⟨client, op⟩ :: h) :=
    fun p uses kept => (achieves_of_plain uses).mono fun out h' _ => kept out h'
  cases op with
  | writeFile path mode data =>
    refine meets_bind (achieves_writeFile client path mode List.mem_cons_self fun i blocks => fresh _ _) ?_
    intro r h' done
    refine meets_pure fun h'' since ok => ?_
    obtain ⟨i, made, blocks⟩ := done ok
    exact ⟨i, made.mono since.subset, blocks.imp_right fun ⟨blocks, committed⟩ => ⟨blocks, since.subset committed⟩⟩
  | readFile path outData =>
    refine meets_bind (achieves_readFile client path outData fresh) ?_
    intro r h' done
    refine meets_pure fun h'' since ok inode there regular nonempty => ?_
    obtain ⟨j, data, wrote, whole⟩ := done ok inode ((since.mem_iff rfl).mp there) regular nonempty
    exact ⟨j, data, wrote.mono since.subset, whole⟩
  | createFile path mode fileSize =>
    exact plain _ (Prog.uses_bind (uses_ready (Prog.uses_call trivial)) fun _ => Prog.uses_pure _ _)
      fun _ _ _ => trivial
  | deleteFile path =>
    exact plain _ (Prog.uses_bind (uses_ready (Prog.uses_call trivial)) fun _ => Prog.uses_pure _ _)
      fun _ _ _ => trivial
  | getFileInfo path =>
    exact plain _ (Prog.uses_bind (uses_ready (Prog.uses_call trivial)) fun _ => Prog.uses_pure _ _)
      fun _ _ _ => trivial
  | rename src dst =>
    exact plain _ (Prog.uses_bind (uses_ready (Prog.uses_call trivial)) fun _ => Prog.uses_pure _ _)
      fun _ _ _ => trivial
  | mkDir path mode =>
    exact plain _ (Prog.uses_bind (uses_ready (Prog.uses_call trivial)) fun _ => Prog.uses_pure _ _)
      fun _ _ _ => trivial
  | readDir path =>
    exact plain _ (Prog.uses_bind (uses_ready (Prog.uses_call trivial)) fun _ => Prog.uses_pure _ _)
      fun _ _ _ => trivial
  | rmDir path =>
    exact plain _ (Prog.uses_bind (uses_ready (Prog.uses_call trivial)) fun _ => Prog.uses_pure _ _)
      fun _ _ _ => trivial

variable {st : State} {begins : State → ClientCall → Prop}

/-- In every run the servers are sound, and the promises kept. -/
theorem kept (run : cluster.Run begins IdsLast st) : cluster.Kept IdsLast Sound Promise st :=
  run.keeps (fun _ => Fresh.sound) (fun _ _ _ => Sound.drift) (fun _ _ k c sound => sound.began k c) achieves_prog

/-- The promise of a call that has returned. -/
theorem promise (run : cluster.Run begins IdsLast st) {k : Nat} {c : ClientCall} {out : Outcome}
    (returned : st.tasks[k]? = some ⟨c, .ret out⟩) : Promise k c out st.history :=
  (kept run).tasks k _ returned st.history (.refl k st.history)

end Cluster

end OpenFS
