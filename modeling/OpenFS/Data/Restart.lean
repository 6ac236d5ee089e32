import OpenFS.Data.SpaceAccounts

/-!
# Restarting a data node

`Stop` closes the disks, and a new node opens them again. The entries of
`block_locations_` were only in memory, and `Start` does not build them up again.
-/

namespace OpenFS.DataNode

open FileLog DiskManager

/-- `Stop`, and `Start` of a new node on the same disks. -/
def restart (node : DataNode) (uuid now : Nat → UInt64) (registered : UInt64) : Status × DataNode :=
  start {} node.stop.1 uuid now registered

/-- The call returns `kOk`. -/
def Succeeds (node : DataNode) : Call → Prop
  | .write blockId level data dataSize crc32 => ∃ place,
    (node.writeBlock blockId level data dataSize crc32).1 = .ok place
  | .delete blockId => (node.deleteBlock blockId).1 = .ok

/-- The new node knows every block that the old one knew: it deletes it and frees exactly
its physical blocks, and reads the same; and it counts as many. -/
structure LosesNothing (old new : DataNode) : Prop where
  deleted : ∀ e ∈ old.blockLocations, (new.deleteBlock e.1).1 = .ok
  freed : ∀ e ∈ old.blockLocations, ∀ i d d', new.diskPool.disks[i]? = some d →
    (new.deleteBlock e.1).2.diskPool.disks[i]? = some d' → ∀ j, d'.bitmap.isAllocated j = true ↔
      d.bitmap.isAllocated j = true ∧ ¬ (e.2.diskId = i ∧ InSpan (span d.superblock e.2) j)
  reads : ∀ e ∈ old.blockLocations, ∀ beyond, (new.readBlock e.2.diskId e.2.physicalOffset beyond).1 =
    (old.readBlock e.2.diskId e.2.physicalOffset beyond).1
  count : new.getBlockCount = old.getBlockCount

variable {node : DataNode}

/-- The new node knows no blocks. -/
theorem restart_forgets (node : DataNode) (uuid now : Nat → UInt64) (registered : UInt64) :
    (node.restart uuid now registered).2.blockLocations = [] := by
  unfold restart start
  split <;> rfl

theorem not_deleted (unknown : node.blockLocations = []) (blockId : UInt64) :
    (node.deleteBlock blockId).1 = .notFound := by
  have none : node.location blockId = none := by
    rw [location_eq_none, unknown]
    exact List.forall_mem_nil _
  unfold DataNode.deleteBlock
  rw [none]

/-- **A restart loses nothing** exactly if there is nothing to lose. -/
theorem losesNothing_iff (node : DataNode) (uuid now : Nat → UInt64) (registered : UInt64) :
    LosesNothing node (node.restart uuid now registered).2 ↔ node.blockLocations = [] := by
  have unknown := restart_forgets node uuid now registered
  constructor
  · intro kept
    by_contra some
    obtain ⟨e, member⟩ := List.exists_mem_of_ne_nil _ some
    have deleted := kept.deleted e member
    rw [not_deleted unknown] at deleted
    cases deleted
  · intro nothing
    refine ⟨?_, ?_, ?_, ?_⟩
    · rw [nothing]
      exact List.forall_mem_nil _
    · rw [nothing]
      exact List.forall_mem_nil _
    · rw [nothing]
      exact List.forall_mem_nil _
    · unfold getBlockCount
      rw [unknown, nothing]

/-- A block that was written is not known after a restart. -/
theorem restart_loses_blocks : ¬ ∀ first node, Installed first → NodeRun Succeeds first node →
    ∀ uuid now registered, LosesNothing node (node.restart uuid now registered).2 := by
  intro claim
  obtain ⟨first, d, installed, one, blocks, empty⟩ := exists_oneDisk
  have books := (installed.kept.1.disks 0 d (by rw [one]; rfl)).books
  rw [empty] at books
  obtain ⟨d', start, written, -, -⟩ := write_oneDisk one books (j := 0) (by omega)
    (by rw [← Bool.not_eq_true, books.bits]; simp [spansOn]) 5 .l0 [] 0 0 (by decide)
  have run : NodeRun Succeeds first (first.writeBlock 5 .l0 [] 0 0).2 :=
    .call .start (.write 5 .l0 [] 0 0) ⟨_, congrArg Prod.fst written⟩
  rw [written] at run
  have lost := (claim _ _ installed run (fun _ => 0) (fun _ => 0) 1).deleted _ List.mem_cons_self
  rw [not_deleted (restart_forgets ..)] at lost
  cases lost

end OpenFS.DataNode
