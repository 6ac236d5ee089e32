import OpenFS.Client.ClusterInvariant
import OpenFS.Client.FailedWrites

/-!
# `WriteFile` among others

What the program of a `WriteFile` achieves while other clients are at work: it keeps the
servers sound, and when it returns `kOk` the file is there, with all its blocks if it
has any bytes.
-/

namespace OpenFS.Cluster

open Requests OpenFSClient

abbrev Achieves (k : Nat) {α : Type} (Q : α → Log → Prop) (p : ClientProg α) (h : Log) : Prop :=
  Meets cluster.answer IdsLast Sound k Q p h

def IsCommit : Rpc → Prop
  | .commitBlocks .. => True
  | _ => False

variable {k : Nat} {h : Log}

/-- A program of plain requests. -/
theorem achieves_of_plain {α : Type} {p : ClientProg α} (uses : p.Uses Plain) :
    Achieves k (fun _ _ => True) p h := by
  induction p generalizing h with
  | ret a => exact fun _ _ => trivial
  | ask q next ih => exact fun h' sys r _ sound admitted => ⟨sound.plain r k uses.1 admitted, ih _ (uses.2 _)⟩

theorem map_zip_fst {α β γ : Type} {l : List α} {l' : List β} (f : α → γ) (same : l.length = l'.length) :
    (l.zip l').map (fun pair => f pair.1) = l.map f := by
  conv_rhs => rw [← List.map_fst_zip (Nat.le_of_eq same), List.map_map]
  rfl

theorem map_zip_snd {α β γ : Type} {l : List α} {l' : List β} (f : β → γ) (same : l.length = l'.length) :
    (l.zip l').map (fun pair => f pair.2) = l'.map f := by
  conv_rhs => rw [← List.map_snd_zip (Nat.le_of_eq same.symm), List.map_map]
  rfl

/-- The blocks so far spell the chunks so far, and bear the ids given. -/
structure Spelled (h : Log) (blocks : List BlockMeta) (chunks : List (List UInt8)) (ids : List UInt64) : Prop where
  spell : Spell h blocks chunks
  ids : blocks.map BlockMeta.blockId = ids

theorem uses_writeBlocks (data : List UInt8) (pairs : List (BlockMeta × BlockSlice)) (client : OpenFSClient)
    (committed : List BlockMeta) : (writeBlocks data client pairs committed).Uses fun q => ¬ IsCommit q := by
  induction pairs generalizing client committed with
  | nil => exact Prog.uses_pure _ _
  | cons pair rest ih =>
    obtain ⟨alloc, slice⟩ := pair
    rw [writeBlocks]
    refine Prog.uses_bind (Prog.uses_call id) fun reply => ?_
    rcases reply with s | ⟨segmentId, offset⟩
    · exact Prog.uses_pure _ _
    · exact ih _ _

/-- Step 4: every block is put, or the write fails. -/
theorem achieves_writeBlocks (data : List UInt8) {pairs : List (BlockMeta × BlockSlice)}
    (fits : ∀ pair ∈ pairs, BlockSplitter.Describes pair.2 (pair.2.bytes data)) (client : OpenFSClient)
    {committed : List BlockMeta} {chunks : List (List UInt8)} {ids : List UInt64}
    (spelled : Spelled h committed chunks ids) :
    Achieves k (fun r h' => r.1 ≠ .error .ok ∧ ∀ blocks, r.1 = .ok blocks →
        Spelled h' blocks (chunks ++ pairs.map fun pair => pair.2.bytes data)
          (ids ++ pairs.map fun pair => pair.1.blockId))
      (writeBlocks data client pairs committed) h := by
  induction pairs generalizing h client committed chunks ids with
  | nil =>
    refine meets_pure fun h' since => ⟨by simp, fun blocks ok => ?_⟩
    cases ok
    rw [List.map_nil, List.map_nil, List.append_nil, List.append_nil]
    exact ⟨spelled.spell.mono since.subset, spelled.ids⟩
  | cons pair rest ih =>
    obtain ⟨alloc, slice⟩ := pair
    obtain ⟨first, others⟩ := List.forall_mem_cons.mp fits
    rw [writeBlocks]
    generalize client.dataAddr alloc.nodeId = found
    obtain ⟨addr, client⟩ := found
    dsimp only
    refine meets_call_bind fun h' sys r since sound _ => ⟨sound.writeBlock r k _ _ _ _ first.small, ?_⟩
    have refused : (cluster.answer r sys (.writeBlock addr alloc.blockId alloc.segmentId (slice.bytes data)
        slice.crc32)).1 ≠ .error .ok := sound.writeBlock_ne r _ _ _ _ first.small
    generalize (cluster.answer r sys (.writeBlock addr alloc.blockId alloc.segmentId (slice.bytes data)
      slice.crc32)).1 = reply at refused ⊢
    rcases reply with s | ⟨segmentId, offset⟩
    · refine meets_pure fun h'' _ => ⟨?_, fun blocks ok => by cases ok⟩
      rintro ⟨⟩
      exact refused rfl
    · have sub : h ⊆ .answered k (.writeBlock addr alloc.blockId alloc.segmentId
          (slice.bytes data) slice.crc32) (.ok (segmentId, offset)) :: h' :=
        List.subset_cons_of_subset _ since.subset
      have put : Put (.answered k (.writeBlock addr alloc.blockId alloc.segmentId
          (slice.bytes data) slice.crc32) (.ok (segmentId, offset)) :: h')
          (committedBlock alloc slice segmentId offset) (slice.bytes data) :=
        ⟨⟨k, _, _, List.mem_cons_self⟩, first.size, first.crc32⟩
      have more : Spelled _ (committed ++ [committedBlock alloc slice segmentId offset])
          (chunks ++ [slice.bytes data]) (ids ++ [alloc.blockId]) :=
        ⟨List.rel_append (spelled.spell.mono sub) (.cons put .nil), by rw [List.map_append, spelled.ids]; rfl⟩
      refine (ih others _ more).mono fun r h'' done => ?_
      simpa [List.append_assoc] using done

/-- Call `k` has committed nothing. -/
def Uncommitted (h : Log) (k : Nat) : Prop := ∀ i blocks, ¬ Committed h k i blocks

theorem Uncommitted.without {h' : Log} (first : Uncommitted h k) (without : Without IsCommit k h h') :
    Uncommitted h' k :=
  fun i blocks committed => first i blocks (without.none _ _ trivial committed)

/-- Step 5. -/
theorem achieves_commit (client : OpenFSClient) {i : UInt64} {data : List UInt8} {committed : List BlockMeta}
    (wrote : Wrote h k i data) (first : Uncommitted h k) (allotted : Allotted h k committed)
    (nonempty : committed ≠ []) (spell : Spell h committed (BlockSplitter.chunks data)) :
    Achieves k (fun r h' => r.1 = .ok → ∃ blocks, Committed h' k i blocks)
      (do let s ← MetaConnection.commitBlocks i committed; pure (s, client)) h := by
  refine meets_call_bind fun h' sys r since sound _ => ?_
  have still : Uncommitted h' k := first.without ((Without.refl IsCommit k h).since since)
  have kept := sound.commitBlocks r k (wrote.mono since.subset) (allotted.mono since.subset) nonempty
    (spell.mono since.subset) still
  refine ⟨kept, meets_pure fun h'' since' _ => ⟨committed, ?_⟩⟩
  have answered : (cluster.answer r sys (.commitBlocks i committed)).1 = .ok :=
    congrArg Prod.fst (System.answer_commitBlocks r sys i committed)
  rw [answered] at since'
  exact since'.subset List.mem_cons_self

/-- Steps 2 to 5: when they return `kOk`, blocks are committed. -/
theorem achieves_writeData (client : OpenFSClient) {inode : Inode} {data : List UInt8}
    (wrote : Wrote h k inode.inodeId data) (first : Uncommitted h k) :
    Achieves k (fun r h' => r.1 = .ok → ∃ blocks, Committed h' k inode.inodeId blocks)
      (client.writeData inode data) h := by
  have fits := fun slice => @BlockSplitter.describes_of_mem_split data slice
  unfold writeData
  dsimp only
  have all : (BlockSplitter.split data.length data).map (fun slice => slice.bytes data) =
    BlockSplitter.chunks data := rfl
  generalize BlockSplitter.split data.length data = slices at fits all
  cases slices with
  | nil => exact meets_pure fun _ _ ok => by cases ok
  | cons slice slices =>
    dsimp only [List.head?_cons]
    refine meets_call_bind fun h' sys r since sound admitted =>
      ⟨sound.plain r k (q := .allocateBlocks inode.inodeId _ slice.level) trivial admitted, ?_⟩
    have without : Without IsCommit k h h' := (Without.refl _ k h).since since
    generalize given : (cluster.answer r sys (.allocateBlocks inode.inodeId (UInt32.ofNat (slice :: slices).length)
      slice.level)).1 = reply
    rcases reply with s | allocated
    · refine meets_pure fun _ _ ok => ?_
      have answer : (sys.answer r (.allocateBlocks inode.inodeId (UInt32.ofNat (slice :: slices).length)
        slice.level)).1 = .error s := given
      rw [System.answer_allocateBlocks] at answer
      exact absurd ok (BlockAllocator.allocate_error answer)
    · dsimp only
      split
      · exact meets_pure fun _ _ ok => by cases ok
      · next same =>
        have length : allocated.length = (slice :: slices).length := not_not.mp same
        have before := without.answered (q := .allocateBlocks inode.inodeId (UInt32.ofNat (slice :: slices).length)
          slice.level) id (.ok allocated)
        have fitting : ∀ pair ∈ allocated.zip (slice :: slices),
            BlockSplitter.Describes pair.2 (pair.2.bytes data) :=
          fun pair member => fits pair.2 (List.of_mem_zip member).2
        have blank : Spelled (.answered k (.allocateBlocks inode.inodeId (UInt32.ofNat (slice :: slices).length)
          slice.level) (.ok allocated) :: h') [] [] [] := ⟨.nil, rfl⟩
        have written := achieves_writeBlocks (k := k) data fitting client blank
        refine meets_bind (written.without (uses_writeBlocks data _ client []) (.refl IsCommit k _)) ?_
        rintro ⟨out, client⟩ h'' ⟨⟨refused, spelled⟩, later⟩
        cases out with
        | error s =>
          refine meets_pure fun _ _ ok => ?_
          cases ok
          exact absurd rfl refused
        | ok committed =>
          obtain ⟨spell, ids⟩ := spelled committed rfl
          rw [List.nil_append] at spell ids
          rw [map_zip_snd (fun slice => slice.bytes data) length, all] at spell
          rw [map_zip_fst BlockMeta.blockId length] at ids
          have nonempty : committed ≠ [] := by
            rintro rfl
            have none := congrArg List.length ids
            rw [List.length_map, List.length_map, length] at none
            cases none
          have allotted : Allotted h'' k committed := ⟨_, _, _, allocated, later.sub List.mem_cons_self, ids⟩
          have calm := before.trans later
          exact achieves_commit client (wrote.mono calm.sub) (first.without calm) allotted nonempty spell

/-- **A write that returns `kOk` made the file**, and committed blocks to it if it has bytes. -/
theorem achieves_writeFile (client : OpenFSClient) (path : Str) (mode : UInt32) {data : List UInt8}
    (began : .began k ⟨client, .writeFile path mode data⟩ ∈ h) (first : Uncommitted h k) :
    Achieves k (fun r h' => r.1 = .ok → ∃ i, Made h' k path (UInt64.ofNat data.length) i ∧
        (data = [] ∨ ∃ blocks, Committed h' k i blocks))
      (client.writeFile path mode data) h := by
  unfold writeFile
  split
  · exact meets_pure fun _ _ ok => by cases ok
  · refine meets_call_bind fun h' sys r since sound admitted =>
      ⟨sound.plain r k (q := .createFile path mode 0 0 (UInt64.ofNat data.length)) trivial admitted, ?_⟩
    have still := ((Without.refl IsCommit k h).since since).answered
      (q := .createFile path mode 0 0 (UInt64.ofNat data.length)) id
    generalize given : (cluster.answer r sys (.createFile path mode 0 0 (UInt64.ofNat data.length))).1 = reply
    rcases reply with s | inode
    · refine meets_pure fun _ _ ok => ?_
      have answer : (sys.svc.namespaceMgr.createFile (r.clock 0) path mode 0 0 (UInt64.ofNat data.length)).1 =
        .error s := given
      exact absurd ok (FailedWrites.createFile_error answer).1
    · have made : Made (.answered k (.createFile path mode 0 0 (UInt64.ofNat data.length))
        (.ok inode) :: h') k path
          (UInt64.ofNat data.length) inode.inodeId := ⟨mode, 0, 0, inode, List.mem_cons_self, rfl⟩
      dsimp only
      split
      · next empty =>
        exact meets_pure fun h'' later _ => ⟨inode.inodeId, made.mono later.subset, .inl empty⟩
      · have wrote : Wrote (.answered k (.createFile path mode 0 0 (UInt64.ofNat data.length)) (.ok inode) :: h') k
            inode.inodeId data := ⟨client, path, mode, (still _).sub began, made⟩
        refine (achieves_writeData client wrote (first.without (still _))).grown.mono fun result h'' done ok => ?_
        obtain ⟨committed, sub⟩ := done
        exact ⟨inode.inodeId, made.mono sub, .inr (committed ok)⟩

end OpenFS.Cluster
