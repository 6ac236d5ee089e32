import Mathlib.Data.List.Nodup
import Mathlib.Data.List.Pairwise
import OpenFS.Client.Cluster
import OpenFS.Client.Slices

/-!
# What the history says of files

Who made an inode, which blocks were committed to it, and that these spell data: each
was written with its bytes. Once in the history, it stays.
-/

namespace OpenFS.Cluster

open Requests

/-- The inode id that is given to a new node. -/
def madeIds : Event ClientCall Rpc Rpc.Reply → List UInt64
  | .answered _ (.createFile ..) (.ok inode) => [inode.inodeId]
  | .answered _ (.mkDir ..) (.ok inode) => [inode.inodeId]
  | _ => []

/-- The block ids that are given out. -/
def allocatedIds : Event ClientCall Rpc Rpc.Reply → List UInt64
  | .answered _ (.allocateBlocks ..) (.ok allocated) => allocated.map BlockMeta.blockId
  | _ => []

/-- Call `k` made the file with id `i`. -/
def Made (h : Log) (k : Nat) (path : Str) (size i : UInt64) : Prop :=
  ∃ mode uid gid inode, .answered k (.createFile path mode uid gid size) (.ok inode) ∈ h ∧ inode.inodeId = i

/-- Call `k` is a `WriteFile` with these data and made the file. -/
def Wrote (h : Log) (k : Nat) (i : UInt64) (data : List UInt8) : Prop :=
  ∃ client path mode, .began k ⟨client, .writeFile path mode data⟩ ∈ h ∧ Made h k path (UInt64.ofNat data.length) i

def Committed (h : Log) (k : Nat) (i : UInt64) (blocks : List BlockMeta) : Prop :=
  .answered k (.commitBlocks i blocks) .ok ∈ h

/-- The bytes were written to the place that the record names, and it fits them. -/
structure Put (h : Log) (b : BlockMeta) (bytes : List UInt8) : Prop where
  written : ∃ k addr segmentId, .answered k (.writeBlock addr b.blockId segmentId bytes b.crc32)
    (.ok (b.segmentId, b.offset)) ∈ h
  size : b.size.toNat = bytes.length
  crc32 : b.crc32 = computeCRC32 bytes

/-- The blocks hold the chunks. -/
def Spell (h : Log) (blocks : List BlockMeta) (chunks : List (List UInt8)) : Prop :=
  List.Forall₂ (Put h) blocks chunks

/-- Call `k` was given the ids of these blocks. -/
def Allotted (h : Log) (k : Nat) (blocks : List BlockMeta) : Prop :=
  ∃ i blockCount level allocated, .answered k (.allocateBlocks i blockCount level) (.ok allocated) ∈ h ∧
    blocks.map BlockMeta.blockId = allocated.map BlockMeta.blockId

section
variable {h h' : Log} {k k' : Nat} {i : UInt64}

theorem Made.mono {path : Str} {size : UInt64} (made : Made h k path size i) (sub : h ⊆ h') :
    Made h' k path size i := by
  obtain ⟨mode, uid, gid, inode, member, same⟩ := made
  exact ⟨mode, uid, gid, inode, sub member, same⟩

theorem Wrote.mono {data : List UInt8} (wrote : Wrote h k i data) (sub : h ⊆ h') : Wrote h' k i data := by
  obtain ⟨client, path, mode, began, made⟩ := wrote
  exact ⟨client, path, mode, sub began, made.mono sub⟩

theorem Put.mono {b : BlockMeta} {bytes : List UInt8} (put : Put h b bytes) (sub : h ⊆ h') : Put h' b bytes := by
  obtain ⟨⟨k, addr, segmentId, member⟩, size, crc32⟩ := put
  exact ⟨⟨k, addr, segmentId, sub member⟩, size, crc32⟩

theorem Spell.mono {blocks : List BlockMeta} {chunks : List (List UInt8)} (spell : Spell h blocks chunks)
    (sub : h ⊆ h') : Spell h' blocks chunks :=
  List.Forall₂.imp (fun _ _ put => put.mono sub) spell

theorem Allotted.mono {blocks : List BlockMeta} (allotted : Allotted h k blocks) (sub : h ⊆ h') :
    Allotted h' k blocks := by
  obtain ⟨j, blockCount, level, allocated, member, same⟩ := allotted
  exact ⟨j, blockCount, level, allocated, sub member, same⟩

/-! ## What is given out once -/

theorem eq_of_nodup_flatMap {α β : Type} {l : List α} {f : α → List β} (distinct : (l.flatMap f).Nodup) {a b : α}
    {x : β} (member : a ∈ l) (member' : b ∈ l) (there : x ∈ f a) (there' : x ∈ f b) : a = b := by
  have apart := (List.nodup_flatMap.mp distinct).2
  by_contra other
  have symm : Std.Symm (Function.onFun List.Disjoint f) := ⟨fun _ _ d _ here there => d there here⟩
  exact apart.forall member member' other there there'

/-- A file has one maker. -/
theorem Made.unique (distinct : (h.flatMap madeIds).Nodup) {path path' : Str} {size size' : UInt64}
    (made : Made h k path size i) (made' : Made h k' path' size' i) : k = k' ∧ path = path' ∧ size = size' := by
  obtain ⟨mode, uid, gid, inode, member, same⟩ := made
  obtain ⟨mode', uid', gid', inode', member', same'⟩ := made'
  have event := eq_of_nodup_flatMap (x := i) distinct member member' (by simp [madeIds, same])
    (by simp [madeIds, same'])
  cases event
  exact ⟨rfl, rfl, rfl⟩

theorem Wrote.unique (distinct : (h.flatMap madeIds).Nodup) {data data' : List UInt8} (wrote : Wrote h k i data)
    (wrote' : Wrote h k' i data') : k = k' := by
  obtain ⟨_, _, _, -, made⟩ := wrote
  obtain ⟨_, _, _, -, made'⟩ := wrote'
  exact (made.unique distinct made').1

/-- Calls are given different block ids. -/
theorem Allotted.apart (distinct : (h.flatMap allocatedIds).Nodup) (other : k ≠ k')
    {blocks blocks' : List BlockMeta}
    (allotted : Allotted h k blocks) (allotted' : Allotted h k' blocks') {id : UInt64}
    (member : id ∈ blocks.map BlockMeta.blockId) : id ∉ blocks'.map BlockMeta.blockId := by
  obtain ⟨j, blockCount, level, allocated, given, same⟩ := allotted
  obtain ⟨j', blockCount', level', allocated', given', same'⟩ := allotted'
  intro both
  rw [same] at member
  rw [same'] at both
  have event := eq_of_nodup_flatMap distinct given given' (x := id) member both
  cases event
  exact other rfl

/-- The ids that a call is given are different. -/
theorem Allotted.nodup (distinct : (h.flatMap allocatedIds).Nodup) {blocks : List BlockMeta}
    (allotted : Allotted h k blocks) : (blocks.map BlockMeta.blockId).Nodup := by
  obtain ⟨j, blockCount, level, allocated, given, same⟩ := allotted
  rw [same]
  exact (List.nodup_flatMap.mp distinct).1 _ given

end

end OpenFS.Cluster
