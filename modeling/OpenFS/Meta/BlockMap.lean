import Mathlib.Logic.Function.Basic
import OpenFS.Common.Types

/-!
# The block map

`inodeBlocks` keeps the block ids of every inode in commit order, `blockMetas`
the last record added for each id. Each operation holds the map's mutex.
-/

namespace OpenFS

structure BlockMap where
  inodeBlocks : UInt64 → Option (List UInt64)
  blockMetas : UInt64 → Option BlockMeta

namespace BlockMap

def init : BlockMap := { inodeBlocks := fun _ => none, blockMetas := fun _ => none }

/-- One round of the loop in `AddBlocks`. -/
def addBlock (inodeId : UInt64) (map : BlockMap) (blk : BlockMeta) : BlockMap :=
  { inodeBlocks := Function.update map.inodeBlocks inodeId
      (some ((map.inodeBlocks inodeId).getD [] ++ [blk.blockId])),
    blockMetas := Function.update map.blockMetas blk.blockId (some blk) }

/-- `inode_blocks_[inode_id]` makes the list even when there is no block to add. -/
def addBlocks (map : BlockMap) (inodeId : UInt64) (blocks : List BlockMeta) : Status × BlockMap :=
  let lists := Function.update map.inodeBlocks inodeId (some ((map.inodeBlocks inodeId).getD []))
  (.ok, blocks.foldl (addBlock inodeId) { map with inodeBlocks := lists })

def getBlocks (map : BlockMap) (inodeId : UInt64) : Except Status (List BlockMeta) :=
  match map.inodeBlocks inodeId with
  | none => .error .notFound
  | some blockIds => .ok (blockIds.filterMap map.blockMetas)

def updateBlock (map : BlockMap) (block : BlockMeta) : Status × BlockMap :=
  match map.blockMetas block.blockId with
  | none => (.notFound, map)
  | some _ => (.ok, { map with blockMetas := Function.update map.blockMetas block.blockId (some block) })

def removeBlocks (map : BlockMap) (inodeId : UInt64) : Status × BlockMap :=
  match map.inodeBlocks inodeId with
  | none => (.notFound, map)
  | some blockIds =>
    (.ok, { inodeBlocks := Function.update map.inodeBlocks inodeId none,
            blockMetas := blockIds.foldl (fun metas bid => Function.update metas bid none) map.blockMetas })

theorem foldl_addBlock_inodeBlocks (map : BlockMap) (i : UInt64) (blocks : List BlockMeta)
    (ids : List UInt64) (listed : map.inodeBlocks i = some ids) :
    (blocks.foldl (addBlock i) map).inodeBlocks =
      Function.update map.inodeBlocks i (some (ids ++ blocks.map BlockMeta.blockId)) := by
  induction blocks generalizing map ids with
  | nil =>
    simp only [List.foldl_nil, List.map_nil, List.append_nil]
    rw [← listed, Function.update_eq_self]
  | cons b rest ih =>
    rw [List.foldl_cons, ih _ (ids ++ [b.blockId]) (by simp [addBlock, listed])]
    simp [addBlock, listed]

/-- The ids of the batch are appended to the inode's list; no other list changes. -/
theorem addBlocks_inodeBlocks (map : BlockMap) (i : UInt64) (blocks : List BlockMeta) :
    (map.addBlocks i blocks).2.inodeBlocks = Function.update map.inodeBlocks i
      (some ((map.inodeBlocks i).getD [] ++ blocks.map BlockMeta.blockId)) := by
  unfold addBlocks
  rw [foldl_addBlock_inodeBlocks _ i blocks ((map.inodeBlocks i).getD []) (by simp)]
  simp

/-- The last record of the batch for an id wins; other ids keep theirs. -/
theorem foldl_addBlock_blockMetas (map : BlockMap) (i id : UInt64) (blocks : List BlockMeta) :
    (blocks.foldl (addBlock i) map).blockMetas id =
      (blocks.reverse.find? (fun b => b.blockId = id)).or (map.blockMetas id) := by
  induction blocks generalizing map with
  | nil => rfl
  | cons b rest ih =>
    rw [List.foldl_cons, ih, List.reverse_cons, List.find?_append, Option.or_assoc]
    congr 1
    by_cases same : b.blockId = id
    · subst same; simp [addBlock]
    · simp [addBlock, same, Ne.symm same]

theorem addBlocks_blockMetas (map : BlockMap) (i id : UInt64) (blocks : List BlockMeta) :
    (map.addBlocks i blocks).2.blockMetas id =
      (blocks.reverse.find? (fun b => b.blockId = id)).or (map.blockMetas id) :=
  foldl_addBlock_blockMetas _ i id blocks

/-- An id of the batch gets a record of the batch. -/
theorem addBlocks_of_mem (map : BlockMap) (i : UInt64) {id : UInt64} {blocks : List BlockMeta}
    (member : id ∈ blocks.map BlockMeta.blockId) :
    ∃ b ∈ blocks, b.blockId = id ∧ (map.addBlocks i blocks).2.blockMetas id = some b := by
  rw [addBlocks_blockMetas]
  cases found : blocks.reverse.find? (fun b => decide (b.blockId = id)) with
  | some b =>
    exact ⟨b, List.mem_reverse.mp (List.mem_of_find?_eq_some found), by simpa using List.find?_some found, rfl⟩
  | none =>
    obtain ⟨b, there, same⟩ := List.mem_map.mp member
    have := List.find?_eq_none.mp found b (List.mem_reverse.mpr there)
    simp [same] at this

/-- An id outside the batch keeps its record. -/
theorem addBlocks_of_not_mem {map : BlockMap} {i id : UInt64} {blocks : List BlockMeta}
    (outside : id ∉ blocks.map BlockMeta.blockId) :
    (map.addBlocks i blocks).2.blockMetas id = map.blockMetas id := by
  rw [addBlocks_blockMetas, List.find?_eq_none.mpr]
  · rfl
  · intro b there same
    exact outside (List.mem_map.mpr ⟨b, List.mem_reverse.mp there, by simpa using same⟩)

end BlockMap

end OpenFS
