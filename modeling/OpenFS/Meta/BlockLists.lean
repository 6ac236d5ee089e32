import Mathlib.Data.List.Induction
import Mathlib.Data.List.Nodup
import OpenFS.Meta.BlockMap

/-!
# The block map as a map of lists

Two tables together behave as one: from an inode to the blocks that were added to it since
its blocks were last removed. `GetBlocks` skips an id without a record, so what makes it
complete is that every listed id has one, which needs that no id is added twice.
-/

namespace OpenFS.BlockMap

/-- One call that changes the map. -/
inductive Call where
  | addBlocks (inodeId : UInt64) (blocks : List BlockMeta)
  | updateBlock (block : BlockMeta)
  | removeBlocks (inodeId : UInt64)

def exec (map : BlockMap) : Call → Status × BlockMap
  | .addBlocks inodeId blocks => map.addBlocks inodeId blocks
  | .updateBlock block => map.updateBlock block
  | .removeBlocks inodeId => map.removeBlocks inodeId

def run (calls : List Call) : BlockMap := calls.foldl (fun map c => (map.exec c).2) init

/-- The ids that a call adds. -/
def Call.addedIds : Call → List UInt64
  | .addBlocks _ blocks => blocks.map BlockMeta.blockId
  | .updateBlock _ => []
  | .removeBlocks _ => []

/-! ## The list of an inode -/

/-- The new record in the place of the one with its id. -/
def replace (block old : BlockMeta) : BlockMeta := if old.blockId = block.blockId then block else old

/-- What a call makes of the list of inode `i`; there is none before blocks are added. -/
def Call.onList (i : UInt64) (list : Option (List BlockMeta)) : Call → Option (List BlockMeta)
  | .addBlocks inodeId blocks => if inodeId = i then some (list.getD [] ++ blocks) else list
  | .updateBlock block => list.map (List.map (replace block))
  | .removeBlocks inodeId => if inodeId = i then none else list

/-- The list of inode `i` after the calls. -/
def listAfter (calls : List Call) (i : UInt64) : Option (List BlockMeta) := calls.foldl (Call.onList i) none

/-- What `GetBlocks` says of a list. -/
def answer : Option (List BlockMeta) → Except Status (List BlockMeta)
  | none => .error .notFound
  | some blocks => .ok blocks

/-- The call is on the inode or on one of the blocks that are listed for it. -/
def Call.Concerns (i : UInt64) (map : BlockMap) : Call → Prop
  | .addBlocks inodeId _ => inodeId = i
  | .updateBlock block => ∃ blocks, map.getBlocks i = .ok blocks ∧ block.blockId ∈ blocks.map BlockMeta.blockId
  | .removeBlocks inodeId => inodeId = i

/-- The map is an ordered block list for each file. -/
structure OrderedLists (calls : List Call) : Prop where
  /-- The blocks since the last removal, in the order in which they were added, with their
  latest values. -/
  blocks : ∀ i, (run calls).getBlocks i = answer (listAfter calls i)
  /-- There are none exactly if every addition has been removed. -/
  missing : ∀ i, (run calls).getBlocks i = .error .notFound ↔
    ∀ before blocks after, calls = before ++ .addBlocks i blocks :: after → .removeBlocks i ∈ after
  /-- What concerns one inode is not seen at another. -/
  isolated : ∀ before last, calls = before ++ [last] → ∀ i j, i ≠ j → last.Concerns i (run before) →
    (run calls).getBlocks j = (run before).getBlocks j

theorem run_snoc (calls : List Call) (c : Call) : run (calls ++ [c]) = ((run calls).exec c).2 := by
  simp [run]

theorem listAfter_snoc (calls : List Call) (c : Call) (i : UInt64) :
    listAfter (calls ++ [c]) i = c.onList i (listAfter calls i) := by
  simp [listAfter]

@[simp] theorem replace_blockId (block old : BlockMeta) : (replace block old).blockId = old.blockId := by
  unfold replace
  split <;> simp [*]

theorem replace_of_ne {block old : BlockMeta} (other : old.blockId ≠ block.blockId) : replace block old = old :=
  if_neg other

theorem map_replace_of_absent {block : BlockMeta} {blocks : List BlockMeta}
    (absent : block.blockId ∉ blocks.map BlockMeta.blockId) : blocks.map (replace block) = blocks := by
  apply (List.map_congr_left _).trans (List.map_id blocks)
  intro old there
  apply replace_of_ne
  intro same
  exact absent (same ▸ List.mem_map_of_mem there)

/-! ## The two tables hold the lists -/

/-- The tables spell out the lists; every id on a list was added. -/
structure Holds (map : BlockMap) (lists : UInt64 → Option (List BlockMeta)) (added : List UInt64) : Prop where
  ids : ∀ i, map.inodeBlocks i = (lists i).map (List.map BlockMeta.blockId)
  metas : ∀ i blocks, lists i = some blocks → ∀ b ∈ blocks, map.blockMetas b.blockId = some b
  apart : ∀ i j blocks others, lists i = some blocks → lists j = some others →
    ∀ b ∈ blocks, ∀ c ∈ others, b.blockId = c.blockId → i = j
  known : ∀ i blocks, lists i = some blocks → ∀ b ∈ blocks, b.blockId ∈ added

variable {map : BlockMap} {lists : UInt64 → Option (List BlockMeta)} {added : List UInt64}

theorem holds_init : Holds init (fun _ => none) [] where
  ids _ := rfl
  metas _ _ listed := by cases listed
  apart _ _ _ _ listed := by cases listed
  known _ _ listed := by cases listed

/-- No id on a list is skipped. -/
theorem Holds.getBlocks_eq (holds : Holds map lists added) (i : UInt64) : map.getBlocks i = answer (lists i) := by
  unfold getBlocks
  rw [holds.ids i]
  cases listed : lists i with
  | none => rfl
  | some blocks =>
    simp only [Option.map_some, answer, List.filterMap_map, Except.ok.injEq]
    have found : ∀ b ∈ blocks, (map.blockMetas ∘ BlockMeta.blockId) b = some b := holds.metas i blocks listed
    rw [List.filterMap_congr found, List.filterMap_some]

/-- An id of a batch without repetitions gets its own record. -/
theorem addBlocks_metas {i : UInt64} {blocks : List BlockMeta} (once : (blocks.map BlockMeta.blockId).Nodup)
    {b : BlockMeta} (member : b ∈ blocks) : (map.addBlocks i blocks).2.blockMetas b.blockId = some b := by
  obtain ⟨b', member', same, found⟩ := addBlocks_of_mem map i (List.mem_map_of_mem (f := BlockMeta.blockId) member)
  rw [found, List.inj_on_of_nodup_map once member' member same]

theorem Holds.addBlocks (holds : Holds map lists added) {i : UInt64} {blocks : List BlockMeta}
    (once : (blocks.map BlockMeta.blockId).Nodup) (fresh : ∀ id ∈ blocks.map BlockMeta.blockId, id ∉ added) :
    Holds (map.addBlocks i blocks).2 (fun j => Call.onList j (lists j) (.addBlocks i blocks))
      (added ++ blocks.map BlockMeta.blockId) := by
  -- a block of the new list of `j` was there before, or is of the batch and `j` is `i`
  have origin : ∀ j l, Call.onList j (lists j) (.addBlocks i blocks) = some l → ∀ b ∈ l,
      (∃ old, lists j = some old ∧ b ∈ old) ∨ i = j ∧ b ∈ blocks := by
    intro j l listed b member
    by_cases same : i = j
    · simp only [Call.onList, if_pos same, Option.some.injEq] at listed
      subst listed
      rcases List.mem_append.mp member with old | new
      · cases before : lists j with
        | none => simp [before] at old
        | some blocks' => exact .inl ⟨blocks', rfl, by simpa [before] using old⟩
      · exact .inr ⟨same, new⟩
    · simp only [Call.onList, if_neg same] at listed
      exact .inl ⟨l, listed, member⟩
  have old_or_new : ∀ j old, lists j = some old → ∀ b ∈ old, ∀ c ∈ blocks, b.blockId ≠ c.blockId := by
    intro j old listed b member c new same
    exact fresh c.blockId (List.mem_map_of_mem new) (same ▸ holds.known j old listed b member)
  constructor
  · intro j
    rw [addBlocks_inodeBlocks]
    by_cases same : i = j
    · subst same
      rw [Function.update_self, holds.ids i]
      cases lists i <;> simp [Call.onList]
    · rw [Function.update_of_ne (Ne.symm same), holds.ids j]
      simp [Call.onList, same]
  · intro j l listed b member
    rcases origin j l listed b member with ⟨old, before, there⟩ | ⟨-, new⟩
    · rw [addBlocks_of_not_mem]
      · exact holds.metas j old before b there
      · intro inBatch
        exact fresh b.blockId inBatch (holds.known j old before b there)
    · exact addBlocks_metas once new
  · intro j k l m listed listed' b member c member' same
    rcases origin j l listed b member with ⟨old, before, there⟩ | ⟨rfl, new⟩
    · rcases origin k m listed' c member' with ⟨old', before', there'⟩ | ⟨rfl, new'⟩
      · exact holds.apart j k old old' before before' b there c there' same
      · exact absurd same (old_or_new j old before b there c new')
    · rcases origin k m listed' c member' with ⟨old', before', there'⟩ | ⟨rfl, -⟩
      · exact absurd same.symm (old_or_new k old' before' c there' b new)
      · rfl
  · intro j l listed b member
    apply List.mem_append.mpr
    rcases origin j l listed b member with ⟨old, before, there⟩ | ⟨-, new⟩
    · exact .inl (holds.known j old before b there)
    · exact .inr (List.mem_map_of_mem new)

theorem Holds.updateBlock (holds : Holds map lists added) (block : BlockMeta) :
    Holds (map.updateBlock block).2 (fun j => Call.onList j (lists j) (.updateBlock block)) added := by
  have origin : ∀ j l, Call.onList j (lists j) (.updateBlock block) = some l →
      ∃ old, lists j = some old ∧ l = old.map (replace block) := by
    intro j l listed
    obtain ⟨old, before, rfl⟩ := Option.map_eq_some_iff.mp listed
    exact ⟨old, before, rfl⟩
  have lists_ids : ∀ j, (map.updateBlock block).2.inodeBlocks j = (lists j).map (List.map BlockMeta.blockId) := by
    intro j
    rw [← holds.ids j]
    unfold BlockMap.updateBlock
    cases map.blockMetas block.blockId <;> rfl
  constructor
  · intro j
    rw [lists_ids j]
    cases lists j <;> simp [Call.onList]
  · intro j l listed b member
    obtain ⟨old, before, rfl⟩ := origin j l listed
    obtain ⟨b', there, rfl⟩ := List.mem_map.mp member
    have found := holds.metas j old before b' there
    rw [replace_blockId]
    unfold BlockMap.updateBlock
    by_cases same : b'.blockId = block.blockId
    · rw [same] at found ⊢
      simp [found, replace, same]
    · rw [replace_of_ne same]
      cases map.blockMetas block.blockId with
      | none => exact found
      | some _ => simpa [same] using found
  · intro j k l m listed listed' b member c member' same
    obtain ⟨old, before, rfl⟩ := origin j l listed
    obtain ⟨old', before', rfl⟩ := origin k m listed'
    obtain ⟨b', there, rfl⟩ := List.mem_map.mp member
    obtain ⟨c', there', rfl⟩ := List.mem_map.mp member'
    rw [replace_blockId, replace_blockId] at same
    exact holds.apart j k old old' before before' b' there c' there' same
  · intro j l listed b member
    obtain ⟨old, before, rfl⟩ := origin j l listed
    obtain ⟨b', there, rfl⟩ := List.mem_map.mp member
    rw [replace_blockId]
    exact holds.known j old before b' there

theorem foldl_erase_of_not_mem {ids : List UInt64} {id : UInt64} (outside : id ∉ ids)
    (metas : UInt64 → Option BlockMeta) :
    ids.foldl (fun metas bid => Function.update metas bid none) metas id = metas id := by
  induction ids generalizing metas with
  | nil => rfl
  | cons bid rest ih =>
    rw [List.mem_cons, not_or] at outside
    rw [List.foldl_cons, ih outside.2, Function.update_of_ne outside.1]

theorem Holds.removeBlocks (holds : Holds map lists added) (i : UInt64) :
    Holds (map.removeBlocks i).2 (fun j => Call.onList j (lists j) (.removeBlocks i)) added := by
  have origin : ∀ j l, Call.onList j (lists j) (.removeBlocks i) = some l → i ≠ j ∧ lists j = some l := by
    intro j l listed
    by_cases same : i = j
    · simp [Call.onList, same] at listed
    · exact ⟨same, by simpa [Call.onList, same] using listed⟩
  constructor
  · intro j
    unfold BlockMap.removeBlocks
    rw [holds.ids i]
    by_cases same : i = j
    · subst same
      cases listed : lists i with
      | none => simpa [Call.onList, listed] using holds.ids i
      | some blocks => simp [Call.onList]
    · have other := holds.ids j
      cases lists i <;> simpa [Call.onList, same, Function.update_of_ne (Ne.symm same)] using other
  · intro j l listed b member
    obtain ⟨other, before⟩ := origin j l listed
    have found := holds.metas j l before b member
    unfold BlockMap.removeBlocks
    rw [holds.ids i]
    cases removed : lists i with
    | none => simpa using found
    | some blocks =>
      -- the records of `i` go, and `b` is listed for another inode
      have outside : b.blockId ∉ blocks.map BlockMeta.blockId := by
        intro there
        obtain ⟨c, member', same⟩ := List.mem_map.mp there
        exact other (holds.apart i j blocks l removed before c member' b member same)
      simpa using (foldl_erase_of_not_mem outside map.blockMetas).trans found
  · intro j k l m listed listed'
    exact holds.apart j k l m (origin j l listed).2 (origin k m listed').2
  · intro j l listed
    exact holds.known j l (origin j l listed).2

theorem Holds.exec (holds : Holds map lists added) (c : Call) (once : c.addedIds.Nodup)
    (fresh : ∀ id ∈ c.addedIds, id ∉ added) :
    Holds (map.exec c).2 (fun j => c.onList j (lists j)) (added ++ c.addedIds) := by
  cases c with
  | addBlocks i blocks => exact holds.addBlocks once fresh
  | updateBlock block =>
    rw [Call.addedIds, List.append_nil]
    exact holds.updateBlock block
  | removeBlocks i =>
    rw [Call.addedIds, List.append_nil]
    exact holds.removeBlocks i

theorem holds_run (calls : List Call) (once : (calls.flatMap Call.addedIds).Nodup) :
    Holds (run calls) (listAfter calls) (calls.flatMap Call.addedIds) := by
  induction calls using List.reverseRecOn with
  | nil => exact holds_init
  | append_singleton before c ih =>
    rw [List.flatMap_append, List.flatMap_singleton, List.nodup_append'] at once
    have step := (ih once.1).exec c once.2.1 fun id new old => once.2.2 old new
    rw [run_snoc, List.flatMap_append, List.flatMap_singleton, funext (listAfter_snoc before c)]
    exact step

/-! ## The law -/

/-- A place in a longer list is one in the shorter list, or the last. -/
theorem snoc_eq_split_iff {α : Type} {earlier before after : List α} {last a : α} :
    earlier ++ [last] = before ++ a :: after ↔
      (∃ rest, after = rest ++ [last] ∧ earlier = before ++ a :: rest) ∨
        after = [] ∧ earlier = before ∧ last = a := by
  rcases List.eq_nil_or_concat after with rfl | ⟨rest, x, rfl⟩
  · constructor
    · intro same
      exact .inr ⟨rfl, List.append_inj' same rfl |>.1, by simpa using (List.append_inj' same rfl).2⟩
    · rintro (⟨rest, empty, -⟩ | ⟨-, rfl, rfl⟩)
      · simp at empty
      · rfl
  · rw [List.concat_eq_append]
    constructor
    · intro same
      rw [← List.cons_append, ← List.append_assoc] at same
      obtain ⟨front, back⟩ := List.append_inj' same rfl
      exact .inl ⟨rest, by rw [back], front⟩
    · rintro (⟨rest', ends, rfl⟩ | ⟨empty, -⟩)
      · rw [ends]
        simp
      · simp at empty

theorem listAfter_eq_none_iff (calls : List Call) (i : UInt64) :
    listAfter calls i = none ↔
      ∀ before blocks after, calls = before ++ .addBlocks i blocks :: after → .removeBlocks i ∈ after := by
  induction calls using List.reverseRecOn with
  | nil =>
    apply iff_of_true rfl
    intro before blocks after split
    simp at split
  | append_singleton earlier c ih =>
    rw [listAfter_snoc]
    simp only [snoc_eq_split_iff]
    -- a call that leaves the list as it is changes neither side
    have other : (∀ blocks, c ≠ .addBlocks i blocks) → c ≠ .removeBlocks i →
        (listAfter earlier i = none ↔ ∀ before blocks after,
          (∃ rest, after = rest ++ [c] ∧ earlier = before ++ .addBlocks i blocks :: rest) ∨
            after = [] ∧ earlier = before ∧ c = .addBlocks i blocks → .removeBlocks i ∈ after) := by
      intro notAdd notRemove
      rw [ih]
      constructor
      · rintro gone before blocks after (⟨rest, rfl, split⟩ | ⟨-, -, same⟩)
        · exact List.mem_append_left _ (gone before blocks rest split)
        · exact absurd same (notAdd blocks)
      · intro gone before blocks rest split
        have there := gone before blocks (rest ++ [c]) (.inl ⟨rest, rfl, split⟩)
        simpa [Ne.symm notRemove] using there
    cases c with
    | addBlocks k blocks =>
      by_cases same : k = i
      · subst same
        apply iff_of_false
        · simp [Call.onList]
        · intro gone
          have there := gone earlier blocks [] (.inr ⟨rfl, rfl, rfl⟩)
          simp at there
      · simp only [Call.onList, if_neg same]
        exact other (by simp [same]) (by simp)
    | updateBlock block =>
      simp only [Call.onList, Option.map_eq_none_iff]
      exact other (by simp) (by simp)
    | removeBlocks k =>
      by_cases same : k = i
      · subst same
        apply iff_of_true
        · simp [Call.onList]
        · rintro before blocks after (⟨rest, rfl, -⟩ | ⟨-, -, same⟩)
          · simp
          · cases same
      · simp only [Call.onList, if_neg same]
        exact other (by simp) (by simp [same])

/-- A call on one inode, or on a block of it, leaves the list of another. -/
theorem Holds.onList_of_concerns (holds : Holds map lists added) {c : Call} {i j : UInt64} (other : i ≠ j)
    (concerns : c.Concerns i map) : c.onList j (lists j) = lists j := by
  cases c with
  | addBlocks k blocks =>
    rw [Call.Concerns] at concerns
    simp [Call.onList, concerns, other]
  | removeBlocks k =>
    rw [Call.Concerns] at concerns
    simp [Call.onList, concerns, other]
  | updateBlock block =>
    obtain ⟨blocks, got, there⟩ := concerns
    rw [holds.getBlocks_eq] at got
    cases listed : lists i with
    | none => simp [listed, answer] at got
    | some blocks' =>
      rw [listed, answer, Except.ok.injEq] at got
      subst got
      obtain ⟨b, member, same⟩ := List.mem_map.mp there
      cases listed' : lists j with
      | none => rfl
      | some others =>
        simp only [Call.onList, Option.map_some, Option.some.injEq]
        apply map_replace_of_absent
        intro there'
        obtain ⟨c, member', same'⟩ := List.mem_map.mp there'
        exact other (holds.apart i j blocks' others listed listed' b member c member' (same.trans same'.symm))

/-- The map is an ordered block list for each file in every run that adds each id once. -/
theorem ordered_lists (calls : List Call) (once : (calls.flatMap Call.addedIds).Nodup) : OrderedLists calls where
  blocks i := (holds_run calls once).getBlocks_eq i
  missing i := by
    rw [(holds_run calls once).getBlocks_eq i, ← listAfter_eq_none_iff]
    cases listAfter calls i <;> simp [answer]
  isolated before last split i j other concerns := by
    have once' : (before.flatMap Call.addedIds).Nodup := by
      rw [split, List.flatMap_append] at once
      exact (List.nodup_append'.mp once).1
    rw [(holds_run calls once).getBlocks_eq j, (holds_run before once').getBlocks_eq j, split, listAfter_snoc,
      (holds_run before once').onList_of_concerns other concerns]

/-- Two files, with an update and a removal in between. -/
def sampleCalls : List Call :=
  [.addBlocks 2 [{ blockId := 10, size := 3 }], .addBlocks 3 [{ blockId := 11, size := 4 }],
    .updateBlock { blockId := 10, size := 5 }, .removeBlocks 3, .addBlocks 2 [{ blockId := 12, size := 6 }]]

theorem sampleCalls_ordered : OrderedLists sampleCalls ∧
    (run sampleCalls).getBlocks 2 = .ok [{ blockId := 10, size := 5 }, { blockId := 12, size := 6 }] :=
  ⟨ordered_lists sampleCalls (by decide), ((ordered_lists sampleCalls (by decide)).blocks 2).trans rfl⟩

end OpenFS.BlockMap
