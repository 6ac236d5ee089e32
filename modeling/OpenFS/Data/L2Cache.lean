import Mathlib.Algebra.Group.Int.Defs
import OpenFS.Common.Types
import OpenFS.Lib.NodeList

/-!
# The block cache of a data node

Blocks that were accessed once are in the probationary list, the others in the protected
list, and an index leads to their nodes. An iterator is the name of a node. What a
reference to a freed node yields is a parameter, and each `erase` of a list is noted with
whether the iterator was one of that list.
-/

namespace OpenFS

open NodeList

structure CacheEntry where
  blockId : UInt64
  data : List UInt8
  accessCount : Int
  deriving DecidableEq, Repr

/-- `++` of an `int`. -/
def intSucc (n : Int) : Int := if n = 2 ^ 31 - 1 then -2 ^ 31 else n + 1

structure CacheStats where
  hits : UInt64 := 0
  misses : UInt64 := 0
  evictions : UInt64 := 0
  deriving DecidableEq, Repr

inductive Segment
  | probationary
  | protected_
  deriving DecidableEq, Repr

/-- A call of `erase` on a list, and whether the iterator belongs to it. -/
structure Erase where
  segment : Segment
  own : Bool
  deriving DecidableEq, Repr

/-- What `Get` copies, and whether the node it copies from is still in a list. -/
structure Hit where
  data : List UInt8
  live : Bool
  deriving DecidableEq, Repr

structure L2Cache where
  maxSizeBytes : Nat
  currentSizeBytes : Nat := 0
  probationary : List (Node CacheEntry) := []
  protected_ : List (Node CacheEntry) := []
  index : List (UInt64 × Nat) := []
  stats : CacheStats := {}
  /-- The name of the next node. -/
  nextNode : Nat := 0

namespace L2Cache

def nodes (c : L2Cache) : List (Node CacheEntry) := c.probationary ++ c.protected_

def list (c : L2Cache) : Segment → List (Node CacheEntry)
  | .probationary => c.probationary
  | .protected_ => c.protected_

/-- `*it`. -/
def entry (c : L2Cache) (it : Nat) : Option CacheEntry := deref c.nodes it

/-- An assignment through `*it`. -/
def assign (c : L2Cache) (it : Nat) (f : CacheEntry → CacheEntry) : L2Cache :=
  { c with probationary := NodeList.assign c.probationary it f, protected_ := NodeList.assign c.protected_ it f }

@[irreducible] def addSize (c : L2Cache) (n : Nat) : L2Cache :=
  { c with currentSizeBytes := u64 (c.currentSizeBytes + n) }

@[irreducible] def subSize (c : L2Cache) (n : Nat) : L2Cache :=
  { c with currentSizeBytes := u64 (c.currentSizeBytes + 2 ^ 64 - u64 n) }

/-- `erase(it)` on a list: the node is unlinked where it is. -/
def eraseFrom (c : L2Cache) (segment : Segment) (it : Nat) : L2Cache × Erase :=
  ({ c with probationary := unlink c.probationary it, protected_ := unlink c.protected_ it },
    ⟨segment, (c.list segment).any fun n => n.id = it⟩)

/-- The first node of a list with the block id is erased from it. -/
def scanErase (c : L2Cache) (segment : Segment) (blockId : UInt64) : L2Cache × List Erase :=
  match (c.list segment).find? fun n => n.val.blockId = blockId with
  | none => (c, [])
  | some pit =>
    let (c, erased) := c.eraseFrom segment pit.id
    (c, [erased])

/-- The entry is moved out of its node, which keeps the block id, and into a new one. -/
def moveToProtected (c : L2Cache) (it : Nat) : L2Cache × List Erase :=
  match c.entry it with
  | none => (c, [])
  | some entry =>
    let c := c.assign it fun e => { e with data := [] }
    let (c, erased) := c.scanErase .probationary entry.blockId
    let (c, erased') := c.scanErase .protected_ entry.blockId
    ({ c with
        protected_ := ⟨c.nextNode, entry⟩ :: c.protected_
        index := insert c.index entry.blockId c.nextNode
        nextNode := c.nextNode + 1 }, erased ++ erased')

/-- The back of the probationary list goes, or else that of the protected one. -/
def evictBack (c : L2Cache) : Option L2Cache :=
  match c.probationary.getLast? with
  | some n =>
    some { c.subSize n.val.data.length with
      index := erase c.index n.val.blockId
      probationary := c.probationary.dropLast
      stats := { c.stats with evictions := c.stats.evictions + 1 } }
  | none =>
    match c.protected_.getLast? with
    | some n =>
      some { c.subSize n.val.data.length with
        index := erase c.index n.val.blockId
        protected_ := c.protected_.dropLast
        stats := { c.stats with evictions := c.stats.evictions + 1 } }
    | none => none

/-- The loop of `EvictIfNeeded`, for so many nodes. -/
def evictLoop : Nat → L2Cache → L2Cache
  | 0, c => c
  | fuel + 1, c =>
    if c.maxSizeBytes < c.currentSizeBytes then
      match c.evictBack with
      | none => c
      | some c => evictLoop fuel c
    else c

def evictIfNeeded (c : L2Cache) : L2Cache := evictLoop c.nodes.length c

def put (c : L2Cache) (blockId : UInt64) (data : List UInt8) : L2Cache × List Erase :=
  match find c.index blockId with
  | some it =>
    match c.entry it with
    | none => (c, [])
    | some entry =>
      let entry' : CacheEntry := { entry with data := data, accessCount := intSucc entry.accessCount }
      let c := ((c.subSize entry.data.length).assign it fun _ => entry').addSize data.length
      if 2 ≤ entry'.accessCount then c.moveToProtected it else (c, [])
  | none =>
    let c := { c with
      probationary := ⟨c.nextNode, { blockId := blockId, data := data, accessCount := 1 }⟩ :: c.probationary
      index := insert c.index blockId c.nextNode
      nextNode := c.nextNode + 1 }
    ((c.addSize data.length).evictIfNeeded, [])

/-- `stale` is what the memory of a freed node yields. -/
def get (c : L2Cache) (blockId : UInt64) (stale : List UInt8) : Option Hit × L2Cache × List Erase :=
  match find c.index blockId with
  | none => (none, { c with stats := { c.stats with misses := c.stats.misses + 1 } }, [])
  | some it =>
    match c.entry it with
    | none => (none, c, [])
    | some entry =>
      let entry' : CacheEntry := { entry with accessCount := intSucc entry.accessCount }
      let c := c.assign it fun _ => entry'
      let (c, erased) := if 2 ≤ entry'.accessCount then c.moveToProtected it else (c, [])
      -- The copy is made through the reference that was taken before the move.
      let hit : Hit := match c.entry it with
        | some entry => ⟨entry.data, true⟩
        | none => ⟨stale, false⟩
      (some hit, { c with stats := { c.stats with hits := c.stats.hits + 1 } }, erased)

/-- The count is set to 0 before it is looked at, so the list is always the probationary one. -/
def remove (c : L2Cache) (blockId : UInt64) : L2Cache × List Erase :=
  match find c.index blockId with
  | none => (c, [])
  | some it =>
    match c.entry it with
    | none => (c, [])
    | some entry =>
      let entry' : CacheEntry := { entry with accessCount := 0 }
      let c := (c.subSize entry.data.length).assign it fun _ => entry'
      let (c, erased) :=
        if entry'.accessCount ≤ 1 then c.eraseFrom .probationary it else c.eraseFrom .protected_ it
      ({ c with index := erase c.index blockId }, [erased])

def contains (c : L2Cache) (blockId : UInt64) : Bool := (find c.index blockId).isSome

def clear (c : L2Cache) : L2Cache :=
  { c with probationary := [], protected_ := [], index := [], currentSizeBytes := 0 }

def size (c : L2Cache) : Nat := c.currentSizeBytes

def capacity (c : L2Cache) : Nat := c.maxSizeBytes

def count (c : L2Cache) : Nat := c.index.length

def getStats (c : L2Cache) : CacheStats := c.stats

/-! ## Calls -/

inductive Call
  | put (blockId : UInt64) (data : List UInt8)
  | get (blockId : UInt64) (stale : List UInt8)
  | remove (blockId : UInt64)
  | clear

/-- The cache after a call, and the erases that it made. -/
def Call.exec (c : L2Cache) : Call → L2Cache × List Erase
  | .put blockId data => c.put blockId data
  | .get blockId stale => (c.get blockId stale).2
  | .remove blockId => c.remove blockId
  | .clear => (c.clear, [])

end L2Cache

end OpenFS
