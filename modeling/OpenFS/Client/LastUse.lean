import OpenFS.Client.CacheContents
import OpenFS.Lib.Recency

/-!
# The caches as lists by last use

Each of the three caches of `MetadataCache` stands for a list of keys with content and
expiry, the most recently used one in front.
-/

namespace OpenFS.MetadataCache

open NodeList

/-- Key, content and expiry for each entry, in the order of last use. -/
structure Reference where
  inodes : List (UInt64 × Inode × Nat) := []
  blocks : List (UInt64 × List BlockMeta × Nat) := []
  dirs : List (Str × List DirEntry × Nat) := []

/-- The expiry of what is put at a reading of the clock. -/
def expiry (ttlSeconds now : UInt64) : Nat := now.toNat + ttlSeconds.toNat * 1000000000

/-- An entry is past its expiry; one that expires at 0 never is. -/
def pastLease (now : UInt64) (expiry : Nat) : Bool := expiry ≠ 0 ∧ expiry < now.toNat

section
variable (past : UInt64 → Nat → Bool)

/-- What a call of one of the caches makes of the reference. -/
def Call.onReference (maxEntries : Nat) (ttlSeconds : UInt64) (r : Reference) : Call → Reference
  | .getInode inodeId now => { r with inodes := (Recency.get (fun e => past now e.2) inodeId r.inodes).2 }
  | .putInode inodeId inode _ now =>
    { r with inodes := Recency.put maxEntries inodeId (inode, expiry ttlSeconds now) r.inodes }
  | .invalidateInode inodeId => { r with inodes := Recency.without inodeId r.inodes }
  | .getBlockLocations inodeId now => { r with blocks := (Recency.get (fun e => past now e.2) inodeId r.blocks).2 }
  | .putBlockLocations inodeId blocks _ now =>
    { r with blocks := Recency.put maxEntries inodeId (blocks, expiry ttlSeconds now) r.blocks }
  | .invalidateBlockLocations inodeId => { r with blocks := Recency.without inodeId r.blocks }
  | .getDirEntries path now => { r with dirs := (Recency.get (fun e => past now e.2) path r.dirs).2 }
  | .putDirEntries path entries _ now =>
    { r with dirs := Recency.put maxEntries path (entries, expiry ttlSeconds now) r.dirs }
  | .invalidateDir path => { r with dirs := Recency.without path r.dirs }
  | .clear => {}
  | _ => r

def referenceAfter (maxEntries : Nat) (ttlSeconds : UInt64) (calls : List Call) : Reference :=
  calls.foldl (Call.onReference past maxEntries ttlSeconds) {}

end

/-- A call of one of the three caches, at a clock reading where a lease fits into 64 bits. -/
def Call.OfCaches (ttlSeconds : UInt64) : Call → Prop
  | .getInode _ _ | .invalidateInode _ | .getBlockLocations _ _ | .invalidateBlockLocations _
  | .getDirEntries _ _ | .invalidateDir _ | .clear => True
  | .putInode _ _ _ now | .putBlockLocations _ _ _ now | .putDirEntries _ _ _ now => expiry ttlSeconds now < 2 ^ 64
  | _ => False

/-- One of the caches and the list that it stands for. -/
structure Follows {κ α β : Type} [DecidableEq κ] (l : Lru κ α) (view : α → β × Nat) (maxEntries : Nat)
    (reference : List (κ × β × Nat)) : Prop where
  entries : l.entries.map (Prod.map id view) = reference
  /-- The index leads from the keys of the list to their nodes. -/
  index : ∀ k it, find l.index k = some it ↔ ∃ v, ⟨it, (k, v)⟩ ∈ l.list
  only : (l.list.map fun n => n.val.1).Nodup
  short : l.index.length ≤ maxEntries

def viewInode (e : InodeCacheEntry) : Inode × Nat := (e.inode, e.expireTimeNs.toNat)

def viewBlocks (e : BlockLocCacheEntry) : List BlockMeta × Nat := (e.blocks, e.expireTimeNs.toNat)

def viewDir (e : DirCacheEntry) : List DirEntry × Nat := (e.entries, e.expireTimeNs.toNat)

/-- The caches follow the reference, and each lookup finds what the reference has. -/
structure BehavesAs (past : UInt64 → Nat → Bool) (c : MetadataCache) (r : Reference) : Prop where
  inodes : Follows c.inodes viewInode c.maxEntries r.inodes
  blocks : Follows c.blocks viewBlocks c.maxEntries r.blocks
  dirs : Follows c.dirs viewDir c.maxEntries r.dirs
  inode_hits : ∀ inodeId now, (c.getInode inodeId now).map Prod.fst =
    some ((Recency.get (fun e => past now e.2) inodeId r.inodes).1.map Prod.fst)
  block_hits : ∀ inodeId now, (c.getBlockLocations inodeId now).map Prod.fst =
    some ((Recency.get (fun e => past now e.2) inodeId r.blocks).1.map Prod.fst)
  dir_hits : ∀ path now, (c.getDirEntries path now).map Prod.fst =
    some ((Recency.get (fun e => past now e.2) path r.dirs).1.map Prod.fst)

/-! ## One list -/

section
variable {κ α β : Type} [DecidableEq κ] {l : Lru κ α} {view : α → β × Nat} {reference : List (κ × β × Nat)}

theorem follows_of_entries (rep : l.Rep) (same : l.entries.map (Prod.map id view) = reference) {maxEntries : Nat}
    (short : reference.length ≤ maxEntries) : Follows l view maxEntries reference where
  entries := same
  index k it := by
    rw [Indexed.find_iff rep]
    constructor
    · rintro ⟨⟨_, v⟩, member, rfl⟩
      exact ⟨v, member⟩
    · rintro ⟨v, member⟩
      exact ⟨(k, v), member, rfl⟩
  only := rep.keys
  short := by
    rw [rep.length_index, ← List.length_map (f := Prod.map id view), same]
    exact short

theorem get_follows (rep : l.Rep) (same : l.entries.map (Prod.map id view) = reference) {expired : α → Bool}
    {past : Nat → Bool} (agree : ∀ v, expired v = past (view v).2) (k : κ) :
    (l.get expired k).1.map view = (Recency.get (fun e => past e.2) k reference).1 ∧
      (l.get expired k).2.entries.map (Prod.map id view) = (Recency.get (fun e => past e.2) k reference).2 := by
  have expired_eq : expired = (fun e => past e.2) ∘ view := funext agree
  obtain ⟨hit, left⟩ := Lru.get_entries rep expired k
  rw [hit, left, ← same, Recency.get_map, ← expired_eq]
  exact ⟨rfl, rfl⟩

theorem put_follows (rep : l.Rep) (same : l.entries.map (Prod.map id view) = reference) (maxEntries : Nat) (k : κ)
    (v : α) : (l.put maxEntries k v).2.entries.map (Prod.map id view) =
      Recency.put maxEntries k (view v) reference := by
  rw [(Lru.put_entries rep maxEntries k v).1, ← same, Recency.put_map]

theorem remove_follows (rep : l.Rep) (same : l.entries.map (Prod.map id view) = reference) (k : κ) :
    (l.remove k).entries.map (Prod.map id view) = Recency.without k reference := by
  rw [Lru.remove_entries rep k, ← same, Recency.without_map]

end

/-! ## The clock -/

theorem isExpired_eq (now : UInt64) (e : CacheEntryBase) :
    isExpired now e = pastLease now e.expireTimeNs.toNat := by
  unfold isExpired pastLease
  apply decide_eq_decide.mpr
  rw [UInt64.lt_iff_toNat_lt, ne_eq, ← UInt64.toNat_inj]
  rfl

theorem lease_expiry {ttlSeconds now : UInt64} (fits : expiry ttlSeconds now < 2 ^ 64) :
    (now + ttlSeconds * 1000000000).toNat = expiry ttlSeconds now := by
  unfold expiry at *
  have product : (ttlSeconds * 1000000000).toNat = ttlSeconds.toNat * 1000000000 := by
    rw [UInt64.toNat_mul]
    apply Nat.mod_eq_of_lt
    exact Nat.lt_of_le_of_lt (Nat.le_add_left _ _) fits
  rw [UInt64.toNat_add, product]
  exact Nat.mod_eq_of_lt fits

/-! ## All calls -/

/-- The lists are those of the reference, which keeps within the capacity. -/
structure Tracks (maxEntries : Nat) (ttlSeconds : UInt64) (c : MetadataCache) (r : Reference) : Prop where
  rep : c.Rep
  capacity : c.maxEntries = maxEntries
  ttl : c.ttlSeconds = ttlSeconds
  inodes : c.inodes.entries.map (Prod.map id viewInode) = r.inodes
  blocks : c.blocks.entries.map (Prod.map id viewBlocks) = r.blocks
  dirs : c.dirs.entries.map (Prod.map id viewDir) = r.dirs
  fewInodes : r.inodes.length ≤ maxEntries
  fewBlocks : r.blocks.length ≤ maxEntries
  fewDirs : r.dirs.length ≤ maxEntries

variable {maxEntries : Nat} {ttlSeconds : UInt64} {c : MetadataCache} {r : Reference}

theorem tracks_new (maxEntries : Nat) (ttlSeconds : UInt64) :
    Tracks maxEntries ttlSeconds (new maxEntries ttlSeconds) {} :=
  ⟨rep_new _ _, rfl, rfl, rfl, rfl, rfl, Nat.zero_le _, Nat.zero_le _, Nat.zero_le _⟩

theorem lease_toNat {version now : UInt64} (ttl : c.ttlSeconds = ttlSeconds)
    (fits : expiry ttlSeconds now < 2 ^ 64) :
    (c.lease version now).expireTimeNs.toNat = expiry ttlSeconds now := by
  unfold lease
  rw [ttl]
  exact lease_expiry fits

/-- Each call returns, and does to the lists what it does to the reference. -/
theorem Tracks.exec (tracks : Tracks maxEntries ttlSeconds c r) {call : Call} (basic : call.OfCaches ttlSeconds) :
    ∃ c', call.exec c = some c' ∧
      Tracks maxEntries ttlSeconds c' (call.onReference pastLease maxEntries ttlSeconds r) := by
  have free := tracks.rep.free
  cases call with
  | getInode inodeId now =>
    have ran := exec_getInode free inodeId now
    refine ⟨_, ran, ?_⟩
    exact { tracks with
      rep := (exec_spec tracks.rep ran).1
      inodes := (get_follows tracks.rep.inodes tracks.inodes (fun _ => isExpired_eq now _) inodeId).2
      fewInodes := Nat.le_trans (Recency.length_get_le _ _ _) tracks.fewInodes }
  | putInode inodeId inode version now =>
    let entry : InodeCacheEntry := { c.lease version now with inode := inode }
    have ran := exec_putInode free inodeId inode version now
    refine ⟨_, ran, ?_⟩
    exact { tracks with
      rep := (exec_spec tracks.rep ran).1
      inodes := by
        have put := put_follows tracks.rep.inodes tracks.inodes c.maxEntries inodeId entry
        rw [viewInode, lease_toNat tracks.ttl basic] at put
        rw [put, tracks.capacity]
        rfl
      fewInodes := Recency.length_put_le tracks.fewInodes _ _ }
  | invalidateInode inodeId =>
    have ran := exec_invalidateInode free inodeId
    refine ⟨_, ran, ?_⟩
    exact { tracks with
      rep := (exec_spec tracks.rep ran).1
      inodes := remove_follows tracks.rep.inodes tracks.inodes inodeId
      fewInodes := Nat.le_trans (Recency.length_without_le _ _) tracks.fewInodes }
  | getBlockLocations inodeId now =>
    have ran := exec_getBlockLocations free inodeId now
    refine ⟨_, ran, ?_⟩
    exact { tracks with
      rep := (exec_spec tracks.rep ran).1
      blocks := (get_follows tracks.rep.blocks tracks.blocks (fun _ => isExpired_eq now _) inodeId).2
      fewBlocks := Nat.le_trans (Recency.length_get_le _ _ _) tracks.fewBlocks }
  | putBlockLocations inodeId blocks version now =>
    let entry : BlockLocCacheEntry := { c.lease version now with inodeId := inodeId, blocks := blocks }
    have ran := exec_putBlockLocations free inodeId blocks version now
    refine ⟨_, ran, ?_⟩
    exact { tracks with
      rep := (exec_spec tracks.rep ran).1
      blocks := by
        have put := put_follows tracks.rep.blocks tracks.blocks c.maxEntries inodeId entry
        rw [viewBlocks, lease_toNat tracks.ttl basic] at put
        rw [put, tracks.capacity]
        rfl
      fewBlocks := Recency.length_put_le tracks.fewBlocks _ _ }
  | invalidateBlockLocations inodeId =>
    have ran := exec_invalidateBlockLocations free inodeId
    refine ⟨_, ran, ?_⟩
    exact { tracks with
      rep := (exec_spec tracks.rep ran).1
      blocks := remove_follows tracks.rep.blocks tracks.blocks inodeId
      fewBlocks := Nat.le_trans (Recency.length_without_le _ _) tracks.fewBlocks }
  | getDirEntries path now =>
    have ran := exec_getDirEntries free path now
    refine ⟨_, ran, ?_⟩
    exact { tracks with
      rep := (exec_spec tracks.rep ran).1
      dirs := (get_follows tracks.rep.dirs tracks.dirs (fun _ => isExpired_eq now _) path).2
      fewDirs := Nat.le_trans (Recency.length_get_le _ _ _) tracks.fewDirs }
  | putDirEntries path entries version now =>
    let entry : DirCacheEntry := { c.lease version now with path := path, entries := entries }
    have ran := exec_putDirEntries free path entries version now
    refine ⟨_, ran, ?_⟩
    exact { tracks with
      rep := (exec_spec tracks.rep ran).1
      dirs := by
        have put := put_follows tracks.rep.dirs tracks.dirs c.maxEntries path entry
        rw [viewDir, lease_toNat tracks.ttl basic] at put
        rw [put, tracks.capacity]
        rfl
      fewDirs := Recency.length_put_le tracks.fewDirs _ _ }
  | invalidateDir path =>
    have ran := exec_invalidateDir free path
    refine ⟨_, ran, ?_⟩
    exact { tracks with
      rep := (exec_spec tracks.rep ran).1
      dirs := remove_follows tracks.rep.dirs tracks.dirs path
      fewDirs := Nat.le_trans (Recency.length_without_le _ _) tracks.fewDirs }
  | clear =>
    have ran := exec_clear free
    exact ⟨_, ran, (exec_spec tracks.rep ran).1, tracks.capacity, tracks.ttl, rfl, rfl, rfl, Nat.zero_le _,
      Nat.zero_le _, Nat.zero_le _⟩
  | getInodeByPath | putInodeByPath | invalidateInodeByPath | size | setTtlSeconds => exact basic.elim

theorem tracks_run {calls : List Call} (basic : ∀ call ∈ calls, call.OfCaches ttlSeconds)
    (tracks : Tracks maxEntries ttlSeconds c r) :
    ∃ c', run c calls = some c' ∧
      Tracks maxEntries ttlSeconds c' (calls.foldl (Call.onReference pastLease maxEntries ttlSeconds) r) := by
  induction calls generalizing c r with
  | nil => exact ⟨c, rfl, tracks⟩
  | cons call calls ih =>
    rw [List.forall_mem_cons] at basic
    obtain ⟨c₁, ran, tracks₁⟩ := tracks.exec basic.1
    obtain ⟨c', rest, tracks'⟩ := ih basic.2 tracks₁
    exact ⟨c', by rw [run, ran, Option.bind_some, rest], tracks'⟩

/-- What is tracked answers like the reference. -/
theorem Tracks.behavesAs (tracks : Tracks maxEntries ttlSeconds c r) : BehavesAs pastLease c r where
  inodes := follows_of_entries tracks.rep.inodes tracks.inodes (tracks.capacity ▸ tracks.fewInodes)
  blocks := follows_of_entries tracks.rep.blocks tracks.blocks (tracks.capacity ▸ tracks.fewBlocks)
  dirs := follows_of_entries tracks.rep.dirs tracks.dirs (tracks.capacity ▸ tracks.fewDirs)
  inode_hits inodeId now := by
    have hit := (get_follows tracks.rep.inodes tracks.inodes (fun _ => isExpired_eq now _) inodeId).1
    simp only [getInode, guarded_of_free tracks.rep.free, Option.map_some, ← hit, Option.map_map]
    rfl
  block_hits inodeId now := by
    have hit := (get_follows tracks.rep.blocks tracks.blocks (fun _ => isExpired_eq now _) inodeId).1
    simp only [getBlockLocations, guarded_of_free tracks.rep.free, Option.map_some, ← hit, Option.map_map]
    rfl
  dir_hits path now := by
    have hit := (get_follows tracks.rep.dirs tracks.dirs (fun _ => isExpired_eq now _) path).1
    simp only [getDirEntries, guarded_of_free tracks.rep.free, Option.map_some, ← hit, Option.map_map]
    rfl

/-- Every run of the calls returns and behaves as the lists by last use do. -/
theorem caches_by_last_use (maxEntries : Nat) (ttlSeconds : UInt64) (calls : List Call)
    (basic : ∀ call ∈ calls, call.OfCaches ttlSeconds) :
    ∃ c, run (new maxEntries ttlSeconds) calls = some c ∧ c.maxEntries = maxEntries ∧
      BehavesAs pastLease c (referenceAfter pastLease maxEntries ttlSeconds calls) := by
  obtain ⟨c, ran, tracks⟩ := tracks_run basic (tracks_new maxEntries ttlSeconds)
  exact ⟨c, ran, tracks.capacity, tracks.behavesAs⟩

/-- A cache for one inode, with a replacement, an eviction and a lookup past the lease. -/
def sampleCalls : List Call :=
  [.putInode 5 { inodeId := 5 } 1 7, .putInode 5 { inodeId := 5, size := 3 } 2 8, .putInode 6 { inodeId := 6 } 1 9,
    .getInode 6 4000000000]

theorem caches_by_last_use_sample : ∃ c, run (new 1 2) sampleCalls = some c ∧ c.maxEntries = 1 ∧
    BehavesAs pastLease c (referenceAfter pastLease 1 2 sampleCalls) :=
  caches_by_last_use 1 2 sampleCalls (by simp [sampleCalls, Call.OfCaches, expiry])

/-- Put at reading 0 with a ttl of 0: at reading 1 the inode is past its expiry, and is found. -/
theorem zero_expiry_never_expires :
    ¬ ∃ c, run (new 1 0) [.putInode 5 { inodeId := 5 } 1 0] = some c ∧ c.maxEntries = 1 ∧
      BehavesAs (fun now expiry => decide (expiry < now.toNat)) c
        (referenceAfter (fun now expiry => decide (expiry < now.toNat)) 1 0
          [.putInode 5 { inodeId := 5 } 1 0]) := by
  rintro ⟨c, ran, -, behaves⟩
  cases ran
  have hit := behaves.inode_hits 5 1
  revert hit
  decide

end OpenFS.MetadataCache
