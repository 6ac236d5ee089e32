import OpenFS.Client.CacheContents
import OpenFS.Lib.Recency

/-!
# The path index

`path_to_inode_` leads from paths to inode ids. An inode leaves the cache by eviction,
expiry or invalidation. Only eviction touches the table, and it takes out the path that is
spelled like the inode's name, which is the last component of a path.
-/

namespace OpenFS.MetadataCache

open NodeList

/-- Every path leads to an inode that is cached. -/
def PathsLead (c : MetadataCache) : Prop :=
  ∀ path inodeId, c.pathToInode path = some inodeId → (find c.inodes.index inodeId).isSome

/-- The entry that has to go when an inode is put. -/
def victim (c : MetadataCache) (inodeId : UInt64) : Option (UInt64 × InodeCacheEntry) :=
  if (find c.inodes.index inodeId).isSome ∨ c.inodes.index.length < c.maxEntries then none
  else c.inodes.entries.getLast?

/-- The calls of the inode cache and its path index. -/
def Call.OnPaths : Call → Prop
  | .putInode .. | .putInodeByPath .. | .getInode .. | .invalidateInode _ | .clear => True
  | _ => False

/-- No path leads to what the call drops, except by the inode's own name in an eviction, and
for `PutInodeByPath` by its own path. -/
def Call.KeepsPaths (c : MetadataCache) : Call → Prop
  | .getInode inodeId now => ∀ e, c.inodes.lookup inodeId = some e → isExpired now e.toCacheEntryBase = true →
      ∀ path, c.pathToInode path ≠ some inodeId
  | .invalidateInode inodeId => ∀ path, c.pathToInode path ≠ some inodeId
  | .putInode inodeId _ _ _ => ∀ v, c.victim inodeId = some v →
      ∀ path, c.pathToInode path = some v.1 → path = v.2.inode.name
  | .putInodeByPath own inode _ _ => 0 < c.maxEntries ∧ ∀ v, c.victim inode.inodeId = some v →
      ∀ path, path ≠ own → c.pathToInode path = some v.1 → path = v.2.inode.name
  | _ => True

/-- Every path leads to a cached inode in each state of the run. -/
def LeadsThroughout (c : MetadataCache) : List Call → Prop
  | [] => c.PathsLead
  | call :: calls => c.PathsLead ∧ ∃ c', call.exec c = some c' ∧ c'.LeadsThroughout calls

/-- Each call of the run meets the condition in the state that it finds. -/
def KeepsThroughout (c : MetadataCache) : List Call → Prop
  | [] => True
  | call :: calls => call.KeepsPaths c ∧ ∃ c', call.exec c = some c' ∧ c'.KeepsThroughout calls

/-! ## What a put drops -/

section
variable {c : MetadataCache}

theorem isSome_find_iff (rep : c.Rep) (inodeId : UInt64) :
    (find c.inodes.index inodeId).isSome ↔ (c.inodes.lookup inodeId).isSome := by
  cases search : find c.inodes.index inodeId with
  | none => simp [Lru.lookup_of_find_none search]
  | some it =>
    obtain ⟨v, -, value, -⟩ := Lru.Rep.found rep.inodes search
    simp [value]

theorem put_victim (rep : c.Rep) (short : c.inodes.entries.length ≤ c.maxEntries) (room : 0 < c.maxEntries)
    (inodeId : UInt64) (e : InodeCacheEntry) :
    (c.inodes.put c.maxEntries inodeId e).1 = (c.victim inodeId).toList := by
  rw [(Lru.put_entries rep.inodes c.maxEntries inodeId e).2]
  unfold victim
  rw [Lru.Rep.length_index rep.inodes]
  cases search : find c.inodes.index inodeId with
  | some it =>
    obtain ⟨v, -, first, -⟩ := Lru.Rep.entry_of_find rep.inodes search
    simp [first]
  | none =>
    rw [Lru.Rep.entry_of_find_none rep.inodes search]
    simp only [Option.isSome_none, Bool.false_eq_true, if_false, false_or]
    by_cases small : c.inodes.entries.length < c.maxEntries
    · rw [if_pos small, List.drop_of_length_le]
      · rfl
      · exact small
    · have full : c.inodes.entries.length = c.maxEntries := Nat.le_antisymm short (Nat.le_of_not_lt small)
      have some : c.inodes.entries ≠ [] := by
        intro empty
        rw [empty, List.length_nil] at full
        omega
      rw [if_neg small, ← full, List.drop_length_cons some, List.getLast?_eq_some_getLast some]
      rfl

/-- The victim is cached, and is not the inode that is put. -/
theorem victim_cached (rep : c.Rep) {inodeId : UInt64} {v : UInt64 × InodeCacheEntry}
    (victim : c.victim inodeId = some v) : v.1 ≠ inodeId := by
  unfold MetadataCache.victim at victim
  split at victim
  · cases victim
  · next missing =>
    rintro rfl
    apply missing
    left
    rw [isSome_find_iff rep]
    obtain ⟨n, there, rfl⟩ := List.mem_map.mp (List.mem_of_getLast? victim)
    exact Option.isSome_of_eq_some ((Lru.lookup_eq_some_iff rep.inodes).mpr ⟨n.id, there⟩)

/-- With room for an entry, the cached inodes after a put are the new one and the old ones but
the victim. -/
theorem isSome_put_iff (rep : c.Rep) (short : c.inodes.entries.length ≤ c.maxEntries) (room : 0 < c.maxEntries)
    (inodeId k : UInt64) (e : InodeCacheEntry) :
    ((c.inodes.put c.maxEntries inodeId e).2.lookup k).isSome ↔
      k = inodeId ∨ (c.inodes.lookup k).isSome ∧ ∀ v, c.victim inodeId = some v → v.1 ≠ k := by
  rw [(Lru.put_spec rep.inodes c.maxEntries inodeId e).2 k, put_victim rep short room]
  cases gone : c.victim inodeId with
  | none =>
    by_cases same : k = inodeId <;> simp [same]
  | some v =>
    have other := victim_cached rep gone
    by_cases same : k = inodeId
    · subst same
      simp [Ne.symm other]
    · by_cases hit : k = v.1
      · simp [hit, other]
      · simp [same, hit, Ne.symm hit]

end

/-! ## One call -/

section
variable {c c' : MetadataCache} {call : Call}

/-- What the cache keeps besides the paths. -/
structure Bounded (c : MetadataCache) : Prop where
  rep : c.Rep
  short : c.inodes.entries.length ≤ c.maxEntries

theorem bounded_new (maxEntries : Nat) (ttlSeconds : UInt64) : Bounded (new maxEntries ttlSeconds) :=
  ⟨rep_new _ _, Nat.zero_le _⟩

theorem pathsLead_iff (rep : c.Rep) : c.PathsLead ↔
    ∀ path inodeId, c.pathToInode path = some inodeId → (c.inodes.lookup inodeId).isSome := by
  unfold PathsLead
  simp only [isSome_find_iff rep]

/-- If no entry fits there is none, and no path. -/
theorem no_paths (bounded : Bounded c) (leads : c.PathsLead) (none : ¬ 0 < c.maxEntries) (path : Str) :
    c.pathToInode path = .none := by
  cases known : c.pathToInode path with
  | none => rfl
  | some inodeId =>
    have cached := (pathsLead_iff bounded.rep).mp leads path inodeId known
    obtain ⟨e, there⟩ := Option.isSome_iff_exists.mp cached
    obtain ⟨it, member⟩ := (Lru.lookup_eq_some_iff bounded.rep.inodes).mp there
    have short := bounded.short
    have some : 0 < c.inodes.entries.length := by
      rw [Lru.entries, List.length_map]
      exact List.length_pos_of_mem member
    omega

/-- Dropping one inode keeps the table right iff no path leads to it. -/
theorem pathsLead_drop_iff (rep : c.Rep) (rep' : c'.Rep) (leads : c.PathsLead) (inodeId : UInt64)
    (paths : c'.pathToInode = c.pathToInode)
    (dropped : ∀ k, c'.inodes.lookup k = if k = inodeId then none else c.inodes.lookup k) :
    c'.PathsLead ↔ ∀ path, c.pathToInode path ≠ some inodeId := by
  rw [pathsLead_iff rep']
  rw [pathsLead_iff rep] at leads
  constructor
  · intro leads' path known
    have cached := leads' path inodeId (paths ▸ known)
    simp [dropped] at cached
  · intro unknown path k known
    rw [paths] at known
    rw [dropped, if_neg]
    · exact leads path k known
    · rintro rfl
      exact unknown path known

/-- A lookup keeps the table right unless it drops an expired inode that a path leads to. -/
theorem pathsLead_get_iff (rep : c.Rep) (rep' : c'.Rep) (leads : c.PathsLead) (inodeId now : UInt64)
    (inodes : c'.inodes = (c.inodes.get (fun e => isExpired now e.toCacheEntryBase) inodeId).2)
    (paths : c'.pathToInode = c.pathToInode) :
    c'.PathsLead ↔ ∀ e, c.inodes.lookup inodeId = some e → isExpired now e.toCacheEntryBase = true →
      ∀ path, c.pathToInode path ≠ some inodeId := by
  obtain ⟨-, -, after⟩ := Lru.get_spec rep.inodes (fun e => isExpired now e.toCacheEntryBase) inodeId
  rw [← inodes] at after
  by_cases old : ∃ e, c.inodes.lookup inodeId = some e ∧ isExpired now e.toCacheEntryBase = true
  · obtain ⟨e, there, old⟩ := old
    rw [pathsLead_drop_iff rep rep' leads inodeId paths]
    · simp [there, old]
    · intro k
      rw [after k, there]
      simp [Option.filter, old]
  · apply iff_of_true
    · rw [pathsLead_iff rep']
      intro path k known
      rw [paths] at known
      have cached := (pathsLead_iff rep).mp leads path k known
      rw [after k]
      split
      · subst k
        obtain ⟨e, there⟩ := Option.isSome_iff_exists.mp cached
        have young : isExpired now e.toCacheEntryBase = false := by
          simpa using fun expired => old ⟨e, there, expired⟩
        simp [there, Option.filter, young]
      · exact cached
    · intro e there expired
      exact absurd ⟨e, there, expired⟩ old

/-- A put that drops its victim and the path of that name, and may set a path of its own. -/
theorem pathsLead_put_iff (bounded : Bounded c) (room : 0 < c.maxEntries) (rep' : c'.Rep) (leads : c.PathsLead)
    {inodeId : UInt64} {e : InodeCacheEntry} (own : Option Str)
    (inodes : c'.inodes = (c.inodes.put c.maxEntries inodeId e).2)
    (paths : ∀ path, c'.pathToInode path = if own = some path then some inodeId
      else if ∃ v, c.victim inodeId = some v ∧ v.2.inode.name = path then none else c.pathToInode path) :
    c'.PathsLead ↔ ∀ v, c.victim inodeId = some v → ∀ path, own ≠ some path →
      c.pathToInode path = some v.1 → path = v.2.inode.name := by
  have cached : ∀ k, (c'.inodes.lookup k).isSome ↔
      k = inodeId ∨ (c.inodes.lookup k).isSome ∧ ∀ v, c.victim inodeId = some v → v.1 ≠ k := by
    intro k
    rw [inodes]
    exact isSome_put_iff bounded.rep bounded.short room inodeId k e
  rw [pathsLead_iff rep']
  rw [pathsLead_iff bounded.rep] at leads
  constructor
  · intro leads' v gone path other known
    by_contra spelled
    have kept : c'.pathToInode path = some v.1 := by
      rw [paths, if_neg other, if_neg, known]
      rintro ⟨v', gone', same⟩
      cases gone.symm.trans gone'
      exact spelled same.symm
    rcases (cached v.1).mp (leads' path v.1 kept) with same | ⟨-, apart⟩
    · exact victim_cached bounded.rep gone same
    · exact apart v gone rfl
  · intro named path k known
    rw [paths] at known
    rw [cached]
    split at known
    · cases known
      exact .inl rfl
    · next other =>
      split at known
      · cases known
      · next unnamed =>
        right
        refine ⟨leads path k known, ?_⟩
        rintro v gone rfl
        exact unnamed ⟨v, gone, (named v gone path other known).symm⟩

/-- The paths after an eviction. -/
theorem foldl_erase_victim (victim : Option (UInt64 × InodeCacheEntry)) (paths : Str → Option UInt64)
    (path : Str) :
    victim.toList.foldl (fun (paths : Str → Option UInt64) e => Function.update paths e.2.inode.name none)
      paths path =
      if ∃ v, victim = some v ∧ v.2.inode.name = path then none else paths path := by
  cases victim with
  | none => simp
  | some v =>
    by_cases same : path = v.2.inode.name
    · simp [same]
    · simp [same, Ne.symm same]

/-- An eviction adds no path. -/
theorem of_foldl_erase {evicted : List (UInt64 × InodeCacheEntry)} {paths : Str → Option UInt64} {path : Str}
    {inodeId : UInt64}
    (known : evicted.foldl (fun (paths : Str → Option UInt64) e => Function.update paths e.2.inode.name none)
      paths path = some inodeId) : paths path = some inodeId := by
  induction evicted generalizing paths with
  | nil => exact known
  | cons e evicted ih =>
    have before : Function.update paths e.2.inode.name none path = some inodeId := ih known
    by_cases same : path = e.2.inode.name
    · simp [same] at before
    · rwa [Function.update_of_ne same] at before

/-- Without room a put leaves no inode and no path. -/
theorem put_none (bounded : Bounded c) (none : ¬ 0 < c.maxEntries) (inodeId k : UInt64) (e : InodeCacheEntry) :
    (c.inodes.put c.maxEntries inodeId e).2.lookup k = .none := by
  apply (Lru.lookup_eq_none_iff (Lru.put_spec bounded.rep.inodes c.maxEntries inodeId e).1).mpr
  have short := Recency.length_put_le bounded.short inodeId e
  rw [← (Lru.put_entries bounded.rep.inodes c.maxEntries inodeId e).1, Lru.entries, List.length_map] at short
  intro n there
  have some := List.length_pos_of_mem there
  omega

theorem bounded_put (bounded : Bounded c) {inodeId : UInt64} {e : InodeCacheEntry} (rep' : c'.Rep)
    (inodes : c'.inodes = (c.inodes.put c.maxEntries inodeId e).2) (capacity : c'.maxEntries = c.maxEntries) :
    Bounded c' := by
  refine ⟨rep', ?_⟩
  rw [inodes, capacity, (Lru.put_entries bounded.rep.inodes c.maxEntries inodeId e).1]
  exact Recency.length_put_le bounded.short inodeId e

/-- Each call returns, keeps the bounds, and keeps the table right iff it meets the condition. -/
theorem exec_pathsLead_iff (bounded : Bounded c) (leads : c.PathsLead) (five : call.OnPaths) :
    ∃ c', call.exec c = some c' ∧ Bounded c' ∧ (c'.PathsLead ↔ call.KeepsPaths c) := by
  have free := bounded.rep.free
  cases call with
  | getInode inodeId now =>
    have ran := exec_getInode free inodeId now
    have rep' := (exec_spec bounded.rep ran).1
    have fewer := Recency.length_get_le (fun e => isExpired now e.toCacheEntryBase) inodeId c.inodes.entries
    have short := Nat.le_trans fewer bounded.short
    rw [← (Lru.get_entries bounded.rep.inodes _ inodeId).2] at short
    exact ⟨_, ran, ⟨rep', short⟩, pathsLead_get_iff bounded.rep rep' leads inodeId now rfl rfl⟩
  | invalidateInode inodeId =>
    have ran := exec_invalidateInode free inodeId
    have rep' := (exec_spec bounded.rep ran).1
    have short := Nat.le_trans (Recency.length_without_le inodeId _) bounded.short
    rw [← Lru.remove_entries bounded.rep.inodes inodeId] at short
    exact ⟨_, ran, ⟨rep', short⟩,
      pathsLead_drop_iff bounded.rep rep' leads inodeId rfl (Lru.remove_spec bounded.rep.inodes inodeId).2⟩
  | putInode inodeId inode version now =>
    have ran := exec_putInode free inodeId inode version now
    have rep' := (exec_spec bounded.rep ran).1
    refine ⟨_, ran, bounded_put bounded rep' rfl rfl, ?_⟩
    by_cases room : 0 < c.maxEntries
    · apply (pathsLead_put_iff bounded room rep' leads none rfl ?_).trans
      · simp [Call.KeepsPaths]
      · intro path
        dsimp only
        rw [put_victim bounded.rep bounded.short room, foldl_erase_victim]
        exact (if_neg (by simp)).symm
    · apply iff_of_true
      · intro path k known
        have before := of_foldl_erase known
        rw [no_paths bounded leads room] at before
        cases before
      · intro v _ path known
        rw [no_paths bounded leads room] at known
        cases known
  | putInodeByPath own inode version now =>
    have ran := exec_putInodeByPath free own inode version now
    have rep' := (exec_spec bounded.rep ran).1
    refine ⟨_, ran, bounded_put bounded rep' rfl rfl, ?_⟩
    by_cases room : 0 < c.maxEntries
    · apply (pathsLead_put_iff bounded room rep' leads (some own) rfl ?_).trans
      · simp only [Call.KeepsPaths, room, true_and, ne_eq, Option.some.injEq, eq_comm]
      · intro path
        dsimp only
        rw [put_victim bounded.rep bounded.short room]
        by_cases same : path = own
        · simp [same]
        · rw [Function.update_of_ne same, foldl_erase_victim]
          exact (if_neg (by simp [Ne.symm same])).symm
    · apply iff_of_false
      · rw [pathsLead_iff rep']
        intro leads'
        have cached := leads' own inode.inodeId (Function.update_self ..)
        rw [put_none bounded room] at cached
        cases cached
      · exact fun keeps => room keeps.1
  | clear =>
    have ran := exec_clear free
    refine ⟨_, ran, ⟨(exec_spec bounded.rep ran).1, Nat.zero_le _⟩, iff_of_true ?_ trivial⟩
    intro path inodeId known
    cases known
  | getInodeByPath | invalidateInodeByPath | getBlockLocations | putBlockLocations | invalidateBlockLocations
  | getDirEntries | putDirEntries | invalidateDir | size | setTtlSeconds => exact five.elim

/-! ## Runs -/

theorem leadsThroughout_iff (bounded : Bounded c) (leads : c.PathsLead) {calls : List Call}
    (five : ∀ call ∈ calls, call.OnPaths) : c.LeadsThroughout calls ↔ c.KeepsThroughout calls := by
  induction calls generalizing c with
  | nil => exact iff_of_true leads trivial
  | cons call calls ih =>
    rw [List.forall_mem_cons] at five
    obtain ⟨c₁, ran, bounded₁, keeps_iff⟩ := exec_pathsLead_iff bounded leads five.1
    have only : ∀ c', call.exec c = some c' → c' = c₁ := by
      intro c' ran'
      exact Option.some.inj (ran'.symm.trans ran)
    constructor
    · rintro ⟨-, c', ran', rest⟩
      obtain rfl := only c' ran'
      have leads₁ : c'.PathsLead := by
        cases calls with
        | nil => exact rest
        | cons _ _ => exact rest.1
      exact ⟨keeps_iff.mp leads₁, c', ran, (ih bounded₁ leads₁ five.2).mp rest⟩
    · rintro ⟨keeps, c', ran', rest⟩
      obtain rfl := only c' ran'
      exact ⟨leads, c', ran, (ih bounded₁ (keeps_iff.mpr keeps) five.2).mpr rest⟩

/-- In a run of the five calls the paths lead to cached inodes throughout exactly if each
call meets its condition. -/
theorem path_index_follows_iff (maxEntries : Nat) (ttlSeconds : UInt64) (calls : List Call)
    (five : ∀ call ∈ calls, call.OnPaths) :
    (new maxEntries ttlSeconds).LeadsThroughout calls ↔ (new maxEntries ttlSeconds).KeepsThroughout calls := by
  apply leadsThroughout_iff (bounded_new maxEntries ttlSeconds) _ five
  intro path inodeId known
  cases known

theorem path_index_follows_one : (new 10 30).LeadsThroughout [.putInodeByPath ['/', 'a'] { inodeId := 2 } 1 0] ↔
    (new 10 30).KeepsThroughout [.putInodeByPath ['/', 'a'] { inodeId := 2 } 1 0] :=
  path_index_follows_iff 10 30 _ (by simp [Call.OnPaths])

/-- An invalidated inode leaves its path behind. -/
theorem invalidation_leaves_path :
    ¬ (new 10 30).LeadsThroughout [.putInodeByPath ['/', 'a'] { inodeId := 2, name := ['a'] } 1 0,
      .invalidateInode 2] := by
  rintro ⟨-, c, ran, -, c', ran', leads⟩
  cases ran
  cases ran'
  have cached := leads ['/', 'a'] 2 rfl
  revert cached
  decide

end

end OpenFS.MetadataCache
