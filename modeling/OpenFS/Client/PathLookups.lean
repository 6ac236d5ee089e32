import OpenFS.Client.CacheContents

/-!
# Lookups by path

`GetInodeByPath` and `InvalidateInodeByPath` take the mutex and then call `GetInode` and
`InvalidateInode`, which take it again. So they return for the paths that the table does
not have, and for no other.
-/

namespace OpenFS

namespace MetadataCache

/-- The calls that put and invalidate inodes without returning one. -/
def Call.updates : Call → Bool
  | .putInode .. => true
  | .putInodeByPath .. => true
  | .invalidateInode _ => true
  | .clear => true
  | _ => false

/-- For each path the inode id of the last `PutInodeByPath`, and that id as long as nothing
has ended the binding. -/
structure PathLog where
  lastPut : Str → Option UInt64 := fun _ => none
  standing : Str → Option UInt64 := fun _ => none

/-- The inode was evicted or invalidated by a call, or its lease had run out before the call
put it anew. -/
def Call.ends (before after : MetadataCache) (inodeId : UInt64) (call : Call) : Bool :=
  (after.inodes.lookup inodeId).isNone ||
    match call with
    | .putInode id _ _ now =>
      id = inodeId && (before.inodes.lookup inodeId).any fun e => isExpired now e.toCacheEntryBase
    | .putInodeByPath _ inode _ now =>
      inode.inodeId = inodeId && (before.inodes.lookup inodeId).any fun e => isExpired now e.toCacheEntryBase
    | _ => false

/-- The log after a call between two states. -/
def PathLog.note (log : PathLog) (before after : MetadataCache) (call : Call) : PathLog :=
  let standing : Str → Option UInt64 := fun p => (log.standing p).filter fun id => !call.ends before after id
  match call with
  | .putInodeByPath path inode _ _ =>
    { lastPut := Function.update log.lastPut path (some inode.inodeId)
      standing := Function.update standing path
        (if (after.inodes.lookup inode.inodeId).isSome then some inode.inodeId else none) }
  | _ => { log with standing := standing }

/-- A run and its log. -/
def runLog (c : MetadataCache) (log : PathLog) : List Call → Option (MetadataCache × PathLog)
  | [] => some (c, log)
  | call :: calls => (call.exec c).bind fun c' => runLog c' (log.note c c' call) calls

/-- Lookups of a path at a clock reading return, hit exactly while the binding stands, and miss
once the path is invalidated. -/
structure Works (c : MetadataCache) (log : PathLog) (path : Str) (now : UInt64) : Prop where
  get_returns : (c.getInodeByPath path now).isSome
  invalidate_returns : (c.invalidateInodeByPath path).isSome
  hit_iff : ∀ inode, (∃ c', c.getInodeByPath path now = some (some inode, c')) ↔
    ∃ inodeId e, log.standing path = some inodeId ∧ c.inodes.lookup inodeId = some e ∧
      isExpired now e.toCacheEntryBase = false ∧ e.inode = inode
  invalidated : ∀ c', c.invalidateInodeByPath path = some ((), c') →
    (∃ c'', c'.getInodeByPath path now = some (none, c'')) ∧
      ∀ inodeId, log.lastPut path = some inodeId → ∃ c'', c'.getInode inodeId now = some (none, c'')

/-- The table does not have the path, and the inode that was put under it last misses. -/
def Unknown (c : MetadataCache) (log : PathLog) (path : Str) (now : UInt64) : Prop :=
  c.pathToInode path = none ∧ ∀ inodeId, log.lastPut path = some inodeId →
    ∀ e, c.inodes.lookup inodeId = some e → isExpired now e.toCacheEntryBase = true

section
variable {c c' : MetadataCache} {log log' : PathLog} {path : Str} {now : UInt64}

/-- A path that the table has is not looked up to the end. -/
theorem getInodeByPath_known (known : (c.pathToInode path).isSome) : c.getInodeByPath path now = none := by
  obtain ⟨inodeId, known⟩ := Option.isSome_iff_exists.mp known
  unfold getInodeByPath guarded
  split
  · rfl
  · simp only [known]
    unfold getInode
    rw [guarded_of_locked rfl]
    rfl

theorem getInodeByPath_unknown (free : c.locked = false) (unknown : c.pathToInode path = none) :
    c.getInodeByPath path now = some (none, c) := by
  unfold getInodeByPath
  rw [guarded_of_free free]
  simp only [unknown, Option.map_some]
  rw [← free]

theorem invalidateInodeByPath_unknown (free : c.locked = false) (unknown : c.pathToInode path = none) :
    c.invalidateInodeByPath path = some ((), c) := by
  unfold invalidateInodeByPath
  rw [guarded_of_free free]
  simp only [unknown, Option.map_some]
  rw [← free]

/-- A lookup by id misses exactly if there is no entry that is not expired. -/
theorem getInode_misses_iff (rep : Rep c) (inodeId : UInt64) :
    (∃ c', c.getInode inodeId now = some (none, c')) ↔
      ∀ e, c.inodes.lookup inodeId = some e → isExpired now e.toCacheEntryBase = true := by
  obtain ⟨-, result, -⟩ := Lru.get_spec rep.inodes (fun e => isExpired now e.toCacheEntryBase) inodeId
  have returned : c.getInode inodeId now = some
      ((c.inodes.get (fun e => isExpired now e.toCacheEntryBase) inodeId).1.map InodeCacheEntry.inode,
        { c with
          inodes := (c.inodes.get (fun e => isExpired now e.toCacheEntryBase) inodeId).2
          locked := false }) := by
    unfold getInode
    rw [guarded_of_free rep.free]
    rfl
  rw [returned, result]
  simp only [Option.some.injEq, Prod.mk.injEq, exists_eq_right', Option.map_eq_none_iff, Option.filter_eq_none_iff,
    Bool.not_eq_true', Bool.not_eq_false]

/-- The calls that only put and invalidate inodes return. -/
theorem exec_returns (rep : Rep c) {call : Call} (updates : call.updates = true) :
    ∃ c', call.exec c = some c' := by
  cases call with
  | putInode inodeId inode version now => exact ⟨_, exec_putInode rep.free inodeId inode version now⟩
  | putInodeByPath path inode version now => exact ⟨_, exec_putInodeByPath rep.free path inode version now⟩
  | invalidateInode inodeId => exact ⟨_, exec_invalidateInode rep.free inodeId⟩
  | clear => exact ⟨_, exec_clear rep.free⟩
  | _ => cases updates

/-- A binding stands for the id that was put last. -/
def PathLog.Sound (log : PathLog) : Prop := ∀ p id, log.standing p = some id → log.lastPut p = some id

theorem PathLog.Sound.note (sound : log.Sound) (before after : MetadataCache) (call : Call) :
    (log.note before after call).Sound := by
  have kept : ∀ p id, (log.standing p).filter (fun id => !call.ends before after id) = some id →
      log.lastPut p = some id := fun p id standing => sound p id (Option.eq_some_of_filter_eq_some standing)
  intro p id standing
  cases call with
  | putInodeByPath path inode version now =>
    simp only [PathLog.note] at standing ⊢
    by_cases same : p = path
    · subst same
      rw [Function.update_self] at standing ⊢
      split at standing
      · exact standing
      · cases standing
    · rw [Function.update_of_ne same] at standing ⊢
      exact kept p id standing
  | _ => exact kept p id standing

/-- Runs of such calls return, and keep the indices and the log sound. -/
theorem runLog_returns (rep : Rep c) (sound : log.Sound) {calls : List Call}
    (updates : ∀ call ∈ calls, call.updates = true) :
    ∃ c' log', runLog c log calls = some (c', log') ∧ Rep c' ∧ log'.Sound := by
  induction calls generalizing c log with
  | nil => exact ⟨c, log, rfl, rep, sound⟩
  | cons call calls ih =>
    rw [List.forall_mem_cons] at updates
    obtain ⟨c₁, first⟩ := exec_returns rep updates.1
    obtain ⟨c', log', rest, rep', sound'⟩ := ih (exec_spec rep first).1 (sound.note c c₁ call) updates.2
    refine ⟨c', log', ?_, rep', sound'⟩
    unfold runLog
    rw [first]
    exact rest

/-- Lookups work exactly for the paths that the table does not have and whose inode misses. -/
theorem works_iff (rep : Rep c) (sound : log.Sound) : Works c log path now ↔ Unknown c log path now := by
  constructor
  · intro works
    have unknown : c.pathToInode path = none := by
      by_contra known
      have stuck : c.getInodeByPath path now = none := getInodeByPath_known (Option.isSome_iff_ne_none.mpr known)
      have returns := works.get_returns
      rw [stuck] at returns
      cases returns
    refine ⟨unknown, fun inodeId put => ?_⟩
    have missed := (works.invalidated c (invalidateInodeByPath_unknown rep.free unknown)).2 inodeId put
    exact (getInode_misses_iff rep inodeId).mp missed
  · rintro ⟨unknown, misses⟩
    have got : c.getInodeByPath path now = _ := getInodeByPath_unknown rep.free unknown
    have left := invalidateInodeByPath_unknown rep.free unknown
    refine ⟨by rw [got]; rfl, by rw [left]; rfl, fun inode => ?_, fun c' after => ?_⟩
    · rw [got]
      constructor
      · rintro ⟨c', hit⟩
        cases hit
      · rintro ⟨inodeId, e, standing, there, valid, -⟩
        rw [misses inodeId (sound path inodeId standing) e there] at valid
        cases valid
    · rw [left] at after
      cases after
      exact ⟨⟨c, got⟩, fun inodeId put => (getInode_misses_iff rep inodeId).mpr (misses inodeId put)⟩

end

/-- **Lookups by path work exactly if** the table has no such path and the inode that was last
put under it misses. -/
theorem pathLookups_iff (maxEntries : Nat) (ttlSeconds : UInt64) (calls : List Call)
    (updates : ∀ call ∈ calls, call.updates = true) :
    ∃ c log, runLog (new maxEntries ttlSeconds) {} calls = some (c, log) ∧
      ∀ path now, Works c log path now ↔ Unknown c log path now := by
  have fresh : PathLog.Sound {} := fun _ _ standing => by cases standing
  obtain ⟨c, log, ran, rep, sound⟩ := runLog_returns (rep_new maxEntries ttlSeconds) fresh updates
  exact ⟨c, log, ran, fun path now => works_iff rep sound⟩

/-- One inode put under a path. -/
theorem pathLookups_onePath : ∃ c log, runLog (new 10 30) {}
    [.putInodeByPath ['/', 'a'] { inodeId := 2 } 1 0] = some (c, log) ∧
    ∀ path now, Works c log path now ↔ Unknown c log path now :=
  pathLookups_iff 10 30 [.putInodeByPath ['/', 'a'] { inodeId := 2 } 1 0] (by decide)

/-- A path that has been put is never looked up. -/
theorem known_path_hangs :
    ¬ ∀ (maxEntries : Nat) (ttlSeconds : UInt64) (calls : List Call), (∀ call ∈ calls, call.updates = true) →
      ∃ c log, runLog (new maxEntries ttlSeconds) {} calls = some (c, log) ∧ ∀ path now, Works c log path now := by
  intro claim
  obtain ⟨c, log, ran, works⟩ := claim 10 30 [.putInodeByPath ['/', 'a'] { inodeId := 2 } 1 0] (by decide)
  cases ran
  have returns := (works ['/', 'a'] 0).get_returns
  rw [getInodeByPath_known (by decide)] at returns
  cases returns

end MetadataCache

end OpenFS
