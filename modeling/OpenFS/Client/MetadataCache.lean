import Mathlib.Logic.Function.Basic
import OpenFS.Common.Types
import OpenFS.Lib.Lru

/-!
# The metadata cache of a client

Three least recently used lists with leases, and a table that leads from paths to inode
ids. Each call reads the clock once at most, and the reading is a parameter. The mutex is
not recursive: a call that takes it while it is held never returns, which is `none`.
-/

namespace OpenFS

structure CacheEntryBase where
  version : UInt64 := 0
  expireTimeNs : UInt64 := 0
  valid : Bool := true
  deriving DecidableEq, Repr

structure InodeCacheEntry extends CacheEntryBase where
  inode : Inode
  deriving DecidableEq, Repr

structure BlockLocCacheEntry extends CacheEntryBase where
  inodeId : UInt64
  blocks : List BlockMeta
  deriving DecidableEq, Repr

structure DirCacheEntry extends CacheEntryBase where
  path : Str
  entries : List DirEntry
  deriving DecidableEq, Repr

structure MetadataCache where
  maxEntries : Nat
  ttlSeconds : UInt64
  inodes : Lru UInt64 InodeCacheEntry := {}
  pathToInode : Str → Option UInt64 := fun _ => none
  blocks : Lru UInt64 BlockLocCacheEntry := {}
  dirs : Lru Str DirCacheEntry := {}
  /-- The mutex is held. -/
  locked : Bool := false

namespace MetadataCache

def new (maxEntries : Nat) (ttlSeconds : UInt64) : MetadataCache :=
  { maxEntries := maxEntries, ttlSeconds := ttlSeconds }

/-- A body that runs under the mutex. -/
def guarded {β : Type} (c : MetadataCache) (body : MetadataCache → Option (β × MetadataCache)) :
    Option (β × MetadataCache) :=
  if c.locked then none
  else (body { c with locked := true }).map fun (out, c) => (out, { c with locked := false })

def isExpired (now : UInt64) (entry : CacheEntryBase) : Bool :=
  entry.expireTimeNs ≠ 0 ∧ entry.expireTimeNs < now

/-- Version and lease of a new entry. -/
def lease (c : MetadataCache) (version now : UInt64) : CacheEntryBase :=
  { version := version, expireTimeNs := now + c.ttlSeconds * 1000000000, valid := true }

/-! ## Inodes -/

def getInode (c : MetadataCache) (inodeId now : UInt64) : Option (Option Inode × MetadataCache) :=
  c.guarded fun c =>
    let (hit, inodes) := c.inodes.get (fun e => isExpired now e.toCacheEntryBase) inodeId
    some (hit.map InodeCacheEntry.inode, { c with inodes := inodes })

/-- The lock is held when `getInode` is called. -/
def getInodeByPath (c : MetadataCache) (path : Str) (now : UInt64) : Option (Option Inode × MetadataCache) :=
  c.guarded fun c =>
    match c.pathToInode path with
    | none => some (none, c)
    | some inodeId => c.getInode inodeId now

/-- An inode that is evicted takes the path along that is spelled like its name. -/
def putInode (c : MetadataCache) (inodeId : UInt64) (inode : Inode) (version now : UInt64) :
    Option (Unit × MetadataCache) :=
  c.guarded fun c =>
    let (evicted, inodes) := c.inodes.put c.maxEntries inodeId { c.lease version now with inode := inode }
    some ((), { c with
      inodes := inodes
      pathToInode := evicted.foldl (fun paths e => Function.update paths e.2.inode.name none) c.pathToInode })

def putInodeByPath (c : MetadataCache) (path : Str) (inode : Inode) (version now : UInt64) :
    Option (Unit × MetadataCache) :=
  (c.putInode inode.inodeId inode version now).bind fun (_, c) =>
    c.guarded fun c =>
      some ((), { c with pathToInode := Function.update c.pathToInode path (some inode.inodeId) })

def invalidateInode (c : MetadataCache) (inodeId : UInt64) : Option (Unit × MetadataCache) :=
  c.guarded fun c => some ((), { c with inodes := c.inodes.remove inodeId })

/-- The lock is held when `invalidateInode` is called. -/
def invalidateInodeByPath (c : MetadataCache) (path : Str) : Option (Unit × MetadataCache) :=
  c.guarded fun c =>
    match c.pathToInode path with
    | none => some ((), c)
    | some inodeId =>
      (c.invalidateInode inodeId).map fun (_, c) =>
        ((), { c with pathToInode := Function.update c.pathToInode path none })

/-! ## Block locations -/

def getBlockLocations (c : MetadataCache) (inodeId now : UInt64) :
    Option (Option (List BlockMeta) × MetadataCache) :=
  c.guarded fun c =>
    let (hit, blocks) := c.blocks.get (fun e => isExpired now e.toCacheEntryBase) inodeId
    some (hit.map BlockLocCacheEntry.blocks, { c with blocks := blocks })

def putBlockLocations (c : MetadataCache) (inodeId : UInt64) (blocks : List BlockMeta) (version now : UInt64) :
    Option (Unit × MetadataCache) :=
  c.guarded fun c =>
    let entry : BlockLocCacheEntry := { c.lease version now with inodeId := inodeId, blocks := blocks }
    some ((), { c with blocks := (c.blocks.put c.maxEntries inodeId entry).2 })

def invalidateBlockLocations (c : MetadataCache) (inodeId : UInt64) : Option (Unit × MetadataCache) :=
  c.guarded fun c => some ((), { c with blocks := c.blocks.remove inodeId })

/-! ## Directories -/

def getDirEntries (c : MetadataCache) (path : Str) (now : UInt64) :
    Option (Option (List DirEntry) × MetadataCache) :=
  c.guarded fun c =>
    let (hit, dirs) := c.dirs.get (fun e => isExpired now e.toCacheEntryBase) path
    some (hit.map DirCacheEntry.entries, { c with dirs := dirs })

def putDirEntries (c : MetadataCache) (path : Str) (entries : List DirEntry) (version now : UInt64) :
    Option (Unit × MetadataCache) :=
  c.guarded fun c =>
    let entry : DirCacheEntry := { c.lease version now with path := path, entries := entries }
    some ((), { c with dirs := (c.dirs.put c.maxEntries path entry).2 })

def invalidateDir (c : MetadataCache) (path : Str) : Option (Unit × MetadataCache) :=
  c.guarded fun c => some ((), { c with dirs := c.dirs.remove path })

/-! ## All of it -/

def clear (c : MetadataCache) : Option (Unit × MetadataCache) :=
  c.guarded fun c => some ((), { c with
    inodes := { c.inodes with list := [], index := [] }
    pathToInode := fun _ => none
    blocks := { c.blocks with list := [], index := [] }
    dirs := { c.dirs with list := [], index := [] } })

def size (c : MetadataCache) : Option (Nat × MetadataCache) :=
  c.guarded fun c => some (c.inodes.index.length + c.blocks.index.length + c.dirs.index.length, c)

def setTtlSeconds (c : MetadataCache) (seconds : UInt64) : MetadataCache := { c with ttlSeconds := seconds }

/-! ## Runs -/

inductive Call
  | getInode (inodeId now : UInt64)
  | getInodeByPath (path : Str) (now : UInt64)
  | putInode (inodeId : UInt64) (inode : Inode) (version now : UInt64)
  | putInodeByPath (path : Str) (inode : Inode) (version now : UInt64)
  | invalidateInode (inodeId : UInt64)
  | invalidateInodeByPath (path : Str)
  | getBlockLocations (inodeId now : UInt64)
  | putBlockLocations (inodeId : UInt64) (blocks : List BlockMeta) (version now : UInt64)
  | invalidateBlockLocations (inodeId : UInt64)
  | getDirEntries (path : Str) (now : UInt64)
  | putDirEntries (path : Str) (entries : List DirEntry) (version now : UInt64)
  | invalidateDir (path : Str)
  | clear
  | size
  | setTtlSeconds (seconds : UInt64)

/-- The cache after a call that returns. -/
def Call.exec (c : MetadataCache) : Call → Option MetadataCache
  | .getInode inodeId now => (c.getInode inodeId now).map Prod.snd
  | .getInodeByPath path now => (c.getInodeByPath path now).map Prod.snd
  | .putInode inodeId inode version now => (c.putInode inodeId inode version now).map Prod.snd
  | .putInodeByPath path inode version now => (c.putInodeByPath path inode version now).map Prod.snd
  | .invalidateInode inodeId => (c.invalidateInode inodeId).map Prod.snd
  | .invalidateInodeByPath path => (c.invalidateInodeByPath path).map Prod.snd
  | .getBlockLocations inodeId now => (c.getBlockLocations inodeId now).map Prod.snd
  | .putBlockLocations inodeId blocks version now => (c.putBlockLocations inodeId blocks version now).map Prod.snd
  | .invalidateBlockLocations inodeId => (c.invalidateBlockLocations inodeId).map Prod.snd
  | .getDirEntries path now => (c.getDirEntries path now).map Prod.snd
  | .putDirEntries path entries version now => (c.putDirEntries path entries version now).map Prod.snd
  | .invalidateDir path => (c.invalidateDir path).map Prod.snd
  | .clear => c.clear.map Prod.snd
  | .size => c.size.map Prod.snd
  | .setTtlSeconds seconds => some (c.setTtlSeconds seconds)

/-- The cache after a run all calls of which return. -/
def run (c : MetadataCache) : List Call → Option MetadataCache
  | [] => some c
  | call :: calls => (call.exec c).bind fun c => run c calls

end MetadataCache

end OpenFS
