import OpenFS.Client.StoreRefinement
import OpenFS.Lib.Expansion
import OpenFS.Meta.StaleRecords

/-!
# Handlers on threads

Each RPC is handled on a thread of the metadata node, and the threads take turns between any two
calls on the inode table, the block map and the block allocator. Handlers of namespace calls hold
the manager's mutex from their first step to their last; `CommitBlocks` holds none. An allocation is
taken as one step, though its ids are taken one by one. The data node holds a mutex for each call, so
one is one step.
-/

namespace OpenFS

open Requests

namespace Threads

/-- A step of a handler, with what it does on its own before the next. -/
inductive Step
  /-- The handler takes the manager's mutex and goes up to its first call on the inode table. -/
  | enter (q : Rpc)
  /-- The handler inside makes a call on the inode table, or pushes its entry. -/
  | advance (q : Rpc)
  | addBlocks (inodeId : UInt64) (blocks : List BlockMeta)
  | getInode (inodeId : UInt64)
  /-- The size of the record is set, and the record is written back. -/
  | resize (inode : Inode) (blocks : List BlockMeta)
  /-- The whole handler is one step. -/
  | serve (q : Rpc)

/-- A handler that holds the mutex replies when it gives it back. -/
abbrev Step.Reply : Step → Type
  | .enter q => Option q.Reply
  | .advance q => Option q.Reply
  | .addBlocks .. => Status
  | .getInode _ => Except Status Inode
  | .resize .. => Status
  | .serve q => q.Reply

abbrev StepProg := Prog Step Step.Reply

/-- The calls that change the namespace. -/
def namespaceCall : Rpc → Option NamespaceManager.Call
  | .createFile path mode uid gid fileSize => some (.createFile path mode uid gid fileSize)
  | .deleteFile path => some (.deleteFile path)
  | .rename src dst => some (.rename src dst)
  | .mkDir path mode uid gid => some (.mkDir path mode uid gid)
  | .rmDir path => some (.rmDir path)
  | _ => none

/-- The reply of a call that changes the namespace. -/
def handed : (q : Rpc) → Except Status Inode → q.Reply
  | .createFile .., out => out
  | .mkDir .., out => out
  | .deleteFile _, out => statusOf out
  | .rename .., out => statusOf out
  | .rmDir _, out => statusOf out
  | q, _ => q.failed

/-! ## The handlers -/

/-- The handler inside goes on; it makes three more steps at most. -/
def goOn (q : Rpc) : Nat → StepProg q.Reply
  | 0 => pure q.failed
  | fuel + 1 => do
    match ← Prog.call (Step.advance q) with
    | some reply => pure reply
    | none => goOn q fuel

/-- A handler that takes the manager's mutex. -/
def locking (q : Rpc) : StepProg q.Reply := do
  match ← Prog.call (Step.enter q) with
  | some reply => pure reply
  | none => goOn q 3

/-- The rest of `CommitBlocks` when it has read the record. -/
def writeBack (blocks : List BlockMeta) : Except Status Inode → StepProg Status
  | .error _ => pure .ok
  | .ok inode => do
    let _ ← Prog.call (Step.resize inode blocks)
    pure .ok

/-- The rest of `CommitBlocks` when it has added the blocks. -/
def resize (inodeId : UInt64) (blocks : List BlockMeta) : StepProg Status := do
  let found ← Prog.call (Step.getInode inodeId)
  writeBack blocks found

def commitBlocks (inodeId : UInt64) (blocks : List BlockMeta) : StepProg Status := do
  match ← Prog.call (Step.addBlocks inodeId blocks) with
  | .ok => resize inodeId blocks
  | s => pure s

def handler : (q : Rpc) → StepProg q.Reply
  | .commitBlocks inodeId blocks => commitBlocks inodeId blocks
  | .allocateBlocks inodeId blockCount level => Prog.call (Step.serve (.allocateBlocks inodeId blockCount level))
  | .getBlockLocations inodeId => Prog.call (Step.serve (.getBlockLocations inodeId))
  | .writeBlock addr blockId segmentId data crc32 =>
    Prog.call (Step.serve (.writeBlock addr blockId segmentId data crc32))
  | .readBlock addr segmentId offset => Prog.call (Step.serve (.readBlock addr segmentId offset))
  | q => locking q

/-! ## The servers -/

/-- The servers, and how far the handler is that holds the manager's mutex. -/
structure Shared where
  sys : System
  inside : Option Handlers.Inside := none

namespace Shared

variable (s : Shared)

abbrev ns : NamespaceManager := s.sys.svc.namespaceMgr

def withNs (ns : NamespaceManager) : Shared :=
  { s with sys := { s.sys with svc := { s.sys.svc with namespaceMgr := ns } } }

/-- The mutex after a step of the handler that holds it. -/
def settle (q : Rpc) (hand : Status → Except Status Inode) :
    NamespaceManager × Handlers.Outcome → Option q.Reply × Shared
  | (ns, .inside stage) => (none, { s.withNs ns with inside := some stage })
  | (ns, .returned status) => (some (handed q (hand status)), { s.withNs ns with inside := none })

def enter (r : Readings) (q : Rpc) : Option q.Reply × Shared :=
  match namespaceCall q with
  | none => (some (s.sys.answer r q).1, s)
  | some call => s.settle q .error (Handlers.enter s.ns (r.clock 0) call)

def advance (q : Rpc) : Option q.Reply × Shared :=
  match s.inside with
  | none => (some q.failed, s)
  | some stage => s.settle q stage.result (Handlers.advance s.ns stage)

def answer (r : Readings) : (step : Step) → step.Reply × Shared
  | .enter q => s.enter r q
  | .advance q => s.advance q
  | .addBlocks inodeId blocks =>
    let (status, map) := s.sys.svc.blockMap.addBlocks inodeId blocks
    (status, { s with sys := { s.sys with svc := { s.sys.svc with blockMap := map } } })
  | .getInode inodeId => (s.ns.inodeTable.get inodeId, s)
  | .resize inode blocks =>
    let (status, table) := s.ns.inodeTable.update (MetaService.committed inode (r.clock 0) (r.clock 1) blocks)
    (status, s.withNs { s.ns with inodeTable := table })
  | .serve q =>
    let (reply, sys) := s.sys.answer r q
    (reply, { s with sys := sys })

end Shared

/-- The step can be taken now: the mutex is free, and the ids last. -/
def Admits (s : Shared) : Step → Prop
  | .enter q => s.inside = none ∧ Cluster.IdsLast s.sys q
  | .serve q => Cluster.IdsLast s.sys q
  | _ => True

end Threads

/-- Clients, service and node, where the service handles its RPCs on threads. -/
def threads : Setting ClientCall Threads.Step Threads.Step.Reply Outcome Threads.Shared Readings where
  prog c := (cluster.prog c).expand Threads.handler
  answer r s := s.answer r
  start s := Cluster.Fresh s.sys ∧ s.inside = none
  drift s s' := Cluster.Drift s.sys s'.sys ∧ s'.inside = s.inside

end OpenFS
