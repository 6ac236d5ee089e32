import OpenFS.Client.System
import OpenFS.Data.SpaceAccounts
import OpenFS.Lib.Interleaving

/-!
# A cluster

Any number of clients with one metadata service and one data node on freshly formatted
disks. The service handles also registrations and heartbeats, at any time.
-/

namespace OpenFS

open Requests

/-- An operation that a client is asked for. -/
inductive FileOp
  | writeFile (path : Str) (mode : UInt32) (data : List UInt8)
  | createFile (path : Str) (mode : UInt32) (fileSize : UInt64)
  | readFile (path : Str) (outData : List UInt8)
  | deleteFile (path : Str)
  | getFileInfo (path : Str)
  | rename (src dst : Str)
  | mkDir (path : Str) (mode : UInt32)
  | readDir (path : Str)
  | rmDir (path : Str)

/-- The operation, and the client as it is when it is asked. -/
structure ClientCall where
  client : OpenFSClient
  op : FileOp

/-- The status that the operation returns, and the bytes that it read. -/
abbrev Outcome := Status × List UInt8

def FileOp.prog (client : OpenFSClient) : FileOp → ClientProg Outcome
  | .writeFile path mode data => do
    let r ← client.writeFile path mode data
    pure (r.1, [])
  | .createFile path mode fileSize => do
    let r ← client.createFile path mode fileSize
    pure (statusOf r, [])
  | .readFile path outData => do
    let r ← client.readFile path outData
    pure (r.1, r.2.1)
  | .deleteFile path => do
    let s ← client.deleteFile path
    pure (s, [])
  | .getFileInfo path => do
    let r ← client.getFileInfo path
    pure (statusOf r, [])
  | .rename src dst => do
    let s ← client.rename src dst
    pure (s, [])
  | .mkDir path mode => do
    let r ← client.mkDir path mode
    pure (statusOf r, [])
  | .readDir path => do
    let r ← client.readDir path
    pure (statusOf r, [])
  | .rmDir path => do
    let s ← client.rmDir path
    pure (s, [])

abbrev Log := History ClientCall Rpc Rpc.Reply

namespace Cluster

/-- A service that was just started, and a node on fresh disks; its `int32_t` loop counts
the disks. -/
structure Fresh (sys : System) : Prop where
  svc : ∃ now, sys.svc = .init now
  node : DataNode.Installed sys.node
  few : sys.node.diskPool.disks.length < 2 ^ 31

/-- A data node registers, or its heartbeat arrives. -/
inductive Drift (sys : System) : System → Prop where
  | register (now : UInt64) (address : Str) (capacity : UInt64) :
      Drift sys { sys with svc := sys.svc.handle (.register now address capacity) }
  | heartbeat (now nodeId used : UInt64) :
      Drift sys { sys with svc := sys.svc.handle (.heartbeat now nodeId used) }

end Cluster

/-- Clients, service and node. -/
def cluster : Setting ClientCall Rpc Rpc.Reply Outcome System Readings where
  prog c := c.op.prog c.client
  answer r sys q := sys.answer r q
  start := Cluster.Fresh
  drift := Cluster.Drift

namespace Cluster

abbrev State := Concurrent ClientCall Rpc Rpc.Reply Outcome System

/-- Neither id counter comes to its end. -/
def IdsLast (sys : System) : Rpc → Prop
  | .createFile .. => sys.svc.inodeTable.nextInodeId.toNat + 1 < 2 ^ 64
  | .mkDir .. => sys.svc.inodeTable.nextInodeId.toNat + 1 < 2 ^ 64
  | .allocateBlocks _ blockCount _ => sys.svc.blockAllocator.nextBlockId.toNat + blockCount.toNat < 2 ^ 64
  | _ => True

end Cluster

end OpenFS
