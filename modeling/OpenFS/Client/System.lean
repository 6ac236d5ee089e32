import OpenFS.Client.OpenFSClient
import OpenFS.Data.DataNode
import OpenFS.Meta.MetaService

/-!
# Clients and servers together

How the metadata service and the data node answer the calls of the clients. All
data nodes are taken to have the same address, so there is one.
-/

namespace OpenFS

open Requests

/-- What handlers read that is no part of the state: the clock, and the bytes that
`ReadBlock` finds behind the header. -/
structure Readings where
  clock : Nat → UInt64 := fun _ => 0
  beyond : List UInt8 := []

/-- `MetaServiceImpl`'s answer to a call of `MetaConnection`. -/
def MetaService.answer (r : Readings) (svc : MetaService) : (q : Rpc) → q.Reply × MetaService
  | .createFile path mode uid gid fileSize => svc.createFsFile (r.clock 0) path mode uid gid fileSize
  | .deleteFile path => svc.removeFsFile path
  | .getFileInfo path => (svc.getFileInfo path, svc)
  | .rename src dst => svc.rename (r.clock 0) src dst
  | .mkDir path mode uid gid => svc.mkDir (r.clock 0) path mode uid gid
  | .readDir path => (svc.readDir path, svc)
  | .rmDir path => svc.rmDir path
  | .allocateBlocks inodeId blockCount level =>
    let (out, svc) := svc.allocateBlocks r.clock inodeId blockCount level
    (out.map (List.map blockMetaOf), svc)
  | .commitBlocks inodeId blocks =>
    svc.commitBlocks (r.clock 0) (r.clock 1) inodeId (blocks.map fillBlockMetaProto)
  | .getBlockLocations inodeId => ((svc.getBlockLocations inodeId).map (List.map blockMetaOf), svc)
  | q => (q.failed, svc)

/-- `DataServiceImpl`'s answer to a call of `DataConnection`. -/
def DataNode.answer (r : Readings) (node : DataNode) : (q : Rpc) → q.Reply × DataNode
  | .writeBlock _ blockId _ data crc32 => DataService.writeBlock node blockId data crc32
  | .readBlock _ segmentId offset => DataService.readBlock node segmentId offset r.beyond
  | q => (q.failed, node)

structure System where
  svc : MetaService
  node : DataNode

namespace System

/-- The call is one of `DataConnection`. -/
def toData : Rpc → Bool
  | .writeBlock .. => true
  | .readBlock .. => true
  | _ => false

def answer (r : Readings) (sys : System) (q : Rpc) : q.Reply × System :=
  if toData q then
    let (reply, node) := sys.node.answer r q
    (reply, { sys with node := node })
  else
    let (reply, svc) := sys.svc.answer r q
    (reply, { sys with svc := svc })

/-! ## Each answer -/

section
variable (r : Readings) (sys : System)

theorem answer_createFile (path : Str) (mode uid gid : UInt32) (fileSize : UInt64) :
    sys.answer r (.createFile path mode uid gid fileSize) =
      ((sys.svc.namespaceMgr.createFile (r.clock 0) path mode uid gid fileSize).1, { sys with svc := { sys.svc with
        namespaceMgr := (sys.svc.namespaceMgr.createFile (r.clock 0) path mode uid gid fileSize).2 } }) := rfl

theorem answer_getFileInfo (path : Str) :
    sys.answer r (.getFileInfo path) = (sys.svc.namespaceMgr.lookup path, sys) := rfl

theorem answer_mkDir (path : Str) (mode uid gid : UInt32) : sys.answer r (.mkDir path mode uid gid) =
    ((sys.svc.namespaceMgr.mkDir (r.clock 0) path mode uid gid).1, { sys with svc := { sys.svc with
      namespaceMgr := (sys.svc.namespaceMgr.mkDir (r.clock 0) path mode uid gid).2 } }) := rfl

/-- Records survive their message. -/
theorem map_received (out : Except Status (List BlockMeta)) :
    (out.map (List.map MetaService.fillBlockMetaProto)).map (List.map MetaService.blockMetaOf) = out := by
  cases out with
  | error s => rfl
  | ok blocks => simp [Except.map, Function.comp_def]

theorem answer_allocateBlocks (inodeId : UInt64) (blockCount : UInt32) (level : BlkLevel) :
    sys.answer r (.allocateBlocks inodeId blockCount level) =
      ((sys.svc.blockAllocator.allocate sys.svc.nodeMgr r.clock blockCount level).1,
        { sys with svc := { sys.svc with
        blockAllocator := (sys.svc.blockAllocator.allocate sys.svc.nodeMgr r.clock blockCount level).2 } }) := by
  show (((sys.svc.blockAllocator.allocate sys.svc.nodeMgr r.clock blockCount level).1.map
    (List.map MetaService.fillBlockMetaProto)).map (List.map MetaService.blockMetaOf),
    { sys with svc := { sys.svc with
      blockAllocator := (sys.svc.blockAllocator.allocate sys.svc.nodeMgr r.clock blockCount level).2 } }) = _
  rw [map_received]

theorem answer_commitBlocks (inodeId : UInt64) (blocks : List BlockMeta) :
    sys.answer r (.commitBlocks inodeId blocks) = (.ok, { sys with svc := { sys.svc with
      blockMap := (sys.svc.blockMap.addBlocks inodeId blocks).2
      namespaceMgr := { sys.svc.namespaceMgr with
        inodeTable := sys.svc.sizedTable (r.clock 0) (r.clock 1) inodeId blocks } } }) := by
  have received : (blocks.map MetaService.fillBlockMetaProto).map MetaService.blockMetaOf = blocks := by
    simp [Function.comp_def]
  show ((sys.svc.commitBlocks _ _ _ _).1, { sys with svc := (sys.svc.commitBlocks _ _ _ _).2 }) = _
  rw [MetaService.commitBlocks_eq, received]

theorem answer_getBlockLocations (inodeId : UInt64) :
    sys.answer r (.getBlockLocations inodeId) = (sys.svc.blockMap.getBlocks inodeId, sys) := by
  show (((sys.svc.blockMap.getBlocks inodeId).map (List.map MetaService.fillBlockMetaProto)).map
    (List.map MetaService.blockMetaOf), sys) = _
  rw [map_received]

theorem answer_writeBlock (addr : Str) (blockId segmentId : UInt64) (data : List UInt8) (crc32 : UInt32) :
    sys.answer r (.writeBlock addr blockId segmentId data crc32) =
      ((DataService.writeBlock sys.node blockId data crc32).1,
        { sys with node := (DataService.writeBlock sys.node blockId data crc32).2 }) := rfl

theorem answer_readBlock (addr : Str) (segmentId offset : UInt64) :
    sys.answer r (.readBlock addr segmentId offset) =
      ((DataService.readBlock sys.node segmentId offset r.beyond).1,
        { sys with node := (DataService.readBlock sys.node segmentId offset r.beyond).2 }) := rfl

end

/-- Calls made one at a time; `rs i` are the readings during the `i`-th. -/
def serve (rs : Nat → Readings) : Server Rpc Rpc.Reply (System × Nat)
  | (sys, i), q =>
    let (reply, sys) := sys.answer (rs i) q
    (reply, (sys, i + 1))

theorem serve_eq (rs : Nat → Readings) (sys : System) (i : Nat) (q : Rpc) :
    serve rs (sys, i) q = ((sys.answer (rs i) q).1, ((sys.answer (rs i) q).2, i + 1)) := rfl

end System

end OpenFS
