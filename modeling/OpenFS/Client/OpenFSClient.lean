import Mathlib.Logic.Function.Basic
import OpenFS.Client.BlockSplitter
import OpenFS.Lib.Requests

/-!
# The client

`WriteFile` and `ReadFile` as programs over the calls of `MetaConnection` and
`DataConnection`. A call whose RPC fails returns `kInternal`, like a reply that
carries that status.
-/

namespace OpenFS

open Requests

/-- The calls of the two connections, without the logging. -/
inductive Rpc
  | createFile (path : Str) (mode uid gid : UInt32) (fileSize : UInt64)
  | deleteFile (path : Str)
  | getFileInfo (path : Str)
  | rename (src dst : Str)
  | mkDir (path : Str) (mode uid gid : UInt32)
  | readDir (path : Str)
  | rmDir (path : Str)
  | allocateBlocks (inodeId : UInt64) (blockCount : UInt32) (level : BlkLevel)
  | commitBlocks (inodeId : UInt64) (blocks : List BlockMeta)
  | getBlockLocations (inodeId : UInt64)
  | writeBlock (addr : Str) (blockId segmentId : UInt64) (data : List UInt8) (crc32 : UInt32)
  | readBlock (addr : Str) (segmentId offset : UInt64)

namespace Rpc

/-- What the call returns, through its status and its output parameters. -/
abbrev Reply : Rpc → Type
  | .createFile .. => Except Status Inode
  | .deleteFile .. => Status
  | .getFileInfo .. => Except Status Inode
  | .rename .. => Status
  | .mkDir .. => Except Status Inode
  | .readDir .. => Except Status (List DirEntry)
  | .rmDir .. => Status
  | .allocateBlocks .. => Except Status (List BlockMeta)
  | .commitBlocks .. => Status
  | .getBlockLocations .. => Except Status (List BlockMeta)
  | .writeBlock .. => Except Status (UInt64 × UInt64)
  | .readBlock .. => Except Status (List UInt8 × UInt32)

/-- The reply to an RPC that failed. -/
def failed : (q : Rpc) → q.Reply
  | .createFile .. => .error .internal
  | .deleteFile .. => .internal
  | .getFileInfo .. => .error .internal
  | .rename .. => .internal
  | .mkDir .. => .error .internal
  | .readDir .. => .error .internal
  | .rmDir .. => .internal
  | .allocateBlocks .. => .error .internal
  | .commitBlocks .. => .internal
  | .getBlockLocations .. => .error .internal
  | .writeBlock .. => .error .internal
  | .readBlock .. => .error .internal

end Rpc

/-- A client's program. -/
abbrev ClientProg := Prog Rpc Rpc.Reply

namespace MetaConnection

abbrev createFile (path : Str) (mode uid gid : UInt32) (fileSize : UInt64) : ClientProg (Except Status Inode) :=
  Prog.call (Rpc.createFile path mode uid gid fileSize)

abbrev deleteFile (path : Str) : ClientProg Status := Prog.call (Rpc.deleteFile path)

abbrev getFileInfo (path : Str) : ClientProg (Except Status Inode) := Prog.call (Rpc.getFileInfo path)

abbrev rename (src dst : Str) : ClientProg Status := Prog.call (Rpc.rename src dst)

abbrev mkDir (path : Str) (mode uid gid : UInt32) : ClientProg (Except Status Inode) :=
  Prog.call (Rpc.mkDir path mode uid gid)

abbrev readDir (path : Str) : ClientProg (Except Status (List DirEntry)) := Prog.call (Rpc.readDir path)

abbrev rmDir (path : Str) : ClientProg Status := Prog.call (Rpc.rmDir path)

abbrev allocateBlocks (inodeId : UInt64) (blockCount : UInt32) (level : BlkLevel) :
    ClientProg (Except Status (List BlockMeta)) :=
  Prog.call (Rpc.allocateBlocks inodeId blockCount level)

abbrev commitBlocks (inodeId : UInt64) (blocks : List BlockMeta) : ClientProg Status :=
  Prog.call (Rpc.commitBlocks inodeId blocks)

abbrev getBlockLocations (inodeId : UInt64) : ClientProg (Except Status (List BlockMeta)) :=
  Prog.call (Rpc.getBlockLocations inodeId)

end MetaConnection

namespace DataConnection

abbrev writeBlock (addr : Str) (blockId segmentId : UInt64) (data : List UInt8) (crc32 : UInt32) :
    ClientProg (Except Status (UInt64 × UInt64)) :=
  Prog.call (Rpc.writeBlock addr blockId segmentId data crc32)

abbrev readBlock (addr : Str) (segmentId offset : UInt64) : ClientProg (Except Status (List UInt8 × UInt32)) :=
  Prog.call (Rpc.readBlock addr segmentId offset)

end DataConnection

structure OpenFSClient where
  initialized : Bool := false
  nodeAddrCache : UInt64 → Option Str := fun _ => none

namespace OpenFSClient

/-- `"localhost:8200"`. -/
def defaultAddr : Str := "localhost:8200".toList

/-- The address of a data node; one that is not cached is taken to be local. -/
def dataAddr (client : OpenFSClient) (nodeId : UInt64) : Str × OpenFSClient :=
  match client.nodeAddrCache nodeId with
  | some addr => (addr, client)
  | none =>
    (defaultAddr, { client with nodeAddrCache := Function.update client.nodeAddrCache nodeId (some defaultAddr) })

/-- The record of a block once it is written. -/
def committedBlock (alloc : BlockMeta) (slice : BlockSlice) (segmentId offset : UInt64) : BlockMeta :=
  { alloc with segmentId := segmentId, offset := offset, size := slice.dataSize, crc32 := slice.crc32 }

/-- Step 4 of `WriteFile`, one block after the other. -/
def writeBlocks (data : List UInt8) : OpenFSClient → List (BlockMeta × BlockSlice) → List BlockMeta →
    ClientProg (Except Status (List BlockMeta) × OpenFSClient)
  | client, [], committed => pure (.ok committed, client)
  | client, (alloc, slice) :: rest, committed => do
    let (addr, client) := client.dataAddr alloc.nodeId
    match ← DataConnection.writeBlock addr alloc.blockId alloc.segmentId (slice.bytes data) slice.crc32 with
    | .error s => pure (.error s, client)
    | .ok (segmentId, offset) =>
      writeBlocks data client rest (committed ++ [committedBlock alloc slice segmentId offset])

/-- Steps 2 to 5 of `WriteFile`, for data that is not empty. -/
def writeData (client : OpenFSClient) (inode : Inode) (data : List UInt8) :
    ClientProg (Status × OpenFSClient) :=
  let slices := BlockSplitter.split data.length data
  match slices.head? with
  | none => pure (.internal, client)
  | some first => do
    match ← MetaConnection.allocateBlocks inode.inodeId (UInt32.ofNat slices.length) first.level with
    | .error s => pure (s, client)
    | .ok allocated =>
      if allocated.length ≠ slices.length then pure (.internal, client)
      else
        match ← writeBlocks data client (allocated.zip slices) [] with
        | (.error s, client) => pure (s, client)
        | (.ok committed, client) => do
          let s ← MetaConnection.commitBlocks inode.inodeId committed
          pure (s, client)

def writeFile (client : OpenFSClient) (path : Str) (mode : UInt32) (data : List UInt8) :
    ClientProg (Status × OpenFSClient) :=
  if client.initialized = false then pure (.internal, client)
  else do
    match ← MetaConnection.createFile path mode 0 0 (UInt64.ofNat data.length) with
    | .error s => pure (s, client)
    | .ok inode => if data = [] then pure (.ok, client) else client.writeData inode data

/-- `resize`: the bytes there stay, new ones are zero. -/
def resize (out : List UInt8) (size : Nat) : List UInt8 :=
  out.take size ++ List.replicate (size - out.length) 0

/-- `memcpy` into `out` at `offset`. -/
def copyAt (out : List UInt8) (offset : Nat) (bs : List UInt8) : List UInt8 :=
  out.take offset ++ bs ++ out.drop (offset + bs.length)

/-- `copy_size`: what still fits, cut to 32 bits. -/
def copySize (size writeOffset length : Nat) : Nat := u32 (min length (u64 (size + 2 ^ 64 - writeOffset)))

/-- Step 3 of `ReadFile`, one block after the other. -/
def readBlocks (size : Nat) : OpenFSClient → List BlockMeta → Nat → List UInt8 →
    ClientProg (Status × List UInt8 × OpenFSClient)
  | client, [], _, out => pure (.ok, out, client)
  | client, block :: blocks, writeOffset, out => do
    let (addr, client) := client.dataAddr block.nodeId
    match ← DataConnection.readBlock addr block.segmentId block.offset with
    | .error s => pure (s, out, client)
    | .ok (blockData, blockCrc) =>
      if computeCRC32 (blockData.take (u32 blockData.length)) ≠ blockCrc then pure (.crcMismatch, out, client)
      else
        let copied := copySize size writeOffset blockData.length
        let next := u64 (writeOffset + copied)
        readBlocks size client blocks next
          (if next ≤ out.length then copyAt out writeOffset (blockData.take copied) else out)

/-- `outData` is the caller's vector, with what it held before the call. -/
def readFile (client : OpenFSClient) (path : Str) (outData : List UInt8) :
    ClientProg (Status × List UInt8 × OpenFSClient) :=
  if client.initialized = false then pure (.internal, outData, client)
  else do
    match ← MetaConnection.getFileInfo path with
    | .error s => pure (s, outData, client)
    | .ok inode =>
      if inode.size = 0 then pure (.ok, [], client)
      else
        match ← MetaConnection.getBlockLocations inode.inodeId with
        | .error s => pure (s, outData, client)
        | .ok blocks =>
          if blocks = [] then pure (.notFound, outData, client)
          else readBlocks inode.size.toNat client blocks 0 (resize outData inode.size.toNat)

/-! ## Operations of one call -/

def createFile (client : OpenFSClient) (path : Str) (mode : UInt32) (fileSize : UInt64) :
    ClientProg (Except Status Inode) :=
  if client.initialized = false then pure (.error .internal)
  else MetaConnection.createFile path mode 0 0 fileSize

def deleteFile (client : OpenFSClient) (path : Str) : ClientProg Status :=
  if client.initialized = false then pure .internal else MetaConnection.deleteFile path

def getFileInfo (client : OpenFSClient) (path : Str) : ClientProg (Except Status Inode) :=
  if client.initialized = false then pure (.error .internal) else MetaConnection.getFileInfo path

def rename (client : OpenFSClient) (src dst : Str) : ClientProg Status :=
  if client.initialized = false then pure .internal else MetaConnection.rename src dst

def mkDir (client : OpenFSClient) (path : Str) (mode : UInt32) : ClientProg (Except Status Inode) :=
  if client.initialized = false then pure (.error .internal) else MetaConnection.mkDir path mode 0 0

def readDir (client : OpenFSClient) (path : Str) : ClientProg (Except Status (List DirEntry)) :=
  if client.initialized = false then pure (.error .internal) else MetaConnection.readDir path

def rmDir (client : OpenFSClient) (path : Str) : ClientProg Status :=
  if client.initialized = false then pure .internal else MetaConnection.rmDir path

end OpenFSClient

end OpenFS
