import OpenFS.Client.Cluster
import OpenFS.Lib.Simulation
import OpenFS.Meta.NameTree

/-!
# A file store

What the clients are for: files with their bytes under the names of one tree. There are no
blocks, nodes, disks or messages. A write makes the file and then publishes its bytes, all
at once or not at all; a read finds the file and then fetches what it holds; every other
operation is one step. Between its two steps others may do theirs.
-/

namespace OpenFS

open Requests

/-- What a file holds. One that was made for data holds nothing until these are published. -/
inductive Content
  | empty
  | pending
  | stored (data : List UInt8)

/-- The content of a file that was just made. -/
def Content.blank (size : UInt64) : Content := if size = 0 then .empty else .pending

structure FileStore where
  tree : NameTree := .init
  content : UInt64 → Content := fun _ => .empty

inductive StoreReq
  | create (path : Str) (size : UInt64)
  | publish (id : UInt64) (data : List UInt8)
  | find (path : Str)
  | fetch (id : UInt64)
  | list (path : Str)
  | change (call : NamespaceManager.Call)

abbrev StoreReq.Reply : StoreReq → Type
  | .create .. => Except Status UInt64
  | .publish .. => Status
  | .find .. => Except Status (UInt64 × InodeType)
  | .fetch .. => Content
  | .list .. => Status
  | .change .. => Status

/-- A client's operation on the store. -/
abbrev StoreProg := Prog StoreReq StoreReq.Reply

namespace FileStore

def create (store : FileStore) (path : Str) (size : UInt64) : Except Status UInt64 × FileStore :=
  match store.tree.createFile path with
  | (.ok, tree) =>
    (.ok store.tree.next, { tree, content := Function.update store.content store.tree.next (.blank size) })
  | (s, _) => (.error s, store)

/-- `fault` says whether the bytes can be kept. -/
def publish (fault : Status) (store : FileStore) (id : UInt64) (data : List UInt8) : Status × FileStore :=
  match fault with
  | .ok => (.ok, { store with content := Function.update store.content id (.stored data) })
  | s => (s, store)

noncomputable def answer (fault : Status) (store : FileStore) : (q : StoreReq) → q.Reply × FileStore
  | .create path size => store.create path size
  | .publish id data => publish fault store id data
  | .find path => (store.tree.lookup path, store)
  | .fetch id => (store.content id, store)
  | .list path => (statusOf (store.tree.openDir path), store)
  | .change call => let r := store.tree.exec call; (r.1, { store with tree := r.2 })

/-- The ids of nodes do not come to their end. -/
def IdsLast (store : FileStore) : StoreReq → Prop
  | .create .. => store.tree.next.toNat + 1 < 2 ^ 64
  | .change (.mkDir ..) => store.tree.next.toNat + 1 < 2 ^ 64
  | .change (.createFile ..) => store.tree.next.toNat + 1 < 2 ^ 64
  | _ => True

/-- The second step of a write. -/
def publishMade (data : List UInt8) : Except Status UInt64 → StoreProg Outcome
  | .error s => pure (s, [])
  | .ok id =>
    if data = [] then pure (.ok, [])
    else do
      let s ← Prog.call (StoreReq.publish id data)
      pure (s, [])

def writeFile (path : Str) (data : List UInt8) : StoreProg Outcome := do
  let made ← Prog.call (StoreReq.create path (UInt64.ofNat data.length))
  publishMade data made

/-- What the caller's vector holds in the end. -/
def outcome (outData : List UInt8) : Content → Outcome
  | .empty => (.ok, [])
  | .pending => (.notFound, outData)
  | .stored data => (.ok, data)

/-- The second step of a read. -/
def fetchFound (outData : List UInt8) : Except Status (UInt64 × InodeType) → StoreProg Outcome
  | .error s => pure (s, outData)
  | .ok (id, _) => do
    let content ← Prog.call (StoreReq.fetch id)
    pure (outcome outData content)

def readFile (path : Str) (outData : List UInt8) : StoreProg Outcome := do
  let found ← Prog.call (StoreReq.find path)
  fetchFound outData found

/-- One step that returns a status. -/
def step (q : StoreReq) (status : q.Reply → Status) : StoreProg Outcome := do
  let reply ← Prog.call q
  pure (status reply, [])

def prog : FileOp → StoreProg Outcome
  | .writeFile path _ data => writeFile path data
  | .createFile path _ size => step (.create path size) statusOf
  | .readFile path outData => readFile path outData
  | .deleteFile path => step (.change (.deleteFile path)) id
  | .getFileInfo path => step (.find path) statusOf
  | .rename src dst => step (.change (.rename src dst)) id
  | .mkDir path mode => step (.change (.mkDir path mode 0 0)) id
  | .readDir path => step (.list path) id
  | .rmDir path => step (.change (.rmDir path)) id

/-- A client that was not initialized is refused, and a read leaves its vector. -/
def refused : FileOp → Outcome
  | .readFile _ outData => (.internal, outData)
  | _ => (.internal, [])

end FileStore

/-- Clients at one store, which is empty at first. -/
noncomputable def fileStore : Setting ClientCall StoreReq StoreReq.Reply Outcome FileStore Status where
  prog c := if c.client.initialized = false then pure (FileStore.refused c.op) else FileStore.prog c.op
  answer := FileStore.answer
  start store := store = {}
  drift _ _ := False

end OpenFS
