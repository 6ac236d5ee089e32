import OpenFS.Common.Types
import OpenFS.Lib.Fields

/-!
# Configuration files

`LoadFromFile` of `common/config.cpp`: lines `key=value`, of which the last one for a key counts.
A setting may throw on its value, and leaves the assignments before it in place.
-/

namespace OpenFS

open Fields

structure MetaNodeConfig where
  listenAddr : Str := "0.0.0.0:8100".toList
  dataDir : Str := "/var/lib/openfs/meta".toList
  nodeId : UInt16 := 0
  raftPeers : Str := []
  deriving DecidableEq, Repr

structure DataNodeConfig where
  listenAddr : Str := "0.0.0.0:8200".toList
  dataDir : Str := "/var/lib/openfs/data".toList
  metaAddr : Str := "127.0.0.1:8100".toList
  segmentSize : UInt64 := 256 * 1024 * 1024
  maxSegments : UInt32 := 1024
  diskPaths : List Str := []
  diskSize : UInt64 := 16 * 1024 * 1024
  walBlocks : UInt64 := 256
  deriving DecidableEq, Repr

structure ClientConfig where
  metaAddr : Str := "127.0.0.1:8100".toList
  batchSize : UInt32 := 16
  batchBytes : UInt64 := 64 * 1024 * 1024
  connectTimeoutMs : UInt32 := 5000
  rpcTimeoutMs : UInt32 := 30000
  readCacheSize : UInt64 := 256 * 1024 * 1024
  deriving DecidableEq, Repr

structure Config where
  metaConfig : MetaNodeConfig := {}
  dataConfig : DataNodeConfig := {}
  clientConfig : ClientConfig := {}
  deriving DecidableEq, Repr

/-! ## Numbers -/

/-- What `std::stoul` and `std::stoull` throw. -/
inductive Thrown
  | invalidArgument
  | outOfRange
  deriving DecidableEq, Repr

/-- `isspace` in the "C" locale. -/
def isSpace (c : Char) : Bool := c ∈ [' ', '\t', '\n', '\x0b', '\x0c', '\r']

/-- A sign and what follows it. -/
def signed : Str → Bool × Str
  | '-' :: s => (true, s)
  | '+' :: s => (false, s)
  | s => (false, s)

/-- `std::stoull`, and `std::stoul`, whose result has 64 bits too: the characters up to the first NUL,
read by `strtoull`. A minus sign negates the result, and what follows the digits is not looked at. -/
def stoull (s : Str) : Except Thrown UInt64 :=
  let (negative, s) := signed ((s.takeWhile (· ≠ '\x00')).dropWhile isSpace)
  let digits := s.takeWhile Char.isDigit
  if digits = [] then .error .invalidArgument
  else
    let n := Nat.ofDigitChars 10 digits 0
    if 2 ^ 64 ≤ n then .error .outOfRange
    else .ok (if negative then -UInt64.ofNat n else UInt64.ofNat n)

/-! ## Lines -/

/-- The characters of `" \t\r\n"`. -/
def isBlank (c : Char) : Bool := c ∈ [' ', '\t', '\r', '\n']

/-- What a line sets. -/
def entry (line : Str) : Option (Str × Str) :=
  if line = [] ∨ line.head? = some '#' then none
  else if '=' ∈ line then
    some (trim isBlank (line.takeWhile (· ≠ '=')), trim isBlank ((line.dropWhile (· ≠ '=')).drop 1))
  else none

/-- `kv`: the lines that set something, the last one first, so that a lookup finds the last one. -/
def keyValues (text : Str) : List (Str × Str) := ((split '\n' text).filterMap entry).reverse

/-! ## Assignments -/

/-- What one key does to the configuration. -/
structure Assignment where
  key : Str
  assign : Str → Config → Except Thrown Config

namespace Assignment

def text (key : String) (set : Str → Config → Config) : Assignment where
  key := key.toList
  assign value config := .ok (set value config)

def number (key : String) (set : UInt64 → Config → Config) : Assignment where
  key := key.toList
  assign value config := (stoull value).map fun n => set n config

end Assignment

def setMeta (set : MetaNodeConfig → MetaNodeConfig) (config : Config) : Config :=
  { config with metaConfig := set config.metaConfig }

def setData (set : DataNodeConfig → DataNodeConfig) (config : Config) : Config :=
  { config with dataConfig := set config.dataConfig }

def setClient (set : ClientConfig → ClientConfig) (config : Config) : Config :=
  { config with clientConfig := set config.clientConfig }

/-- The paths of `data.disk_paths`. -/
def diskPaths (value : Str) : List Str :=
  ((split ',' value).map (trim isBlank)).filter (· ≠ [])

/-- The assignments in the order in which they are made. -/
def assignments : List Assignment :=
  [.text "meta.listen_addr" fun v => setMeta fun m => { m with listenAddr := v },
   .text "meta.data_dir" fun v => setMeta fun m => { m with dataDir := v },
   .number "meta.node_id" fun n => setMeta fun m => { m with nodeId := n.toUInt16 },
   .text "meta.raft_peers" fun v => setMeta fun m => { m with raftPeers := v },
   .text "data.listen_addr" fun v => setData fun d => { d with listenAddr := v },
   .text "data.data_dir" fun v => setData fun d => { d with dataDir := v },
   .text "data.meta_addr" fun v => setData fun d => { d with metaAddr := v },
   .number "data.segment_size" fun n => setData fun d => { d with segmentSize := n },
   .number "data.max_segments" fun n => setData fun d => { d with maxSegments := n.toUInt32 },
   .text "data.disk_paths" fun v => setData fun d => { d with diskPaths := diskPaths v },
   .number "data.disk_size" fun n => setData fun d => { d with diskSize := n },
   .number "data.wal_blocks" fun n => setData fun d => { d with walBlocks := n },
   .text "client.meta_addr" fun v => setClient fun c => { c with metaAddr := v }]

/-- Makes the assignments that have a value, up to the first one that throws. -/
def populate (kv : List (Str × Str)) : List Assignment → Config → Except Thrown Unit × Config
  | [], config => (.ok (), config)
  | s :: rest, config =>
    match kv.lookup s.key with
    | none => populate kv rest config
    | some value =>
      match s.assign value config with
      | .error e => (.error e, config)
      | .ok config => populate kv rest config

section
variable {kv : List (Str × Str)} {s : Assignment} {rest : List Assignment} {config after : Config} {value : Str}
  {e : Thrown}

@[simp] theorem populate_nil : populate kv [] config = (.ok (), config) := rfl

theorem populate_none (unset : kv.lookup s.key = none) :
    populate kv (s :: rest) config = populate kv rest config := by
  simp only [populate, unset]

theorem populate_ok (set : kv.lookup s.key = some value) (assigned : s.assign value config = .ok after) :
    populate kv (s :: rest) config = populate kv rest after := by
  simp only [populate, set, assigned]

theorem populate_error (set : kv.lookup s.key = some value) (thrown : s.assign value config = .error e) :
    populate kv (s :: rest) config = (.error e, config) := by
  simp only [populate, set, thrown]

end

/-- `file` is what the file holds, if it opens. -/
def Config.loadFromFile (config : Config) (file : Option Str) : Except Thrown Bool × Config :=
  let config := { config with metaConfig := {}, dataConfig := {}, clientConfig := {} }
  match file with
  | none => (.ok false, config)
  | some text =>
    match populate (keyValues text) assignments config with
    | (.error e, config) => (.error e, config)
    | (.ok (), config) => (.ok true, config)

end OpenFS
