import Mathlib.Data.List.TakeWhile
import OpenFS.Client.SingleWrite
import OpenFS.Client.StoreRefinement
import OpenFS.Client.UnmovedPrograms
import OpenFS.Client.WholeFiles
import OpenFS.Lib.FrontEnds
import OpenFS.Meta.PathSpelling
import OpenFS.S3.S3Server

/-!
# The gateway as an object store

Any number of gateways at one cluster. What a bucket serves under a key is what was put there, and
stays until it is to be deleted. Keys are taken apart at their slashes, and as no request makes a
directory below a bucket, no object can be put under a key with two names.
-/

namespace OpenFS.S3Server

open Requests NameTree FileStore

/-- A request, and the client of the gateway that it comes to. -/
structure GatewayCall where
  client : OpenFSClient
  req : HttpRequest

/-- Gateways at a cluster. -/
def gateway : Setting GatewayCall Rpc Rpc.Reply HttpResponse System Readings :=
  cluster.front fun c => handleRequest c.client c.req

/-- The operation of the client that a request comes to. -/
def fileOp : Operation → Option FileOp
  | .listBuckets => none
  | .createBucket bucket => some (.mkDir (bucketPath bucket) 0o755)
  | .putObject bucket key data => some (.writeFile (objectPath bucket key) 0o644 data)
  | .listObjects bucket => some (.readDir (bucketPath bucket))
  | .getObject bucket key => some (.readFile (objectPath bucket key) [])
  | .deleteBucket bucket => some (.rmDir (bucketPath bucket))
  | .deleteObject bucket key => some (.deleteFile (objectPath bucket key))
  | .headObject bucket key => some (.getFileInfo (objectPath bucket key))
  | .notAllowed => none

/-- A request that needs no call is as one to a client that refuses it. -/
def behind (c : GatewayCall) : ClientCall :=
  match fileOp (operation c.req) with
  | some op => ⟨c.client, op⟩
  | none => ⟨{}, .readDir []⟩

/-- The bucket that is named. -/
def Operation.bucket : Operation → Option Str
  | .listBuckets => none
  | .createBucket bucket => some bucket
  | .putObject bucket .. => some bucket
  | .listObjects bucket => some bucket
  | .getObject bucket _ => some bucket
  | .deleteBucket bucket => some bucket
  | .deleteObject bucket _ => some bucket
  | .headObject bucket _ => some bucket
  | .notAllowed => none

/-- The bucket and the key, where both matter. -/
def Operation.object : Operation → Option (Str × Str)
  | .putObject bucket key _ => some (bucket, key)
  | .getObject bucket key => some (bucket, key)
  | .deleteObject bucket key => some (bucket, key)
  | .headObject bucket key => some (bucket, key)
  | _ => none

/-- `200 OK` or `204 No Content`. -/
def Succeeds (resp : HttpResponse) : Prop := resp.statusCode = 200 ∨ resp.statusCode = 204

/-- The response beside the result of the client's operation. -/
def Responds : Operation → Outcome → HttpResponse → Prop
  | .putObject .., out, resp => resp.statusCode = if out.1 = .ok then 200 else 500
  | .getObject .., out, resp => resp = objectResponse out.1 out.2
  | .deleteObject .., out, resp => resp.statusCode = if out.1 = .ok then 204 else 500
  | .headObject .., out, resp => Succeeds resp → out.1 = .ok
  | _, _, _ => True

/-- The body fits the blocks of a file. -/
def GatewayCall.Fits (c : GatewayCall) : Prop := c.req.body.length ≤ BlockSplitter.maxSplit

/-! ## Paths -/

section
variable {req : HttpRequest} {bucket key : Str}

/-- What an operation has from its request. -/
def Operation.OfRequest (req : HttpRequest) : Operation → Prop
  | .listBuckets => True
  | .createBucket bucket => bucket = (bucketAndKey req.path).1 ∧ bucket ≠ []
  | .putObject bucket _ data => (bucket = (bucketAndKey req.path).1 ∧ bucket ≠ []) ∧ data = req.body
  | .listObjects bucket => bucket = (bucketAndKey req.path).1 ∧ bucket ≠ []
  | .getObject bucket _ => bucket = (bucketAndKey req.path).1 ∧ bucket ≠ []
  | .deleteBucket bucket => bucket = (bucketAndKey req.path).1 ∧ bucket ≠ []
  | .deleteObject bucket _ => bucket = (bucketAndKey req.path).1 ∧ bucket ≠ []
  | .headObject bucket _ => bucket = (bucketAndKey req.path).1 ∧ bucket ≠ []
  | .notAllowed => True

theorem ofRequest_operation (req : HttpRequest) : (operation req).OfRequest req := by
  unfold operation
  dsimp only
  by_cases unnamed : (bucketAndKey req.path).1 = []
  · rw [if_pos unnamed]
    trivial
  · rw [if_neg unnamed]
    split
    · split
      · exact ⟨rfl, unnamed⟩
      · exact ⟨⟨rfl, unnamed⟩, rfl⟩
    · split
      · split
        · exact ⟨rfl, unnamed⟩
        · exact ⟨rfl, unnamed⟩
      · split
        · split
          · exact ⟨rfl, unnamed⟩
          · exact ⟨rfl, unnamed⟩
        · split
          · exact ⟨rfl, unnamed⟩
          · trivial

theorem bucket_eq (named : (operation req).bucket = some bucket) :
    bucket = (bucketAndKey req.path).1 ∧ bucket ≠ [] := by
  have read := ofRequest_operation req
  cases op : operation req with
  | listBuckets => rw [op] at named; cases named
  | notAllowed => rw [op] at named; cases named
  | putObject => rw [op] at named read; cases named; exact read.1
  | _ => rw [op] at named read; cases named; exact read

theorem slash_notMem (named : (operation req).bucket = some bucket) : '/' ∉ bucket := by
  obtain ⟨rfl, -⟩ := bucket_eq named
  intro member
  simpa using List.mem_takeWhile_imp member

theorem components_bucketPath (named : (operation req).bucket = some bucket) :
    components (bucketPath bucket) = [bucket] := by
  unfold bucketPath
  rw [components_slash, components_of_name (bucket_eq named).2 (slash_notMem named)]

theorem target_bucketPath (named : (operation req).bucket = some bucket) :
    target (bucketPath bucket) = .ok [bucket] := by
  have names := components_bucketPath named
  unfold target
  rw [if_neg (by simp [bucketPath]), if_neg, if_neg, names]
  · simp [names]
  · intro root
    rw [root] at names
    cases names.symm.trans (by decide : components ['/'] = [])

/-- An object is at its bucket and the components of its key. -/
theorem target_objectPath (named : (operation req).bucket = some bucket) :
    target (objectPath bucket key) = .ok (bucket :: components key) := by
  have names : components (objectPath bucket key) = bucket :: components key := by
    show components (bucketPath bucket ++ '/' :: key) = _
    rw [components_append_slash, components_bucketPath named, List.singleton_append]
  unfold target
  rw [if_neg (by simp [objectPath]), if_neg, if_neg, names]
  · simp [names]
  · intro root
    rw [root] at names
    cases names.symm.trans (by decide : components ['/'] = [])

theorem bucket_of_object {object : Str × Str} (asked : (operation req).object = some object) :
    (operation req).bucket = some object.1 := by
  cases op : operation req with
  | putObject => rw [op] at asked; cases asked; rfl
  | getObject => rw [op] at asked; cases asked; rfl
  | deleteObject => rw [op] at asked; cases asked; rfl
  | headObject => rw [op] at asked; cases asked; rfl
  | _ => rw [op] at asked; cases asked

end

theorem twins (c : GatewayCall) :
    Twin (Responds (operation c.req)) (cluster.prog (behind c)) (handleRequest c.client c.req) := by
  obtain ⟨client, req⟩ := c
  unfold behind handleRequest
  dsimp only
  cases operation req with
  | listBuckets => exact twin_pure trivial
  | createBucket bucket => exact twin_bind _ fun r => twin_pure trivial
  | putObject bucket key data => exact twin_bind _ fun r => twin_pure rfl
  | listObjects bucket => exact twin_bind _ fun r => twin_pure trivial
  | getObject bucket key => exact twin_bind _ fun r => twin_pure rfl
  | deleteBucket bucket => exact twin_bind _ fun r => twin_pure trivial
  | deleteObject bucket key => exact twin_bind _ fun r => twin_pure rfl
  | headObject bucket key =>
    refine twin_bind _ fun r => twin_pure fun succeeds => ?_
    cases r with
    | ok inode => rfl
    | error s =>
      unfold Succeeds headResponse at succeeds
      dsimp only at succeeds
      split at succeeds <;> simp at succeeds
  | notAllowed => exact twin_pure trivial

/-! ## A bucket, an object, and back -/

def makeBucket : GatewayCall := ⟨{ initialized := true }, { method := "PUT".toList, path := "/b".toList }⟩

def putByte : GatewayCall :=
  ⟨{ initialized := true }, { method := "PUT".toList, path := "/b/k".toList, body := [7] }⟩

def getByte : GatewayCall := ⟨{ initialized := true }, { method := "GET".toList, path := "/b/k".toList }⟩

/-- The service with one node, once it has the bucket. -/
def withBucket : MetaService :=
  { FailedWrites.oneNode with
    namespaceMgr := (FailedWrites.oneNode.namespaceMgr.mkDir 0 ['/', 'b'] 0o755 0 0).2 }

theorem run_makeBucket (node : DataNode) :
    (gateway.prog makeBucket).run (serving gateway.answer fun _ => {}) (⟨FailedWrites.oneNode, node⟩, 0) =
      ({ statusCode := 200 }, ⟨withBucket, node⟩, 1) := rfl

theorem prog_putByte : gateway.prog putByte =
    (OpenFSClient.writeFile { initialized := true } ['/', 'b', '/', 'k'] 0o644 [7] >>= fun r =>
      pure { statusCode := if r.1 = .ok then 200 else 500 }) := rfl

theorem run_putByte {node : DataNode} (takes : Cluster.TakesMany 1 node) :
    ((gateway.prog putByte).run (serving gateway.answer fun _ => {}) (⟨withBucket, node⟩, 0)).1 =
        { statusCode := 200 } ∧
      (gateway.prog putByte).Along (fun s q => Cluster.IdsLast s.1 q) (serving gateway.answer fun _ => {})
        (⟨withBucket, node⟩, 0) := by
  have some : BlockSplitter.split [(7 : UInt8)].length [7] ≠ [] := by decide
  have made : (withBucket.namespaceMgr.createFile 0 ['/', 'b', '/', 'k'] 0o644 0 0 1).1 =
      .ok (NamespaceManager.newRegular 0 0o644 0 0 1 3 2 ['k']) := rfl
  have online : withBucket.nodeMgr.getAnyOnlineNode ≠ 0 := by decide
  have ids : withBucket.inodeTable.nextInodeId.toNat + 1 < 2 ^ 64 := by decide
  have room : withBucket.blockAllocator.nextBlockId.toNat +
      (BlockSplitter.split [(7 : UInt8)].length [7]).length < 2 ^ 64 := by decide
  obtain ⟨ok, along⟩ := @Cluster.run_writeFile_taken (fun _ => {}) [7] ⟨withBucket, node⟩ 0 { initialized := true }
    rfl ['/', 'b', '/', 'k'] 0o644 _ made some online takes ids room
  rw [prog_putByte]
  refine ⟨?_, (Prog.along_bind _ _ _).mpr ⟨along, trivial⟩⟩
  rw [Prog.run_bind]
  exact congrArg (fun s : Status => (⟨if s = .ok then 200 else 500, [], []⟩ : HttpResponse)) ok

theorem prog_getByte : gateway.prog getByte =
    .ask (.getFileInfo ['/', 'b', '/', 'k']) fun reply =>
      Cluster.readFound { initialized := true } [] reply >>= fun r => pure (objectResponse r.1 r.2.1) := by
  show (OpenFSClient.readFile { initialized := true } ['/', 'b', '/', 'k'] [] >>= _) = _
  rw [Cluster.readFile_eq rfl]
  rfl

theorem along_getByte (s : System × Nat) :
    (gateway.prog getByte).Along (fun s q => Cluster.IdsLast s.1 q) (serving gateway.answer fun _ => {}) s := by
  rw [prog_getByte]
  refine ⟨trivial, (Prog.along_bind _ _ _).mpr ⟨?_, trivial⟩⟩
  generalize (serving gateway.answer (fun _ => {}) s (.getFileInfo ['/', 'b', '/', 'k'])).1 = reply
  rcases reply with s | inode
  · trivial
  · unfold Cluster.readFound
    dsimp only
    split
    · trivial
    · exact ((Cluster.uses_readLocated _ _ _ _).mono fun q reading (s : System × Nat) =>
        Cluster.idsLast_of_reading reading s.1).along _

/-- What is seen until the object is there. -/
abbrev filled : List (Visible GatewayCall HttpResponse) :=
  [.returned 1 { statusCode := 200 }, .called 1 putByte, .returned 0 { statusCode := 200 }, .called 0 makeBucket]

/-- Nothing is deleted. -/
theorem undeleted_round {m : Nat} {c : GatewayCall} {bucket key : Str}
    (member : .called m c ∈ (.called 2 getByte :: filled : List (Visible GatewayCall HttpResponse))) :
    operation c.req ≠ .deleteObject bucket key := by
  intro deleted
  simp only [filled, List.mem_cons, List.not_mem_nil, Visible.called.injEq, reduceCtorEq, or_false, false_or]
    at member
  rcases member with ⟨-, rfl⟩ | ⟨-, rfl⟩ | ⟨-, rfl⟩
  · cases deleted
  · cases deleted
  · cases deleted

/-- What is seen of such a round. -/
theorem exists_round : ∃ resp st, gateway.Traced (fun _ c => c.Fits) Cluster.IdsLast
    (.returned 2 resp :: .called 2 getByte :: filled) st := by
  obtain ⟨node, installed, length, roomy⟩ := DataNode.exists_roomy
  have takes := (Cluster.takesMany_of_roomy roomy).of_le 1 (by decide)
  have fresh : Cluster.Fresh ⟨.init 0, node⟩ := ⟨⟨0, rfl⟩, installed, by rw [length]; decide⟩
  have drift : Cluster.Drift ⟨.init 0, node⟩ ⟨FailedWrites.oneNode, node⟩ :=
    .register 0 "localhost:8200".toList 0
  have started : gateway.Traced (fun _ c => c.Fits) Cluster.IdsLast []
    { server := ⟨FailedWrites.oneNode, node⟩ } := .drift (.start fresh) drift
  have small : makeBucket.Fits := Nat.zero_le _
  have ids : (gateway.prog makeBucket).Along (fun s q => Cluster.IdsLast s.1 q)
      (serving gateway.answer fun _ => {}) (⟨FailedWrites.oneNode, node⟩, 0) :=
    ⟨show (2 : UInt64).toNat + 1 < 2 ^ 64 by decide, trivial⟩
  obtain ⟨st₀, made, server₀, length₀⟩ := started.alone makeBucket small (fun _ => {}) ids
  rw [run_makeBucket] at made server₀
  obtain ⟨ok, along⟩ := run_putByte takes
  have small' : putByte.Fits := show [(7 : UInt8)].length ≤ BlockSplitter.maxSplit by decide
  rw [← show st₀.server = ⟨withBucket, node⟩ from server₀] at ok along
  obtain ⟨st₁, put, -, length₁⟩ := made.alone putByte small' (fun _ => {}) along
  have small'' : getByte.Fits := Nat.zero_le _
  obtain ⟨st₂, got, -, -⟩ := put.alone getByte small'' (fun _ => {}) (along_getByte _)
  rw [length₁, length₀, ok] at got
  exact ⟨_, st₂, got⟩

/-! ## What is seen -/

section
variable {c : GatewayCall} {bucket key : Str} {data : List UInt8}

theorem behind_eq {op : FileOp} (comes : fileOp (operation c.req) = some op) : behind c = ⟨c.client, op⟩ := by
  unfold behind
  rw [comes]

/-- No request moves a file. -/
theorem behind_stays (c : GatewayCall) : (behind c).op.Stays := by
  unfold behind
  cases operation c.req <;> trivial

theorem fits_behind (fits : c.Fits) : (behind c).op.Fits := by
  have read := ofRequest_operation c.req
  unfold behind
  cases op : operation c.req with
  | putObject bucket key data =>
    rw [op] at read
    obtain ⟨-, rfl⟩ := read
    exact fits
  | _ => trivial

theorem put_of_behind {client : OpenFSClient} {path : Str} {mode : UInt32}
    (same : behind c = ⟨client, .writeFile path mode data⟩) :
    ∃ bucket key, operation c.req = .putObject bucket key data ∧ path = objectPath bucket key := by
  unfold behind at same
  cases op : operation c.req with
  | putObject bucket key data =>
    rw [op] at same
    cases same
    exact ⟨bucket, key, rfl, rfl⟩
  | _ => rw [op] at same; cases same

theorem delete_of_behind {client : OpenFSClient} {path : Str} (same : behind c = ⟨client, .deleteFile path⟩) :
    ∃ bucket key, operation c.req = .deleteObject bucket key ∧ path = objectPath bucket key := by
  unfold behind at same
  cases op : operation c.req with
  | deleteObject bucket key =>
    rw [op] at same
    cases same
    exact ⟨bucket, key, rfl, rfl⟩
  | _ => rw [op] at same; cases same

theorem create_of_behind {client : OpenFSClient} {path : Str} {mode : UInt32}
    (same : behind c = ⟨client, .mkDir path mode⟩) :
    ∃ bucket, operation c.req = .createBucket bucket ∧ path = bucketPath bucket := by
  unfold behind at same
  cases op : operation c.req with
  | createBucket bucket =>
    rw [op] at same
    cases same
    exact ⟨bucket, rfl, rfl⟩
  | _ => rw [op] at same; cases same

/-- A request that succeeds comes to an operation that does. -/
theorem ok_of_succeeds {object : Str × Str} {out : Outcome} {resp : HttpResponse}
    (asked : (operation c.req).object = some object) (responds : Responds (operation c.req) out resp)
    (succeeds : Succeeds resp) : out.1 = .ok := by
  unfold Succeeds at succeeds
  by_contra failed
  cases op : operation c.req with
  | putObject bucket key data =>
    rw [op] at responds
    have status : resp.statusCode = if out.1 = .ok then 200 else 500 := responds
    rw [status, if_neg failed] at succeeds
    simp at succeeds
  | getObject bucket key =>
    rw [op] at responds
    have response : resp = objectResponse out.1 out.2 := responds
    rw [response, objectResponse, if_neg failed] at succeeds
    split at succeeds <;> simp at succeeds
  | deleteObject bucket key =>
    rw [op] at responds
    have status : resp.statusCode = if out.1 = .ok then 204 else 500 := responds
    rw [status, if_neg failed] at succeeds
    simp at succeeds
  | headObject bucket key =>
    rw [op] at responds
    exact failed (responds succeeds)
  | _ => rw [op] at asked; cases asked

end

/-- Beside what is seen of the gateways, what is seen of a store. -/
abbrev Shown (tr : List (Visible ClientCall Outcome)) (seen : List (Visible GatewayCall HttpResponse)) : Prop :=
  Setting.Mirrors behind (fun c => Responds (operation c.req)) tr seen

abbrev Gateways := Concurrent GatewayCall Rpc Rpc.Reply HttpResponse System

variable {st : Gateways} {seen later before mid earlier : List (Visible GatewayCall HttpResponse)}
  {tr : List (Visible ClientCall Outcome)} {bucket key key' : Str} {data : List UInt8}

theorem exists_shown (traced : gateway.Traced (fun _ c => c.Fits) Cluster.IdsLast seen st) :
    ∃ tr st', fileStore.Traced (fun _ _ => True) FileStore.IdsLast tr st' ∧ Shown tr seen := by
  have below : ∃ tr st₁, cluster.Traced (fun _ c => c.op.Fits) Cluster.IdsLast tr st₁ ∧ Shown tr seen ∧
      Setting.Behind behind (fun c => Responds (operation c.req)) st₁ st :=
    traced.behind twins fun _ _ c fits => fits_behind fits
  obtain ⟨tr, st₁, traced₁, shown, -⟩ := below
  obtain ⟨st₂, traced₂, -⟩ := Cluster.simulated.traced traced₁
  exact ⟨tr, st₂, traced₂, shown⟩

theorem Shown.quiet (shown : Shown tr seen) : Quiet tr := by
  intro k call called
  obtain ⟨c, rfl, -⟩ := shown.called_iff.mp called
  exact behind_stays c

theorem target_object {object : Str × Str} {req : HttpRequest} (asked : (operation req).object = some object) :
    target (objectPath object.1 object.2) = .ok (object.1 :: components object.2) :=
  target_objectPath (bucket_of_object asked)

/-- Paths of two objects come together only in one bucket. -/
theorem target_inj {object object' : Str × Str} {req req' : HttpRequest}
    (asked : (operation req).object = some object) (asked' : (operation req').object = some object')
    (same : target (objectPath object.1 object.2) = target (objectPath object'.1 object'.2)) :
    object.1 = object'.1 ∧ components object.2 = components object'.2 := by
  rw [target_object asked, target_object asked'] at same
  exact List.cons.inj (Except.ok.inj same)

/-- What was seen until a response came. -/
theorem Shown.until (traced : gateway.Traced (fun _ c => c.Fits) Cluster.IdsLast seen st) (shown : Shown tr seen)
    {k : Nat} {c : GatewayCall} {resp : HttpResponse} (cut : seen = later ++ .returned k resp :: before)
    (called : .called k c ∈ before) : ∃ later' out before', tr = later' ++ .returned k out :: before' ∧
      Shown before' before ∧ .called k (behind c) ∈ before' ∧ Responds (operation c.req) out resp := by
  obtain ⟨later', before', out, c', cut', shown', called', responds⟩ := shown.cut_returned cut
  have inside : before ⊆ seen := by
    rw [cut]
    exact List.Subset.trans (List.subset_cons_self _ _) (List.subset_append_right _ _)
  obtain rfl := traced.called_once (inside called) (inside called')
  exact ⟨later', out, before', cut', shown', shown'.called_iff.mpr ⟨_, rfl, called⟩, responds⟩

/-- What was put is got, unless it was to be deleted. -/
theorem Shown.served (traced : gateway.Traced (fun _ c => c.Fits) Cluster.IdsLast seen st)
    {st' : State} (traced' : fileStore.Traced (fun _ _ => True) FileStore.IdsLast tr st') (shown : Shown tr seen)
    {j k : Nat}
    {c c' : GatewayCall} {resp resp' : HttpResponse} (cut : seen = later ++ .returned k resp :: before)
    (cut' : before = mid ++ .called k c :: earlier) (asked : operation c.req = .getObject bucket key)
    (ready : c.client.initialized = true) (put : .called j c' ∈ earlier)
    (asked' : operation c'.req = .putObject bucket key' data) (same : components key' = components key)
    (done : .returned j resp' ∈ earlier) (ok : resp'.statusCode = 200)
    (undeleted : ∀ m c'' key'', .called m c'' ∈ before → operation c''.req = .deleteObject bucket key'' →
      components key'' ≠ components key) : resp.statusCode = 200 ∧ resp.body = data := by
  have called : .called k c ∈ before := by
    rw [cut']
    exact List.mem_append_right _ List.mem_cons_self
  obtain ⟨later', out, before', split, shown', called', responds⟩ := shown.until traced cut called
  obtain ⟨mid', earlier', split', shown''⟩ := shown'.cut_called cut'
  have object : (operation c.req).object = some (bucket, key) := by rw [asked]; rfl
  have object' : (operation c'.req).object = some (bucket, key') := by rw [asked']; rfl
  have old : earlier ⊆ seen := by
    rw [cut, cut']
    exact fun e member => List.mem_append_right _ (List.mem_cons_of_mem _ (List.mem_append_right _
      (List.mem_cons_of_mem _ member)))
  -- the put had returned
  obtain ⟨after, first, done'⟩ := List.append_of_mem done
  obtain ⟨after', first', out', c₀, done'', -, called₀, responds'⟩ := shown''.cut_returned done'
  have before₀ : first ⊆ earlier := by
    rw [done']
    exact List.Subset.trans (List.subset_cons_self _ _) (List.subset_append_right _ _)
  obtain rfl := traced.called_once (old put) (old (before₀ called₀))
  have fine := ok_of_succeeds object' responds' (.inl ok)
  have wrote := shown''.called_iff.mpr ⟨c', rfl, put⟩
  have returned : .returned j out' ∈ earlier' := by
    rw [done'']
    exact List.mem_append_right _ List.mem_cons_self
  rw [behind_eq (by rw [asked]; rfl)] at split'
  rw [behind_eq (by rw [asked']; rfl)] at wrote
  have place := target_object object
  have place' := target_object object'
  dsimp only at place place'
  rw [same] at place'
  have other : objectPath bucket key ≠ ['/'] := by
    intro root
    rw [root] at place
    have empty := Except.ok.inj (place.symm.trans (by decide : target ['/'] = .ok [[]]))
    exact (bucket_eq (bucket_of_object object)).2 (List.cons.inj empty).1
  have reads := writes_are_read traced' shown.quiet split split' ready other wrote returned fine place place' ?_
  · subst reads
    rw [asked] at responds
    have response : resp = objectResponse .ok data := responds
    rw [response]
    exact ⟨rfl, rfl⟩
  · intro m client p deleted named
    obtain ⟨c'', comes, member⟩ := shown'.called_iff.mp deleted
    obtain ⟨bucket'', key'', asked'', rfl⟩ := delete_of_behind comes
    have object'' : (operation c''.req).object = some (bucket'', key'') := by rw [asked'']; rfl
    obtain ⟨rfl, names⟩ := target_inj object'' object (named.trans place.symm)
    exact undeleted m c'' key'' member asked'' names

/-- The byte is got. -/
theorem served_round {resp : HttpResponse} {st : Gateways}
    (traced : gateway.Traced (fun _ c => c.Fits) Cluster.IdsLast
      (.returned 2 resp :: .called 2 getByte :: filled) st) : resp.statusCode = 200 ∧ resp.body = [7] := by
  obtain ⟨tr, st', traced', shown⟩ := exists_shown traced
  exact shown.served traced traced' (show _ = [] ++ .returned 2 resp :: (.called 2 getByte :: filled) from rfl)
    (show _ = [] ++ .called 2 getByte :: filled from rfl)
    (show operation getByte.req = .getObject ['b'] ['k'] from rfl) rfl
    (show .called 1 putByte ∈ filled from .tail _ (.head _))
    (show operation putByte.req = .putObject ['b'] ['k'] [7] from rfl) rfl
    (show .returned 1 { statusCode := 200 } ∈ filled from .head _) rfl
    fun _ _ _ member deleted => absurd deleted (undeleted_round member)

/-- **What is got was put whole**: a body is that of one earlier request, for the same bucket and
the same components of the key. -/
theorem gets_are_puts (traced : gateway.Traced (fun _ c => c.Fits) Cluster.IdsLast seen st) {k : Nat}
    {c : GatewayCall} {resp : HttpResponse} (cut : seen = later ++ .returned k resp :: before)
    (called : .called k c ∈ before) (asked : operation c.req = .getObject bucket key)
    (ok : resp.statusCode = 200) (filled : resp.body ≠ []) :
    ∃ j c' key', .called j c' ∈ before ∧ operation c'.req = .putObject bucket key' resp.body ∧
      components key' = components key := by
  obtain ⟨tr, st', traced', shown⟩ := exists_shown traced
  obtain ⟨later', ⟨status, d⟩, before', cut', shown', called', responds⟩ := shown.until traced cut called
  have object : (operation c.req).object = some (bucket, key) := by rw [asked]; rfl
  obtain rfl : status = .ok := ok_of_succeeds object responds (.inl ok)
  rw [behind_eq (by rw [asked]; rfl)] at called'
  rw [asked] at responds
  obtain rfl : resp.body = d := congrArg HttpResponse.body responds
  obtain ⟨j, client, path', mode, wrote, same⟩ := reads_are_writes traced' shown.quiet cut' called' filled
  obtain ⟨c', comes, called_c'⟩ := shown'.called_iff.mp wrote
  obtain ⟨bucket', key', asked', rfl⟩ := put_of_behind comes
  have object' : (operation c'.req).object = some (bucket', key') := by rw [asked']; rfl
  obtain ⟨rfl, names⟩ := target_inj object' object same
  exact ⟨j, c', key', called_c', asked', names⟩

theorem gets_are_puts_round : ∃ resp st,
    gateway.Traced (fun _ c => c.Fits) Cluster.IdsLast (.returned 2 resp :: .called 2 getByte :: filled) st ∧
      resp.body ≠ [] ∧ ∃ j c' key', .called j c' ∈ (.called 2 getByte :: filled) ∧
        operation c'.req = .putObject ['b'] key' resp.body ∧ components key' = components ['k'] := by
  obtain ⟨resp, st, traced⟩ := exists_round
  obtain ⟨ok, body⟩ := served_round traced
  have nonempty : resp.body ≠ [] := by
    rw [body]
    exact List.cons_ne_nil _ _
  exact ⟨resp, st, traced, nonempty, gets_are_puts traced
    (show _ = [] ++ .returned 2 resp :: (.called 2 getByte :: filled) from rfl) (.head _) rfl ok nonempty⟩

/-- **What was put is got**, by every later request until one is to delete it. -/
theorem puts_are_got (traced : gateway.Traced (fun _ c => c.Fits) Cluster.IdsLast seen st) {j k : Nat}
    {c c' : GatewayCall} {resp resp' : HttpResponse} (cut : seen = later ++ .returned k resp :: before)
    (cut' : before = mid ++ .called k c :: earlier) (asked : operation c.req = .getObject bucket key)
    (ready : c.client.initialized = true) (put : .called j c' ∈ earlier)
    (asked' : operation c'.req = .putObject bucket key' data) (same : components key' = components key)
    (done : .returned j resp' ∈ earlier) (ok : resp'.statusCode = 200)
    (undeleted : ∀ m c'' key'', .called m c'' ∈ before → operation c''.req = .deleteObject bucket key'' →
      components key'' ≠ components key) : resp.statusCode = 200 ∧ resp.body = data := by
  obtain ⟨tr, st', traced', shown⟩ := exists_shown traced
  exact shown.served traced traced' cut cut' asked ready put asked' same done ok undeleted

theorem puts_are_got_round : ∃ resp st,
    gateway.Traced (fun _ c => c.Fits) Cluster.IdsLast (.returned 2 resp :: .called 2 getByte :: filled) st ∧
      resp.statusCode = 200 ∧ resp.body = [7] := by
  obtain ⟨resp, st, traced⟩ := exists_round
  exact ⟨resp, st, traced, puts_are_got traced
    (show _ = [] ++ .returned 2 resp :: (.called 2 getByte :: filled) from rfl)
    (show _ = [] ++ .called 2 getByte :: filled from rfl)
    (show operation getByte.req = .getObject ['b'] ['k'] from rfl) rfl
    (show .called 1 putByte ∈ filled from .tail _ (.head _))
    (show operation putByte.req = .putObject ['b'] ['k'] [7] from rfl) rfl
    (show .returned 1 { statusCode := 200 } ∈ filled from .head _) rfl
    fun _ _ _ member deleted => absurd deleted (undeleted_round member)⟩

/-- **Keys have one name**: no object with a deeper key is ever put, got, deleted or looked at, as
only buckets are made as directories. -/
theorem keys_have_one_name (traced : gateway.Traced (fun _ c => c.Fits) Cluster.IdsLast seen st) {k : Nat}
    {c : GatewayCall} {resp : HttpResponse} (cut : seen = later ++ .returned k resp :: before)
    (called : .called k c ∈ before) (asked : (operation c.req).object = some (bucket, key))
    (succeeds : Succeeds resp) : (components key).length ≤ 1 := by
  obtain ⟨tr, st', traced', shown⟩ := exists_shown traced
  obtain ⟨later', out, before', split, shown', called', responds⟩ := shown.until traced cut called
  have ok := ok_of_succeeds asked responds succeeds
  have place := target_object asked
  dsimp only at place
  have names : (∃ mode d, (behind c).op = .writeFile (objectPath bucket key) mode d) ∨
      (∃ outData, (behind c).op = .readFile (objectPath bucket key) outData) ∨
      (behind c).op = .deleteFile (objectPath bucket key) ∨
      (behind c).op = .getFileInfo (objectPath bucket key) := by
    unfold behind
    cases op : operation c.req with
    | putObject => rw [op] at asked; cases asked; exact .inl ⟨_, _, rfl⟩
    | getObject => rw [op] at asked; cases asked; exact .inr (.inl ⟨_, rfl⟩)
    | deleteObject => rw [op] at asked; cases asked; exact .inr (.inr (.inl rfl))
    | headObject => rw [op] at asked; cases asked; exact .inr (.inr (.inr rfl))
    | _ => rw [op] at asked; cases asked
  by_cases short : components key = []
  · rw [short]
    exact Nat.zero_le _
  · have deeper : (bucket :: components key).dropLast = bucket :: (components key).dropLast :=
      List.dropLast_cons_of_ne_nil short
    obtain ⟨j, client, p, mode, made, at_p⟩ := succeeds_in_made_dir traced' shown.quiet split called' ok
      names place
      (by rw [deeper]; exact List.cons_ne_nil _ _)
    obtain ⟨c', comes, -⟩ := shown'.called_iff.mp made
    obtain ⟨bucket', created, rfl⟩ := create_of_behind comes
    have bucket_named : (operation c'.req).bucket = some bucket' := by rw [created]; rfl
    rw [target_bucketPath bucket_named, deeper] at at_p
    have none := (List.cons.inj (Except.ok.inj at_p)).2
    have length := congrArg List.length none
    rw [List.length_dropLast, List.length_nil] at length
    omega

theorem keys_have_one_name_round : ∃ resp st,
    gateway.Traced (fun _ c => c.Fits) Cluster.IdsLast (.returned 2 resp :: .called 2 getByte :: filled) st ∧
      Succeeds resp ∧ (components ['k']).length ≤ 1 := by
  obtain ⟨resp, st, traced⟩ := exists_round
  have succeeds : Succeeds resp := .inl (served_round traced).1
  exact ⟨resp, st, traced, succeeds, keys_have_one_name traced
    (show _ = [] ++ .returned 2 resp :: (.called 2 getByte :: filled) from rfl) (.head _)
    (show (operation getByte.req).object = some (['b'], ['k']) from rfl) succeeds⟩

end OpenFS.S3Server
