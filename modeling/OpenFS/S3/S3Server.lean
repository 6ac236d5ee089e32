import OpenFS.Client.Cluster

/-!
# The S3 gateway

`s3/s3_server.cpp`: requests on `/bucket/key` become calls of one client. The HTTP server around
the handlers is not there yet in the code.
-/

namespace OpenFS

open Requests

/-- The bytes of a string. -/
def bytesOf (s : Str) : List UInt8 := s.map fun c => UInt8.ofNat c.toNat

structure HttpRequest where
  method : Str
  path : Str
  body : List UInt8 := []
  deriving DecidableEq, Repr

structure HttpResponse where
  statusCode : Nat := 200
  body : List UInt8 := []
  headers : List (Str × Str) := []
  deriving DecidableEq, Repr

namespace S3Server

variable (client : OpenFSClient)

def objectPath (bucket key : Str) : Str := '/' :: bucket ++ '/' :: key

def bucketPath (bucket : Str) : Str := '/' :: bucket

def handlePutObject (bucket key : Str) (data : List UInt8) : ClientProg HttpResponse := do
  let r ← client.writeFile (objectPath bucket key) 0o644 data
  pure { statusCode := if r.1 = .ok then 200 else 500 }

/-- The response to a read with this status and these bytes. -/
def objectResponse (s : Status) (data : List UInt8) : HttpResponse :=
  if s = .ok then
    { statusCode := 200
      body := data
      headers := [("Content-Type".toList, "application/octet-stream".toList)] }
  else if s = .notFound then { statusCode := 404 }
  else { statusCode := 500 }

def handleGetObject (bucket key : Str) : ClientProg HttpResponse := do
  let r ← client.readFile (objectPath bucket key) []
  pure (objectResponse r.1 r.2.1)

def handleDeleteObject (bucket key : Str) : ClientProg HttpResponse := do
  let s ← client.deleteFile (objectPath bucket key)
  pure { statusCode := if s = .ok then 204 else 500 }

def headResponse : Except Status Inode → HttpResponse
  | .ok inode =>
    { statusCode := 200
      headers := [("Content-Length".toList, Nat.toDigits 10 inode.size.toNat),
        ("Last-Modified".toList, Nat.toDigits 10 (inode.mtimeNs.toNat / 1000000000))] }
  | .error s => { statusCode := if s = .notFound then 404 else 500 }

def handleHeadObject (bucket key : Str) : ClientProg HttpResponse := do
  let r ← client.getFileInfo (objectPath bucket key)
  pure (headResponse r)

/-- The listing of a bucket; names are put in as they are. -/
def listing (entries : List DirEntry) : Str :=
  "<?xml version=\"1.0\"?><ListBucketResult>".toList ++
    entries.flatMap (fun e => "<Contents><Key>".toList ++ e.name ++ "</Key></Contents>".toList) ++
    "</ListBucketResult>".toList

def listResponse : Except Status (List DirEntry) → HttpResponse
  | .ok entries =>
    { statusCode := 200
      body := bytesOf (listing entries)
      headers := [("Content-Type".toList, "application/xml".toList)] }
  | .error _ => { statusCode := 500 }

def handleListObjects (bucket : Str) : ClientProg HttpResponse := do
  let r ← client.readDir (bucketPath bucket)
  pure (listResponse r)

def handleCreateBucket (bucket : Str) : ClientProg HttpResponse := do
  let r ← client.mkDir (bucketPath bucket) 0o755
  pure { statusCode := if statusOf r = .ok then 200 else 500 }

def handleDeleteBucket (bucket : Str) : ClientProg HttpResponse := do
  let s ← client.rmDir (bucketPath bucket)
  pure { statusCode := if s = .ok then 204 else 500 }

/-- The bucket and the key of a path: what is before and behind the first slash that does not
start it. -/
def bucketAndKey (path : Str) : Str × Str :=
  let path := if path.head? = some '/' then path.drop 1 else path
  (path.takeWhile (· ≠ '/'), (path.dropWhile (· ≠ '/')).drop 1)

/-- What a request asks for. -/
inductive Operation
  | listBuckets
  | createBucket (bucket : Str)
  | putObject (bucket key : Str) (data : List UInt8)
  | listObjects (bucket : Str)
  | getObject (bucket key : Str)
  | deleteBucket (bucket : Str)
  | deleteObject (bucket key : Str)
  | headObject (bucket key : Str)
  | notAllowed

/-- The routing of `HandleRequest`. Without a bucket the method does not matter. -/
def operation (req : HttpRequest) : Operation :=
  let (bucket, key) := bucketAndKey req.path
  if bucket = [] then .listBuckets
  else if req.method = "PUT".toList then
    if key = [] then .createBucket bucket else .putObject bucket key req.body
  else if req.method = "GET".toList then
    if key = [] then .listObjects bucket else .getObject bucket key
  else if req.method = "DELETE".toList then
    if key = [] then .deleteBucket bucket else .deleteObject bucket key
  else if req.method = "HEAD".toList then .headObject bucket key
  else .notAllowed

/-- `HandleRequest`, once the request is routed. -/
def handle : Operation → ClientProg HttpResponse
  | .listBuckets =>
    pure { body := bytesOf "<?xml version=\"1.0\"?><ListAllMyBucketsResult></ListAllMyBucketsResult>".toList }
  | .createBucket bucket => handleCreateBucket client bucket
  | .putObject bucket key data => handlePutObject client bucket key data
  | .listObjects bucket => handleListObjects client bucket
  | .getObject bucket key => handleGetObject client bucket key
  | .deleteBucket bucket => handleDeleteBucket client bucket
  | .deleteObject bucket key => handleDeleteObject client bucket key
  | .headObject bucket key => handleHeadObject client bucket key
  | .notAllowed => pure { statusCode := 405 }

def handleRequest (req : HttpRequest) : ClientProg HttpResponse := handle client (operation req)

end S3Server

end OpenFS
