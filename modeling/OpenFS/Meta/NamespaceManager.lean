import OpenFS.Meta.InodeTable

/-!
# The namespace manager

`dirEntries` is the code's `dir_entries_`: the entry list of every directory
inode. The manager works on the inode table it was given, so the two are one
state here. Every public operation holds the manager's mutex throughout; the
clock reading `NowNs()` is the argument `now`.
-/

namespace OpenFS

structure NamespaceManager where
  dirEntries : UInt64 → Option (List DirEntry)
  inodeTable : InodeTable

/-- The status a call returns when its other result is only set on success. -/
def statusOf {α : Type} : Except Status α → Status
  | .ok _ => .ok
  | .error s => s

@[simp] theorem statusOf_ok {α : Type} (a : α) : statusOf (.ok a) = .ok := rfl

@[simp] theorem statusOf_error {α : Type} (s : Status) : statusOf (.error s : Except Status α) = s := rfl

/-- The non-empty tokens between the slashes of a path. -/
def components (path : Str) : List Str :=
  (path.splitOn '/').filter (fun token => !token.isEmpty)

namespace NamespaceManager

/-- A manager over a fresh inode table: the root has an empty entry list. -/
def init (now : UInt64) : NamespaceManager :=
  { dirEntries := Function.update (fun _ => none) 1 (some []), inodeTable := InodeTable.init now }

/-- Follow directory entries named by the components, starting at `current`. -/
def walk (ns : NamespaceManager) : UInt64 → List Str → Except Status UInt64
  | current, [] => .ok current
  | current, c :: rest =>
    match ns.dirEntries current with
    | none => .error .notFound
    | some entries =>
      match entries.find? (fun e => e.name = c ∧ e.fileType = .directory) with
      | none => .error .notFound
      | some e => ns.walk e.inodeId rest

/-- Parent inode and last component of a path; the root is `(1, "")`. -/
def resolvePath (ns : NamespaceManager) (path : Str) : Except Status (UInt64 × Str) :=
  if path.head? ≠ some '/' then .error .invalidArgument
  else if path = ['/'] then .ok (1, [])
  else
    match (components path).getLast? with
    | none => .error .invalidArgument
    | some filename =>
      match ns.walk 1 (components path).dropLast with
      | .error s => .error s
      | .ok parentId => .ok (parentId, filename)

def lookup (ns : NamespaceManager) (path : Str) : Except Status Inode :=
  if path = ['/'] then ns.inodeTable.get 1
  else
    match ns.resolvePath path with
    | .error s => .error s
    | .ok (parentId, filename) =>
      match ns.dirEntries parentId with
      | none => .error .notFound
      | some entries =>
        match entries.find? (fun e => e.name = filename) with
        | none => .error .notFound
        | some e => ns.inodeTable.get e.inodeId

/-- The record `MkDir` creates. -/
def newDirectory (now : UInt64) (mode uid gid : UInt32) (id parentId : UInt64) (name : Str) : Inode :=
  { inodeId := id, fileType := .directory, mode := mode, uid := uid, gid := gid, nlink := 2,
    parentId := parentId, name := name, atimeNs := now, mtimeNs := now, ctimeNs := now }

/-- The record `CreateFile` creates. -/
def newRegular (now : UInt64) (mode uid gid : UInt32) (fileSize id parentId : UInt64) (name : Str) :
    Inode :=
  { inodeId := id, fileType := .regular, mode := mode, uid := uid, gid := gid, size := fileSize,
    nlink := 1, parentId := parentId, name := name,
    blockLevel := selectBlockLevel fileSize.toNat, atimeNs := now, mtimeNs := now, ctimeNs := now }

def mkDir (ns : NamespaceManager) (now : UInt64) (path : Str) (mode uid gid : UInt32) :
    Except Status Inode × NamespaceManager :=
  match ns.resolvePath path with
  | .error s => (.error s, ns)
  | .ok (parentId, dirname) =>
    if dirname = [] then (.error .alreadyExists, ns)
    else if ((ns.dirEntries parentId).getD []).any (fun e => e.name = dirname) then
      (.error .alreadyExists, ns)
    else
      let (newId, table) := ns.inodeTable.allocateInodeId
      let inode := newDirectory now mode uid gid newId parentId dirname
      match table.create inode with
      | (.ok, table) =>
        -- `dir_entries_[parent_id]` makes the list when there is none
        let dirs := Function.update ns.dirEntries parentId
          (some ((ns.dirEntries parentId).getD [] ++ [⟨dirname, newId, .directory⟩]))
        (.ok inode, { dirEntries := Function.update dirs newId (some []), inodeTable := table })
      | (s, table) => (.error s, { ns with inodeTable := table })

def readDir (ns : NamespaceManager) (path : Str) : Except Status (List DirEntry) :=
  let dirInode : Except Status UInt64 :=
    if path = ['/'] then
      match ns.inodeTable.get 1 with
      | .error s => .error s
      | .ok inode => .ok inode.inodeId
    else
      match ns.resolvePath path with
      | .error s => .error s
      | .ok (parentId, dirname) =>
        match ns.dirEntries parentId with
        | none => .error .notFound
        | some entries =>
          match entries.find? (fun e => e.name = dirname) with
          | none => .error .notFound
          | some e => if e.fileType ≠ .directory then .error .notDirectory else .ok e.inodeId
  match dirInode with
  | .error s => .error s
  | .ok id =>
    match ns.dirEntries id with
    | none => .error .notDirectory
    | some entries => .ok entries

def rmDir (ns : NamespaceManager) (path : Str) : Status × NamespaceManager :=
  if path = ['/'] then (.invalidArgument, ns)
  else
    match ns.resolvePath path with
    | .error s => (s, ns)
    | .ok (parentId, dirname) =>
      match ns.dirEntries parentId with
      | none => (.notFound, ns)
      | some entries =>
        match entries.find? (fun e => e.name = dirname ∧ e.fileType = .directory) with
        | none => (.notFound, ns)
        | some e =>
          if (ns.dirEntries e.inodeId).getD [] ≠ [] then (.notEmpty, ns)
          else
            let rest := entries.eraseP (fun e => e.name = dirname ∧ e.fileType = .directory)
            let dirs := Function.update ns.dirEntries parentId (some rest)
            (.ok, { dirEntries := Function.update dirs e.inodeId none,
                    inodeTable := (ns.inodeTable.delete e.inodeId).2 })

def createFile (ns : NamespaceManager) (now : UInt64) (path : Str) (mode uid gid : UInt32)
    (fileSize : UInt64) : Except Status Inode × NamespaceManager :=
  match ns.resolvePath path with
  | .error s => (.error s, ns)
  | .ok (parentId, filename) =>
    match ns.dirEntries parentId with
    | none => (.error .notFound, ns)
    | some entries =>
      if entries.any (fun e => e.name = filename) then (.error .alreadyExists, ns)
      else
        let (newId, table) := ns.inodeTable.allocateInodeId
        let inode := newRegular now mode uid gid fileSize newId parentId filename
        match table.create inode with
        | (.ok, table) =>
          (.ok inode,
            { dirEntries := Function.update ns.dirEntries parentId
                (some (entries ++ [⟨filename, newId, .regular⟩])),
              inodeTable := table })
        | (s, table) => (.error s, { ns with inodeTable := table })

def deleteFile (ns : NamespaceManager) (path : Str) : Status × NamespaceManager :=
  match ns.resolvePath path with
  | .error s => (s, ns)
  | .ok (parentId, filename) =>
    match ns.dirEntries parentId with
    | none => (.notFound, ns)
    | some entries =>
      match entries.find? (fun e => e.name = filename ∧ e.fileType = .regular) with
      | none => (.notFound, ns)
      | some e =>
        let rest := entries.eraseP (fun e => e.name = filename ∧ e.fileType = .regular)
        (.ok, { dirEntries := Function.update ns.dirEntries parentId (some rest),
                inodeTable := (ns.inodeTable.delete e.inodeId).2 })

/-- The inode update at the end of `Rename`: name, parent and change time. -/
def renamed (inode : Inode) (now : UInt64) (dstName : Str) (dstParent : UInt64) : Inode :=
  { inode with name := dstName, parentId := dstParent, ctimeNs := now }

/-- The source entry is taken out of its list before the destination is checked. -/
def rename (ns : NamespaceManager) (now : UInt64) (srcPath dstPath : Str) :
    Status × NamespaceManager :=
  match ns.resolvePath srcPath with
  | .error s => (s, ns)
  | .ok (srcParent, srcName) =>
    match ns.resolvePath dstPath with
    | .error s => (s, ns)
    | .ok (dstParent, dstName) =>
      match ns.dirEntries srcParent with
      | none => (.notFound, ns)
      | some srcEntries =>
        match srcEntries.find? (fun e => e.name = srcName) with
        | none => (.notFound, ns)
        | some moving =>
          let dirs := Function.update ns.dirEntries srcParent
            (some (srcEntries.eraseP (fun e => e.name = srcName)))
          match dirs dstParent with
          | none => (.notFound, { ns with dirEntries := dirs })
          | some dstEntries =>
            if dstEntries.any (fun e => e.name = dstName) then
              (.alreadyExists, { ns with dirEntries := dirs })
            else
              let dirs := Function.update dirs dstParent
                (some (dstEntries ++ [{ moving with name := dstName }]))
              match ns.inodeTable.get moving.inodeId with
              | .error _ => (.ok, { ns with dirEntries := dirs })
              | .ok inode =>
                (.ok, { dirEntries := dirs,
                        inodeTable := (ns.inodeTable.update (renamed inode now dstName dstParent)).2 })

/-- A call that may change the namespace. -/
inductive Call
  | mkDir (path : Str) (mode uid gid : UInt32)
  | createFile (path : Str) (mode uid gid : UInt32) (fileSize : UInt64)
  | deleteFile (path : Str)
  | rmDir (path : Str)
  | rename (srcPath dstPath : Str)
  deriving DecidableEq

/-- Run one call at clock reading `now`. -/
def exec (ns : NamespaceManager) (now : UInt64) : Call → Status × NamespaceManager
  | .mkDir path mode uid gid => let r := ns.mkDir now path mode uid gid; (statusOf r.1, r.2)
  | .createFile path mode uid gid fileSize =>
    let r := ns.createFile now path mode uid gid fileSize; (statusOf r.1, r.2)
  | .deleteFile path => ns.deleteFile path
  | .rmDir path => ns.rmDir path
  | .rename srcPath dstPath => ns.rename now srcPath dstPath

/-- The states a manager can be in: any calls, successful or not, at any times. -/
inductive Reachable : NamespaceManager → Prop where
  | init (now : UInt64) : Reachable (init now)
  | step {ns : NamespaceManager} (now : UInt64) (call : Call) :
      Reachable ns → Reachable (ns.exec now call).2

end NamespaceManager

end OpenFS
