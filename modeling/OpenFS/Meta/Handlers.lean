import OpenFS.Meta.MetaService

/-!
# Request handlers running concurrently

Each call on the inode table or the block map is one atomic step, and the
handlers of namespace calls exclude each other through the manager's mutex:
`critical` is the handler inside, if there is one, and where it stands.
`CommitBlocks` handlers take no mutex and step at any time. The entry lists are
only touched inside, so a handler's work on them joins the step next to it.
-/

namespace OpenFS.Handlers

open NamespaceManager

/-- Where the handler inside the mutex stands, with the local variables it still needs. -/
inductive Inside
  | allocate (draft : Inode)
  | create (inode : Inode)
  | push (inode : Inode)
  | delete (inodeId : UInt64)
  | get (now inodeId : UInt64) (dstName : Str) (dstParent : UInt64)
  | update (inode : Inode)

/-- What a step inside ends with: the handler goes on, or it returns. -/
inductive Outcome
  | inside (stage : Inside)
  | returned (s : Status)

/-- Taking the mutex and working up to the first call on the inode table. -/
def enter (ns : NamespaceManager) (now : UInt64) : Call → NamespaceManager × Outcome
  | .mkDir path mode uid gid =>
    match ns.resolvePath path with
    | .error s => (ns, .returned s)
    | .ok (parentId, dirname) =>
      if dirname = [] then (ns, .returned .alreadyExists)
      else if ((ns.dirEntries parentId).getD []).any (fun e => e.name = dirname) then
        (ns, .returned .alreadyExists)
      else (ns, .inside (.allocate (newDirectory now mode uid gid 0 parentId dirname)))
  | .createFile path mode uid gid fileSize =>
    match ns.resolvePath path with
    | .error s => (ns, .returned s)
    | .ok (parentId, filename) =>
      match ns.dirEntries parentId with
      | none => (ns, .returned .notFound)
      | some entries =>
        if entries.any (fun e => e.name = filename) then (ns, .returned .alreadyExists)
        else (ns, .inside (.allocate (newRegular now mode uid gid fileSize 0 parentId filename)))
  | .deleteFile path =>
    match ns.resolvePath path with
    | .error s => (ns, .returned s)
    | .ok (parentId, filename) =>
      match ns.dirEntries parentId with
      | none => (ns, .returned .notFound)
      | some entries =>
        match entries.find? (fun e => e.name = filename ∧ e.fileType = .regular) with
        | none => (ns, .returned .notFound)
        | some e =>
          let dirs := ns.dropEntry parentId entries (fun e => e.name = filename ∧ e.fileType = .regular)
          ({ ns with dirEntries := dirs }, .inside (.delete e.inodeId))
  | .rmDir path =>
    if path = ['/'] then (ns, .returned .invalidArgument)
    else
      match ns.resolvePath path with
      | .error s => (ns, .returned s)
      | .ok (parentId, dirname) =>
        match ns.dirEntries parentId with
        | none => (ns, .returned .notFound)
        | some entries =>
          match entries.find? (fun e => e.name = dirname ∧ e.fileType = .directory) with
          | none => (ns, .returned .notFound)
          | some e =>
            if (ns.dirEntries e.inodeId).getD [] ≠ [] then (ns, .returned .notEmpty)
            else
              let dirs :=
                ns.dropEntry parentId entries (fun e => e.name = dirname ∧ e.fileType = .directory)
              ({ ns with dirEntries := Function.update dirs e.inodeId none },
                .inside (.delete e.inodeId))
  | .rename srcPath dstPath =>
    match ns.resolvePath srcPath with
    | .error s => (ns, .returned s)
    | .ok (srcParent, srcName) =>
      match ns.resolvePath dstPath with
      | .error s => (ns, .returned s)
      | .ok (dstParent, dstName) =>
        match ns.dirEntries srcParent with
        | none => (ns, .returned .notFound)
        | some srcEntries =>
          match srcEntries.find? (fun e => e.name = srcName) with
          | none => (ns, .returned .notFound)
          | some moving =>
            let dirs := ns.dropEntry srcParent srcEntries (fun e => e.name = srcName)
            match dirs dstParent with
            | none => ({ ns with dirEntries := dirs }, .returned .notFound)
            | some dstEntries =>
              if dstEntries.any (fun e => e.name = dstName) then
                ({ ns with dirEntries := dirs }, .returned .alreadyExists)
              else
                let dirs := Function.update dirs dstParent
                  (some (dstEntries ++ [{ moving with name := dstName }]))
                ({ ns with dirEntries := dirs }, .inside (.get now moving.inodeId dstName dstParent))

/-- The step of the handler inside: one call on the inode table, or the push
that ends `MkDir` and `CreateFile`. -/
def advance (ns : NamespaceManager) : Inside → NamespaceManager × Outcome
  | .allocate draft =>
    let (newId, table) := ns.inodeTable.allocateInodeId
    ({ ns with inodeTable := table }, .inside (.create { draft with inodeId := newId }))
  | .create inode =>
    match ns.inodeTable.create inode with
    | (.ok, table) => ({ ns with inodeTable := table }, .inside (.push inode))
    | (s, table) => ({ ns with inodeTable := table }, .returned s)
  | .push inode =>
    let dirs := Function.update ns.dirEntries inode.parentId
      (some ((ns.dirEntries inode.parentId).getD [] ++ [⟨inode.name, inode.inodeId, inode.fileType⟩]))
    ({ ns with dirEntries :=
        if inode.fileType = .directory then Function.update dirs inode.inodeId (some []) else dirs },
      .returned .ok)
  | .delete inodeId => ({ ns with inodeTable := (ns.inodeTable.delete inodeId).2 }, .returned .ok)
  | .get now inodeId dstName dstParent =>
    match ns.inodeTable.get inodeId with
    | .error _ => (ns, .returned .ok)
    | .ok inode => (ns, .inside (.update (renamed inode now dstName dstParent)))
  | .update inode => ({ ns with inodeTable := (ns.inodeTable.update inode).2 }, .returned .ok)

/-- Run the handler inside until it returns. -/
def finish : Nat → NamespaceManager × Outcome → Option (Status × NamespaceManager)
  | _, (ns, .returned s) => some (s, ns)
  | 0, (_, .inside _) => none
  | fuel + 1, (ns, .inside stage) => finish fuel (advance ns stage)

theorem finish_enter_mkDir (ns : NamespaceManager) (now : UInt64) (path : Str) (mode uid gid : UInt32) :
    finish 3 (enter ns now (.mkDir path mode uid gid)) = some (ns.exec now (.mkDir path mode uid gid)) := by
  simp only [enter, exec, mkDir]
  cases ns.resolvePath path with
  | error s => rfl
  | ok resolved =>
    obtain ⟨parentId, dirname⟩ := resolved
    dsimp only
    by_cases root : dirname = []
    · rw [if_pos root, if_pos root]; rfl
    rw [if_neg root, if_neg root]
    by_cases taken : ((ns.dirEntries parentId).getD []).any (fun e => e.name = dirname) = true
    · rw [if_pos taken, if_pos taken]; rfl
    rw [if_neg taken, if_neg taken]
    simp only [finish, advance, InodeTable.allocateInodeId, newDirectory]
    cases InodeTable.create _ _ with
    | mk s table => cases s <;> rfl

theorem finish_enter_createFile (ns : NamespaceManager) (now : UInt64) (path : Str)
    (mode uid gid : UInt32) (fileSize : UInt64) :
    finish 3 (enter ns now (.createFile path mode uid gid fileSize)) =
      some (ns.exec now (.createFile path mode uid gid fileSize)) := by
  simp only [enter, exec, createFile]
  cases ns.resolvePath path with
  | error s => rfl
  | ok resolved =>
    obtain ⟨parentId, filename⟩ := resolved
    dsimp only
    cases listed : ns.dirEntries parentId with
    | none => rfl
    | some entries =>
      dsimp only
      by_cases taken : entries.any (fun e => e.name = filename) = true
      · rw [if_pos taken, if_pos taken]; rfl
      rw [if_neg taken, if_neg taken]
      simp only [finish, advance, InodeTable.allocateInodeId, newRegular]
      cases InodeTable.create _ _ with
      | mk s table => cases s <;> simp [finish, advance, listed, statusOf]

theorem finish_enter_deleteFile (ns : NamespaceManager) (now : UInt64) (path : Str) :
    finish 3 (enter ns now (.deleteFile path)) = some (ns.exec now (.deleteFile path)) := by
  simp only [enter, exec, deleteFile]
  cases ns.resolvePath path with
  | error s => rfl
  | ok resolved =>
    obtain ⟨parentId, filename⟩ := resolved
    dsimp only
    cases ns.dirEntries parentId with
    | none => rfl
    | some entries =>
      dsimp only
      cases entries.find? _ <;> rfl

theorem finish_enter_rmDir (ns : NamespaceManager) (now : UInt64) (path : Str) :
    finish 3 (enter ns now (.rmDir path)) = some (ns.exec now (.rmDir path)) := by
  simp only [enter, exec, rmDir]
  by_cases root : path = ['/']
  · rw [if_pos root, if_pos root]; rfl
  rw [if_neg root, if_neg root]
  cases ns.resolvePath path with
  | error s => rfl
  | ok resolved =>
    obtain ⟨parentId, dirname⟩ := resolved
    dsimp only
    cases ns.dirEntries parentId with
    | none => rfl
    | some entries =>
      dsimp only
      cases entries.find? _ with
      | none => rfl
      | some e =>
        dsimp only
        by_cases full : (ns.dirEntries e.inodeId).getD [] ≠ []
        · rw [if_pos full, if_pos full]; rfl
        · rw [if_neg full, if_neg full]; rfl

theorem finish_enter_rename (ns : NamespaceManager) (now : UInt64) (srcPath dstPath : Str) :
    finish 3 (enter ns now (.rename srcPath dstPath)) = some (ns.exec now (.rename srcPath dstPath)) := by
  simp only [enter, exec, rename, dropEntry]
  cases ns.resolvePath srcPath with
  | error s => rfl
  | ok src =>
    dsimp only
    cases ns.resolvePath dstPath with
    | error s => rfl
    | ok dst =>
      dsimp only
      cases ns.dirEntries src.1 with
      | none => rfl
      | some srcEntries =>
        dsimp only
        cases srcEntries.find? _ with
        | none => rfl
        | some moving =>
          dsimp only
          cases Function.update ns.dirEntries src.1 _ dst.1 with
          | none => rfl
          | some dstEntries =>
            dsimp only
            by_cases taken : dstEntries.any (fun e => e.name = dst.2) = true
            · rw [if_pos taken, if_pos taken]; rfl
            rw [if_neg taken, if_neg taken]
            simp only [finish, advance]
            cases ns.inodeTable.get moving.inodeId <;> rfl

/-- A namespace call that runs alone does what the manager's operation does. -/
theorem finish_enter (ns : NamespaceManager) (now : UInt64) (call : Call) :
    finish 3 (enter ns now call) = some (ns.exec now call) := by
  cases call with
  | mkDir path mode uid gid => exact finish_enter_mkDir ns now path mode uid gid
  | createFile path mode uid gid fileSize => exact finish_enter_createFile ns now path mode uid gid fileSize
  | deleteFile path => exact finish_enter_deleteFile ns now path
  | rmDir path => exact finish_enter_rmDir ns now path
  | rename srcPath dstPath => exact finish_enter_rename ns now srcPath dstPath

/-! ## Interleavings -/

/-- A request as it arrives, with the clock readings of its handler. -/
inductive Request
  | call (now : UInt64) (call : Call)
  | commitBlocks (mtime ctime inodeId : UInt64) (request : List BlockMetaProto)

/-- Where a handler stands. A `CommitBlocks` handler goes through `add`, `get`
and `update`; a namespace call waits for the mutex and then runs `inside`. -/
inductive Pc
  | idle
  | waiting (now : UInt64) (call : Call)
  | inside
  | add (mtime ctime inodeId : UInt64) (blocks : List BlockMeta)
  | get (mtime ctime inodeId : UInt64) (blocks : List BlockMeta)
  | update (inode : Inode)
  | done (s : Status)

/-- `lastCommitted` is a history variable: the size that the last `CommitBlocks`
wrote to an inode since its creation. -/
structure State where
  ns : NamespaceManager
  blockMap : BlockMap
  critical : Option (Nat × Inside)
  pc : Nat → Pc
  lastCommitted : UInt64 → Option UInt64

namespace State

def init (now : UInt64) : State :=
  { ns := .init now, blockMap := .init, critical := none, pc := fun _ => .idle,
    lastCommitted := fun _ => none }

def setPc (s : State) (h : Nat) (pc : Pc) : State := { s with pc := Function.update s.pc h pc }

/-- The mutex after a step of the handler inside. -/
def settle (s : State) (h : Nat) : Outcome → State
  | .inside stage => { s with critical := some (h, stage) }
  | .returned status => { s.setPc h (.done status) with critical := none }

end State

/-- The commits seen by the inode that a `CommitBlocks` handler writes back. -/
def recordCommit (s : State) (inode : Inode) : UInt64 → Option UInt64 :=
  if (s.ns.inodeTable.inodes inode.inodeId).isSome then
    Function.update s.lastCommitted inode.inodeId (some inode.size)
  else s.lastCommitted

/-- A new inode has seen no commit. -/
def forgetCommits (s : State) : Inside → UInt64 → Option UInt64
  | .create inode =>
    if (s.ns.inodeTable.inodes inode.inodeId).isNone then Function.update s.lastCommitted inode.inodeId none
    else s.lastCommitted
  | _ => s.lastCommitted

/-- One step of the node: a request arrives, a `CommitBlocks` handler makes its
next call, a waiting handler takes the mutex, or the handler inside goes on. -/
inductive Action
  | arrive (h : Nat) (request : Request)
  | commit (h : Nat)
  | enter (h : Nat)
  | advance

def start : Request → Pc
  | .call now call => .waiting now call
  | .commitBlocks mtime ctime inodeId request =>
    .add mtime ctime inodeId (request.map MetaService.blockMetaOf)

def commitStep (s : State) (h : Nat) : Option State :=
  match s.pc h with
  | .add mtime ctime inodeId blocks =>
    match s.blockMap.addBlocks inodeId blocks with
    | (.ok, map) => some ({ s with blockMap := map }.setPc h (.get mtime ctime inodeId blocks))
    | (status, map) => some ({ s with blockMap := map }.setPc h (.done status))
  | .get mtime ctime inodeId blocks =>
    match s.ns.inodeTable.get inodeId with
    | .ok inode => some (s.setPc h (.update (MetaService.committed inode mtime ctime blocks)))
    | .error _ => some (s.setPc h (.done .ok))
  | .update inode =>
    some ({ s with
      ns := { s.ns with inodeTable := (s.ns.inodeTable.update inode).2 },
      lastCommitted := recordCommit s inode }.setPc h (.done .ok))
  | _ => none

def enterStep (s : State) (h : Nat) : Option State :=
  match s.pc h, s.critical with
  | .waiting now call, none =>
    some ({ s.setPc h .inside with ns := (enter s.ns now call).1 }.settle h (enter s.ns now call).2)
  | _, _ => none

def advanceStep (s : State) : Option State :=
  match s.critical with
  | some (h, stage) =>
    some ({ s with
      ns := (advance s.ns stage).1,
      lastCommitted := forgetCommits s stage }.settle h (advance s.ns stage).2)
  | none => none

def next (s : State) : Action → Option State
  | .arrive h request =>
    match s.pc h with
    | .idle => some (s.setPc h (start request))
    | _ => none
  | .commit h => commitStep s h
  | .enter h => enterStep s h
  | .advance => advanceStep s

/-- The states of interleavings from a fresh node in which every step meets `allowed`. -/
inductive Reachable (allowed : State → Action → Prop) : State → Prop where
  | init (now : UInt64) : Reachable allowed (.init now)
  | step {s s' : State} (action : Action) :
      Reachable allowed s → allowed s action → next s action = some s' → Reachable allowed s'

/-- Every handler that arrived has returned. -/
def State.Quiescent (s : State) : Prop :=
  s.critical = none ∧ ∀ h, s.pc h = .idle ∨ ∃ status, s.pc h = .done status

/-- The three calls of a `CommitBlocks` handler. -/
def commitAlone (s : State) (h : Nat) : Option State :=
  (commitStep s h).bind fun s => (commitStep s h).bind fun s =>
    match s.pc h with
    | .update _ => commitStep s h
    | _ => some s

/-- A `CommitBlocks` handler that runs alone does what the service's handler does. -/
theorem commitAlone_eq (svc : MetaService) (s : State) (h : Nat) (mtime ctime i : UInt64)
    (request : List BlockMetaProto) (ns : s.ns = svc.namespaceMgr) (map : s.blockMap = svc.blockMap)
    (arrived : s.pc h = start (.commitBlocks mtime ctime i request)) :
    ∃ s', commitAlone s h = some s' ∧ s'.ns = (svc.commitBlocks mtime ctime i request).2.namespaceMgr ∧
      s'.blockMap = (svc.commitBlocks mtime ctime i request).2.blockMap ∧ s'.pc h = .done .ok := by
  rw [MetaService.commitBlocks_eq]
  simp only [MetaService.sizedTable, MetaService.inodeTable, ← ns, ← map]
  cases live : s.ns.inodeTable.inodes i with
  | none =>
    simp [commitAlone, commitStep, arrived, start, BlockMap.addBlocks, State.setPc, InodeTable.get, live]
  | some inode =>
    simp [commitAlone, commitStep, arrived, start, BlockMap.addBlocks, State.setPc, InodeTable.get, live]

end OpenFS.Handlers
