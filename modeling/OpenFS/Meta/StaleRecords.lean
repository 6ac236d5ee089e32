import OpenFS.Meta.LostUpdates

/-!
# Records that may be stale

Handlers that write records back at the same time restore old names, parents and times, but never
another id, type or size. `bare` leaves of a record what is never stale. No handler looks at the
rest, so what it answers and what it does to the entries does not depend on it.
-/

namespace OpenFS

open NamespaceManager

def Inode.bare (inode : Inode) : Inode :=
  { inodeId := inode.inodeId, fileType := inode.fileType, size := inode.size }

@[simp] theorem Inode.bare_inodeId (inode : Inode) : inode.bare.inodeId = inode.inodeId := rfl

@[simp] theorem Inode.bare_bare (inode : Inode) : inode.bare.bare = inode.bare := rfl

@[simp] theorem Inode.bare_comp_bare : Inode.bare ∘ Inode.bare = Inode.bare := rfl

namespace InodeTable

def bare (t : InodeTable) : InodeTable := { t with inodes := fun i => (t.inodes i).map Inode.bare }

@[simp] theorem bare_inodes (t : InodeTable) (i : UInt64) : t.bare.inodes i = (t.inodes i).map Inode.bare := rfl

@[simp] theorem bare_bare (t : InodeTable) : t.bare.bare = t.bare := by simp [bare]

theorem map_update {α β : Type} (f : UInt64 → Option α) (g : α → β) (i : UInt64) (x : Option α) :
    (fun j => (Function.update f i x j).map g) = Function.update (fun j => (f j).map g) i (x.map g) := by
  funext j
  rcases eq_or_ne j i with rfl | other
  · rw [Function.update_self, Function.update_self]
  · rw [Function.update_of_ne other, Function.update_of_ne other]

theorem bare_create (t : InodeTable) (inode : Inode) :
    (t.bare.create inode).1 = (t.create inode).1 ∧ (t.bare.create inode).2.bare = (t.create inode).2.bare := by
  unfold create
  rw [bare_inodes]
  cases t.inodes inode.inodeId with
  | some r => simp [bare]
  | none => simp [bare, map_update]

theorem bare_update (t : InodeTable) (inode : Inode) :
    (t.bare.update inode.bare).2.bare = (t.update inode).2.bare := by
  unfold update
  rw [bare_inodes, Inode.bare_inodeId]
  cases t.inodes inode.inodeId with
  | some r => simp [bare, map_update]
  | none => simp [bare]

theorem bare_delete (t : InodeTable) (i : UInt64) : (t.bare.delete i).2.bare = (t.delete i).2.bare := by
  unfold delete
  rw [bare_inodes]
  cases t.inodes i with
  | some r => simp [bare, map_update]
  | none => simp [bare]

/-- A record that is written back with what is never stale. -/
theorem bare_update_of_current (t : InodeTable) {inode : Inode}
    (current : ∀ r, t.inodes inode.inodeId = some r → r.bare = inode.bare) : (t.update inode).2.bare = t.bare := by
  unfold update
  cases live : t.inodes inode.inodeId with
  | none => rfl
  | some r =>
    unfold bare
    dsimp only
    rw [map_update, Option.map_some, ← current r live]
    congr 1
    exact Function.update_eq_self_iff.mpr (by rw [live]; rfl)

end InodeTable

def NamespaceManager.bare (ns : NamespaceManager) : NamespaceManager := { ns with inodeTable := ns.inodeTable.bare }

namespace Handlers

variable {ns ns' : NamespaceManager} {stage stage' : Inside}

def Inside.bare : Inside → Inside
  | .update inode => .update inode.bare
  | stage => stage

def Outcome.bare : Outcome → Outcome
  | .inside stage => .inside stage.bare
  | .returned s => .returned s

/-- A handler does not look at what may be stale. -/
theorem advance_bare (ns : NamespaceManager) (stage : Inside) :
    (advance ns.bare stage.bare).1.bare = (advance ns stage).1.bare ∧
      (advance ns.bare stage.bare).2.bare = (advance ns stage).2.bare := by
  cases stage with
  | allocate draft =>
    simp only [Inside.bare, advance, NamespaceManager.bare, InodeTable.allocateInodeId]
    simp [InodeTable.bare]
  | create inode =>
    obtain ⟨status, table⟩ := ns.inodeTable.bare_create inode
    simp only [Inside.bare, advance, NamespaceManager.bare]
    generalize ns.inodeTable.bare.create inode = result at status table ⊢
    generalize ns.inodeTable.create inode = result' at status table ⊢
    obtain ⟨s, t⟩ := result
    obtain ⟨s', t'⟩ := result'
    dsimp only at status table
    subst status
    cases s <;> simp [table]
  | push inode => simp [Inside.bare, advance, NamespaceManager.bare]
  | delete inodeId =>
    simp only [Inside.bare, advance, NamespaceManager.bare, InodeTable.bare_delete]
    exact ⟨trivial, trivial⟩
  | get now inodeId dstName dstParent =>
    simp only [Inside.bare, advance, NamespaceManager.bare, InodeTable.get, InodeTable.bare_inodes]
    cases ns.inodeTable.inodes inodeId <;> simp [Outcome.bare, Inside.bare, InodeTable.bare, Inode.bare, renamed]
  | update inode =>
    simp only [Inside.bare, advance, NamespaceManager.bare, InodeTable.bare_update]
    exact ⟨trivial, trivial⟩

/-- Paths are resolved by the entries. -/
theorem walk_congr (same : ns.dirEntries = ns'.dirEntries) (current : UInt64) (path : List Str) :
    ns.walk current path = ns'.walk current path := by
  induction path generalizing current with
  | nil => rfl
  | cons c rest ih =>
    unfold walk
    rw [same]
    simp only [ih]

theorem resolvePath_of_entries (same : ns.dirEntries = ns'.dirEntries) (path : Str) :
    ns.resolvePath path = ns'.resolvePath path := by
  unfold resolvePath
  simp only [walk_congr same]

/-- Working up to the first call on the table is a matter of the entries. -/
theorem enter_of_entries (same : ns.dirEntries = ns'.dirEntries) (now : UInt64) (call : Call) :
    (enter ns now call).1.dirEntries = (enter ns' now call).1.dirEntries ∧
      (enter ns now call).2 = (enter ns' now call).2 := by
  obtain ⟨dirs, table⟩ := ns
  obtain ⟨dirs', table'⟩ := ns'
  obtain rfl : dirs = dirs' := same
  have resolved := @resolvePath_of_entries ⟨dirs, table⟩ ⟨dirs, table'⟩ rfl
  cases call with
  | mkDir path mode uid gid =>
    simp only [enter, resolved]
    cases resolvePath ⟨dirs, table'⟩ path with
    | error s => exact ⟨rfl, rfl⟩
    | ok at_path =>
      dsimp only
      split
      · exact ⟨rfl, rfl⟩
      · split <;> exact ⟨rfl, rfl⟩
  | createFile path mode uid gid fileSize =>
    simp only [enter, resolved]
    cases resolvePath ⟨dirs, table'⟩ path with
    | error s => exact ⟨rfl, rfl⟩
    | ok at_path =>
      dsimp only
      cases dirs at_path.1 with
      | none => exact ⟨rfl, rfl⟩
      | some entries =>
        dsimp only
        split <;> exact ⟨rfl, rfl⟩
  | deleteFile path =>
    simp only [enter, resolved, dropEntry]
    cases resolvePath ⟨dirs, table'⟩ path with
    | error s => exact ⟨rfl, rfl⟩
    | ok at_path =>
      dsimp only
      cases dirs at_path.1 with
      | none => exact ⟨rfl, rfl⟩
      | some entries =>
        dsimp only
        cases entries.find? _ <;> exact ⟨rfl, rfl⟩
  | rmDir path =>
    simp only [enter, resolved, dropEntry]
    by_cases root : path = ['/']
    · rw [if_pos root, if_pos root]
      exact ⟨rfl, rfl⟩
    rw [if_neg root, if_neg root]
    cases resolvePath ⟨dirs, table'⟩ path with
    | error s => exact ⟨rfl, rfl⟩
    | ok at_path =>
      dsimp only
      cases dirs at_path.1 with
      | none => exact ⟨rfl, rfl⟩
      | some entries =>
        dsimp only
        cases entries.find? _ with
        | none => exact ⟨rfl, rfl⟩
        | some e =>
          dsimp only
          split <;> exact ⟨rfl, rfl⟩
  | rename src dst =>
    simp only [enter, resolved, dropEntry]
    cases resolvePath ⟨dirs, table'⟩ src with
    | error s => exact ⟨rfl, rfl⟩
    | ok at_src =>
      dsimp only
      cases resolvePath ⟨dirs, table'⟩ dst with
      | error s => exact ⟨rfl, rfl⟩
      | ok at_dst =>
        dsimp only
        cases dirs at_src.1 with
        | none => exact ⟨rfl, rfl⟩
        | some entries =>
          dsimp only
          cases entries.find? _ with
          | none => exact ⟨rfl, rfl⟩
          | some moving =>
            dsimp only
            cases Function.update dirs at_src.1 _ at_dst.1 with
            | none => exact ⟨rfl, rfl⟩
            | some others =>
              dsimp only
              split <;> exact ⟨rfl, rfl⟩

/-! ## Handlers that return -/

/-- What a handler hands back when it returns at this stage. -/
def Inside.result : Inside → Status → Except Status Inode
  | .push inode, _ => .ok inode
  | _, s => .error s

/-- What a handler that runs on alone hands back and leaves. -/
def conclude : Nat → (Status → Except Status Inode) → NamespaceManager × Outcome →
    Option (Except Status Inode × NamespaceManager)
  | _, hand, (ns, .returned s) => some (hand s, ns)
  | 0, _, (_, .inside _) => none
  | fuel + 1, _, (ns, .inside stage) => conclude fuel stage.result (advance ns stage)

/-- The result, as far as it cannot be stale. -/
def bareResult (r : Except Status Inode × NamespaceManager) : Except Status Inode × NamespaceManager :=
  (r.1.map Inode.bare, r.2.bare)

theorem conclude_inside (fuel : Nat) (hand : Status → Except Status Inode) (ns : NamespaceManager) (stage : Inside) :
    conclude (fuel + 1) hand (ns, .inside stage) = conclude fuel stage.result (advance ns stage) := rfl

theorem conclude_returned (fuel : Nat) (hand : Status → Except Status Inode) (ns : NamespaceManager) (s : Status) :
    conclude fuel hand (ns, .returned s) = some (hand s, ns) := by
  cases fuel <;> rfl

theorem advance_congr (same : ns.bare = ns'.bare) (stages : stage.bare = stage'.bare) :
    (advance ns stage).1.bare = (advance ns' stage').1.bare ∧
      (advance ns stage).2.bare = (advance ns' stage').2.bare := by
  obtain ⟨left, out⟩ := advance_bare ns stage
  obtain ⟨left', out'⟩ := advance_bare ns' stage'
  rw [same, stages] at left out
  exact ⟨left.symm.trans left', out.symm.trans out'⟩

theorem result_bare (stage : Inside) : stage.bare.result = stage.result := by cases stage <;> rfl

/-- With records as they are but for what may be stale, the same is concluded. -/
theorem conclude_congr (fuel : Nat) (hand : Status → Except Status Inode) {out out' : Outcome}
    (same : ns.bare = ns'.bare) (outs : out.bare = out'.bare) :
    (conclude fuel hand (ns, out)).map bareResult = (conclude fuel hand (ns', out')).map bareResult := by
  induction fuel generalizing ns ns' hand out out' with
  | zero =>
    cases out with
    | inside stage =>
      cases out' with
      | inside stage' => rfl
      | returned s' => cases outs
    | returned s =>
      cases out' with
      | inside stage' => cases outs
      | returned s' =>
        cases outs
        simp [conclude, bareResult, same]
  | succ fuel ih =>
    cases out with
    | inside stage =>
      cases out' with
      | inside stage' =>
        have stages : stage.bare = stage'.bare := Outcome.inside.inj outs
        obtain ⟨left, later⟩ := advance_congr same stages
        rw [conclude_inside, conclude_inside, ← result_bare, stages, result_bare]
        exact ih _ left later
      | returned s' => cases outs
    | returned s =>
      cases out' with
      | inside stage' => cases outs
      | returned s' =>
        cases outs
        simp [conclude, bareResult, same]

theorem enter_congr (same : ns.bare = ns'.bare) (now : UInt64) (call : Call) :
    (enter ns now call).1.bare = (enter ns' now call).1.bare ∧ (enter ns now call).2 = (enter ns' now call).2 := by
  have entries : ns.dirEntries = ns'.dirEntries := congrArg (fun x => x.dirEntries) same
  have tables : ns.inodeTable.bare = ns'.inodeTable.bare := congrArg (fun x => x.inodeTable) same
  obtain ⟨dirs, out⟩ := enter_of_entries entries now call
  refine ⟨?_, out⟩
  unfold NamespaceManager.bare
  rw [dirs, enter_inodeTable, enter_inodeTable, tables]

/-! ## The manager's operations -/

theorem conclude_mkDir (ns : NamespaceManager) (now : UInt64) (path : Str) (mode uid gid : UInt32) :
    conclude 3 .error (enter ns now (.mkDir path mode uid gid)) = some (ns.mkDir now path mode uid gid) := by
  simp only [enter, mkDir]
  cases ns.resolvePath path with
  | error s => rfl
  | ok resolved =>
    obtain ⟨parentId, dirname⟩ := resolved
    dsimp only
    by_cases root : dirname = []
    · rw [if_pos root, if_pos root]
      rfl
    rw [if_neg root, if_neg root]
    by_cases taken : ((ns.dirEntries parentId).getD []).any (fun e => e.name = dirname) = true
    · rw [if_pos taken, if_pos taken]
      rfl
    rw [if_neg taken, if_neg taken]
    simp only [conclude, advance, InodeTable.allocateInodeId, newDirectory]
    cases InodeTable.create _ _ with
    | mk s table => cases s <;> rfl

theorem conclude_createFile (ns : NamespaceManager) (now : UInt64) (path : Str) (mode uid gid : UInt32)
    (fileSize : UInt64) : conclude 3 .error (enter ns now (.createFile path mode uid gid fileSize)) =
      some (ns.createFile now path mode uid gid fileSize) := by
  simp only [enter, createFile]
  cases ns.resolvePath path with
  | error s => rfl
  | ok resolved =>
    obtain ⟨parentId, filename⟩ := resolved
    dsimp only
    cases listed : ns.dirEntries parentId with
    | none => rfl
    | some entries =>
      dsimp only
      by_cases taken : entries.any (fun e => e.name = filename) = true
      · rw [if_pos taken, if_pos taken]
        rfl
      rw [if_neg taken, if_neg taken]
      simp only [conclude, advance, InodeTable.allocateInodeId, newRegular]
      cases InodeTable.create _ _ with
      | mk s table => cases s <;> simp [conclude, advance, listed, Inside.result]

theorem statusOf_result {s : Status} (returned : (advance ns stage).2 = .returned s) :
    statusOf (stage.result s) = s := by
  cases stage with
  | push inode =>
    cases returned
    rfl
  | _ => rfl

/-- What is concluded has the status that is finished with. -/
theorem conclude_of_finish {fuel : Nat} {hand : Status → Except Status Inode} {out : Outcome} {s : Status}
    (faithful : ∀ s, out = .returned s → statusOf (hand s) = s) (finished : finish fuel (ns, out) = some (s, ns')) :
    ∃ r, conclude fuel hand (ns, out) = some (r, ns') ∧ statusOf r = s := by
  induction fuel generalizing ns hand out with
  | zero =>
    cases out with
    | inside stage => cases finished
    | returned s' =>
      cases finished
      exact ⟨_, rfl, faithful _ rfl⟩
  | succ fuel ih =>
    cases out with
    | inside stage => exact ih (fun s returned => statusOf_result returned) finished
    | returned s' =>
      cases finished
      exact ⟨_, rfl, faithful _ rfl⟩

theorem conclude_exec (ns : NamespaceManager) (now : UInt64) (call : Call) :
    ∃ r, conclude 3 .error (enter ns now call) = some (r, (ns.exec now call).2) ∧
      statusOf r = (ns.exec now call).1 :=
  conclude_of_finish (fun _ _ => rfl) (finish_enter ns now call)

end Handlers

end OpenFS
