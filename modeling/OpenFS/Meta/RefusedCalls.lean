import OpenFS.Meta.NamespaceEffects

/-!
# What a refused namespace call leaves behind

A call that is refused must not change the namespace. All of them obey but
`Rename`, which takes the source entry out of its list before it looks at the
destination: a refusal at that point loses the entry. `Call.LosesSource` is
that branch, read off the state before the call.
-/

namespace OpenFS.NamespaceManager

/-- A `Rename` whose paths resolve and whose source is listed, while the
destination's parent has no list, or a list with the new name in it, once the
source entry is out. -/
def Call.LosesSource (ns : NamespaceManager) : Call → Prop
  | .rename srcPath dstPath =>
    ∃ srcParent dstParent srcName dstName srcEntries moving,
      Moves ns srcPath dstPath srcParent dstParent srcName dstName srcEntries moving ∧
      ∀ entries, ns.dropEntry srcParent srcEntries (fun e => e.name = srcName) dstParent = some entries →
        ∃ e ∈ entries, e.name = dstName
  | _ => False

/-- Taking out an entry that is there changes the entry lists. -/
theorem dropEntry_ne {ns : NamespaceManager} {parentId : UInt64} {entries : List DirEntry}
    {p : DirEntry → Bool} {e : DirEntry} (listed : ns.dirEntries parentId = some entries)
    (found : entries.find? p = some e) : ns.dropEntry parentId entries p ≠ ns.dirEntries := by
  intro same
  have at_parent := congrFun same parentId
  rw [dropEntry, Function.update_self, listed, Option.some.injEq] at at_parent
  have shorter := List.length_eraseP_of_mem (List.mem_of_find?_eq_some found)
    (List.find?_some found)
  have := List.length_pos_of_mem (List.mem_of_find?_eq_some found)
  rw [at_parent] at shorter
  omega

/-- A blocked `Rename` is refused after the source entry is gone. -/
theorem rename_of_blocked {ns : NamespaceManager} (now : UInt64) {srcPath dstPath : Str}
    {srcParent dstParent : UInt64} {srcName dstName : Str} {srcEntries : List DirEntry}
    {moving : DirEntry}
    (moves : Moves ns srcPath dstPath srcParent dstParent srcName dstName srcEntries moving)
    (blocked : ∀ entries, ns.dropEntry srcParent srcEntries (fun e => e.name = srcName) dstParent =
      some entries → ∃ e ∈ entries, e.name = dstName) :
    (ns.rename now srcPath dstPath).1 ≠ .ok ∧
      (ns.rename now srcPath dstPath).2.dirEntries =
        ns.dropEntry srcParent srcEntries (fun e => e.name = srcName) := by
  unfold rename
  simp only [moves.src, moves.dst, moves.listed, moves.found]
  rw [show Function.update ns.dirEntries srcParent
    (some (srcEntries.eraseP (fun e => e.name = srcName))) =
    ns.dropEntry srcParent srcEntries (fun e => e.name = srcName) from rfl]
  cases listed : ns.dropEntry srcParent srcEntries (fun e => e.name = srcName) dstParent with
  | none => exact ⟨nofun, rfl⟩
  | some entries =>
    obtain ⟨e, member, taken⟩ := blocked entries listed
    have hit : entries.any (fun e => e.name = dstName) = true :=
      List.any_eq_true.mpr ⟨e, member, by simpa using taken⟩
    simp only [hit, ↓reduceIte]
    exact ⟨nofun, trivial⟩

/-- A refused call leaves the namespace as it was, unless it is a `Rename`
that has already taken its source entry out. -/
theorem refused_unchanged {ns : NamespaceManager} {now : UInt64} {call : Call}
    (refused : (ns.exec now call).1 ≠ .ok) (keeps : ¬ call.LosesSource ns) :
    Unchanged ns (ns.exec now call).2 := by
  have effect := exec_effect ns now call
  generalize (ns.exec now call).1 = s at *
  generalize (ns.exec now call).2 = after at *
  cases effect with
  | refused _ same => exact same
  | lost moves _ blocked _ _ => exact absurd ⟨_, _, _, _, _, _, moves, blocked⟩ keeps
  | madeDirectory => exact absurd rfl refused
  | madeFile => exact absurd rfl refused
  | removedFile => exact absurd rfl refused
  | removedDirectory => exact absurd rfl refused
  | moved => exact absurd rfl refused

/-- **Failed calls change nothing**, at exactly the calls that do not lose
their source: in any state, for any call and any paths. -/
theorem failed_call_unchanged_iff (ns : NamespaceManager) (now : UInt64) (call : Call) :
    ((ns.exec now call).1 ≠ .ok → Unchanged ns (ns.exec now call).2) ↔ ¬ call.LosesSource ns := by
  refine ⟨fun unchanged loses => ?_, fun keeps refused => refused_unchanged refused keeps⟩
  cases call with
  | rename srcPath dstPath =>
    obtain ⟨_, _, _, _, _, _, moves, blocked⟩ := loses
    obtain ⟨refused, dropped⟩ := rename_of_blocked now moves blocked
    exact dropEntry_ne moves.listed moves.found (dropped.symm.trans (unchanged refused).dirs)
  | _ => exact loses

/-- Two files at the root, `/a` and `/b`. -/
def twoFiles : NamespaceManager :=
  (((init 0).exec 0 (.createFile ['/', 'a'] 0o644 0 0 0)).2.exec 0
    (.createFile ['/', 'b'] 0o644 0 0 0)).2

/-- Renaming `/a` to the taken name `/b` is refused, and `/a` is gone from
the root although its inode lives on. -/
theorem rename_onto_existing_loses_source :
    Reachable twoFiles ∧
      (twoFiles.exec 0 (.rename ['/', 'a'] ['/', 'b'])).1 = .alreadyExists ∧
      ¬ Unchanged twoFiles (twoFiles.exec 0 (.rename ['/', 'a'] ['/', 'b'])).2 ∧
      statusOf (twoFiles.lookup ['/', 'a']) = .ok ∧
      statusOf ((twoFiles.exec 0 (.rename ['/', 'a'] ['/', 'b'])).2.lookup ['/', 'a']) = .notFound ∧
      ((twoFiles.exec 0 (.rename ['/', 'a'] ['/', 'b'])).2.inodeTable.inodes 2).isSome := by
  refine ⟨.step 0 _ (.step 0 _ (.init 0)), by decide, fun same => ?_, by decide, by decide, by decide⟩
  have root := congrFun same.dirs 1
  revert root
  decide

end OpenFS.NamespaceManager
