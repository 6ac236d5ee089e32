import OpenFS.Meta.Handlers

/-!
# Lost metadata updates

`CommitBlocks` and `Rename` both read a record, change some of its fields and
write all of it back. `Sound` is what holds of the namespace between any two
steps, whatever stage the handler inside the mutex has reached. A write-back
keeps it when the fields it does not mean to change are still current
(`WritesBackCurrent`); a stale one restores an old name or an old size.
-/

namespace OpenFS.Handlers

open NamespaceManager

/-- The handler inside has moved the entry of inode `i` but not yet its record. -/
def Inside.Renames : Inside → UInt64 → Prop
  | .get _ inodeId _ _, i => i = inodeId
  | .update inode, i => i = inode.inodeId
  | _, _ => False

/-- What the handler inside relies on at each stage. -/
def Inside.Holds (ns : NamespaceManager) : Inside → Prop
  | .allocate inode | .create inode => ∀ e ∈ (ns.dirEntries inode.parentId).getD [], e.name ≠ inode.name
  | .push inode =>
    (∀ e ∈ (ns.dirEntries inode.parentId).getD [], e.name ≠ inode.name) ∧ inode.inodeId ≠ 1 ∧
      (∀ {d e}, Listed ns.dirEntries d e → e.inodeId ≠ inode.inodeId) ∧
      ∃ r, ns.inodeTable.inodes inode.inodeId = some r ∧ r.name = inode.name ∧ r.parentId = inode.parentId
  | .delete inodeId => inodeId ≠ 1 ∧ ∀ {d e}, Listed ns.dirEntries d e → e.inodeId ≠ inodeId
  | .get _ inodeId dstName dstParent =>
    ∃ e, Listed ns.dirEntries dstParent e ∧ e.inodeId = inodeId ∧ e.name = dstName
  | .update inode =>
    ∃ e, Listed ns.dirEntries inode.parentId e ∧ e.inodeId = inode.inodeId ∧ e.name = inode.name

def Outcome.stage : Outcome → Option Inside
  | .inside stage => some stage
  | .returned _ => none

/-- The namespace between two steps: entries and records agree, but for the
entry that the handler inside is renaming. -/
structure Sound (ns : NamespaceManager) (stage : Option Inside) : Prop where
  lists : Lists ns.dirEntries
  keyed : ∀ {i r}, ns.inodeTable.inodes i = some r → r.inodeId = i
  rootLive : (ns.inodeTable.inodes 1).isSome
  entry : ∀ {d e}, Listed ns.dirEntries d e → ∃ r, ns.inodeTable.inodes e.inodeId = some r ∧
    (r.name = e.name ∧ r.parentId = d ∨ ∃ st, stage = some st ∧ st.Renames e.inodeId)
  holds : ∀ {st}, stage = some st → st.Holds ns

namespace Sound

variable {ns : NamespaceManager}

/-- Records stay under their ids when one is added or written back. -/
theorem keyed_update {stage : Option Inside} (h : Sound ns stage) (inode : Inode) {i : UInt64} {r : Inode}
    (live : Function.update ns.inodeTable.inodes inode.inodeId (some inode) i = some r) : r.inodeId = i := by
  rcases eq_or_ne i inode.inodeId with rfl | other
  · rw [Function.update_self] at live
    cases live
    rfl
  · rw [Function.update_of_ne other] at live
    exact h.keyed live

/-- Entries go, or stay as they were. -/
theorem fewer (h : Sound ns none) {dirs : UInt64 → Option (List DirEntry)} (lists : Lists dirs)
    (sub : ∀ {d e}, Listed dirs d e → Listed ns.dirEntries d e) {stage : Option Inside}
    (holds : ∀ {st}, stage = some st → st.Holds { ns with dirEntries := dirs }) :
    Sound { ns with dirEntries := dirs } stage := by
  refine ⟨lists, h.keyed, h.rootLive, fun listed => ?_, holds⟩
  obtain ⟨r, live, filed | ⟨st, none, -⟩⟩ := h.entry (sub listed)
  · exact ⟨r, live, .inl filed⟩
  · cases none

/-- Nothing has happened yet, and the handler goes on at `stage`. -/
theorem still (h : Sound ns none) {stage : Option Inside} (holds : ∀ {st}, stage = some st → st.Holds ns) :
    Sound ns stage := h.fewer h.lists id holds

theorem enter_rename (h : Sound ns none) (now : UInt64) (srcPath dstPath : Str) :
    Sound (enter ns now (.rename srcPath dstPath)).1 (enter ns now (.rename srcPath dstPath)).2.stage := by
  generalize result : enter ns now (.rename srcPath dstPath) = r
  simp only [enter] at result
  split at result
  · subst result; exact h
  · split at result
    · subst result; exact h
    · next srcParent srcName src _ dstParent dstName dst =>
      split at result
      · subst result; exact h
      · next srcEntries there =>
        split at result
        · subst result; exact h
        · next moving found =>
          obtain ⟨lists, listed⟩ := h.lists.drop there found
          have less : ∀ {d e}, Listed (ns.dropEntry srcParent srcEntries (fun e => e.name = srcName)) d e →
              Listed ns.dirEntries d e := fun l => ((listed _ _).mp l).1
          split at result
          · subst result; exact h.fewer lists less (fun here => by cases here)
          · next dstEntries dstThere =>
            split at result
            · subst result; exact h.fewer lists less (fun here => by cases here)
            · next absent =>
              subst result
              have dstList : (ns.dropEntry srcParent srcEntries (fun e => e.name = srcName)
                  dstParent).getD [] = dstEntries := by rw [dstThere]; rfl
              have here : Listed ns.dirEntries srcParent moving :=
                ⟨_, there, List.mem_of_find?_eq_some found⟩
              have notRoot : moving.inodeId ≠ 1 := h.lists.root here
              have grown := lists.append (e := { moving with name := dstName })
                (by rw [dstList]; exact absent_of_any absent) notRoot
                fun l => ((listed _ _).mp l).2
              rw [dstList] at grown
              refine ⟨grown, h.keyed, h.rootLive, fun {d e} l => ?_, fun {st} at_get => ?_⟩
              · have old : ∀ {d e}, Listed ns.dirEntries d e → ∃ r, ns.inodeTable.inodes e.inodeId = some r ∧
                    r.name = e.name ∧ r.parentId = d := by
                  intro d e l
                  obtain ⟨r, live, filed | ⟨st, none, -⟩⟩ := h.entry l
                  · exact ⟨r, live, filed⟩
                  · cases none
                rcases listed_update.mp l with ⟨rfl, member⟩ | ⟨-, l⟩
                · rcases List.mem_append.mp member with still | new
                  · obtain ⟨r, live, filed⟩ := old (less ⟨_, dstThere, still⟩)
                    exact ⟨r, live, .inl filed⟩
                  · cases List.mem_singleton.mp new
                    obtain ⟨r, live, -⟩ := old here
                    exact ⟨r, live, .inr ⟨_, rfl, rfl⟩⟩
                · obtain ⟨r, live, filed⟩ := old (less l)
                  exact ⟨r, live, .inl filed⟩
              · cases at_get
                exact ⟨{ moving with name := dstName }, listed_update.mpr (.inl ⟨rfl, by simp⟩), rfl, rfl⟩

/-- Taking the mutex. -/
theorem enter (h : Sound ns none) (now : UInt64) (call : Call) :
    Sound (enter ns now call).1 (enter ns now call).2.stage := by
  cases call with
  | rename srcPath dstPath => exact h.enter_rename now srcPath dstPath
  | mkDir path mode uid gid =>
    generalize result : Handlers.enter ns now (.mkDir path mode uid gid) = r
    simp only [Handlers.enter] at result
    split at result
    · subst result; exact h
    · split at result
      · subst result; exact h
      · split at result
        · subst result; exact h
        · next absent =>
          subst result
          refine h.still fun {st} here => ?_
          cases here
          exact absent_of_any absent
  | createFile path mode uid gid fileSize =>
    generalize result : Handlers.enter ns now (.createFile path mode uid gid fileSize) = r
    simp only [Handlers.enter] at result
    split at result
    · subst result; exact h
    · split at result
      · subst result; exact h
      · next entries there =>
        split at result
        · subst result; exact h
        · next absent =>
          subst result
          refine h.still fun {st} here => ?_
          cases here
          simp only [Inside.Holds, newRegular, there, Option.getD_some]
          exact absent_of_any absent
  | deleteFile path =>
    generalize result : Handlers.enter ns now (.deleteFile path) = r
    simp only [Handlers.enter] at result
    split at result
    · subst result; exact h
    · split at result
      · subst result; exact h
      · next entries there =>
        split at result
        · subst result; exact h
        · next e found =>
          subst result
          obtain ⟨lists, listed⟩ := h.lists.drop there found
          refine h.fewer lists (fun l => ((listed _ _).mp l).1) fun {st} here => ?_
          cases here
          exact ⟨h.lists.root ⟨_, there, List.mem_of_find?_eq_some found⟩, fun l => ((listed _ _).mp l).2⟩
  | rmDir path =>
    generalize result : Handlers.enter ns now (.rmDir path) = r
    simp only [Handlers.enter] at result
    split at result
    · subst result; exact h
    · split at result
      · subst result; exact h
      · split at result
        · subst result; exact h
        · next entries there =>
          split at result
          · subst result; exact h
          · next e found =>
            split at result
            · subst result; exact h
            · subst result
              obtain ⟨lists, listed⟩ := h.lists.drop there found
              refine h.fewer (lists.erase _) (fun l => ((listed _ _).mp (listed_erase.mp l).2).1)
                fun {st} here => ?_
              cases here
              exact ⟨h.lists.root ⟨_, there, List.mem_of_find?_eq_some found⟩,
                fun l => ((listed _ _).mp (listed_erase.mp l).2).2⟩

/-- An entry that the handler inside is not renaming agrees with its record. -/
theorem filed {stage : Inside} (h : Sound ns (some stage)) {d : UInt64} {e : DirEntry}
    (listed : Listed ns.dirEntries d e) (other : ¬ stage.Renames e.inodeId) :
    ∃ r, ns.inodeTable.inodes e.inodeId = some r ∧ r.name = e.name ∧ r.parentId = d := by
  obtain ⟨r, live, filed | ⟨st, here, renames⟩⟩ := h.entry listed
  · exact ⟨r, live, filed⟩
  · cases here
    exact absurd renames other

/-- Such an entry stays right whatever the next stage is. -/
theorem stays {stage : Inside} (h : Sound ns (some stage)) {d : UInt64} {e : DirEntry}
    (listed : Listed ns.dirEntries d e) (other : ¬ stage.Renames e.inodeId) (next : Option Inside) :
    ∃ r, ns.inodeTable.inodes e.inodeId = some r ∧
      (r.name = e.name ∧ r.parentId = d ∨ ∃ st, next = some st ∧ st.Renames e.inodeId) := by
  obtain ⟨r, live, filed⟩ := h.filed listed other
  exact ⟨r, live, .inl filed⟩

/-- The record is made. -/
theorem advance_create {inode : Inode} (h : Sound ns (some (.create inode))) :
    Sound (Handlers.advance ns (.create inode)).1 (Handlers.advance ns (.create inode)).2.stage := by
  have absent : Inside.Holds ns (.create inode) := h.holds rfl
  unfold Handlers.advance
  dsimp only
  split
  · next table created =>
    obtain ⟨free, inodes, -⟩ := InodeTable.create_ok created
    have unlisted : ∀ {d e}, Listed ns.dirEntries d e → e.inodeId ≠ inode.inodeId := by
      intro d e l same
      obtain ⟨r, live, -⟩ := h.entry l
      rw [same, free] at live; cases live
    have notRoot : inode.inodeId ≠ 1 := by
      intro same
      have := h.rootLive
      rw [← same, free] at this; cases this
    refine ⟨h.lists, fun {i r} live => ?_, ?_, fun l => ?_, fun {st} here => ?_⟩
    · dsimp only at live
      rw [inodes] at live
      exact h.keyed_update inode live
    · dsimp only
      rw [inodes, Function.update_of_ne notRoot.symm]; exact h.rootLive
    · obtain ⟨r, live, filed⟩ := h.filed l id
      exact ⟨r, by dsimp only; rw [inodes, Function.update_of_ne (unlisted l), live], .inl filed⟩
    · cases here
      exact ⟨absent, notRoot, unlisted, inode, by dsimp only; rw [inodes, Function.update_self], rfl, rfl⟩
  · next s table refused created =>
    obtain rfl := InodeTable.create_refused created refused
    exact ⟨h.lists, h.keyed, h.rootLive, fun l => h.stays l id _, fun here => by cases here⟩

/-- The entry is put behind the others. -/
theorem advance_push {inode : Inode} (h : Sound ns (some (.push inode))) :
    Sound (Handlers.advance ns (.push inode)).1 (Handlers.advance ns (.push inode)).2.stage := by
  obtain ⟨absent, notRoot, unlisted, r, live, named, below⟩ :
    Inside.Holds ns (.push inode) := h.holds rfl
  have grown := h.lists.append (e := ⟨inode.name, inode.inodeId, inode.fileType⟩) absent notRoot unlisted
  refine ⟨?_, h.keyed, h.rootLive, fun {d e} l => ?_, fun here => by cases here⟩
  · simp only [Handlers.advance]
    split
    · exact grown.empty _
    · exact grown
  · have l : Listed (Function.update ns.dirEntries inode.parentId (some
        ((ns.dirEntries inode.parentId).getD [] ++ [⟨inode.name, inode.inodeId, inode.fileType⟩]))) d e := by
      simp only [Handlers.advance] at l
      split at l
      · rcases listed_update.mp l with ⟨-, member⟩ | ⟨-, l⟩
        · cases member
        · exact l
      · exact l
    rcases listed_update.mp l with ⟨rfl, member⟩ | ⟨-, l⟩
    · rcases List.mem_append.mp member with still | new
      · cases there : ns.dirEntries inode.parentId with
        | none => simp [there] at still
        | some l => exact h.stays ⟨l, there, by simpa [there] using still⟩ id _
      · cases List.mem_singleton.mp new
        exact ⟨r, live, .inl ⟨named, below⟩⟩
    · exact h.stays l id _

/-- The record of an entry that is gone is deleted. -/
theorem advance_delete {inodeId : UInt64} (h : Sound ns (some (.delete inodeId))) :
    Sound (Handlers.advance ns (.delete inodeId)).1 (Handlers.advance ns (.delete inodeId)).2.stage := by
  obtain ⟨notRoot, unlisted⟩ : Inside.Holds ns (.delete inodeId) := h.holds rfl
  refine ⟨h.lists, fun {i r} live => ?_, ?_, fun l => ?_, fun here => by cases here⟩
  · simp only [Handlers.advance, InodeTable.delete_inodes] at live
    rcases eq_or_ne i inodeId with rfl | other
    · rw [Function.update_self] at live; cases live
    · rw [Function.update_of_ne other] at live; exact h.keyed live
  · simp only [Handlers.advance, InodeTable.delete_inodes]
    rw [Function.update_of_ne notRoot.symm]; exact h.rootLive
  · obtain ⟨r, live, filed⟩ := h.filed l id
    refine ⟨r, ?_, .inl filed⟩
    simp only [Handlers.advance, InodeTable.delete_inodes]
    rw [Function.update_of_ne (unlisted l), live]

/-- The record of the renamed entry is read. -/
theorem advance_get {now inodeId : UInt64} {dstName : Str} {dstParent : UInt64}
    (h : Sound ns (some (.get now inodeId dstName dstParent))) :
    Sound (Handlers.advance ns (.get now inodeId dstName dstParent)).1
      (Handlers.advance ns (.get now inodeId dstName dstParent)).2.stage := by
  obtain ⟨e, listed, rfl, named⟩ : Inside.Holds ns (.get now inodeId dstName dstParent) := h.holds rfl
  obtain ⟨r, live, -⟩ := h.entry listed
  have keyed := h.keyed live
  simp only [Handlers.advance, InodeTable.get, live]
  refine ⟨h.lists, h.keyed, h.rootLive, fun {d' e'} l => ?_, fun {st} here => ?_⟩
  · rcases eq_or_ne e'.inodeId e.inodeId with same | other
    · exact ⟨r, by rw [same, live], .inr ⟨_, rfl, same.trans keyed.symm⟩⟩
    · obtain ⟨r', live', filed⟩ := h.filed l other
      exact ⟨r', live', .inl filed⟩
  · cases here
    exact ⟨e, listed, keyed.symm, named⟩

/-- It is written under the new name. -/
theorem advance_update {inode : Inode} (h : Sound ns (some (.update inode))) :
    Sound (Handlers.advance ns (.update inode)).1 (Handlers.advance ns (.update inode)).2.stage := by
  obtain ⟨e, listed, id, named⟩ : Inside.Holds ns (.update inode) := h.holds rfl
  obtain ⟨r, live, -⟩ := h.entry listed
  rw [id] at live
  have inodes : (ns.inodeTable.update inode).2.inodes =
      Function.update ns.inodeTable.inodes inode.inodeId (some inode) := by
    rw [InodeTable.update_inodes, live]; rfl
  simp only [Handlers.advance]
  refine ⟨h.lists, fun {i r} live => ?_, ?_, fun {d' e'} l => ?_, fun here => by cases here⟩
  · dsimp only at live
    rw [inodes] at live
    exact h.keyed_update inode live
  · dsimp only
    rw [inodes]
    rcases eq_or_ne 1 inode.inodeId with same | other
    · rw [same, Function.update_self]; rfl
    · rw [Function.update_of_ne other]; exact h.rootLive
  · dsimp only
    rw [inodes]
    rcases eq_or_ne e'.inodeId inode.inodeId with same | other
    · obtain ⟨rfl, rfl⟩ := h.lists.entry_unique l listed (same.trans id.symm)
      exact ⟨inode, by rw [same, Function.update_self], .inl ⟨named.symm, rfl⟩⟩
    · obtain ⟨r', live', filed⟩ := h.filed l other
      exact ⟨r', by rw [Function.update_of_ne other, live'], .inl filed⟩

/-- A step of the handler inside. -/
theorem advance {stage : Inside} (h : Sound ns (some stage)) :
    Sound (advance ns stage).1 (advance ns stage).2.stage := by
  cases stage with
  | allocate draft =>
    refine ⟨h.lists, h.keyed, h.rootLive, fun l => h.stays l id _, fun {st} here => ?_⟩
    cases here
    have absent : Inside.Holds ns (.allocate draft) := h.holds rfl
    exact absent
  | create inode => exact h.advance_create
  | push inode => exact h.advance_push
  | delete inodeId => exact h.advance_delete
  | get now inodeId dstName dstParent => exact h.advance_get
  | update inode => exact h.advance_update

/-- A `CommitBlocks` write-back under the record's current name and parent. -/
theorem commit {stage : Option Inside} (h : Sound ns stage) {inode : Inode}
    (current : ∀ r, ns.inodeTable.inodes inode.inodeId = some r →
      r.name = inode.name ∧ r.parentId = inode.parentId) :
    Sound { ns with inodeTable := (ns.inodeTable.update inode).2 } stage := by
  cases live : ns.inodeTable.inodes inode.inodeId with
  | none =>
    have same : (ns.inodeTable.update inode).2 = ns.inodeTable := by
      unfold InodeTable.update; rw [live]
    rw [same]; exact h
  | some r =>
    obtain ⟨name, parent⟩ := current r live
    have inodes : (ns.inodeTable.update inode).2.inodes =
        Function.update ns.inodeTable.inodes inode.inodeId (some inode) := by
      rw [InodeTable.update_inodes, live]; rfl
    have records : ∀ {i r'}, ns.inodeTable.inodes i = some r' → ∃ r'',
        (ns.inodeTable.update inode).2.inodes i = some r'' ∧ r''.name = r'.name ∧ r''.parentId = r'.parentId := by
      intro i r' there
      rw [inodes]
      rcases eq_or_ne i inode.inodeId with rfl | other
      · cases live.symm.trans there
        exact ⟨inode, Function.update_self .., name.symm, parent.symm⟩
      · exact ⟨r', by rw [Function.update_of_ne other, there], rfl, rfl⟩
    refine ⟨h.lists, fun {i r'} there => ?_, ?_, fun {d e} l => ?_, fun {st} here => ?_⟩
    · dsimp only at there
      rw [inodes] at there
      exact h.keyed_update inode there
    · obtain ⟨root, there⟩ := Option.isSome_iff_exists.mp h.rootLive
      obtain ⟨r', there', -⟩ := records there
      dsimp only
      rw [there']; rfl
    · obtain ⟨r', there, filed⟩ := h.entry l
      obtain ⟨r'', there', name', parent'⟩ := records there
      exact ⟨r'', there', by rwa [name', parent']⟩
    · have held := h.holds here
      cases st with
      | push new =>
        obtain ⟨absent, notRoot, unlisted, r', there, named, below⟩ := held
        obtain ⟨r'', there', name', parent'⟩ := records there
        exact ⟨absent, notRoot, unlisted, r'', there', name'.trans named, parent'.trans below⟩
      | _ => exact held

end Sound

/-- The sizes that commits wrote are still there. -/
def SizesKept (inodes : UInt64 → Option Inode) (lastCommitted : UInt64 → Option UInt64) : Prop :=
  ∀ i r z, inodes i = some r → lastCommitted i = some z → r.size = z

theorem SizesKept.update {inodes : UInt64 → Option Inode} {commits : UInt64 → Option UInt64}
    (h : SizesKept inodes commits) (i : UInt64) (inode : Inode) (seen : Option UInt64)
    (size : ∀ z, seen = some z → inode.size = z) :
    SizesKept (Function.update inodes i (some inode)) (Function.update commits i seen) := by
  intro j r z live commit
  rcases eq_or_ne j i with rfl | other
  · rw [Function.update_self] at live commit
    cases live; exact size z commit
  · rw [Function.update_of_ne other] at live commit
    exact h j r z live commit

/-- The write-backs find current what they do not mean to change: `CommitBlocks`
the record's name and parent, `Rename` its size. -/
def WritesBackCurrent (s : State) : Action → Prop
  | .commit h =>
    match s.pc h with
    | .update inode => ∀ r, s.ns.inodeTable.inodes inode.inodeId = some r →
        r.name = inode.name ∧ r.parentId = inode.parentId
    | _ => True
  | .advance =>
    match s.critical with
    | some (_, .update inode) => ∀ r, s.ns.inodeTable.inodes inode.inodeId = some r → r.size = inode.size
    | _ => True
  | _ => True

/-- What holds between any two steps of an interleaving. -/
structure Inv (s : State) : Prop where
  sound : Sound s.ns (s.critical.map Prod.snd)
  sizes : SizesKept s.ns.inodeTable.inodes s.lastCommitted

theorem inv_init (now : UInt64) : Inv (State.init now) := by
  have fresh := Consistent.init now
  refine ⟨⟨fresh.lists, fresh.keyed, ?_, fun {d e} listed => ?_, fun here => by cases here⟩,
    fun _ _ _ _ commit => by cases commit⟩
  · obtain ⟨r, live, -⟩ := fresh.rootLive
    exact Option.isSome_of_eq_some live
  · obtain ⟨r, live, -, name, parent⟩ := fresh.entry listed
    exact ⟨r, live, .inl ⟨name, parent⟩⟩

theorem inv_commit {s s' : State} {h : Nat} (inv : Inv s) (current : WritesBackCurrent s (.commit h))
    (step : commitStep s h = some s') : Inv s' := by
  unfold commitStep at step
  split at step
  · split at step <;> cases step <;> exact ⟨inv.sound, inv.sizes⟩
  · split at step <;> cases step <;> exact ⟨inv.sound, inv.sizes⟩
  · next inode at_update =>
    cases step
    simp only [WritesBackCurrent, at_update] at current
    refine ⟨inv.sound.commit current, ?_⟩
    simp only [State.setPc, InodeTable.update_inodes, recordCommit]
    split
    · exact inv.sizes.update _ _ _ fun z seen => by cases seen; rfl
    · exact inv.sizes
  · cases step

theorem settle_critical (s : State) (h : Nat) (outcome : Outcome) :
    ((s.settle h outcome).critical.map Prod.snd) = outcome.stage := by
  cases outcome <;> rfl

theorem settle_ns (s : State) (h : Nat) (outcome : Outcome) : (s.settle h outcome).ns = s.ns := by
  cases outcome <;> rfl

theorem settle_lastCommitted (s : State) (h : Nat) (outcome : Outcome) :
    (s.settle h outcome).lastCommitted = s.lastCommitted := by
  cases outcome <;> rfl

/-- Taking the mutex touches entry lists only. -/
theorem enter_inodeTable (ns : NamespaceManager) (now : UInt64) (call : Call) :
    (enter ns now call).1.inodeTable = ns.inodeTable := by
  cases call <;> simp only [enter] <;> repeat' split
  all_goals rfl

theorem inv_enter {s s' : State} {h : Nat} (inv : Inv s) (step : enterStep s h = some s') : Inv s' := by
  unfold enterStep at step
  split at step
  · next now call waiting free =>
    cases step
    have sound := inv.sound
    rw [free] at sound
    refine ⟨?_, ?_⟩
    · rw [settle_critical, settle_ns]; exact sound.enter now call
    · rw [settle_ns, settle_lastCommitted]
      show SizesKept (enter s.ns now call).1.inodeTable.inodes s.lastCommitted
      rw [enter_inodeTable]; exact inv.sizes
  · cases step

/-- The sizes after a step of the handler inside. -/
theorem sizes_advance {s : State} {h : Nat} {stage : Inside} (inv : Inv s)
    (current : WritesBackCurrent s .advance) (at_stage : s.critical = some (h, stage)) :
    SizesKept (advance s.ns stage).1.inodeTable.inodes (forgetCommits s stage) := by
  cases stage with
  | allocate draft => exact inv.sizes
  | push inode => exact inv.sizes
  | create inode =>
    simp only [advance, forgetCommits]
    unfold InodeTable.create
    cases live : s.ns.inodeTable.inodes inode.inodeId with
    | some r => simpa using inv.sizes
    | none => exact inv.sizes.update _ _ none (fun _ commit => by cases commit)
  | delete inodeId =>
    intro i r z live commit
    simp only [advance, InodeTable.delete_inodes] at live
    rcases eq_or_ne i inodeId with rfl | other
    · rw [Function.update_self] at live; cases live
    · rw [Function.update_of_ne other] at live; exact inv.sizes _ _ _ live commit
  | get now inodeId dstName dstParent =>
    simp only [advance]
    split <;> exact inv.sizes
  | update inode =>
    simp only [WritesBackCurrent, at_stage] at current
    simp only [advance, InodeTable.update_inodes]
    split
    · next live =>
      obtain ⟨r, live⟩ := Option.isSome_iff_exists.mp live
      have kept := inv.sizes.update inode.inodeId inode (s.lastCommitted inode.inodeId) fun z seen => by
        rw [← current r live]; exact inv.sizes _ _ _ live seen
      rwa [Function.update_eq_self] at kept
    · exact inv.sizes

theorem inv_advance {s s' : State} (inv : Inv s) (current : WritesBackCurrent s .advance)
    (step : advanceStep s = some s') : Inv s' := by
  unfold advanceStep at step
  split at step
  · next h stage at_stage =>
    cases step
    have sound := inv.sound
    rw [at_stage] at sound
    refine ⟨?_, ?_⟩
    · rw [settle_critical, settle_ns]; exact sound.advance
    · rw [settle_ns, settle_lastCommitted]; exact sizes_advance inv current at_stage
  · cases step

/-- A step whose write-back is current keeps the invariant. -/
theorem inv_next {s s' : State} {action : Action} (inv : Inv s) (current : WritesBackCurrent s action)
    (step : next s action = some s') : Inv s' := by
  cases action with
  | arrive h request =>
    simp only [next] at step
    split at step
    · cases step; exact ⟨inv.sound, inv.sizes⟩
    · cases step
  | commit h => exact inv_commit inv current step
  | enter h => exact inv_enter inv step
  | advance => exact inv_advance inv current step

theorem inv_of_reachable {s : State} (reachable : Reachable WritesBackCurrent s) : Inv s := by
  induction reachable with
  | init now => exact inv_init now
  | step action _ current step ih => exact inv_next ih current step

/-- Every entry agrees with its inode's record, and an inode that has seen a
commit since its creation has the size that the last one wrote. -/
def NoLostUpdate (s : State) : Prop :=
  ∀ {d e}, Listed s.ns.dirEntries d e → ∃ r, s.ns.inodeTable.inodes e.inodeId = some r ∧
    r.name = e.name ∧ r.parentId = d ∧ ∀ z, s.lastCommitted e.inodeId = some z → r.size = z

/-- **No update is lost** in an interleaving whose write-backs are all current,
once every handler has returned. -/
theorem noLostUpdate_of_quiescent {s : State} (reachable : Reachable WritesBackCurrent s)
    (quiescent : s.Quiescent) : NoLostUpdate s := by
  intro d e listed
  obtain ⟨sound, sizes⟩ := inv_of_reachable reachable
  rw [quiescent.1] at sound
  obtain ⟨r, live, ⟨name, parent⟩ | ⟨st, none, -⟩⟩ := sound.entry listed
  · exact ⟨r, live, name, parent, fun z => sizes _ _ _ live⟩
  · cases none

/-- Take the actions in turn. -/
def run : State → List Action → Option State
  | s, [] => some s
  | s, action :: rest => (next s action).bind fun s => run s rest

/-- Every action of the list is allowed where it is taken. -/
def Each (allowed : State → Action → Prop) : State → List Action → Prop
  | _, [] => True
  | s, action :: rest => allowed s action ∧
      match next s action with
      | some s' => Each allowed s' rest
      | none => True

theorem reachable_run {allowed : State → Action → Prop} {s s' : State} {actions : List Action}
    (before : Reachable allowed s) (each : Each allowed s actions) (steps : run s actions = some s') :
    Reachable allowed s' := by
  induction actions generalizing s with
  | nil => cases steps; exact before
  | cons action rest ih =>
    simp only [run, Option.bind_eq_some_iff] at steps
    obtain ⟨mid, step, steps⟩ := steps
    obtain ⟨allow, each⟩ := each
    rw [step] at each
    exact ih (before.step action allow step) each steps

/-- `CreateFile /a`, to its end. -/
def createA : List Action :=
  [.arrive 0 (.call 0 (.createFile ['/', 'a'] 0o644 0 0 0)), .enter 0, .advance, .advance, .advance]

/-- `Rename /a /b`, to its end. -/
def renameAToB : List Action :=
  [.arrive 2 (.call 0 (.rename ['/', 'a'] ['/', 'b'])), .enter 2, .advance, .advance]

/-- A commit of one block for inode 2 that has read the record of `/a`. -/
def commitRead : List Action :=
  [.arrive 1 (.commitBlocks 0 0 2 [{ blockId := 1, size := 5 }]), .commit 1, .commit 1]

/-- A commit that has written the record back before the rename starts. -/
def currentCommit : List Action := createA ++ commitRead ++ [.commit 1] ++ renameAToB

/-- A commit that reads the record before the rename and writes it back after. -/
def staleCommit : List Action := createA ++ commitRead ++ renameAToB ++ [.commit 1]

theorem quiescent_of_three {actions : List Action} {s : State} (steps : run (State.init 0) actions = some s)
    (others : ∀ n, (run (State.init 0) actions).map (fun s => s.pc (n + 3)) = some .idle)
    (three : (run (State.init 0) actions).map (fun s => (s.critical, s.pc 0, s.pc 1, s.pc 2)) =
      some (none, .done .ok, .done .ok, .done .ok)) : s.Quiescent := by
  rw [steps] at others three
  simp only [Option.map_some, Option.some.injEq, Prod.mk.injEq] at others three
  obtain ⟨free, zero, one, two⟩ := three
  refine ⟨free, fun h => ?_⟩
  match h with
  | 0 => exact .inr ⟨_, zero⟩
  | 1 => exact .inr ⟨_, one⟩
  | 2 => exact .inr ⟨_, two⟩
  | n + 3 => exact .inl (others n)

/-- A create, a commit and a rename, one after the other. -/
theorem noLostUpdate_currentCommit :
    ∃ s, run (State.init 0) currentCommit = some s ∧ NoLostUpdate s := by
  have ends : (run (State.init 0) currentCommit).isSome := by decide
  obtain ⟨s, steps⟩ := Option.isSome_iff_exists.mp ends
  have each : Each WritesBackCurrent (State.init 0) currentCommit :=
    ⟨trivial, trivial, trivial, trivial, trivial, trivial, trivial, trivial,
      fun r live => by cases live; exact ⟨rfl, rfl⟩, trivial, trivial, trivial,
      fun r live => by cases live; rfl, trivial⟩
  exact ⟨s, steps, noLostUpdate_of_quiescent (reachable_run (.init 0) each steps)
    (quiescent_of_three steps (fun _ => rfl) rfl)⟩

/-- No directory is removed, and every `Rename` has returned `kOk`. -/
structure RenamesOk (actions : List Action) (s : State) : Prop where
  keeps : ∀ h now path, .arrive h (.call now (.rmDir path)) ∉ actions
  renames : ∀ h now src dst, .arrive h (.call now (.rename src dst)) ∈ actions → s.pc h = .done .ok

/-- The entry is called `b` at the end, the record `a` again. -/
theorem stale_commit_restores_name :
    ¬ ∀ now actions s, run (State.init now) actions = some s → s.Quiescent → RenamesOk actions s →
      NoLostUpdate s := by
  intro claim
  have ends : (run (State.init 0) staleCommit).isSome := by decide
  obtain ⟨s, steps⟩ := Option.isSome_iff_exists.mp ends
  have entries : (run (State.init 0) staleCommit).map (fun s => s.ns.dirEntries 1) =
    some (some [⟨['b'], 2, .regular⟩]) := by decide
  have record : (run (State.init 0) staleCommit).map
    (fun s => (s.ns.inodeTable.inodes 2).map Inode.name) = some (some ['a']) := by decide
  rw [steps, Option.map_some, Option.some.injEq] at entries record
  have listed : Listed s.ns.dirEntries 1 ⟨['b'], 2, .regular⟩ := ⟨_, entries, by simp⟩
  have returned : (run (State.init 0) staleCommit).map (fun s => s.pc 2) = some (.done .ok) := rfl
  rw [steps, Option.map_some, Option.some.injEq] at returned
  have orderly : RenamesOk staleCommit s := by
    refine ⟨fun h now path removes => ?_, fun h now src dst moves => ?_⟩
    · simp [staleCommit, createA, commitRead, renameAToB] at removes
    · simp only [staleCommit, createA, commitRead, renameAToB, List.cons_append, List.nil_append, List.mem_cons,
        Action.arrive.injEq, Request.call.injEq, reduceCtorEq, and_false, false_or, or_false, List.not_mem_nil] at moves
      rw [moves.1]
      exact returned
  obtain ⟨r, live, name, -⟩ := claim 0 staleCommit s steps (quiescent_of_three steps (fun _ => rfl) rfl) orderly
    listed
  simp only at live name
  rw [live, Option.map_some, Option.some.injEq, name] at record
  revert record
  decide

end OpenFS.Handlers
