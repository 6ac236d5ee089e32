import Mathlib.Data.List.Nodup
import OpenFS.Meta.NamespaceEffects

/-!
# The invariant of the namespace

`Lists` is about the entry lists alone: names are distinct within a list, an
inode id stands in one place of one list, and the root stands in none.
`Consistent` ties the lists to the inode records. Both hold in every state,
after refused calls too.
-/

namespace OpenFS.NamespaceManager

/-- Entry `e` stands in the list of directory `d`. -/
def Listed (dirs : UInt64 → Option (List DirEntry)) (d : UInt64) (e : DirEntry) : Prop :=
  ∃ l, dirs d = some l ∧ e ∈ l

theorem listed_update {dirs : UInt64 → Option (List DirEntry)} {p d : UInt64} {l : List DirEntry}
    {e : DirEntry} :
    Listed (Function.update dirs p (some l)) d e ↔ (d = p ∧ e ∈ l) ∨ (d ≠ p ∧ Listed dirs d e) := by
  unfold Listed
  by_cases same : d = p
  · subst same; simp
  · simp [same]

theorem listed_erase {dirs : UInt64 → Option (List DirEntry)} {p d : UInt64} {e : DirEntry} :
    Listed (Function.update dirs p none) d e ↔ d ≠ p ∧ Listed dirs d e := by
  unfold Listed
  by_cases same : d = p
  · subst same; simp
  · simp [same]

structure Lists (dirs : UInt64 → Option (List DirEntry)) : Prop where
  names : ∀ {d l}, dirs d = some l → (l.map DirEntry.name).Nodup
  ids : ∀ {d l}, dirs d = some l → (l.map DirEntry.inodeId).Nodup
  apart : ∀ {d d' e e'}, Listed dirs d e → Listed dirs d' e' → e.inodeId = e'.inodeId → d = d'
  root : ∀ {d e}, Listed dirs d e → e.inodeId ≠ 1

namespace Lists

variable {dirs : UInt64 → Option (List DirEntry)}

/-- An inode id determines the entry it stands in. -/
theorem entry_unique (h : Lists dirs) {d d' : UInt64} {e e' : DirEntry} (listed : Listed dirs d e)
    (listed' : Listed dirs d' e') (same : e.inodeId = e'.inodeId) : d = d' ∧ e = e' := by
  obtain rfl := h.apart listed listed' same
  obtain ⟨l, there, member⟩ := listed
  obtain ⟨l', there', member'⟩ := listed'
  cases there.symm.trans there'
  exact ⟨rfl, List.inj_on_of_nodup_map (h.ids there) member member' same⟩

/-- Replacing a list by a part of it. -/
theorem sublist (h : Lists dirs) {p : UInt64} {l l' : List DirEntry} (there : dirs p = some l)
    (sub : l'.Sublist l) : Lists (Function.update dirs p (some l')) := by
  have still : ∀ {d e}, Listed (Function.update dirs p (some l')) d e → Listed dirs d e := by
    intro d e listed
    rcases listed_update.mp listed with ⟨rfl, member⟩ | ⟨-, listed⟩
    · exact ⟨l, there, sub.subset member⟩
    · exact listed
  refine ⟨fun {d k} at_d => ?_, fun {d k} at_d => ?_, fun a b => h.apart (still a) (still b),
    fun a => h.root (still a)⟩
  · by_cases same : d = p
    · subst same
      rw [Function.update_self] at at_d; cases at_d
      exact (h.names there).sublist (sub.map _)
    · rw [Function.update_of_ne same] at at_d; exact h.names at_d
  · by_cases same : d = p
    · subst same
      rw [Function.update_self] at at_d; cases at_d
      exact (h.ids there).sublist (sub.map _)
    · rw [Function.update_of_ne same] at at_d; exact h.ids at_d

/-- Dropping a whole list. -/
theorem erase (h : Lists dirs) (p : UInt64) : Lists (Function.update dirs p none) := by
  have kept : ∀ {d l}, Function.update dirs p none d = some l → dirs d = some l := by
    intro d l at_d
    by_cases same : d = p
    · subst same; simp at at_d
    · rwa [Function.update_of_ne same] at at_d
  exact ⟨fun at_d => h.names (kept at_d), fun at_d => h.ids (kept at_d),
    fun a b => h.apart (listed_erase.mp a).2 (listed_erase.mp b).2, fun a => h.root (listed_erase.mp a).2⟩

/-- A new empty list where there was none. -/
theorem empty (h : Lists dirs) (p : UInt64) : Lists (Function.update dirs p (some [])) := by
  have still : ∀ {d e}, Listed (Function.update dirs p (some [])) d e → Listed dirs d e := by
    intro d e listed
    rcases listed_update.mp listed with ⟨-, member⟩ | ⟨-, listed⟩
    · cases member
    · exact listed
  refine ⟨fun {d k} at_d => ?_, fun {d k} at_d => ?_, fun a b => h.apart (still a) (still b),
    fun a => h.root (still a)⟩
  · by_cases same : d = p
    · subst same; rw [Function.update_self] at at_d; cases at_d; exact List.nodup_nil
    · rw [Function.update_of_ne same] at at_d; exact h.names at_d
  · by_cases same : d = p
    · subst same; rw [Function.update_self] at at_d; cases at_d; exact List.nodup_nil
    · rw [Function.update_of_ne same] at at_d; exact h.ids at_d

/-- Appending an entry with a new name and an id that stands nowhere. -/
theorem append (h : Lists dirs) {p : UInt64} {e : DirEntry}
    (absent : ∀ e' ∈ (dirs p).getD [], e'.name ≠ e.name) (notRoot : e.inodeId ≠ 1)
    (fresh : ∀ {d e'}, Listed dirs d e' → e'.inodeId ≠ e.inodeId) :
    Lists (Function.update dirs p (some ((dirs p).getD [] ++ [e]))) := by
  have cases_of : ∀ {d e'}, Listed (Function.update dirs p (some ((dirs p).getD [] ++ [e]))) d e' →
      Listed dirs d e' ∨ (d = p ∧ e' = e) := by
    intro d e' listed
    rcases listed_update.mp listed with ⟨rfl, member⟩ | ⟨-, listed⟩
    · rcases List.mem_append.mp member with old | new
      · cases there : dirs d with
        | none => simp [there] at old
        | some l => exact .inl ⟨l, there, by simpa [there] using old⟩
      · exact .inr ⟨rfl, List.mem_singleton.mp new⟩
    · exact .inl listed
  have old_names : ((dirs p).getD []).map DirEntry.name |>.Nodup := by
    cases there : dirs p with
    | none => exact List.nodup_nil
    | some l => exact h.names there
  have old_ids : ((dirs p).getD []).map DirEntry.inodeId |>.Nodup := by
    cases there : dirs p with
    | none => exact List.nodup_nil
    | some l => exact h.ids there
  refine ⟨fun {d k} at_d => ?_, fun {d k} at_d => ?_, fun a b same => ?_, fun a => ?_⟩
  · by_cases same : d = p
    · subst same
      rw [Function.update_self] at at_d; cases at_d
      rw [List.map_append, List.map_singleton]
      refine List.Nodup.append old_names (List.nodup_singleton _) fun name old new => ?_
      obtain ⟨e', member, rfl⟩ := List.mem_map.mp old
      exact absent e' member (List.mem_singleton.mp new)
    · rw [Function.update_of_ne same] at at_d; exact h.names at_d
  · by_cases same : d = p
    · subst same
      rw [Function.update_self] at at_d; cases at_d
      rw [List.map_append, List.map_singleton]
      refine List.Nodup.append old_ids (List.nodup_singleton _) fun id old new => ?_
      obtain ⟨e', member, rfl⟩ := List.mem_map.mp old
      cases there : dirs d with
      | none => simp [there] at member
      | some l => exact fresh ⟨l, there, by simpa [there] using member⟩ (List.mem_singleton.mp new)
    · rw [Function.update_of_ne same] at at_d; exact h.ids at_d
  · rcases cases_of a with old | ⟨rfl, rfl⟩ <;> rcases cases_of b with old' | ⟨rfl, rfl⟩
    · exact h.apart old old' same
    · exact absurd same (fresh old)
    · exact absurd same.symm (fresh old')
    · rfl
  · rcases cases_of a with old | ⟨rfl, rfl⟩
    · exact h.root old
    · exact notRoot

end Lists

/-- The scan's first hit splits the list at the entry the code erases. -/
theorem split_of_find {entries : List DirEntry} {p : DirEntry → Bool} {e : DirEntry}
    (found : entries.find? p = some e) :
    ∃ before after, entries = before ++ e :: after ∧ entries.eraseP p = before ++ after := by
  obtain ⟨hit, before, after, rfl, misses⟩ := List.find?_eq_some_iff_append.mp found
  refine ⟨before, after, rfl, ?_⟩
  rw [List.eraseP_append_right _ (fun b member => by simpa using misses b member),
    List.eraseP_cons_of_pos hit]

/-- Taking an entry out leaves every other listed entry, and its id nowhere. -/
theorem Lists.drop {ns : NamespaceManager} (h : Lists ns.dirEntries) {parentId : UInt64}
    {entries : List DirEntry} {p : DirEntry → Bool} {e : DirEntry}
    (there : ns.dirEntries parentId = some entries) (found : entries.find? p = some e) :
    Lists (ns.dropEntry parentId entries p) ∧
      ∀ d e', Listed (ns.dropEntry parentId entries p) d e' ↔
        Listed ns.dirEntries d e' ∧ e'.inodeId ≠ e.inodeId := by
  obtain ⟨before, after, rfl, erased⟩ := split_of_find found
  have here : Listed ns.dirEntries parentId e := ⟨_, there, by simp⟩
  refine ⟨h.sublist there (List.eraseP_sublist ..), fun d e' => ?_⟩
  rw [dropEntry, listed_update, erased]
  constructor
  · rintro (⟨rfl, member⟩ | ⟨other, listed⟩)
    · refine ⟨⟨_, there, by simp at member ⊢; tauto⟩, fun same => ?_⟩
      have nodup := h.ids there
      rw [List.map_append, List.map_cons, List.nodup_middle] at nodup
      refine (List.nodup_cons.mp nodup).1 ?_
      rw [← same, ← List.map_append]
      exact List.mem_map_of_mem member
    · exact ⟨listed, fun same => other (h.apart listed here same)⟩
  · rintro ⟨listed, different⟩
    by_cases same : d = parentId
    · subst same
      obtain ⟨l, at_d, member⟩ := listed
      cases there.symm.trans at_d
      refine .inl ⟨rfl, ?_⟩
      rcases List.mem_append.mp member with old | new
      · exact List.mem_append_left _ old
      · rcases List.mem_cons.mp new with rfl | old
        · exact absurd rfl different
        · exact List.mem_append_right _ old
    · exact .inr ⟨same, listed⟩

/-- Taking an entry out removes no list. -/
theorem isSome_dropEntry {ns : NamespaceManager} {parentId : UInt64} {entries : List DirEntry}
    (there : ns.dirEntries parentId = some entries) (p : DirEntry → Bool) (d : UInt64) :
    (ns.dropEntry parentId entries p d).isSome = (ns.dirEntries d).isSome := by
  unfold dropEntry
  by_cases same : d = parentId
  · subst same; simp [there]
  · rw [Function.update_of_ne same]

/-- The lists and the inode records fit together. -/
structure Consistent (ns : NamespaceManager) : Prop where
  lists : Lists ns.dirEntries
  keyed : ∀ {i r}, ns.inodeTable.inodes i = some r → r.inodeId = i
  keys : ∀ d, (ns.dirEntries d).isSome ↔ ∃ r, ns.inodeTable.inodes d = some r ∧ r.fileType = .directory
  entry : ∀ {d e}, Listed ns.dirEntries d e → ∃ r, ns.inodeTable.inodes e.inodeId = some r ∧
    r.fileType = e.fileType ∧ r.name = e.name ∧ r.parentId = d
  rootLive : ∃ r, ns.inodeTable.inodes 1 = some r ∧ r.fileType = .directory

namespace Consistent

variable {ns : NamespaceManager}

theorem rootList (h : Consistent ns) : (ns.dirEntries 1).isSome := (h.keys 1).mpr h.rootLive

/-- An id with no record stands in no list and has none. -/
theorem of_free (h : Consistent ns) {i : UInt64} (free : ns.inodeTable.inodes i = none) :
    i ≠ 1 ∧ ns.dirEntries i = none ∧ ∀ {d e}, Listed ns.dirEntries d e → e.inodeId ≠ i := by
  refine ⟨?_, ?_, ?_⟩
  · rintro rfl
    obtain ⟨r, live, -⟩ := h.rootLive
    simp [free] at live
  · by_contra key
    obtain ⟨r, live, -⟩ := (h.keys i).mp (Option.isSome_iff_ne_none.mpr key)
    simp [free] at live
  · rintro d e listed rfl
    obtain ⟨r, live, -⟩ := h.entry listed
    simp [free] at live

/-- The walk only stops at directories that have a list. -/
theorem walk_isSome (h : Consistent ns) {current d : UInt64} {cs : List Str}
    (start : (ns.dirEntries current).isSome) (walked : ns.walk current cs = .ok d) :
    (ns.dirEntries d).isSome := by
  induction cs generalizing current with
  | nil => cases walked; exact start
  | cons c rest ih =>
    unfold walk at walked
    split at walked
    · cases walked
    · next entries there =>
      split at walked
      · cases walked
      · next e found =>
        refine ih ?_ walked
        obtain ⟨r, live, type, -⟩ := h.entry ⟨entries, there, List.mem_of_find?_eq_some found⟩
        have hit := List.find?_some found
        simp only [Bool.decide_and, Bool.and_eq_true, decide_eq_true_eq] at hit
        exact (h.keys _).mpr ⟨r, live, type.trans hit.2⟩

/-- The parent a path resolves to has a list. -/
theorem resolved_isSome (h : Consistent ns) {path : Str} {parentId : UInt64} {name : Str}
    (resolved : ns.resolvePath path = .ok (parentId, name)) : (ns.dirEntries parentId).isSome := by
  unfold resolvePath at resolved
  split at resolved
  · cases resolved
  · split at resolved
    · cases resolved; exact h.rootList
    · split at resolved
      · cases resolved
      · split at resolved
        · cases resolved
        · next walked => cases resolved; exact h.walk_isSome h.rootList walked

/-- Only directories have a list. -/
theorem noList (h : Consistent ns) {d : UInt64} {e : DirEntry} (listed : Listed ns.dirEntries d e)
    (other : e.fileType ≠ .directory) : ns.dirEntries e.inodeId = none := by
  by_contra key
  obtain ⟨r, live, directory⟩ := (h.keys _).mp (Option.isSome_iff_ne_none.mpr key)
  obtain ⟨r', live', type, -⟩ := h.entry listed
  cases live.symm.trans live'
  exact other (type.symm.trans directory)

/-- The invariant reads only the lists and the records. -/
theorem congr {after : NamespaceManager} (h : Consistent ns) (same : Unchanged ns after) :
    Consistent after := by
  obtain ⟨dirs, inodes⟩ := same
  exact ⟨by rw [dirs]; exact h.lists, by rw [inodes]; exact h.keyed, by rw [dirs, inodes]; exact h.keys,
    by rw [dirs, inodes]; exact h.entry, by rw [inodes]; exact h.rootLive⟩

/-- A new inode under a name its parent's list does not have. -/
theorem add (h : Consistent ns) {after : NamespaceManager} (parentId i : UInt64) (name : Str)
    (inode : Inode) {dirs : UInt64 → Option (List DirEntry)} (parent : (ns.dirEntries parentId).isSome)
    (free : ns.inodeTable.inodes i = none) (absent : ∀ e ∈ (ns.dirEntries parentId).getD [], e.name ≠ name)
    (id : inode.inodeId = i) (named : inode.name = name) (below : inode.parentId = parentId)
    (added : dirs = Function.update ns.dirEntries parentId
      (some ((ns.dirEntries parentId).getD [] ++ [⟨name, i, inode.fileType⟩])))
    (lists : after.dirEntries =
      if inode.fileType = .directory then Function.update dirs i (some []) else dirs)
    (inodes : after.inodeTable.inodes = Function.update ns.inodeTable.inodes i (some inode)) :
    Consistent after := by
  obtain ⟨notRoot, noList, fresh⟩ := h.of_free free
  have apart : i ≠ parentId := by rintro rfl; simp [noList] at parent
  have grown : Lists dirs := by
    rw [added]
    exact h.lists.append absent notRoot fresh
  have listed : ∀ {d e}, Listed after.dirEntries d e →
      Listed ns.dirEntries d e ∨ (d = parentId ∧ e = ⟨name, i, inode.fileType⟩) := by
    intro d e there
    have there : Listed dirs d e := by
      rw [lists] at there
      split at there
      · rcases listed_update.mp there with ⟨-, member⟩ | ⟨-, there⟩
        · cases member
        · exact there
      · exact there
    rw [added] at there
    rcases listed_update.mp there with ⟨rfl, member⟩ | ⟨-, there⟩
    · obtain ⟨l, there⟩ := Option.isSome_iff_exists.mp parent
      rw [there] at member
      rcases List.mem_append.mp member with old | new
      · exact .inl ⟨l, there, old⟩
      · exact .inr ⟨rfl, List.mem_singleton.mp new⟩
    · exact .inl there
  have dirs_isSome : ∀ d, (dirs d).isSome = (ns.dirEntries d).isSome := by
    intro d
    rw [added]
    by_cases same : d = parentId
    · subst same; simp [parent]
    · rw [Function.update_of_ne same]
  have other : ∀ {j}, j ≠ i → after.inodeTable.inodes j = ns.inodeTable.inodes j := by
    intro j different; rw [inodes, Function.update_of_ne different]
  have self : after.inodeTable.inodes i = some inode := by rw [inodes, Function.update_self]
  refine ⟨?_, fun {j r} live => ?_, fun d => ?_, fun {d e} there => ?_, ?_⟩
  · rw [lists]
    split
    · exact grown.empty i
    · exact grown
  · by_cases same : j = i
    · subst same; cases self.symm.trans live; exact id
    · exact h.keyed ((other same).symm.trans live)
  · by_cases same : d = i
    · subst same
      rw [lists, self]
      by_cases type : inode.fileType = .directory
      · simp [type]
      · rw [if_neg type, dirs_isSome, noList]
        simp [type]
    · rw [other same, ← h.keys d, lists]
      split
      · rw [Function.update_of_ne same, dirs_isSome]
      · rw [dirs_isSome]
  · rcases listed there with old | ⟨rfl, rfl⟩
    · rw [other (fresh old)]; exact h.entry old
    · exact ⟨inode, self, rfl, named, below⟩
  · rw [other notRoot.symm]; exact h.rootLive

/-- Taking an entry out keeps the records that the rest refers to. -/
theorem drop (h : Consistent ns) {after : NamespaceManager} {parentId : UInt64}
    {entries : List DirEntry} {p : DirEntry → Bool} {e : DirEntry}
    (there : ns.dirEntries parentId = some entries) (found : entries.find? p = some e)
    (dirs : after.dirEntries = ns.dropEntry parentId entries p)
    (inodes : after.inodeTable.inodes = ns.inodeTable.inodes) : Consistent after := by
  obtain ⟨lists, listed⟩ := h.lists.drop there found
  refine ⟨by rw [dirs]; exact lists, by rw [inodes]; exact h.keyed, fun d => ?_, fun {d e'} l => ?_,
    by rw [inodes]; exact h.rootLive⟩
  · rw [dirs, isSome_dropEntry there, inodes]; exact h.keys d
  · rw [dirs] at l
    rw [inodes]; exact h.entry ((listed d e').mp l).1

/-- Deleting the inode of an entry that is out and has no list of its own. -/
theorem delete (h : Consistent ns) {after : NamespaceManager} {parentId : UInt64}
    {entries : List DirEntry} {p : DirEntry → Bool} {e : DirEntry}
    (there : ns.dirEntries parentId = some entries) (found : entries.find? p = some e)
    (dirs : after.dirEntries = Function.update (ns.dropEntry parentId entries p) e.inodeId none)
    (inodes : after.inodeTable.inodes = Function.update ns.inodeTable.inodes e.inodeId none) :
    Consistent after := by
  obtain ⟨lists, listed⟩ := h.lists.drop there found
  have here : Listed ns.dirEntries parentId e := ⟨_, there, List.mem_of_find?_eq_some found⟩
  have notRoot := h.lists.root here
  have other : ∀ {j}, j ≠ e.inodeId → after.inodeTable.inodes j = ns.inodeTable.inodes j := by
    intro j different; rw [inodes, Function.update_of_ne different]
  have self : after.inodeTable.inodes e.inodeId = none := by rw [inodes, Function.update_self]
  refine ⟨?_, fun {j r} live => ?_, fun d => ?_, fun {d e'} l => ?_, ?_⟩
  · rw [dirs]; exact lists.erase _
  · by_cases same : j = e.inodeId
    · subst same; simp [self] at live
    · exact h.keyed ((other same).symm.trans live)
  · by_cases same : d = e.inodeId
    · subst same; rw [self, dirs]; simp
    · rw [other same, ← h.keys d, dirs, Function.update_of_ne same, isSome_dropEntry there]
  · rw [dirs, listed_erase] at l
    obtain ⟨-, l⟩ := l
    obtain ⟨old, different⟩ := (listed d e').mp l
    rw [other different]; exact h.entry old
  · rw [other notRoot.symm]; exact h.rootLive

/-- Renaming: the entry leaves one list and joins another under its new name. -/
theorem move (h : Consistent ns) {now : UInt64} {after : NamespaceManager} {srcPath dstPath : Str}
    {srcParent dstParent : UInt64} {srcName dstName : Str} {srcEntries dstEntries : List DirEntry}
    {moving : DirEntry}
    (moves : Moves ns srcPath dstPath srcParent dstParent srcName dstName srcEntries moving)
    (there : ns.dropEntry srcParent srcEntries (fun e => e.name = srcName) dstParent = some dstEntries)
    (absent : ∀ e ∈ dstEntries, e.name ≠ dstName)
    (dirs : after.dirEntries = Function.update
      (ns.dropEntry srcParent srcEntries (fun e => e.name = srcName)) dstParent
      (some (dstEntries ++ [{ moving with name := dstName }])))
    (inodes : after.inodeTable.inodes = ns.renamedInodes now moving.inodeId dstName dstParent) :
    Consistent after := by
  obtain ⟨lists, listed⟩ := h.lists.drop moves.listed moves.found
  have here : Listed ns.dirEntries srcParent moving :=
    ⟨_, moves.listed, List.mem_of_find?_eq_some moves.found⟩
  have notRoot := h.lists.root here
  obtain ⟨r, live, type, -, -⟩ := h.entry here
  have keyed := h.keyed live
  have records : after.inodeTable.inodes = Function.update ns.inodeTable.inodes moving.inodeId
      (some (renamed r now dstName dstParent)) := by
    rw [inodes]; simp [renamedInodes, live, keyed]
  have dstList : (ns.dropEntry srcParent srcEntries (fun e => e.name = srcName) dstParent).getD [] =
      dstEntries := by rw [there]; rfl
  have other : ∀ {j}, j ≠ moving.inodeId → after.inodeTable.inodes j = ns.inodeTable.inodes j := by
    intro j different; rw [records, Function.update_of_ne different]
  have self : after.inodeTable.inodes moving.inodeId = some (renamed r now dstName dstParent) := by
    rw [records, Function.update_self]
  refine ⟨?_, fun {j k} alive => ?_, fun d => ?_, fun {d e} l => ?_, ?_⟩
  · rw [dirs, ← dstList]
    exact lists.append (by rw [dstList]; exact absent) notRoot
      fun l => ((listed _ _).mp l).2
  · by_cases same : j = moving.inodeId
    · subst same; cases self.symm.trans alive; exact keyed
    · exact h.keyed ((other same).symm.trans alive)
  · have same_keys : (after.dirEntries d).isSome = (ns.dirEntries d).isSome := by
      rw [dirs]
      by_cases same : d = dstParent
      · subst same
        rw [Function.update_self, ← isSome_dropEntry moves.listed, there]; rfl
      · rw [Function.update_of_ne same, isSome_dropEntry moves.listed]
    rw [same_keys, h.keys d]
    by_cases same : d = moving.inodeId
    · subst same; simp [self, live, renamed]
    · rw [other same]
  · rw [dirs, listed_update] at l
    have old_entry : Listed (ns.dropEntry srcParent srcEntries (fun e => e.name = srcName)) d e →
        ∃ r, after.inodeTable.inodes e.inodeId = some r ∧ r.fileType = e.fileType ∧ r.name = e.name ∧
          r.parentId = d := by
      intro l
      obtain ⟨old, different⟩ := (listed d e).mp l
      rw [other different]; exact h.entry old
    rcases l with ⟨rfl, member⟩ | ⟨-, l⟩
    · rcases List.mem_append.mp member with old | new
      · exact old_entry ⟨_, there, old⟩
      · cases List.mem_singleton.mp new
        exact ⟨_, self, type, rfl, rfl⟩
    · exact old_entry l
  · rw [other notRoot.symm]; exact h.rootLive

/-- No outcome of a call breaks the invariant. -/
theorem effect (h : Consistent ns) {now : UInt64} {call : Call} {s : Status} {after : NamespaceManager}
    (effect : Effect ns now call s after) : Consistent after := by
  cases effect with
  | refused _ same => exact h.congr same
  | @madeDirectory path mode uid gid parentId dirname after resolved _ absent free dirs inodes _ =>
    exact h.add parentId ns.inodeTable.nextInodeId dirname
      (newDirectory now mode uid gid ns.inodeTable.nextInodeId parentId dirname)
      (h.resolved_isSome resolved) free absent rfl rfl rfl rfl (by rw [dirs]; rfl) inodes
  | @madeFile path mode uid gid fileSize parentId filename entries after resolved there absent free dirs
      inodes _ =>
    have list : (ns.dirEntries parentId).getD [] = entries := by rw [there]; rfl
    exact h.add parentId ns.inodeTable.nextInodeId filename
      (newRegular now mode uid gid fileSize ns.inodeTable.nextInodeId parentId filename)
      (by rw [there]; rfl) free (by rw [list]; exact absent) rfl rfl rfl rfl
      (by rw [dirs, list]; rfl) inodes
  | @removedFile path parentId filename entries e after _ there found dirs inodes _ =>
    have here : Listed ns.dirEntries parentId e := ⟨_, there, List.mem_of_find?_eq_some found⟩
    have hit := List.find?_some found
    simp only [Bool.decide_and, Bool.and_eq_true, decide_eq_true_eq] at hit
    have noList := h.noList here (by rw [hit.2]; decide)
    refine h.delete there found ?_ inodes
    rw [dirs]
    refine (Function.update_eq_self_iff.mpr (Eq.symm ?_)).symm
    have gone := isSome_dropEntry there (fun e => e.name = filename ∧ e.fileType = .regular) e.inodeId
    rw [noList] at gone
    simpa using gone
  | removedDirectory _ there found _ dirs inodes _ => exact h.delete there found dirs inodes
  | moved moves there absent dirs inodes _ => exact h.move moves there absent dirs inodes
  | lost moves _ _ dirs inodes => exact h.drop moves.listed moves.found dirs (by rw [inodes])

theorem init (now : UInt64) : Consistent (NamespaceManager.init now) := by
  have none_listed : ∀ {d e}, ¬ Listed (NamespaceManager.init now).dirEntries d e := by
    rintro d e listed
    rcases listed_update.mp listed with ⟨-, member⟩ | ⟨-, l, there, -⟩
    · cases member
    · cases there
  have none_free : Lists (fun _ : UInt64 => (none : Option (List DirEntry))) := by
    refine ⟨?_, ?_, ?_, ?_⟩
    · intro _ _ there; cases there
    · intro _ _ there; cases there
    · rintro _ _ _ _ ⟨_, there, _⟩; cases there
    · rintro _ _ ⟨_, there, _⟩; cases there
  refine ⟨none_free.empty 1, fun {i r} live => ?_, fun d => ?_, fun l => absurd l none_listed, ?_⟩
  · by_cases same : i = 1
    · subst same
      simp only [NamespaceManager.init, InodeTable.init, Function.update_self] at live
      cases live; rfl
    · simp [NamespaceManager.init, InodeTable.init, same] at live
  · by_cases same : d = 1
    · subst same; simp [NamespaceManager.init, InodeTable.init, InodeTable.root]
    · simp [NamespaceManager.init, InodeTable.init, same]
  · exact ⟨InodeTable.root now, by simp [NamespaceManager.init, InodeTable.init], rfl⟩

end Consistent

/-- Every reachable state is consistent. -/
theorem Reachable.consistent {ns : NamespaceManager} (h : Reachable ns) : Consistent ns := by
  induction h with
  | init now => exact .init now
  | step now call _ ih => exact ih.effect (exec_effect _ now call)

end OpenFS.NamespaceManager
