import OpenFS.Client.UnmovedFiles
import OpenFS.Lib.Simulation

/-!
# What clients achieve on files that stay

A write that succeeds keeps its data for all who read later, until a call deletes the file; a read
returns the whole data of one write to its path, or none.
-/

namespace OpenFS.FileStore

open Requests NameTree

variable {h h' h₀ : Log} {k j : Nat} {path path' : Str} {size : UInt64} {i : UInt64} {d : List UInt8}
  {c : List Str}
  {store : FileStore} {call : ClientCall} {out : Outcome}

/-- No call moves a file. -/
def Calm (h : Log) : Prop := ∀ k c, .began k c ∈ h → c.op.Stays

theorem Calm.mono (calm : Calm h') (sub : h ⊆ h') : Calm h := fun k c began => calm k c (sub began)

/-- Call `k` has made a file, and published its data if there is some. -/
structure Written (h : Log) (k : Nat) (path : Str) (d : List UInt8) (i : UInt64) : Prop where
  created : Created h k path (UInt64.ofNat d.length) i
  published : d ≠ [] → Published h k i d
  silent : d = [] → ∀ i d, ¬ Published h k i d

/-- The directory of the path is the root, or some call asked for it. -/
def InMadeDir (h : Log) (path : Str) : Prop := ∀ c, target path = .ok c → c.dropLast ≠ [] → MakingDir h c.dropLast

/-- What a read comes to. -/
structure ReadsBack (k : Nat) (call : ClientCall) (path : Str) (out : Outcome) (h : Log) : Prop where
  whole : out.1 = .ok → out.2 ≠ [] → ∃ j path', Writes h j path' out.2 ∧ target path' = target path
  placed : out.1 = .ok → InMadeDir h path
  kept : call.client.initialized = true → path ≠ ['/'] → ∀ h₀, (∀ e ∈ h₀, e.caller < k) →
    .began k call :: h₀ <:+ h →
    ∀ c j path' d i, target path = .ok c → target path' = .ok c → Written h₀ j path' d i → Written h j path' d i →
      ¬ Deleting h c → out = (.ok, d)

/-- What an operation has achieved when it returns. -/
def Achieved (k : Nat) (call : ClientCall) (out : Outcome) (h : Log) : Prop :=
  Calm h →
    match call.op with
    | .writeFile path _ d => out.1 = .ok → InMadeDir h path ∧ ∃ i, Written h k path d i
    | .readFile path _ => ReadsBack k call path out h
    | .deleteFile path => out.1 = .ok → InMadeDir h path
    | .getFileInfo path => out.1 = .ok → InMadeDir h path
    | _ => True

abbrev Does (k : Nat) (call : ClientCall) (p : StoreProg Outcome) (h : Log) : Prop :=
  Meets answer IdsLast Unmoved k (Achieved k call) p h

/-! ## Requests -/

theorem Unmoved.settled (unmoved : Unmoved h store) (calm : Calm h) : Settled h store := unmoved calm

theorem Settled.quiet (settled : Settled h store) {e : Event ClientCall StoreReq StoreReq.Reply} (dull : IsDull e)
    (finds : ∀ k path r, e ≠ .answered k (.find path) (.ok r)) : Settled (e :: h) store where
  named := settled.named.mono (List.subset_cons_self e h) (dull_cons dull h).created
  found := by
    refine settled.found.carry (List.subset_cons_self e h) (fun k path r there => ?_)
      (fun k path size i created => .inl ((dull_cons dull h).created k path size i created)) (Nat.le_refl _)
    rcases List.mem_cons.mp there with new | old
    · exact absurd new.symm (finds k path r)
    · exact old
  stored := settled.stored.dull (dull_cons dull h)

theorem unmoved_began {e : Nat} (unmoved : Unmoved h store) (call : ClientCall) :
    Unmoved (.began e call :: h) store := fun calm =>
  (unmoved (Calm.mono calm (List.subset_cons_self _ h))).quiet trivial fun _ _ _ same => by cases same

/-- A change of the tree without new files. -/
theorem Settled.change (settled : Settled h store) (k : Nat) (call : NamespaceManager.Call) (s : Status)
    {t : NameTree}
    (named : Named h t) (next : store.tree.next.toNat ≤ t.next.toNat) :
    Settled (.answered k (.change call) s :: h) { store with tree := t } where
  named := named.mono (List.subset_cons_self _ h) (dull_cons (e := .answered k (.change call) s) trivial h).created
  found := by
    refine settled.found.carry (List.subset_cons_self _ h) (fun k' path r there => ?_)
      (fun k' path size i created => .inl ?_) next
    · rcases List.mem_cons.mp there with new | old
      · cases new
      · exact old
    · exact (dull_cons (e := .answered k (.change call) s) trivial h).created k' path size i created
  stored := settled.stored.dull (dull_cons (e := .answered k (.change call) s) trivial h)

theorem create_cases (store : FileStore) (path : Str) (size : UInt64) :
    (∃ s, s ≠ .ok ∧ store.create path size = (.error s, store)) ∨
      ∃ c, target path = .ok c ∧ store.tree.IsDir c.dropLast ∧ store.tree.bound c = none ∧
        store.create path size = (.ok store.tree.next,
          { tree := store.tree.bind c .regular
            content := Function.update store.content store.tree.next (.blank size) }) := by
  unfold create NameTree.createFile
  cases located : store.tree.locate path with
  | error s =>
    refine .inl ⟨s, locate_error located, ?_⟩
    have bad := locate_error located
    cases s <;> first | exact absurd rfl bad | rfl
  | ok c =>
    dsimp only
    by_cases free : store.tree.bound c = none
    · obtain ⟨named, dir⟩ := locate_eq_ok.mp located
      refine .inr ⟨c, named, dir, free, ?_⟩
      rw [if_neg (not_not.mpr free)]
    · refine .inl ⟨.alreadyExists, by decide, ?_⟩
      rw [if_pos free]

/-- A request to make a file. -/
theorem Settled.create (settled : Settled h store) (room : store.tree.next.toNat + 1 < 2 ^ 64) (k : Nat)
    (path : Str)
    (size : UInt64) : Settled (.answered k (.create path size) (store.create path size).1 :: h)
      (store.create path size).2 := by
  rcases create_cases store path size with ⟨s, bad, refused⟩ | ⟨c, named, dir, free, made⟩
  · rw [refused]
    refine settled.quiet (e := .answered k (.create path size) (.error s)) (fun i same => ?_) fun _ _ _ same => ?_
    · cases same
    · cases same
  · rw [made]
    refine ⟨settled.named.create room k size named dir free, ?_, settled.stored.create settled.named k path size⟩
    have next := next_bind room c .regular
    refine settled.found.carry (List.subset_cons_self _ h) (fun k' path' r there => ?_)
      (fun k' path' size' i created => ?_) (by dsimp only; omega)
    · rcases List.mem_cons.mp there with new | old
      · cases new
      · exact old
    · rcases List.mem_cons.mp created with new | old
      · cases new
        exact .inr (Nat.le_refl _)
      · exact .inl old

theorem Settled.find (settled : Settled h store) (k : Nat) (path : Str) :
    Settled (.answered k (.find path) (store.tree.lookup path) :: h) store where
  named := settled.named.mono (List.subset_cons_self _ h)
    (dull_cons (e := .answered k (.find path) (store.tree.lookup path)) trivial h).created
  found := settled.found.find settled.named k path
  stored := settled.stored.dull (dull_cons (e := .answered k (.find path) (store.tree.lookup path)) trivial h)

theorem Settled.publish (settled : Settled h store) (writes : Writes h k path d) (made : Created h k path size i)
    (filled : d ≠ []) (first : ∀ i d, ¬ Published h k i d) :
    Settled (.answered k (.publish i d) .ok :: h)
      { store with content := Function.update store.content i (.stored d) } := by
  have sub := List.subset_cons_self (.answered k (.publish i d) .ok) h
  have created : ∀ k' path' size' i', Created (.answered k (.publish i d) .ok :: h) k' path' size' i' →
      Created h k' path' size' i' := by
    intro k' path' size' i' created
    rcases List.mem_cons.mp created with new | old
    · cases new
    · exact old
  refine ⟨settled.named.mono sub created, settled.found.carry sub (fun k' path' r there => ?_)
    (fun k' path' size' i' there => .inl (created _ _ _ _ there)) (Nat.le_refl _),
    settled.stored.publish settled.named writes made filled first⟩
  rcases List.mem_cons.mp there with new | old
  · cases new
  · exact old

/-- What is in the tree is in a directory that some call asked for. -/
theorem Named.inMadeDir {t : NameTree} (named : Named h t) (dir : ∀ c, target path = .ok c → t.IsDir c.dropLast) :
    InMadeDir h path := by
  intro c at_c below
  rcases dir c at_c with root | ⟨i, bound⟩
  · exact absurd root below
  · exact (named.dir _ _ _ bound (by decide)).1

theorem InMadeDir.mono (placed : InMadeDir h path) (sub : h ⊆ h') : InMadeDir h' path :=
  fun c at_c below => (placed c at_c below).mono sub

theorem isDir_of_lookup {t : NameTree} {node : UInt64 × InodeType} (found : t.lookup path = .ok node)
    (c : List Str)
    (at_c : target path = .ok c) : t.IsDir c.dropLast := by
  obtain ⟨i, type⟩ := node
  rcases lookup_eq_ok found with ⟨rfl, -, -⟩ | ⟨c', at_c', dir, -⟩
  · cases at_c
    exact .inl rfl
  · cases at_c.symm.trans at_c'
    exact dir

theorem lookup_error {t : NameTree} {s : Status} (refused : t.lookup path = .error s) : s ≠ .ok := by
  unfold lookup at refused
  split at refused
  · cases refused
  · split at refused
    · next nowhere =>
      cases refused
      exact locate_error nowhere
    · split at refused
      · cases refused
        decide
      · cases refused

/-! ## Programs -/

/-- The events of a call that has just begun. -/
theorem began_only (callers : ∀ e ∈ h, e.caller < k) {q : StoreReq} {reply : q.Reply} :
    .answered k q reply ∉ Event.began k call :: h := by
  intro member
  rcases List.mem_cons.mp member with new | old
  · cases new
  · exact Nat.lt_irrefl k (callers _ old)

/-- One step, whose answer keeps what is to be kept. -/
theorem does_step (q : StoreReq) (status : q.Reply → Status)
    (step : ∀ h' store fault, Since k h h' → Calm h' → Settled h' store → IdsLast store q →
      Settled (.answered k q (answer fault store q).1 :: h') (answer fault store q).2)
    (result : ∀ h' h'' store fault, Since k h h' → Settled h' store → h' ⊆ h'' → Calm h'' →
      Achieved k call (status (answer fault store q).1, []) h'') : Does k call (FileStore.step q status) h := by
  refine meets_call_bind fun h' store fault since unmoved room => ⟨fun calm => ?_, ?_⟩
  · have before := Calm.mono calm (List.subset_cons_self _ h')
    exact step h' store fault since before (unmoved before) room
  · refine meets_pure fun h'' later calm => ?_
    have sub : h' ⊆ h'' := List.Subset.trans (List.subset_cons_self _ h') later.subset
    exact result h' h'' store fault since (unmoved (Calm.mono calm sub)) sub calm calm

theorem does_change (q : NamespaceManager.Call)
    (named : ∀ h' store, Since k h h' → Calm h' → Settled h' store → IdsLast store (.change q) →
      Named h' (store.tree.exec q).2 ∧ store.tree.next.toNat ≤ (store.tree.exec q).2.next.toNat)
    (result : ∀ h' h'' (store : FileStore), Since k h h' → Settled h' store → h' ⊆ h'' → Calm h'' →
      Achieved k call ((store.tree.exec q).1, []) h'') : Does k call (FileStore.step (.change q) id) h :=
  does_step (.change q) id
    (fun h' store _ since calm settled room =>
      settled.change k q _ (named h' store since calm settled room).1 (named h' store since calm settled room).2)
    fun h' h'' store _ => result h' h'' store

theorem does_getFileInfo (path : Str) (op : call.op = .getFileInfo path) :
    Does k call (FileStore.step (.find path) statusOf) h := by
  refine does_step (.find path) statusOf (fun h' store fault _ _ settled _ => settled.find k path) ?_
  intro h' h'' store fault _ settled sub _
  unfold Achieved
  rw [op]
  intro _ ok
  have found : ∃ node, store.tree.lookup path = .ok node := by
    cases looked : store.tree.lookup path with
    | ok node => exact ⟨node, rfl⟩
    | error s =>
      have status : statusOf (store.tree.lookup path) = .ok := ok
      rw [looked] at status
      exact absurd status (lookup_error looked)
  obtain ⟨node, found⟩ := found
  exact (settled.named.inMadeDir (isDir_of_lookup found)).mono sub

/-- Nothing is below a file. -/
theorem Named.leaf {t : NameTree} (named : Named h t) (at_c : target path = .ok c)
    (file : t.bound c = some (i, .regular)) (c' : List Str) (filled : c' ≠ []) (parent : c'.dropLast = c) :
    t.bound c' = none := by
  by_contra bound
  rcases named.closed c' filled bound with root | ⟨i', dir⟩
  · exact ne_nil_of_target at_c (parent.symm.trans root)
  · rw [parent] at dir
    cases file.symm.trans dir

theorem deleteFile_cases (t : NameTree) (path : Str) :
    (∃ s, s ≠ .ok ∧ t.deleteFile path = (s, t)) ∨
      ∃ c i, target path = .ok c ∧ t.IsDir c.dropLast ∧ t.bound c = some (i, .regular) ∧
        t.deleteFile path = (.ok, t.unbind c) := by
  unfold NameTree.deleteFile
  cases located : t.locate path with
  | error s => exact .inl ⟨s, locate_error located, rfl⟩
  | ok c =>
    obtain ⟨at_c, dir⟩ := locate_eq_ok.mp located
    dsimp only
    cases bound : t.bound c with
    | none => exact .inl ⟨.notFound, by decide, rfl⟩
    | some node =>
      obtain ⟨i, type⟩ := node
      cases type with
      | regular => exact .inr ⟨c, i, at_c, dir, bound, rfl⟩
      | directory => exact .inl ⟨.notFound, by decide, rfl⟩
      | symlink => exact .inl ⟨.notFound, by decide, rfl⟩

theorem does_deleteFile (path : Str) (op : call.op = .deleteFile path) (began : .began k call ∈ h) :
    Does k call (FileStore.step (.change (.deleteFile path)) id) h := by
  refine does_change (.deleteFile path) (fun h' store since _ settled _ => ?_) ?_
  · rcases deleteFile_cases store.tree path with ⟨s, -, refused⟩ | ⟨c, i, at_c, -, file, taken⟩
    · rw [show store.tree.exec (.deleteFile path) = _ from refused]
      exact ⟨settled.named, Nat.le_refl _⟩
    · rw [show store.tree.exec (.deleteFile path) = _ from taken]
      have deleting : Deleting h' c := ⟨k, call.client, path, by rw [← op]; exact since.subset began, at_c⟩
      exact ⟨settled.named.unbind (settled.named.leaf at_c file) (.inl deleting), Nat.le_refl _⟩
  · intro h' h'' store since settled sub _
    unfold Achieved
    rw [op]
    intro _ ok
    rcases deleteFile_cases store.tree path with ⟨s, bad, refused⟩ | ⟨c, i, at_c, dir, -, -⟩
    · exact absurd ((congrArg Prod.fst refused).symm.trans ok) bad
    · refine (settled.named.inMadeDir fun c' at_c' => ?_).mono sub
      cases at_c.symm.trans at_c'
      exact dir

theorem does_mkDir (path : Str) (mode : UInt32) (op : call.op = .mkDir path mode) (began : .began k call ∈ h) :
    Does k call (FileStore.step (.change (.mkDir path mode 0 0)) id) h := by
  refine does_change (.mkDir path mode 0 0) (fun h' store since _ settled room => ?_) ?_
  · have room' : store.tree.next.toNat + 1 < 2 ^ 64 := room
    have cases_mkDir : (∃ s, store.tree.mkDir path = (s, store.tree)) ∨ ∃ c, target path = .ok c ∧
        store.tree.IsDir c.dropLast ∧ store.tree.bound c = none ∧
        store.tree.mkDir path = (.ok, store.tree.bind c .directory) := by
      unfold NameTree.mkDir
      cases located : store.tree.locate path with
      | error s => exact .inl ⟨s, rfl⟩
      | ok c =>
        obtain ⟨at_c, dir⟩ := locate_eq_ok.mp located
        dsimp only
        by_cases taken : c = [[]] ∨ store.tree.bound c ≠ none
        · rw [if_pos taken]
          exact .inl ⟨_, rfl⟩
        · rw [if_neg taken]
          push Not at taken
          exact .inr ⟨c, at_c, dir, taken.2, rfl⟩
    rcases cases_mkDir with ⟨s, refused⟩ | ⟨c, at_c, dir, free, made⟩
    · rw [show store.tree.exec (.mkDir path mode 0 0) = _ from refused]
      exact ⟨settled.named, Nat.le_refl _⟩
    · rw [show store.tree.exec (.mkDir path mode 0 0) = _ from made]
      have making : MakingDir h' c := ⟨k, call.client, path, mode, by rw [← op]; exact since.subset began, at_c⟩
      have next := next_bind room' c .directory
      exact ⟨settled.named.mkDir room' making dir free, by dsimp only; omega⟩
  · intro h' h'' store _ _ _ _
    unfold Achieved
    rw [op]
    exact fun _ => trivial

theorem does_rmDir (path : Str) (op : call.op = .rmDir path) :
    Does k call (FileStore.step (.change (.rmDir path)) id) h := by
  refine does_change (.rmDir path) (fun h' store _ _ settled _ => ?_) ?_
  · have cases_rmDir : (∃ s, store.tree.rmDir path = (s, store.tree)) ∨
      ∃ c i, store.tree.bound c = some (i, .directory) ∧
        store.tree.IsEmpty c ∧ store.tree.rmDir path = (.ok, store.tree.unbind c) := by
      unfold NameTree.rmDir
      by_cases root : path = ['/']
      · rw [if_pos root]
        exact .inl ⟨_, rfl⟩
      rw [if_neg root]
      cases located : store.tree.locate path with
      | error s => exact .inl ⟨s, rfl⟩
      | ok c =>
        dsimp only
        cases bound : store.tree.bound c with
        | none => exact .inl ⟨_, rfl⟩
        | some node =>
          obtain ⟨i, type⟩ := node
          cases type with
          | regular => exact .inl ⟨_, rfl⟩
          | symlink => exact .inl ⟨_, rfl⟩
          | directory =>
            by_cases empty : store.tree.IsEmpty c
            · exact .inr ⟨c, i, bound, empty, by dsimp only; rw [if_pos empty]⟩
            · exact .inl ⟨.notEmpty, by dsimp only; rw [if_neg empty]⟩
    rcases cases_rmDir with ⟨s, refused⟩ | ⟨c, i, dir, empty, taken⟩
    · rw [show store.tree.exec (.rmDir path) = _ from refused]
      exact ⟨settled.named, Nat.le_refl _⟩
    · rw [show store.tree.exec (.rmDir path) = _ from taken]
      refine ⟨settled.named.unbind (fun c' filled parent => ?_) (.inr ⟨i, dir⟩), Nat.le_refl _⟩
      have whole := List.dropLast_append_getLast filled
      rw [parent] at whole
      rw [← whole]
      exact empty _ (by simp)
  · intro h' h'' store _ _ _ _
    unfold Achieved
    rw [op]
    exact fun _ => trivial

theorem does_createFile (path : Str) (mode : UInt32) (size : UInt64) (op : call.op = .createFile path mode size) :
    Does k call (FileStore.step (.create path size) statusOf) h := by
  refine does_step (.create path size) statusOf
    (fun h' store fault _ _ settled room => settled.create room k path size) ?_
  intro h' h'' store fault _ _ _ _
  unfold Achieved
  rw [op]
  exact fun _ => trivial

theorem does_readDir (path : Str) (op : call.op = .readDir path) :
    Does k call (FileStore.step (.list path) id) h := by
  refine does_step (.list path) id (fun h' store fault _ _ settled _ => ?_) ?_
  · exact settled.quiet (e := .answered k (.list path) _) trivial fun _ _ _ same => by cases same
  · intro h' h'' store fault _ _ _ _
    unfold Achieved
    rw [op]
    exact fun _ => trivial

theorem does_rename (src dst : Str) (op : call.op = .rename src dst) (began : .began k call ∈ h) :
    Does k call (FileStore.step (.change (.rename src dst)) id) h := by
  have moves : ¬ call.op.Stays := by
    rw [op]
    exact id
  refine does_change (.rename src dst) (fun h' store since calm _ _ => ?_) ?_
  · exact absurd (calm k call (since.subset began)) moves
  · intro h' h'' store since _ sub calm
    exact absurd (calm k call (sub (since.subset began))) moves

/-! ## Writing -/

theorem unpublished_since (none : ∀ i d, ¬ Published h k i d) (since : Since k h h') (i : UInt64)
    (d : List UInt8) :
    ¬ Published h' k i d := fun published => none i d ((since.mem_iff rfl).mp published)

theorem does_writeFile (callers : ∀ e ∈ h, e.caller < k) {mode : UInt32} (op : call.op = .writeFile path mode d) :
    Does k call (FileStore.writeFile path d) (.began k call :: h) := by
  have none : ∀ i d, ¬ Published (.began k call :: h) k i d := fun i d => began_only callers
  refine meets_call_bind fun h₁ store fault since unmoved room => ⟨fun calm => ?_, ?_⟩
  · exact (unmoved (Calm.mono calm (List.subset_cons_self _ h₁))).create room k path _
  have made : ∀ i, (store.create path (UInt64.ofNat d.length)).1 = .ok i → Calm h₁ → InMadeDir h₁ path := by
    intro i created calm
    refine (unmoved calm).named.inMadeDir fun c at_c => ?_
    rcases create_cases store path (UInt64.ofNat d.length) with ⟨s, -, refused⟩ | ⟨c', at_c', dir, -, -⟩
    · rw [refused] at created
      cases created
    · cases at_c.symm.trans at_c'
      exact dir
  have fails : ∀ s, (store.create path (UInt64.ofNat d.length)).1 = .error s → s ≠ .ok := by
    intro s refused
    rcases create_cases store path (UInt64.ofNat d.length) with ⟨s', bad, refused'⟩ | ⟨c', -, -, -, created⟩
    · rw [refused'] at refused
      cases refused
      exact bad
    · rw [created] at refused
      cases refused
  show Does k call (publishMade d (store.create path (UInt64.ofNat d.length)).1)
    (.answered k (.create path (UInt64.ofNat d.length)) (store.create path (UInt64.ofNat d.length)).1 :: h₁)
  generalize (store.create path (UInt64.ofNat d.length)).1 = reply at made fails
  have none₁ : ∀ i d', ¬ Published (.answered k (.create path (UInt64.ofNat d.length)) reply :: h₁) k i d' := by
    intro i d' published
    rcases List.mem_cons.mp published with new | old
    · cases new
    · exact unpublished_since none since i d' old
  cases reply with
  | error s =>
    refine meets_pure fun h₂ later _ => ?_
    rw [op]
    exact fun ok => absurd ok (fails s rfl)
  | ok i =>
    have sub : .began k call :: h ⊆ .answered k (.create path (UInt64.ofNat d.length)) (.ok i) :: h₁ :=
      List.Subset.trans since.subset (List.subset_cons_self _ h₁)
    have placed : ∀ {h₂}, .answered k (.create path (UInt64.ofNat d.length)) (.ok i) :: h₁ ⊆ h₂ → Calm h₂ →
        InMadeDir h₂ path := by
      intro h₂ grown calm
      have old := List.Subset.trans (List.subset_cons_self _ h₁) grown
      exact (made i rfl (Calm.mono calm old)).mono old
    rw [publishMade]
    by_cases empty : d = []
    · rw [if_pos empty]
      refine meets_pure fun h₂ later calm => ?_
      rw [op]
      exact fun _ => ⟨placed later.subset calm, i, later.subset List.mem_cons_self,
        fun filled => absurd empty filled,
        fun _ => unpublished_since none₁ later⟩
    · rw [if_neg empty]
      refine meets_call_bind fun h₂ store₂ fault₂ since₂ unmoved₂ _ => ?_
      have created : Created h₂ k path (UInt64.ofNat d.length) i := since₂.subset List.mem_cons_self
      have writes : Writes h₂ k path d :=
        ⟨call.client, mode, by rw [← op]; exact since₂.subset (sub List.mem_cons_self)⟩
      by_cases kept : fault₂ = .ok
      · subst kept
        refine ⟨fun calm => ?_, ?_⟩
        · have settled := unmoved₂ (Calm.mono calm (List.subset_cons_self _ h₂))
          exact settled.publish writes created empty (unpublished_since none₁ since₂)
        · refine meets_pure fun h₃ later calm => ?_
          rw [op]
          intro _
          have grown : h₂ ⊆ h₃ := List.Subset.trans (List.subset_cons_self _ h₂) later.subset
          exact ⟨placed (List.Subset.trans since₂.subset grown) calm, i, grown created,
            fun _ => later.subset List.mem_cons_self, fun none => absurd none empty⟩
      · have answer₂ : answer fault₂ store₂ (.publish i d) = (fault₂, store₂) := by
          show publish fault₂ store₂ i d = _
          cases fault₂ with
          | ok => exact absurd rfl kept
          | _ => rfl
        rw [answer₂]
        refine ⟨fun calm => ?_, ?_⟩
        · have settled := unmoved₂ (Calm.mono calm (List.subset_cons_self _ h₂))
          exact settled.quiet (e := .answered k (.publish i d) fault₂) kept fun _ _ _ same => by cases same
        · refine meets_pure fun h₃ later calm => ?_
          rw [op]
          exact fun ok => absurd ok kept

/-! ## Reading -/

/-- A call is begun once. -/
theorem before_began_eq {h₁ h₂ : Log} (early₁ : ∀ e ∈ h₁, e.caller < k) (early₂ : ∀ e ∈ h₂, e.caller < k)
    (first : .began k call :: h₁ <:+ h) (second : .began k call :: h₂ <:+ h) : h₁ = h₂ := by
  have absent : ∀ {h' : Log}, (∀ e ∈ h', e.caller < k) → .began k call ∉ h' :=
    fun early member => Nat.lt_irrefl k (early _ member)
  rcases List.suffix_or_suffix_of_suffix first second with inside | inside
  · rcases List.suffix_cons_iff.mp inside with same | deeper
    · exact (List.cons.inj same).2
    · exact absurd (deeper.subset List.mem_cons_self) (absent early₂)
  · rcases List.suffix_cons_iff.mp inside with same | deeper
    · exact (List.cons.inj same).2.symm
    · exact absurd (deeper.subset List.mem_cons_self) (absent early₁)

theorem Written.between (before : Written h j path d i) (after : Written h₀ j path d i) (sub : h ⊆ h')
    (sub' : h' ⊆ h₀) : Written h' j path d i where
  created := sub before.created
  published filled := sub (before.published filled)
  silent empty i d published := after.silent empty i d (sub' published)

/-- What was written is there until it is to be deleted. -/
theorem Settled.lookup_written (settled : Settled h store) (written : Written h j path' d i) (other : path ≠ ['/'])
    (at_c : target path = .ok c) (at_c' : target path' = .ok c) (quiet : ¬ Deleting h c) :
    store.tree.lookup path = .ok (i, .regular) := by
  have bound := settled.named.kept _ _ _ _ _ written.created at_c' quiet
  have dir := settled.named.closed c (ne_nil_of_target at_c) (by simp [bound])
  unfold lookup
  rw [if_neg other, locate_eq_ok.mpr ⟨at_c, dir⟩]
  dsimp only
  rw [bound]

/-- What was written is what is fetched. -/
theorem Settled.outcome_written (settled : Settled h store) (written : Written h j path d i)
    (outData : List UInt8) :
    outcome outData (store.content i) = (.ok, d) := by
  by_cases empty : d = []
  · rw [settled.stored.blank _ _ _ _ written.created (written.silent empty i), empty]
    rfl
  · rw [settled.stored.holds _ _ _ (written.published empty)]
    rfl

/-- What a file holds was written under its path. -/
theorem Settled.fetched (settled : Settled h store) {type : InodeType} {outData : List UInt8}
    (found : .answered k (.find path) (.ok (i, type)) ∈ h) (ok : (outcome outData (store.content i)).1 = .ok)
    (some : (outcome outData (store.content i)).2 ≠ []) :
    ∃ j path', Writes h j path' (outcome outData (store.content i)).2 ∧ target path' = target path := by
  by_cases file : type = .regular
  · subst file
    obtain ⟨j, path', size, created, same⟩ := settled.found.file k path i found
    by_cases published : ∃ d, Published h j i d
    · obtain ⟨d, published⟩ := published
      obtain ⟨-, path'', size', writes, created'⟩ := settled.stored.published j i d published
      obtain ⟨-, rfl, -⟩ := settled.named.once _ _ _ _ _ _ _ created created'
      rw [settled.stored.holds j i d published]
      exact ⟨j, _, writes, same⟩
    · rw [settled.stored.blank _ _ _ _ created fun d there => published ⟨d, there⟩] at ok some
      unfold Content.blank at ok some
      split at some
      · exact absurd rfl some
      · next filled =>
        rw [if_neg filled] at ok
        cases ok
  · obtain ⟨-, unmade⟩ := settled.found.dir k path i type found file
    rw [settled.stored.unmade i unmade] at some
    exact absurd rfl some

theorem does_readFile (callers : ∀ e ∈ h, e.caller < k) {outData : List UInt8}
    (op : call.op = .readFile path outData) :
    Does k call (FileStore.readFile path outData) (.began k call :: h) := by
  refine meets_call_bind fun h₁ store fault since unmoved _ => ⟨fun calm => ?_, ?_⟩
  · exact (unmoved (Calm.mono calm (List.subset_cons_self _ h₁))).find k path
  have begun : .began k call :: h <:+ h₁ := by
    obtain ⟨es, split, -⟩ := since
    exact ⟨es, split.symm⟩
  have placed : ∀ node, store.tree.lookup path = .ok node → Calm h₁ → InMadeDir h₁ path :=
    fun node found calm => (unmoved calm).named.inMadeDir (isDir_of_lookup found)
  have finds : Calm h₁ → path ≠ ['/'] → ∀ c j path' d i, target path = .ok c → target path' = .ok c →
      Written h₁ j path' d i → ¬ Deleting h₁ c → store.tree.lookup path = .ok (i, .regular) :=
    fun calm other c j path' d i at_c at_c' written quiet =>
      (unmoved calm).lookup_written written other at_c at_c' quiet
  have refused : ∀ s, store.tree.lookup path = .error s → s ≠ .ok := fun s => lookup_error
  show Does k call (fetchFound outData (store.tree.lookup path))
    (.answered k (.find path) (store.tree.lookup path) :: h₁)
  generalize store.tree.lookup path = reply at placed finds refused
  have sub : h ⊆ h₁ := List.Subset.trans (List.subset_cons_self _ h) since.subset
  -- what was written before the call began was written at the lookup
  have earlier : ∀ {h₂ h₀ : Log} {j path' d i}, Event.answered k (.find path) reply :: h₁ <:+ h₂ →
      (∀ e ∈ h₀, e.caller < k) → .began k call :: h₀ <:+ h₂ → Written h₀ j path' d i → Written h₂ j path' d i →
      Written h₁ j path' d i := by
    intro h₂ h₀ j path' d i grown callers₀ begun₀ before after
    have old : h₁ <:+ h₂ := (List.suffix_cons _ h₁).trans grown
    cases before_began_eq callers callers₀ (begun.trans old) begun₀
    exact before.between after sub old.subset
  have suffix : ∀ {h' h'' : Log}, Since k h' h'' → h' <:+ h'' := by
    rintro h' h'' ⟨es, split, -⟩
    exact ⟨es, split.symm⟩
  cases reply with
  | error s =>
    refine meets_pure fun h₂ later calm => ?_
    have grown := suffix later
    have old : h₁ ⊆ h₂ := List.Subset.trans (List.subset_cons_self _ h₁) later.subset
    rw [op]
    refine ⟨fun ok => absurd ok (refused s rfl), fun ok => absurd ok (refused s rfl), ?_⟩
    intro _ other h₀ callers₀ begun₀ c j path' d i at_c at_c' before after quiet
    have written := earlier grown callers₀ begun₀ before after
    cases finds (Calm.mono calm old) other c j path' d i at_c at_c' written fun deleting =>
      quiet (deleting.mono old)
  | ok node =>
    obtain ⟨i, type⟩ := node
    refine meets_call_bind fun h₂ store₂ fault₂ since₂ unmoved₂ _ => ⟨fun calm => ?_, ?_⟩
    · exact (unmoved₂ (Calm.mono calm (List.subset_cons_self _ h₂))).quiet
        (e := .answered k (.fetch i) (store₂.content i)) trivial fun _ _ _ same => by cases same
    · refine meets_pure fun h₃ later calm => ?_
      have grown : h₂ <:+ h₃ := (List.suffix_cons _ h₂).trans (suffix later)
      have grown₁ : Event.answered k (.find path) (.ok (i, type)) :: h₁ <:+ h₃ := (suffix since₂).trans grown
      have old : h₁ ⊆ h₃ := List.Subset.trans (List.subset_cons_self _ h₁) grown₁.subset
      have settled := unmoved₂ (Calm.mono calm grown.subset)
      rw [op]
      refine ⟨fun ok some => ?_, fun _ => (placed _ rfl (Calm.mono calm old)).mono old, ?_⟩
      · obtain ⟨j, path', ⟨client, mode, began⟩, same⟩ :=
          settled.fetched (since₂.subset List.mem_cons_self) ok some
        exact ⟨j, path', ⟨client, mode, grown.subset began⟩, same⟩
      · intro _ other h₀ callers₀ begun₀ c j path' d i' at_c at_c' before after quiet
        have written := earlier grown₁ callers₀ begun₀ before after
        cases finds (Calm.mono calm old) other c j path' d i' at_c at_c' written fun deleting =>
          quiet (deleting.mono old)
        have now : Written h₂ j path' d i :=
          written.between after (List.Subset.trans (List.subset_cons_self _ h₁) since₂.subset) grown.subset
        exact settled.outcome_written now outData

/-! ## Runs -/

theorem does_prog (call : ClientCall) (callers : ∀ e ∈ h, e.caller < k) :
    Does k call (fileStore.prog call) (.began k call :: h) := by
  obtain ⟨client, op⟩ := call
  show Does k _ (if client.initialized = false then pure (refused op) else prog op) _
  by_cases ready : client.initialized = false
  · rw [if_pos ready]
    refine meets_pure fun h' _ _ => ?_
    cases op with
    | writeFile path mode d =>
      intro ok
      cases ok
    | readFile path outData =>
      refine ⟨fun ok => ?_, fun ok => ?_, fun initialized => ?_⟩
      · cases ok
      · cases ok
      · cases ready.symm.trans initialized
    | deleteFile path =>
      intro ok
      cases ok
    | getFileInfo path =>
      intro ok
      cases ok
    | _ => trivial
  · rw [if_neg ready]
    have began : .began k ⟨client, op⟩ ∈ Event.began k ⟨client, op⟩ :: h := List.mem_cons_self
    cases op with
    | writeFile path mode d => exact does_writeFile callers rfl
    | createFile path mode size => exact does_createFile path mode size rfl
    | readFile path outData => exact does_readFile callers rfl
    | deleteFile path => exact does_deleteFile path rfl began
    | getFileInfo path => exact does_getFileInfo path rfl
    | rename src dst => exact does_rename src dst rfl began
    | mkDir path mode => exact does_mkDir path mode rfl began
    | readDir path => exact does_readDir path rfl
    | rmDir path => exact does_rmDir path rfl

theorem settled_init : Settled [] {} where
  named := by
    have nothing : ∀ k path size i, ¬ Created [] k path size i := fun _ _ _ _ member => by cases member
    refine ⟨fun c _ bound => absurd rfl bound, by decide, fun c i type bound => ?_,
      fun k path size i created => ?_,
      fun k path size _ _ _ i created => ?_, fun c i bound => ?_, fun c i type bound => ?_,
      fun k path size i c created => ?_⟩
    · cases bound
    · cases created
    · cases created
    · cases bound
    · cases bound
    · cases created
  found := by
    constructor
    · intro k path i found
      cases found
    · intro k path i type found
      cases found
  stored := by
    refine ⟨fun k i d published => ?_, fun k i i' d d' published => ?_, fun k i d published => ?_,
      fun k path size i created => ?_, fun _ _ => rfl⟩
    · cases published
    · cases published
    · cases published
    · cases created

abbrev State := Concurrent ClientCall StoreReq StoreReq.Reply Outcome FileStore

variable {begins : State → ClientCall → Prop} {st : State} {tr later before : List (Visible ClientCall Outcome)}

theorem kept_unmoved (run : fileStore.Run begins IdsLast st) : fileStore.Kept IdsLast Unmoved Achieved st := by
  refine run.keeps ?_ ?_ (fun h store k call unmoved => unmoved_began unmoved call)
    fun k call h callers => does_prog call callers
  · rintro s rfl _
    exact settled_init
  · intro h s s' drifts
    exact drifts.elim

/-- No call that is seen moves a file. -/
def Quiet (tr : List (Visible ClientCall Outcome)) : Prop := ∀ k c, .called k c ∈ tr → c.op.Stays

theorem calm_of_quiet (traced : fileStore.Traced begins IdsLast tr st) (quiet : Quiet tr) : Calm st.history :=
  fun k c began => quiet k c (traced.called_iff.mpr began)

/-- What a call that was seen has achieved when it returns. -/
theorem achieved_of_returned (traced : fileStore.Traced begins IdsLast tr st) {out : Outcome}
    (called : .called k call ∈ tr) (returned : .returned k out ∈ tr) : Achieved k call out st.history := by
  obtain ⟨op, ended⟩ := traced.task_of_returned returned
  obtain ⟨p, there⟩ := traced.run.began_iff.mp (traced.called_iff.mp called)
  have same : op = call := by
    cases ended.symm.trans there
    rfl
  subst same
  exact (kept_unmoved traced.run).tasks k _ ended _ (.refl k _)

/-- What is read was written under the same path by an earlier call. -/
theorem reads_are_writes (traced : fileStore.Traced begins IdsLast tr st) (quiet : Quiet tr)
    {client : OpenFSClient}
    {outData : List UInt8} (cut : tr = later ++ .returned k (.ok, d) :: before)
    (called : .called k ⟨client, .readFile path outData⟩ ∈ before) (filled : d ≠ []) :
    ∃ j client path' mode, .called j ⟨client, .writeFile path' mode d⟩ ∈ before ∧ target path' = target path := by
  obtain ⟨st', traced', -⟩ := traced.cut_returned cut
  have calm := calm_of_quiet traced' fun k c called =>
    quiet k c (by rw [cut]; exact List.mem_append_right _ called)
  have achieved := achieved_of_returned traced' (List.mem_cons_of_mem _ called) List.mem_cons_self calm
  obtain ⟨j, path', ⟨client', mode, began⟩, same⟩ := achieved.whole rfl filled
  refine ⟨j, client', path', mode, ?_, same⟩
  rcases List.mem_cons.mp (traced'.called_iff.mpr began) with new | old
  · cases new
  · exact old

/-- What was written before a read was called is what it returns, unless a call was to delete it. -/
theorem writes_are_read (traced : fileStore.Traced begins IdsLast tr st) (quiet : Quiet tr)
    {client writer : OpenFSClient}
    {outData : List UInt8} {mode : UInt32} {out written : Outcome}
    {mid earlier : List (Visible ClientCall Outcome)}
    (cut : tr = later ++ .returned k out :: before)
    (cut' : before = mid ++ .called k ⟨client, .readFile path outData⟩ :: earlier)
    (ready : client.initialized = true) (other : path ≠ ['/'])
    (wrote : .called j ⟨writer, .writeFile path' mode d⟩ ∈ earlier) (done : .returned j written ∈ earlier)
    (ok : written.1 = .ok) (at_c : target path = .ok c) (at_c' : target path' = .ok c)
    (undeleted : ∀ m client p, .called m ⟨client, .deleteFile p⟩ ∈ before → target p ≠ .ok c) : out =
    (.ok, d) := by
  obtain ⟨st', traced', -⟩ := traced.cut_returned cut
  have calm := calm_of_quiet traced' fun k c called =>
    quiet k c (by rw [cut]; exact List.mem_append_right _ called)
  subst cut'
  have called : .called k ⟨client, .readFile path outData⟩ ∈ mid ++
    .called k ⟨client, .readFile path outData⟩ :: earlier :=
    List.mem_append_right _ List.mem_cons_self
  have now : .returned k out :: (mid ++ .called k ⟨client, .readFile path outData⟩ :: earlier) =
      (.returned k out :: mid) ++ .called k ⟨client, .readFile path outData⟩ :: earlier :=
        (List.cons_append ..).symm
  obtain ⟨st₀, traced₀, length, es, history⟩ := traced'.cut_called now
  have begun : .began k ⟨client, .readFile path outData⟩ :: st₀.history <:+ st'.history := ⟨es, history.symm⟩
  have old : st₀.history ⊆ st'.history := List.Subset.trans (List.subset_cons_self _ _) begun.subset
  have achieved := achieved_of_returned traced' (List.mem_cons_of_mem _ called) List.mem_cons_self calm
  have callers : ∀ e ∈ st₀.history, e.caller < k := by
    rw [← length]
    exact (kept_unmoved traced₀.run).callers
  -- the write has its data published before the read begins, and still at its end
  have past : earlier ⊆ .returned k out :: (mid ++ .called k ⟨client, .readFile path outData⟩ :: earlier) :=
    fun e member => List.mem_cons_of_mem _ (List.mem_append_right _ (List.mem_cons_of_mem _ member))
  obtain ⟨-, i, before⟩ := achieved_of_returned traced₀ wrote done (Calm.mono calm old) ok
  obtain ⟨-, i', after⟩ := achieved_of_returned traced' (past wrote) (past done) calm ok
  have still : Written st'.history j path' d i :=
    ⟨old before.created, fun filled => old (before.published filled), after.silent⟩
  refine achieved.kept ready other st₀.history callers begun c j path' d i at_c at_c' before still ?_
  rintro ⟨m, client', p, began, at_p⟩
  rcases List.mem_cons.mp (traced'.called_iff.mpr began) with new | member
  · cases new
  · exact undeleted m client' p member at_p

/-- A call that finds or makes a file finds it in a directory that an earlier call asked for. -/
theorem succeeds_in_made_dir (traced : fileStore.Traced begins IdsLast tr st) (quiet : Quiet tr) {out : Outcome}
    (cut : tr = later ++ .returned k out :: before) (called : .called k call ∈ before) (ok : out.1 = .ok)
    (names : (∃ mode d, call.op = .writeFile path mode d) ∨ (∃ outData, call.op = .readFile path outData) ∨
      call.op = .deleteFile path ∨ call.op = .getFileInfo path)
    (at_c : target path = .ok c) (below : c.dropLast ≠ []) :
    ∃ j client p mode, .called j ⟨client, .mkDir p mode⟩ ∈ before ∧ target p = .ok c.dropLast := by
  obtain ⟨st', traced', -⟩ := traced.cut_returned cut
  have calm := calm_of_quiet traced' fun k c called =>
    quiet k c (by rw [cut]; exact List.mem_append_right _ called)
  have achieved := achieved_of_returned traced' (List.mem_cons_of_mem _ called) List.mem_cons_self calm
  have placed : InMadeDir st'.history path := by
    rcases names with ⟨mode, d, op⟩ | ⟨outData, op⟩ | op | op
    · rw [op] at achieved
      exact (achieved ok).1
    · rw [op] at achieved
      exact achieved.placed ok
    · rw [op] at achieved
      exact achieved ok
    · rw [op] at achieved
      exact achieved ok
  obtain ⟨j, client, p, mode, began, at_p⟩ := placed c at_c below
  refine ⟨j, client, p, mode, ?_, at_p⟩
  rcases List.mem_cons.mp (traced'.called_iff.mpr began) with new | old
  · cases new
  · exact old

end OpenFS.FileStore
