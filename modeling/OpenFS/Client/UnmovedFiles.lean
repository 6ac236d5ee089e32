import OpenFS.Client.FileStore

/-!
# Files that stay where they are

Clients of the file store that do not rename. A file is then found under the path it was
written to and nowhere else, and holds what was written there until a call deletes it.
-/

namespace OpenFS

open Requests

def FileOp.Stays : FileOp → Prop
  | .rename .. => False
  | _ => True

namespace NameTree

variable {t : NameTree} {path : Str} {c c' : List Str} {i : UInt64} {type : InodeType}

theorem locate_eq_ok : t.locate path = .ok c ↔ target path = .ok c ∧ t.IsDir c.dropLast := by
  unfold locate
  cases target path with
  | error s => simp
  | ok c' =>
    dsimp only
    by_cases dir : t.IsDir c'.dropLast
    · rw [if_pos dir]
      constructor
      · intro same
        cases same
        exact ⟨rfl, dir⟩
      · exact fun found => found.1
    · rw [if_neg dir]
      constructor
      · intro same
        cases same
      · rintro ⟨same, dir'⟩
        cases same
        exact absurd dir' dir

theorem ne_nil_of_target (named : target path = .ok c) : c ≠ [] := by
  unfold target at named
  split at named
  · cases named
  · split at named
    · cases named
      simp
    · split at named
      · cases named
      · next some =>
        cases named
        exact some

@[simp] theorem bind_bound (t : NameTree) (c c' : List Str) (type : InodeType) :
    (t.bind c type).bound c' = if c' = c then some (t.next, type) else t.bound c' :=
  Function.update_apply ..

@[simp] theorem unbind_bound (t : NameTree) (c c' : List Str) :
    (t.unbind c).bound c' = if c' = c then none else t.bound c' :=
  Function.update_apply ..

theorem isDir_bind (free : t.bound c = none) (dir : t.IsDir c') : (t.bind c type).IsDir c' := by
  rcases dir with root | ⟨i, bound⟩
  · exact .inl root
  · refine .inr ⟨i, ?_⟩
    rw [bind_bound, if_neg, bound]
    rintro rfl
    cases free.symm.trans bound

theorem isDir_unbind (other : c' ≠ c) (dir : t.IsDir c') : (t.unbind c).IsDir c' := by
  rcases dir with root | ⟨i, bound⟩
  · exact .inl root
  · exact .inr ⟨i, by rw [unbind_bound, if_neg other, bound]⟩

/-- What is bound is in directories. -/
def Closed (t : NameTree) : Prop := ∀ c, c ≠ [] → t.bound c ≠ none → t.IsDir c.dropLast

theorem Closed.bind (closed : t.Closed) (free : t.bound c = none) (dir : t.IsDir c.dropLast) :
    (t.bind c type).Closed := by
  intro c' named bound
  rw [bind_bound] at bound
  split at bound
  · next same => exact isDir_bind free (same ▸ dir)
  · exact isDir_bind free (closed c' named bound)

theorem Closed.unbind (closed : t.Closed) (leaf : ∀ c', c' ≠ [] → c'.dropLast = c → t.bound c' = none) :
    (t.unbind c).Closed := by
  intro c' named bound
  rw [unbind_bound] at bound
  split at bound
  · exact absurd rfl bound
  · refine isDir_unbind (fun same => bound (leaf c' named same)) (closed c' named bound)

end NameTree

namespace FileStore

open NameTree

abbrev Log := History ClientCall StoreReq StoreReq.Reply

variable {h h' : Log} {k j : Nat} {path path' : Str} {size size' : UInt64} {i i' : UInt64} {d d' : List UInt8}
  {c : List Str}

def Created (h : Log) (k : Nat) (path : Str) (size i : UInt64) : Prop :=
  .answered k (.create path size) (.ok i) ∈ h

def Published (h : Log) (k : Nat) (i : UInt64) (d : List UInt8) : Prop := .answered k (.publish i d) .ok ∈ h

def Writes (h : Log) (k : Nat) (path : Str) (d : List UInt8) : Prop :=
  ∃ client mode, .began k ⟨client, .writeFile path mode d⟩ ∈ h

/-- A call to delete what is at `c`. -/
def Deleting (h : Log) (c : List Str) : Prop :=
  ∃ k client path, .began k ⟨client, .deleteFile path⟩ ∈ h ∧ target path = .ok c

/-- A call to make a directory at `c`. -/
def MakingDir (h : Log) (c : List Str) : Prop :=
  ∃ k client path mode, .began k ⟨client, .mkDir path mode⟩ ∈ h ∧ target path = .ok c

/-- How the tree came to be. -/
structure Named (h : Log) (t : NameTree) : Prop where
  closed : t.Closed
  low : 2 ≤ t.next.toNat
  fresh : ∀ c i type, t.bound c = some (i, type) → i.toNat < t.next.toNat
  made : ∀ k path size i, Created h k path size i → 2 ≤ i.toNat ∧ i.toNat < t.next.toNat
  once : ∀ k path size k' path' size' i, Created h k path size i → Created h k' path' size' i →
    k = k' ∧ path = path' ∧ size = size'
  file : ∀ c i, t.bound c = some (i, .regular) → ∃ k path size, Created h k path size i ∧ target path = .ok c
  dir : ∀ c i type, t.bound c = some (i, type) → type ≠ .regular →
    MakingDir h c ∧ ∀ k path size, ¬ Created h k path size i
  kept : ∀ k path size i c, Created h k path size i → target path = .ok c → ¬ Deleting h c →
    t.bound c = some (i, .regular)

/-- What was found: a file that was made under the path, or what will never be a file. -/
structure Found (h : Log) (t : NameTree) : Prop where
  file : ∀ k path i, .answered k (.find path) (.ok (i, .regular)) ∈ h →
    ∃ k' path' size, Created h k' path' size i ∧ target path' = target path
  dir : ∀ k path i type, .answered k (.find path) (.ok (i, type)) ∈ h → type ≠ .regular →
    i.toNat < t.next.toNat ∧ ∀ k path size, ¬ Created h k path size i

/-- How the content came to be. -/
structure Stored (h : Log) (content : UInt64 → Content) : Prop where
  published : ∀ k i d, Published h k i d → d ≠ [] ∧ ∃ path size, Writes h k path d ∧ Created h k path size i
  once : ∀ k i i' d d', Published h k i d → Published h k i' d' → i = i' ∧ d = d'
  holds : ∀ k i d, Published h k i d → content i = .stored d
  blank : ∀ k path size i, Created h k path size i → (∀ d, ¬ Published h k i d) → content i = .blank size
  unmade : ∀ i, (∀ k path size, ¬ Created h k path size i) → content i = .empty

/-- How the store came to be. -/
structure Settled (h : Log) (store : FileStore) : Prop where
  named : Named h store.tree
  found : Found h store.tree
  stored : Stored h store.content

/-- What holds as long as nothing is moved. -/
def Unmoved (h : Log) (store : FileStore) : Prop := (∀ k c, .began k c ∈ h → c.op.Stays) → Settled h store

/-! ## Steps -/

/-- No file is made and nothing published since. -/
structure Dull (h h' : Log) : Prop where
  sub : h ⊆ h'
  created : ∀ k path size i, Created h' k path size i → Created h k path size i
  published : ∀ k i d, Published h' k i d → Published h k i d

/-- The event makes no file and publishes nothing. -/
def IsDull : Event ClientCall StoreReq StoreReq.Reply → Prop
  | .began .. => True
  | .answered _ (.create ..) reply => ∀ i, reply ≠ .ok i
  | .answered _ (.publish ..) reply => reply ≠ .ok
  | .answered .. => True

theorem dull_cons {e : Event ClientCall StoreReq StoreReq.Reply} (dull : IsDull e) (h : Log) :
    Dull h (e :: h) where
  sub := List.subset_cons_self e h
  created k path size i created := by
    rcases List.mem_cons.mp created with rfl | old
    · exact absurd rfl (dull i)
    · exact old
  published k i d published := by
    rcases List.mem_cons.mp published with rfl | old
    · exact absurd rfl dull
    · exact old

theorem Deleting.mono (sub : h ⊆ h') (deleting : Deleting h c) : Deleting h' c := by
  obtain ⟨k, client, path, began, named⟩ := deleting
  exact ⟨k, client, path, sub began, named⟩

theorem MakingDir.mono (sub : h ⊆ h') (making : MakingDir h c) : MakingDir h' c := by
  obtain ⟨k, client, path, mode, began, named⟩ := making
  exact ⟨k, client, path, mode, sub began, named⟩

theorem Named.mono {t : NameTree} (named : Named h t) (sub : h ⊆ h')
    (old : ∀ k path size i, Created h' k path size i → Created h k path size i) : Named h' t where
  closed := named.closed
  low := named.low
  fresh := named.fresh
  made k path size i created := named.made k path size i (old _ _ _ _ created)
  once k path size k' path' size' i first second :=
    named.once k path size k' path' size' i (old _ _ _ _ first) (old _ _ _ _ second)
  file c i bound := by
    obtain ⟨k, path, size, created, at_c⟩ := named.file c i bound
    exact ⟨k, path, size, sub created, at_c⟩
  dir c i type bound other := by
    obtain ⟨making, unmade⟩ := named.dir c i type bound other
    exact ⟨making.mono sub, fun k path size created => unmade k path size (old _ _ _ _ created)⟩
  kept k path size i c created at_c quiet :=
    named.kept k path size i c (old _ _ _ _ created) at_c fun deleting => quiet (deleting.mono sub)

theorem Stored.dull {content : UInt64 → Content} (stored : Stored h content) (dull : Dull h h') :
    Stored h' content where
  published k i d published := by
    obtain ⟨filled, path, size, ⟨client, mode, began⟩, created⟩ :=
      stored.published k i d (dull.published _ _ _ published)
    exact ⟨filled, path, size, ⟨client, mode, dull.sub began⟩, dull.sub created⟩
  once k i i' d d' first second :=
    stored.once k i i' d d' (dull.published _ _ _ first) (dull.published _ _ _ second)
  holds k i d published := stored.holds k i d (dull.published _ _ _ published)
  blank k path size i created none :=
    stored.blank k path size i (dull.created _ _ _ _ created) fun d published => none d (dull.sub published)
  unmade i none := stored.unmade i fun k path size created => none k path size (dull.sub created)

theorem Found.carry {t t' : NameTree} (found : Found h t) (sub : h ⊆ h')
    (answers : ∀ k path r, .answered k (.find path) (.ok r) ∈ h' → .answered k (.find path) (.ok r) ∈ h)
    (made : ∀ k path size i, Created h' k path size i → Created h k path size i ∨ t.next.toNat ≤ i.toNat)
    (next : t.next.toNat ≤ t'.next.toNat) : Found h' t' where
  file k path i there := by
    obtain ⟨k', path', size, created, same⟩ := found.file k path i (answers _ _ _ there)
    exact ⟨k', path', size, sub created, same⟩
  dir k path i type there other := by
    obtain ⟨old, unmade⟩ := found.dir k path i type (answers _ _ _ there) other
    refine ⟨by omega, fun k path size created => ?_⟩
    rcases made _ _ _ _ created with earlier | late
    · exact unmade k path size earlier
    · omega

theorem next_bind {t : NameTree} (room : t.next.toNat + 1 < 2 ^ 64) (c : List Str) (type : InodeType) :
    (t.bind c type).next.toNat = t.next.toNat + 1 := by
  show (t.next + 1).toNat = _
  rw [UInt64.toNat_add]
  exact Nat.mod_eq_of_lt room

/-- A file is made. -/
theorem Named.create {t : NameTree} (named : Named h t) (room : t.next.toNat + 1 < 2 ^ 64) (k : Nat)
    (size : UInt64)
    (at_c : target path = .ok c) (inDir : t.IsDir c.dropLast) (free : t.bound c = none) :
    Named (.answered k (.create path size) (.ok t.next) :: h) (t.bind c .regular) := by
  have next := next_bind room c .regular
  have cases_created : ∀ {k' path' size' i'},
      Created (.answered k (.create path size) (.ok t.next) :: h) k' path' size' i' →
      (k' = k ∧ path' = path ∧ size' = size ∧ i' = t.next) ∨ Created h k' path' size' i' := by
    intro k' path' size' i' created
    rcases List.mem_cons.mp created with new | old
    · cases new
      exact .inl ⟨rfl, rfl, rfl, rfl⟩
    · exact .inr old
  have old : ∀ {k' path' size' i'}, Created h k' path' size' i' → i' ≠ t.next := by
    rintro k' path' size' i' created rfl
    exact absurd (named.made _ _ _ _ created).2 (Nat.lt_irrefl _)
  have sub := List.subset_cons_self (.answered k (.create path size) (.ok t.next)) h
  refine ⟨named.closed.bind free inDir, ?_, ?_, ?_, ?_, ?_, ?_, ?_⟩
  · have low := named.low
    omega
  · intro c' i' type bound
    rw [bind_bound] at bound
    split at bound
    · cases bound
      omega
    · have earlier := named.fresh c' i' type bound
      omega
  · intro k' path' size' i' created
    rcases cases_created created with ⟨rfl, rfl, rfl, rfl⟩ | earlier
    · exact ⟨named.low, by omega⟩
    · have before := named.made _ _ _ _ earlier
      exact ⟨before.1, by omega⟩
  · intro k' path' size' k'' path'' size'' i' first second
    rcases cases_created first with ⟨rfl, rfl, rfl, rfl⟩ | before
    · rcases cases_created second with ⟨rfl, rfl, rfl, -⟩ | before'
      · exact ⟨rfl, rfl, rfl⟩
      · exact absurd rfl (old before')
    · rcases cases_created second with ⟨-, -, -, rfl⟩ | before'
      · exact absurd rfl (old before)
      · exact named.once _ _ _ _ _ _ _ before before'
  · intro c' i' bound
    rw [bind_bound] at bound
    split at bound
    · next same =>
      cases bound
      exact ⟨k, path, size, List.mem_cons_self, same ▸ at_c⟩
    · obtain ⟨k', path', size', created, there⟩ := named.file c' i' bound
      exact ⟨k', path', size', sub created, there⟩
  · intro c' i' type bound other
    rw [bind_bound] at bound
    split at bound
    · cases bound
      exact absurd rfl other
    · obtain ⟨making, unmade⟩ := named.dir c' i' type bound other
      refine ⟨making.mono sub, fun k' path' size' created => ?_⟩
      rcases cases_created created with ⟨rfl, rfl, rfl, rfl⟩ | earlier
      · exact absurd (named.fresh c' _ _ bound) (Nat.lt_irrefl _)
      · exact unmade _ _ _ earlier
  · intro k' path' size' i' c' created there quiet
    rw [bind_bound]
    rcases cases_created created with ⟨rfl, rfl, rfl, rfl⟩ | earlier
    · cases at_c.symm.trans there
      rw [if_pos rfl]
    · have bound := named.kept _ _ _ _ _ earlier there fun deleting => quiet (deleting.mono sub)
      rw [if_neg, bound]
      rintro rfl
      cases free.symm.trans bound

/-- A directory is made. -/
theorem Named.mkDir {t : NameTree} (named : Named h t) (room : t.next.toNat + 1 < 2 ^ 64) (making : MakingDir h c)
    (inDir : t.IsDir c.dropLast) (free : t.bound c = none) : Named h (t.bind c .directory) := by
  have next := next_bind room c .directory
  refine ⟨named.closed.bind free inDir, ?_, ?_, ?_, named.once, ?_, ?_, ?_⟩
  · have low := named.low
    omega
  · intro c' i' type bound
    rw [bind_bound] at bound
    split at bound
    · cases bound
      omega
    · have earlier := named.fresh c' i' type bound
      omega
  · intro k' path' size' i' created
    have before := named.made _ _ _ _ created
    exact ⟨before.1, by omega⟩
  · intro c' i' bound
    rw [bind_bound] at bound
    split at bound
    · cases bound
    · exact named.file c' i' bound
  · intro c' i' type bound other
    rw [bind_bound] at bound
    split at bound
    · next same =>
      cases bound
      refine ⟨same ▸ making, fun k' path' size' created => ?_⟩
      exact absurd (named.made _ _ _ _ created).2 (Nat.lt_irrefl _)
    · exact named.dir c' i' type bound other
  · intro k' path' size' i' c' created there quiet
    have bound := named.kept _ _ _ _ _ created there quiet
    rw [bind_bound, if_neg, bound]
    rintro rfl
    cases free.symm.trans bound

/-- A file that is to be deleted, or an empty directory, is taken out. -/
theorem Named.unbind {t : NameTree} (named : Named h t)
    (leaf : ∀ c', c' ≠ [] → c'.dropLast = c → t.bound c' = none)
    (meant : Deleting h c ∨ ∃ i, t.bound c = some (i, .directory)) : Named h (t.unbind c) := by
  have old : ∀ {c' i type}, (t.unbind c).bound c' = some (i, type) → t.bound c' = some (i, type) := by
    intro c' i type bound
    rw [unbind_bound] at bound
    split at bound
    · cases bound
    · exact bound
  refine ⟨named.closed.unbind leaf, named.low, fun c' i type bound => named.fresh c' i type (old bound),
    named.made,
    named.once, fun c' i bound => named.file c' i (old bound),
      fun c' i type bound => named.dir c' i type (old bound), ?_⟩
  intro k path size i c' created there quiet
  have bound := named.kept k path size i c' created there quiet
  rw [unbind_bound, if_neg, bound]
  rintro rfl
  rcases meant with deleting | ⟨i', dir⟩
  · exact quiet deleting
  · cases dir.symm.trans bound

theorem lookup_eq_ok {t : NameTree} {type : InodeType} (found : t.lookup path = .ok (i, type)) :
    (path = ['/'] ∧ i = 1 ∧ type = .directory) ∨
      ∃ c, target path = .ok c ∧ t.IsDir c.dropLast ∧ t.bound c = some (i, type) := by
  unfold lookup at found
  split at found
  · next root =>
    cases found
    exact .inl ⟨root, rfl, rfl⟩
  · split at found
    · cases found
    · next c located =>
      obtain ⟨named, dir⟩ := locate_eq_ok.mp located
      split at found
      · cases found
      · next node bound =>
        cases found
        exact .inr ⟨c, named, dir, bound⟩

/-- A path is looked up. -/
theorem Found.find {t : NameTree} (found : Found h t) (named : Named h t) (k : Nat) (path : Str) :
    Found (.answered k (.find path) (t.lookup path) :: h) t := by
  have sub := List.subset_cons_self (.answered k (.find path) (t.lookup path)) h
  have created : ∀ {k' path' size' i}, Created (.answered k (.find path) (t.lookup path) :: h) k' path' size' i →
      Created h k' path' size' i := (dull_cons (e := .answered k (.find path) (t.lookup path))
        trivial h).created _ _ _ _
  have answer : ∀ {k' path' r}, .answered k' (.find path') (.ok r) ∈ Event.answered k (.find path)
    (t.lookup path) :: h →
      t.lookup path' = .ok r ∨ .answered k' (.find path') (.ok r) ∈ h := by
    intro k' path' r member
    rcases List.mem_cons.mp member with new | old
    · injection new with _ path_eq reply
      cases path_eq
      exact .inl reply.symm
    · exact .inr old
  constructor
  · intro k' path' i there
    rcases answer there with new | old
    · rcases lookup_eq_ok new with ⟨-, -, type⟩ | ⟨c, target_path, -, bound⟩
      · cases type
      · obtain ⟨k'', path'', size, made, same⟩ := named.file c i bound
        exact ⟨k'', path'', size, sub made, same.trans target_path.symm⟩
    · obtain ⟨k'', path'', size, made, same⟩ := found.file k' path' i old
      exact ⟨k'', path'', size, sub made, same⟩
  · intro k' path' i type there other
    rcases answer there with new | old
    · rcases lookup_eq_ok new with ⟨-, rfl, -⟩ | ⟨c, -, -, bound⟩
      · refine ⟨?_, fun k path size made => ?_⟩
        · have low := named.low
          show 1 < t.next.toNat
          omega
        · have early := (named.made _ _ _ _ (created made)).1
          exact absurd early (by decide)
      · exact ⟨named.fresh c i _ bound, fun k path size made =>
          (named.dir c i type bound other).2 k path size (created made)⟩
    · obtain ⟨before, unmade⟩ := found.dir k' path' i type old other
      exact ⟨before, fun k path size made => unmade k path size (created made)⟩

/-- A file holds nothing at first. -/
theorem Stored.create {t : NameTree} {content : UInt64 → Content} (stored : Stored h content) (named : Named h t)
    (k : Nat) (path : Str) (size : UInt64) :
    Stored (.answered k (.create path size) (.ok t.next) :: h) (Function.update content t.next (.blank size)) := by
  have sub := List.subset_cons_self (.answered k (.create path size) (.ok t.next)) h
  have published : ∀ {k' i d}, Published (.answered k (.create path size) (.ok t.next) :: h) k' i d →
      Published h k' i d := by
    intro k' i d published
    rcases List.mem_cons.mp published with new | old
    · cases new
    · exact old
  have fresh : ∀ {k' path' size'}, ¬ Created h k' path' size' t.next :=
    fun created => absurd (named.made _ _ _ _ created).2 (Nat.lt_irrefl _)
  refine ⟨fun k' i d there => ?_, fun k' i i' d d' first second => ?_, fun k' i d there => ?_,
    fun k' path' size' i created none => ?_, fun i none => ?_⟩
  · obtain ⟨filled, path', size', ⟨client, mode, began⟩, created⟩ := stored.published k' i d (published there)
    exact ⟨filled, path', size', ⟨client, mode, sub began⟩, sub created⟩
  · exact stored.once k' i i' d d' (published first) (published second)
  · obtain ⟨-, path', size', -, created⟩ := stored.published k' i d (published there)
    rw [Function.update_of_ne, stored.holds k' i d (published there)]
    rintro rfl
    exact fresh created
  · rcases List.mem_cons.mp created with new | old
    · cases new
      exact Function.update_self ..
    · rw [Function.update_of_ne]
      · exact stored.blank k' path' size' i old fun d there => none d (sub there)
      · rintro rfl
        exact fresh old
  · rw [Function.update_of_ne]
    · exact stored.unmade i fun k' path' size' created => none k' path' size' (sub created)
    · rintro rfl
      exact none k path size List.mem_cons_self

/-- Whoever made a file publishes its data. -/
theorem Stored.publish {t : NameTree} {content : UInt64 → Content} (stored : Stored h content) (named : Named h t)
    (writes : Writes h k path d) (made : Created h k path size i) (filled : d ≠ [])
    (first : ∀ i d, ¬ Published h k i d) :
    Stored (.answered k (.publish i d) .ok :: h) (Function.update content i (.stored d)) := by
  have sub := List.subset_cons_self (.answered k (.publish i d) .ok) h
  have created : ∀ {k' path' size' i'}, Created (.answered k (.publish i d) .ok :: h) k' path' size' i' →
      Created h k' path' size' i' := by
    intro k' path' size' i' created
    rcases List.mem_cons.mp created with new | old
    · cases new
    · exact old
  have published : ∀ {k' i' d'}, Published (.answered k (.publish i d) .ok :: h) k' i' d' →
      (k' = k ∧ i' = i ∧ d' = d) ∨ (k' ≠ k ∧ i' ≠ i ∧ Published h k' i' d') := by
    intro k' i' d' published
    rcases List.mem_cons.mp published with new | old
    · cases new
      exact .inl ⟨rfl, rfl, rfl⟩
    · have other : k' ≠ k := by
        rintro rfl
        exact first _ _ old
      refine .inr ⟨other, ?_, old⟩
      rintro rfl
      obtain ⟨-, path', size', -, made'⟩ := stored.published k' i' d' old
      exact other (named.once _ _ _ _ _ _ _ made' made).1
  refine ⟨fun k' i' d' there => ?_, fun k' i' i'' d' d'' one two => ?_, fun k' i' d' there => ?_,
    fun k' path' size' i' there none => ?_, fun i' none => ?_⟩
  · rcases published there with ⟨rfl, rfl, rfl⟩ | ⟨-, -, old⟩
    · obtain ⟨client, mode, began⟩ := writes
      exact ⟨filled, path, size, ⟨client, mode, sub began⟩, sub made⟩
    · obtain ⟨filled', path', size', ⟨client, mode, began⟩, made'⟩ := stored.published k' i' d' old
      exact ⟨filled', path', size', ⟨client, mode, sub began⟩, sub made'⟩
  · rcases published one with ⟨rfl, rfl, rfl⟩ | ⟨other, -, old⟩
    · rcases published two with ⟨-, rfl, rfl⟩ | ⟨other, -, -⟩
      · exact ⟨rfl, rfl⟩
      · exact absurd rfl other
    · rcases published two with ⟨same, -, -⟩ | ⟨-, -, old'⟩
      · exact absurd same other
      · exact stored.once k' i' i'' d' d'' old old'
  · rcases published there with ⟨rfl, rfl, rfl⟩ | ⟨-, other, old⟩
    · exact Function.update_self ..
    · rw [Function.update_of_ne other, stored.holds k' i' d' old]
  · rw [Function.update_of_ne]
    · exact stored.blank k' path' size' i' (created there) fun d' old => none d' (sub old)
    · rintro rfl
      obtain ⟨rfl, -, -⟩ := named.once _ _ _ _ _ _ _ (created there) made
      exact none d List.mem_cons_self
  · rw [Function.update_of_ne]
    · exact stored.unmade i' fun k' path' size' made' => none k' path' size' (sub made')
    · rintro rfl
      exact none k path size (sub made)

end FileStore

end OpenFS
