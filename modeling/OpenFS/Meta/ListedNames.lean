import OpenFS.Meta.PathRefinement
import OpenFS.Meta.PathSpelling

/-!
# What is listed can be opened

A name in an entry list is a component of some path, or empty: `/` resolves to the
root's id and the empty name. `MkDir` refuses the empty name. `CreateFile` and `Rename`
do not, and list a nameless node in the root, which no path leads to.
-/

namespace OpenFS.NamespaceManager

open RootedGraph

/-- The path of an entry of a directory. -/
def childPath (path name : Str) : Str := if path = ['/'] then '/' :: name else path ++ '/' :: name

/-- Every entry that is listed has a proper name, and is found under its path. -/
def OpensEverything (ns : NamespaceManager) : Prop :=
  ∀ path entries, ns.readDir path = .ok entries → ∀ e ∈ entries, e.name ≠ [] ∧ '/' ∉ e.name ∧
    ∃ inode, ns.lookup (childPath path e.name) = .ok inode ∧ inode.inodeId = e.inodeId

/-- The call lists a node without a name: it creates a file at `/`, or moves a node that
it finds there. -/
def Call.AddsNameless (ns : NamespaceManager) : Call → Prop
  | .createFile path _ _ _ _ => path = ['/'] ∧ ns.inodeTable.inodes ns.inodeTable.nextInodeId = none
  | .rename srcPath dstPath => dstPath = ['/'] ∧ srcPath ≠ ['/'] ∧ ∃ inode, ns.lookup srcPath = .ok inode
  | _ => False

/-- `P` holds in every state of a run. -/
def Always (P : NamespaceManager → Prop) : NamespaceManager → List (UInt64 × Call) → Prop
  | ns, [] => P ns
  | ns, (now, call) :: calls => P ns ∧ Always P (ns.exec now call).2 calls

/-- `C` holds of every call of a run, in the state in which it is made. -/
def Along (C : NamespaceManager → Call → Prop) : NamespaceManager → List (UInt64 × Call) → Prop
  | _, [] => True
  | ns, (now, call) :: calls => C ns call ∧ Along C (ns.exec now call).2 calls

/-! ## The names of a list -/

/-- A name that may stand in directory `d`. -/
def Nameable (d : UInt64) (name : Str) : Prop := (name ≠ [] ∧ '/' ∉ name) ∨ (d = 1 ∧ name = [])

def WellNamed (ns : NamespaceManager) : Prop := ∀ d e, Listed ns.dirEntries d e → Nameable d e.name

/-- No entry is nameless. -/
def Named (ns : NamespaceManager) : Prop := ∀ d e, Listed ns.dirEntries d e → e.name ≠ []

/-- The path under which a call may list a node. -/
def Call.target : Call → Option Str
  | .mkDir path _ _ _ => some path
  | .createFile path _ _ _ _ => some path
  | .rename _ dstPath => some dstPath
  | _ => none

section
variable {ns after : NamespaceManager} {path : Str} {d : UInt64} {e : DirEntry}

theorem nameable_of_resolved {name : Str} (resolved : ns.resolvePath path = .ok (d, name)) : Nameable d name := by
  rcases resolvePath_cases resolved with ⟨-, rfl, rfl⟩ | ⟨split, -⟩
  · exact .inr ⟨rfl, rfl⟩
  · have member : name ∈ components path := by
      rw [split]
      exact List.mem_append_right _ (List.mem_singleton_self _)
    exact .inl ⟨components_ne_nil member, slash_notMem_of_component member⟩

/-- Only `/` resolves to the empty name. -/
theorem root_of_nameless (resolved : ns.resolvePath path = .ok (d, [])) : path = ['/'] := by
  rcases resolvePath_cases resolved with ⟨slashes, -, -⟩ | ⟨split, -⟩
  · by_contra other
    rw [resolvePath_of_slashes (absolute_of_resolved resolved) other slashes] at resolved
    cases resolved
  · have member : [] ∈ components path := by
      rw [split]
      exact List.mem_append_right _ (List.mem_singleton_self _)
    exact absurd rfl (components_ne_nil member)

theorem resolvePath_root (ns : NamespaceManager) : ns.resolvePath ['/'] = .ok (1, []) := rfl

/-- Whether an entry is listed somewhere does not depend on the order of a list. -/
theorem listed_of_dropEntry {entries : List DirEntry} {parentId : UInt64} {p : DirEntry → Bool}
    (there : ns.dirEntries parentId = some entries) (listed : Listed (ns.dropEntry parentId entries p) d e) :
    Listed ns.dirEntries d e := by
  rcases listed_update.mp listed with ⟨rfl, member⟩ | ⟨-, old⟩
  · exact ⟨entries, there, List.mem_of_mem_eraseP member⟩
  · exact old

/-- What is listed after a call was listed before, or bears the name that the call's path ends in. -/
theorem Effect.listed {now : UInt64} {call : Call} {s : Status} (effect : Effect ns now call s after)
    (listed : Listed after.dirEntries d e) :
    Listed ns.dirEntries d e ∨ s = .ok ∧ ∃ path, call.target = some path ∧
      ns.resolvePath path = .ok (d, e.name) := by
  cases effect with
  | refused _ same =>
    rw [same.dirs] at listed
    exact .inl listed
  | madeDirectory resolved _ _ _ dirs _ _ =>
    rw [dirs] at listed
    rcases listed_update.mp listed with ⟨-, member⟩ | ⟨-, listed⟩
    · cases member
    · rcases listed_update.mp listed with ⟨rfl, member⟩ | ⟨-, old⟩
      · rcases List.mem_append.mp member with old | new
        · cases there : ns.dirEntries d with
          | none => simp [there] at old
          | some l => exact .inl ⟨l, there, by simpa [there] using old⟩
        · obtain rfl := List.mem_singleton.mp new
          exact .inr ⟨rfl, _, rfl, resolved⟩
      · exact .inl old
  | madeFile resolved there _ _ dirs _ _ =>
    rw [dirs] at listed
    rcases listed_update.mp listed with ⟨rfl, member⟩ | ⟨-, old⟩
    · rcases List.mem_append.mp member with old | new
      · exact .inl ⟨_, there, old⟩
      · obtain rfl := List.mem_singleton.mp new
        exact .inr ⟨rfl, _, rfl, resolved⟩
    · exact .inl old
  | removedFile _ there _ dirs _ _ =>
    rw [dirs] at listed
    exact .inl (listed_of_dropEntry there listed)
  | removedDirectory _ there _ _ dirs _ _ =>
    rw [dirs] at listed
    exact .inl (listed_of_dropEntry there (listed_erase.mp listed).2)
  | moved moves there _ dirs _ _ =>
    rw [dirs] at listed
    rcases listed_update.mp listed with ⟨rfl, member⟩ | ⟨-, old⟩
    · rcases List.mem_append.mp member with old | new
      · exact .inl (listed_of_dropEntry moves.listed ⟨_, there, old⟩)
      · obtain rfl := List.mem_singleton.mp new
        exact .inr ⟨rfl, _, rfl, moves.dst⟩
    · exact .inl (listed_of_dropEntry moves.listed old)
  | lost moves _ _ dirs _ =>
    rw [dirs] at listed
    exact .inl (listed_of_dropEntry moves.listed listed)

theorem WellNamed.effect (named : WellNamed ns) {now : UInt64} {call : Call} {s : Status}
    (effect : Effect ns now call s after) : WellNamed after := by
  intro d e listed
  rcases effect.listed listed with old | ⟨-, path, -, resolved⟩
  · exact named d e old
  · exact nameable_of_resolved resolved

/-! ## Which call lists a nameless node -/

theorem childPath_spec (wf : WellFormed path) {name : Str} (proper : name ≠ [] ∧ '/' ∉ name) :
    WellFormed (childPath path name) ∧ components (childPath path name) = components path ++ [name] := by
  have other : path ≠ ['/'] := by
    rintro rfl
    exact wf.2 (by decide)
  have split : components (childPath path name) = components path ++ [name] := by
    unfold childPath
    rw [if_neg other, components_append_slash, components_of_name proper.1 proper.2]
  refine ⟨⟨?_, by rw [split]; simp⟩, split⟩
  unfold childPath
  rw [if_neg other, List.head?_append, wf.1]
  rfl

theorem childPath_root {name : Str} (proper : name ≠ [] ∧ '/' ∉ name) :
    WellFormed (childPath ['/'] name) ∧ components (childPath ['/'] name) = [name] := by
  have split : components (childPath ['/'] name) = [name] := by
    unfold childPath
    rw [if_pos rfl, components_slash, components_of_name proper.1 proper.2]
  exact ⟨⟨rfl, by rw [split]; simp⟩, split⟩

/-- A listing is the list of the root, or of the directory at the end of the path. -/
theorem readDir_cases (h : Consistent ns) {entries : List DirEntry} (read : ns.readDir path = .ok entries) :
    (path = ['/'] ∧ ns.dirEntries 1 = some entries) ∨
      (WellFormed path ∧ ∃ i, follow ns.hop 1 (components path) = some i ∧ ns.dirEntries i = some entries) := by
  unfold readDir at read
  by_cases root : path = ['/']
  · obtain ⟨r, live, -⟩ := h.rootLive
    rw [if_pos root, InodeTable.get_eq_ok.mpr live] at read
    dsimp only at read
    rw [h.keyed live] at read
    split at read
    · cases read
    · next list =>
      cases read
      exact .inl ⟨root, list⟩
  · rw [if_neg root] at read
    cases resolved : ns.resolvePath path with
    | error s =>
      rw [resolved] at read
      cases read
    | ok found =>
      obtain ⟨d, n⟩ := found
      rw [resolved] at read
      dsimp only at read
      have named : n ≠ [] := by
        rintro rfl
        exact root (root_of_nameless resolved)
      rcases resolvePath_cases resolved with ⟨-, -, nameless⟩ | ⟨split, reached⟩
      · exact absurd nameless named
      · cases there : ns.dirEntries d with
        | none =>
          rw [there] at read
          cases read
        | some l =>
          rw [there] at read
          dsimp only at read
          cases entry : l.find? (fun e => decide (e.name = n)) with
          | none =>
            rw [entry] at read
            cases read
          | some e =>
            rw [entry] at read
            dsimp only at read
            by_cases directory : e.fileType = .directory
            · rw [if_neg (by simp [directory])] at read
              dsimp only at read
              have hit := List.find?_some entry
              rw [decide_eq_true_eq] at hit
              have member := List.mem_of_find?_eq_some entry
              refine .inr ⟨⟨absolute_of_resolved resolved, by rw [split]; simp⟩, e.inodeId, ?_, ?_⟩
              · rw [split, follow_snoc, reached]
                refine (hop_iff h).mpr ⟨l, there, ?_⟩
                rw [← hit, ← directory]
                exact member
              · split at read
                · cases read
                · next list =>
                  cases read
                  exact list
            · rw [if_pos directory] at read
              cases read

/-- A listed entry is found under the path of its directory and its name. -/
theorem lookup_of_listed (h : Consistent ns) {path' : Str} (wf : WellFormed path') {c : List Str}
    (split : components path' = c ++ [e.name]) (reached : follow ns.hop 1 c = some d)
    (listed : Listed ns.dirEntries d e) : ∃ inode, ns.lookup path' = .ok inode ∧ inode.inodeId = e.inodeId := by
  have looked := lookup_eq h wf
  rw [split, (binding_iff h).mpr ⟨d, reached, listed⟩] at looked
  obtain ⟨inode, found, -, id, -⟩ := looked
  exact ⟨inode, found, id⟩

theorem opensEverything_iff (h : Consistent ns) (wellNamed : WellNamed ns) : OpensEverything ns ↔ Named ns := by
  constructor
  · intro opens d e listed
    rcases wellNamed d e listed with ⟨named, -⟩ | ⟨rfl, nameless⟩
    · exact named
    · obtain ⟨l, there, member⟩ := listed
      have read : ns.readDir ['/'] = .ok l := by
        obtain ⟨r, live, -⟩ := h.rootLive
        unfold readDir
        rw [if_pos rfl, InodeTable.get_eq_ok.mpr live]
        dsimp only
        rw [h.keyed live, there]
      exact (opens ['/'] l read e member).1
  · intro named path entries read e member
    have proper : ∀ d, ns.dirEntries d = some entries → e.name ≠ [] ∧ '/' ∉ e.name := by
      intro d there
      have some := named d e ⟨entries, there, member⟩
      rcases wellNamed d e ⟨entries, there, member⟩ with proper | ⟨-, nameless⟩
      · exact proper
      · exact absurd nameless some
    rcases readDir_cases h read with ⟨rfl, list⟩ | ⟨wf, i, reached, list⟩
    · obtain ⟨wf', split⟩ := childPath_root (proper 1 list)
      exact ⟨(proper 1 list).1, (proper 1 list).2,
        lookup_of_listed h wf' (c := []) split rfl ⟨entries, list, member⟩⟩
    · obtain ⟨wf', split⟩ := childPath_spec wf (proper i list)
      exact ⟨(proper i list).1, (proper i list).2, lookup_of_listed h wf' split reached ⟨entries, list, member⟩⟩

/-- A path that is found, and is not `/`, ends in an entry of its parent. -/
theorem lookup_ok_iff (h : Consistent ns) (other : path ≠ ['/']) : (∃ inode, ns.lookup path = .ok inode) ↔
    ∃ d n l e, ns.resolvePath path = .ok (d, n) ∧ ns.dirEntries d = some l ∧
      l.find? (fun e => decide (e.name = n)) = some e := by
  unfold lookup
  rw [if_neg other]
  constructor
  · rintro ⟨inode, found⟩
    cases resolved : ns.resolvePath path with
    | error s =>
      rw [resolved] at found
      cases found
    | ok r =>
      obtain ⟨d, n⟩ := r
      rw [resolved] at found
      dsimp only at found
      cases there : ns.dirEntries d with
      | none =>
        rw [there] at found
        cases found
      | some l =>
        rw [there] at found
        dsimp only at found
        cases entry : l.find? (fun e => decide (e.name = n)) with
        | none =>
          rw [entry] at found
          cases found
        | some e => exact ⟨d, n, l, e, rfl, there, entry⟩
  · rintro ⟨d, n, l, e, resolved, there, entry⟩
    obtain ⟨r, live, -⟩ := h.entry ⟨l, there, List.mem_of_find?_eq_some entry⟩
    refine ⟨r, ?_⟩
    rw [resolved]
    dsimp only
    rw [there]
    dsimp only
    rw [entry]
    exact InodeTable.get_eq_ok.mpr live

/-- A file is created at `/` if the id is free. -/
theorem createFile_root (h : Consistent ns) (named : Named ns) (now : UInt64) (mode uid gid : UInt32)
    (size : UInt64)
    (free : ns.inodeTable.inodes ns.inodeTable.nextInodeId = none) :
    ¬ Named (ns.createFile now ['/'] mode uid gid size).2 := by
  obtain ⟨l, there⟩ := Option.isSome_iff_exists.mp h.rootList
  have absent : ∀ e ∈ l, e.name ≠ [] := fun e member => named 1 e ⟨l, there, member⟩
  have created := createFile_ok now mode uid gid size (resolvePath_root ns) there absent free
  have effect := createFile_effect ns now ['/'] mode uid gid size
  rw [created] at effect
  generalize (ns.createFile now ['/'] mode uid gid size).2 = after at effect
  generalize call : Call.createFile ['/'] mode uid gid size = c at effect
  generalize status : statusOf (Except.ok _ : Except Status Inode) = s at effect
  cases effect with
  | refused refused _ => exact absurd status.symm refused
  | madeFile resolved there _ _ dirs _ _ =>
    cases call
    cases resolved
    intro named'
    refine named' 1 ⟨[], ns.inodeTable.nextInodeId, .regular⟩ ?_ rfl
    rw [dirs, listed_update]
    exact .inl ⟨rfl, by simp⟩
  | _ => cases call

/-- A node that is found is moved to `/`. -/
theorem rename_root (h : Consistent ns) (named : Named ns) (now : UInt64) (other : path ≠ ['/'])
    (found : ∃ inode, ns.lookup path = .ok inode) : ¬ Named (ns.rename now path ['/']).2 := by
  obtain ⟨d, n, l, moving, resolved, there, entry⟩ := (lookup_ok_iff h other).mp found
  have list := isSome_dropEntry there (fun e => decide (e.name = n)) 1
  rw [h.rootList] at list
  obtain ⟨rest, drop⟩ := Option.isSome_iff_exists.mp list
  have absent : ∀ e ∈ rest, e.name ≠ [] := fun e member =>
    named 1 e (listed_of_dropEntry there ⟨rest, drop, member⟩)
  have none_there : ¬ rest.any (fun e => decide (e.name = [])) = true := by simpa using absent
  have dirs : (ns.rename now path ['/']).2.dirEntries = Function.update
      (ns.dropEntry d l fun e => decide (e.name = n)) 1 (some (rest ++ [{ moving with name := [] }])) := by
    unfold dropEntry at drop ⊢
    unfold rename
    rw [resolved, resolvePath_root]
    dsimp only
    rw [there]
    dsimp only
    rw [entry]
    dsimp only
    rw [drop]
    dsimp only
    rw [if_neg none_there]
    split <;> rfl
  intro named'
  refine named' 1 { moving with name := [] } ?_ rfl
  rw [dirs, listed_update]
  exact .inl ⟨rfl, by simp⟩

/-- A call lists a nameless node just when it is said to. -/
theorem named_exec_iff (h : Consistent ns) (named : Named ns) (now : UInt64) (call : Call) :
    Named (ns.exec now call).2 ↔ ¬ call.AddsNameless ns := by
  constructor
  · intro named' adds
    cases call with
    | createFile path mode uid gid size =>
      obtain ⟨rfl, free⟩ := adds
      exact createFile_root h named now mode uid gid size free named'
    | rename srcPath dstPath =>
      obtain ⟨rfl, other, found⟩ := adds
      exact rename_root h named now other found named'
    | _ => exact adds
  · intro keeps d e listed nameless
    have effect := exec_effect ns now call
    rcases effect.listed listed with old | ⟨ok, path, target, resolved⟩
    · exact named d e old nameless
    · rw [nameless] at resolved
      obtain rfl := root_of_nameless resolved
      apply keeps
      rw [ok] at effect
      generalize (ns.exec now call).2 = after at effect
      generalize status : Status.ok = s at effect
      cases effect with
      | refused refused _ => exact absurd status.symm refused
      | madeDirectory resolved named' _ _ _ _ _ =>
        cases target
        cases resolved
        exact named' rfl
      | madeFile _ _ _ free _ _ _ =>
        cases target
        exact ⟨rfl, free⟩
      | removedFile _ _ _ _ _ _ => cases target
      | removedDirectory _ _ _ _ _ _ _ => cases target
      | @moved srcPath dstPath srcParent dstParent srcName dstName srcEntries dstEntries moving after moves =>
        cases target
        have other : srcPath ≠ ['/'] := by
          rintro rfl
          cases moves.src
          have hit := List.find?_some moves.found
          rw [decide_eq_true_eq] at hit
          exact named 1 _ ⟨_, moves.listed, List.mem_of_find?_eq_some moves.found⟩ hit
        exact ⟨rfl, other, (lookup_ok_iff h other).mpr ⟨_, _, _, _, moves.src, moves.listed, moves.found⟩⟩
      | lost _ lost _ _ _ =>
        subst status
        rcases lost with lost | lost <;> cases lost

theorem Always.now {P : NamespaceManager → Prop} {calls : List (UInt64 × Call)}
    (always : Always P ns calls) : P ns := by
  cases calls with
  | nil => exact always
  | cons call calls => exact always.1

/-- From a state without nameless entries. -/
theorem always_iff_along (h : Consistent ns) (wellNamed : WellNamed ns) (named : Named ns)
    (calls : List (UInt64 × Call)) :
    Always OpensEverything ns calls ↔ Along (fun ns call => ¬ call.AddsNameless ns) ns calls := by
  have opens := (opensEverything_iff h wellNamed).mpr named
  induction calls generalizing ns with
  | nil => exact ⟨fun _ => trivial, fun _ => opens⟩
  | cons call calls ih =>
    obtain ⟨now, call⟩ := call
    have effect := exec_effect ns now call
    have h' := h.effect effect
    have wellNamed' := wellNamed.effect effect
    have step := named_exec_iff h named now call
    unfold Always Along
    constructor
    · rintro ⟨-, later⟩
      have named' := (opensEverything_iff h' wellNamed').mp later.now
      exact ⟨step.mp named', (ih h' wellNamed' named' later.now).mp later⟩
    · rintro ⟨keeps, later⟩
      have named' := step.mpr keeps
      have opens' := (opensEverything_iff h' wellNamed').mpr named'
      exact ⟨opens, (ih h' wellNamed' named' opens').mpr later⟩

end

theorem not_listed_init {now d : UInt64} {e : DirEntry} : ¬ Listed (init now).dirEntries d e := by
  rintro ⟨l, there, member⟩
  unfold init at there
  dsimp only at there
  rcases eq_or_ne d 1 with rfl | other
  · rw [Function.update_self] at there
    cases there
    cases member
  · rw [Function.update_of_ne other] at there
    cases there

/-- **Through a run everything listed can be opened exactly if** no call lists a nameless node. -/
theorem always_opens_iff (now : UInt64) (calls : List (UInt64 × Call)) :
    Always OpensEverything (init now) calls ↔ Along (fun ns call => ¬ call.AddsNameless ns) (init now) calls :=
  always_iff_along (.init now) (fun _ _ listed => absurd listed not_listed_init)
    (fun _ _ listed => absurd listed not_listed_init) calls

/-- A file is created at `/`, and listed without a name. -/
theorem nameless_file_listed : ¬ ∀ ns, Reachable ns → OpensEverything ns := by
  intro claim
  have opens := claim _ (.step 0 (.createFile ['/'] 0 0 0 0) (.init 0))
  have read : ((init 0).exec 0 (.createFile ['/'] 0 0 0 0)).2.readDir ['/'] = .ok [⟨[], 2, .regular⟩] := by rfl
  exact (opens ['/'] _ read _ (List.mem_singleton_self _)).1 rfl

end OpenFS.NamespaceManager
