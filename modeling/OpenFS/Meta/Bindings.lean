import OpenFS.Meta.PathRefinement

/-!
# Bindings that stay

A path that is bound to a file stays bound to it, whatever calls there are, until one
deletes or renames the path or a directory above it.
-/

namespace OpenFS.NamespaceManager

open RootedGraph

/-- The path names the node bound to `c` or a directory above it. -/
def Covers (path : Str) (c : List Str) : Prop := path.head? = some '/' ∧ components path <+: c

/-- The call deletes or renames what it names. -/
def Call.TakesAway (c : List Str) : Call → Prop
  | .deleteFile path => Covers path c
  | .rename srcPath _ => Covers srcPath c
  | _ => False

/-- An entry on the way to `c`, where a node of type `t` is. -/
structure OnPath (ns : NamespaceManager) (c : List Str) (t : InodeType) (d : UInt64) (e : DirEntry) : Prop where
  listed : Listed ns.dirEntries d e
  place : ∃ q rest, c = q ++ e.name :: rest ∧ follow ns.hop 1 q = some d ∧
    ((rest = [] ∧ e.fileType = t) ∨ ∃ e', Listed ns.dirEntries e.inodeId e')

variable {ns after : NamespaceManager} {c : List Str} {i : UInt64} {t : InodeType}

/-- With the entries on its way, a binding stays. -/
theorem binding_kept (h : Consistent ns) (after_ok : Consistent after) (bound : ns.binding c = some (i, t))
    (kept : ∀ d e, OnPath ns c t d e → Listed after.dirEntries d e) : after.binding c = some (i, t) := by
  rcases List.eq_nil_or_concat' c with rfl | ⟨p, n, rfl⟩
  · cases bound
  · obtain ⟨d, reached, last⟩ := (binding_iff h).mp bound
    have chain : ∀ q r x, p = q ++ r → follow ns.hop 1 q = some x → follow after.hop 1 q = some x := by
      intro q
      induction q using List.reverseRecOn with
      | nil => exact fun _ _ _ => id
      | append_singleton q m ih =>
        intro r x split upto
        rw [follow_snoc, Option.bind_eq_some_iff] at upto ⊢
        obtain ⟨a, before, step⟩ := upto
        have entry := (hop_iff h).mp step
        have below : ∃ e', Listed ns.dirEntries x e' := by
          have rest : follow ns.hop x r = some d := by
            rw [split, follow_append, follow_snoc, before] at reached
            rw [Option.bind_some, step] at reached
            exact reached
          cases r with
          | nil =>
            cases rest
            exact ⟨_, last⟩
          | cons m' r =>
            rw [follow, Option.bind_eq_some_iff] at rest
            obtain ⟨y, next, -⟩ := rest
            exact ⟨_, (hop_iff h).mp next⟩
        have on : OnPath ns (p ++ [n]) t a ⟨m, x, .directory⟩ :=
          ⟨entry, q, r ++ [n], by rw [split]; simp, before, .inr below⟩
        exact ⟨a, ih ([m] ++ r) a (by rw [split]; simp) before, (hop_iff after_ok).mpr (kept _ _ on)⟩
    refine (binding_iff after_ok).mpr ⟨d, chain p [] d (by simp) reached,
      kept _ _ ⟨last, p, [], rfl, reached, .inl ⟨rfl, rfl⟩⟩⟩

/-- A path that resolves to an entry on the way covers the node. -/
theorem covers_of_onPath (h : Consistent ns) {path src : Str} {d : UInt64} {e : DirEntry}
    (on : OnPath ns (components path) t d e) (resolved : ns.resolvePath src = .ok (d, e.name)) :
    Covers src (components path) := by
  obtain ⟨q, rest, split, reached, -⟩ := on.place
  have named : e.name ∈ components path := by
    rw [split]
    exact List.mem_append_right _ List.mem_cons_self
  rcases resolvePath_cases resolved with ⟨-, -, unnamed⟩ | ⟨parts, chain⟩
  · exact absurd unnamed (components_ne_nil named)
  · refine ⟨absolute_of_resolved resolved, ?_⟩
    rw [parts, split, h.rooted_hop.follow_inj chain reached]
    exact ⟨rest, by simp⟩

/-- Another entry is taken out. -/
theorem listed_drop (h : Consistent ns) {path src : Str} {parentId d : UInt64} {entries : List DirEntry}
    {p : DirEntry → Bool} {gone e : DirEntry} (there : ns.dirEntries parentId = some entries)
    (found : entries.find? p = some gone) (resolved : ns.resolvePath src = .ok (parentId, gone.name))
    (spared : ¬ Covers src (components path)) (on : OnPath ns (components path) t d e) :
    Listed (ns.dropEntry parentId entries p) d e := by
  refine ((h.lists.drop there found).2 d e).mpr ⟨on.listed, fun same => spared ?_⟩
  obtain ⟨rfl, rfl⟩ := h.lists.entry_unique on.listed ⟨entries, there, List.mem_of_find?_eq_some found⟩ same
  exact covers_of_onPath h on resolved

/-- **A file keeps its path** until a call takes it away. -/
theorem Effect.binding (h : Consistent ns) {now : UInt64} {call : Call} {s : Status}
    (effect : Effect ns now call s after) {path : Str} (bound : ns.binding (components path) = some (i, .regular))
    (spared : ¬ call.TakesAway (components path)) : after.binding (components path) = some (i, .regular) := by
  refine binding_kept h (h.effect effect) bound fun d e on => ?_
  cases effect with
  | refused _ same =>
    rw [same.dirs]
    exact on.listed
  | madeDirectory resolved _ _ free dirs _ _ =>
    exact (listed_added h free (h.resolved_isSome resolved) (.inr dirs) d e).mpr (.inl on.listed)
  | @madeFile _ _ _ _ _ parentId _ entries _ resolved listed _ free dirs _ _ =>
    have dirs' := dirs
    rw [show entries = (ns.dirEntries parentId).getD [] by rw [listed]; rfl] at dirs'
    exact (listed_added h free (h.resolved_isSome resolved) (.inl dirs') d e).mpr (.inl on.listed)
  | removedFile resolved listed found dirs _ _ =>
    obtain ⟨-, rfl, -⟩ := mem_of_found found
    rw [dirs]
    exact listed_drop h listed found resolved spared on
  | @removedDirectory _ _ _ _ gone _ resolved listed found empty dirs _ _ =>
    obtain ⟨member, rfl, directory⟩ := mem_of_found found
    have nothing : ∀ e', ¬ Listed ns.dirEntries gone.inodeId e' := by
      rintro e' ⟨l, there, inside⟩
      rw [there] at empty
      rw [show l = [] from empty] at inside
      cases inside
    rw [dirs, listed_erase, (h.lists.drop listed found).2]
    refine ⟨?_, on.listed, fun same => ?_⟩
    · rintro rfl
      exact nothing e on.listed
    · obtain ⟨rfl, rfl⟩ := h.lists.entry_unique on.listed ⟨_, listed, member⟩ same
      obtain ⟨_, _, -, -, ⟨-, regular⟩ | ⟨e', below⟩⟩ := on.place
      · cases directory.symm.trans regular
      · exact nothing e' below
  | @moved _ _ _ dstParent _ _ _ dstEntries moving _ moves there _ dirs _ _ =>
    obtain rfl : moving.name = _ := by simpa using List.find?_some moves.found
    have still := listed_drop h moves.listed moves.found moves.src spared on
    rw [dirs, listed_update]
    by_cases same : d = dstParent
    · subst same
      obtain ⟨l, at_d, member⟩ := still
      cases there.symm.trans at_d
      exact .inl ⟨rfl, List.mem_append_left _ member⟩
    · exact .inr ⟨same, still⟩
  | @lost _ _ _ _ _ _ _ moving _ _ moves _ _ dirs _ =>
    obtain rfl : moving.name = _ := by simpa using List.find?_some moves.found
    rw [dirs]
    exact listed_drop h moves.listed moves.found moves.src spared on

/-- A file that is created is bound to its path. -/
theorem binding_createFile (h : Consistent ns) {now : UInt64} {path : Str} {mode uid gid : UInt32} {size : UInt64}
    {inode : Inode} (made : (ns.createFile now path mode uid gid size).1 = .ok inode)
    (named : components path ≠ []) :
    WellFormed path ∧
      (ns.createFile now path mode uid gid size).2.binding (components path) = some (inode.inodeId, .regular) := by
  have effect := createFile_effect ns now path mode uid gid size
  rw [made] at effect
  generalize created : (ns.createFile now path mode uid gid size).2 = after' at effect
  generalize asked : Call.createFile path mode uid gid size = call at effect
  generalize status : statusOf (.ok inode : Except Status Inode) = s at effect
  cases effect with
  | refused refused _ => exact absurd status.symm refused
  | madeFile resolved _ _ free _ _ _ =>
    cases asked
    have wf : WellFormed path := ⟨absolute_of_resolved resolved, named⟩
    refine ⟨wf, ?_⟩
    rw [← created, ((gains_createFile h wf free now mode uid gid size).bound inode made).1, Function.update_self]
  | _ => cases asked

end OpenFS.NamespaceManager
