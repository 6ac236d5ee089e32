import OpenFS.Lib.Grafting
import OpenFS.Meta.NamespaceManager

/-!
# A tree of names

What the namespace is for: a map from lists of names to nodes, and the id of the next node.
A call looks at the map and changes it as a whole; there are no entry lists and no inode
records. Every path string has a meaning here: `/` stands for a nameless entry of the root
where a call wants an entry.
-/

namespace OpenFS

open RootedGraph

structure NameTree where
  bound : List Str → Option (UInt64 × InodeType)
  next : UInt64

namespace NameTree

/-- The names on a path. -/
def target (path : Str) : Except Status (List Str) :=
  if path.head? ≠ some '/' then .error .invalidArgument
  else if path = ['/'] then .ok [[]]
  else if components path = [] then .error .invalidArgument
  else .ok (components path)

/-- The root, or bound to a directory. -/
def IsDir (t : NameTree) (c : List Str) : Prop := c = [] ∨ ∃ i, t.bound c = some (i, .directory)

instance (t : NameTree) (c : List Str) : Decidable (t.IsDir c) :=
  decidable_of_iff (c = [] ∨ (t.bound c).map Prod.snd = some .directory) (by simp [IsDir])

/-- Nothing is bound below. -/
def IsEmpty (t : NameTree) (c : List Str) : Prop := ∀ q, q ≠ [] → t.bound (c ++ q) = none

/-- The place that a path names: its directory is there, itself it may be free. -/
def locate (t : NameTree) (path : Str) : Except Status (List Str) :=
  match target path with
  | .error s => .error s
  | .ok c => if t.IsDir c.dropLast then .ok c else .error .notFound

def bind (t : NameTree) (c : List Str) (type : InodeType) : NameTree where
  bound := Function.update t.bound c (some (t.next, type))
  next := t.next + 1

def unbind (t : NameTree) (c : List Str) : NameTree := { t with bound := Function.update t.bound c none }

def mkDir (t : NameTree) (path : Str) : Status × NameTree :=
  match t.locate path with
  | .error s => (s, t)
  | .ok c => if c = [[]] ∨ t.bound c ≠ none then (.alreadyExists, t) else (.ok, t.bind c .directory)

def createFile (t : NameTree) (path : Str) : Status × NameTree :=
  match t.locate path with
  | .error s => (s, t)
  | .ok c => if t.bound c ≠ none then (.alreadyExists, t) else (.ok, t.bind c .regular)

def deleteFile (t : NameTree) (path : Str) : Status × NameTree :=
  match t.locate path with
  | .error s => (s, t)
  | .ok c =>
    match t.bound c with
    | some (_, .regular) => (.ok, t.unbind c)
    | _ => (.notFound, t)

open Classical in
noncomputable def rmDir (t : NameTree) (path : Str) : Status × NameTree :=
  if path = ['/'] then (.invalidArgument, t)
  else
    match t.locate path with
    | .error s => (s, t)
    | .ok c =>
      match t.bound c with
      | some (_, .directory) => if t.IsEmpty c then (.ok, t.unbind c) else (.notEmpty, t)
      | _ => (.notFound, t)

/-- The map after `src` was taken out, and put at `dst` if that is free and not below it. -/
def moved (t : NameTree) (src dst : List Str) : NameTree :=
  { t with
    bound :=
      if src = dst ∨ (t.bound dst = none ∧ ¬ src <+: dst) then graft src dst t.bound else prune src t.bound }

/-- A move to a taken name fails after the source is out; one to below itself succeeds,
and what was moved is gone. -/
def rename (t : NameTree) (srcPath dstPath : Str) : Status × NameTree :=
  match t.locate srcPath with
  | .error s => (s, t)
  | .ok src =>
    match t.locate dstPath with
    | .error s => (s, t)
    | .ok dst =>
      if t.bound src = none then (.notFound, t)
      else if src ≠ dst ∧ t.bound dst ≠ none then (.alreadyExists, t.moved src dst)
      else (.ok, t.moved src dst)

noncomputable def exec (t : NameTree) : NamespaceManager.Call → Status × NameTree
  | .mkDir path _ _ _ => t.mkDir path
  | .createFile path _ _ _ _ => t.createFile path
  | .deleteFile path => t.deleteFile path
  | .rmDir path => t.rmDir path
  | .rename srcPath dstPath => t.rename srcPath dstPath

/-- The node that a path names. -/
def lookup (t : NameTree) (path : Str) : Except Status (UInt64 × InodeType) :=
  if path = ['/'] then .ok (1, .directory)
  else
    match t.locate path with
    | .error s => .error s
    | .ok c =>
      match t.bound c with
      | none => .error .notFound
      | some node => .ok node

/-- The directory that a path names. -/
def openDir (t : NameTree) (path : Str) : Except Status (List Str) :=
  if path = ['/'] then .ok []
  else
    match t.locate path with
    | .error s => .error s
    | .ok c =>
      match t.bound c with
      | none => .error .notFound
      | some (_, type) => if type = .directory then .ok c else .error .notDirectory

/-- Only the root is there. -/
def init : NameTree where
  bound _ := none
  next := 2

theorem target_error {path : Str} {s : Status} (refused : target path = .error s) : s ≠ .ok := by
  unfold target at refused
  split at refused
  · cases refused
    decide
  · split at refused
    · cases refused
    · split at refused
      · cases refused
        decide
      · cases refused

theorem locate_error {t : NameTree} {path : Str} {s : Status} (refused : t.locate path = .error s) : s ≠ .ok := by
  unfold locate at refused
  split at refused
  · next nowhere =>
    cases refused
    exact target_error nowhere
  · split at refused
    · cases refused
    · cases refused
      decide

/-- A file is made at a free place, or nothing is done. -/
theorem createFile_cases (t : NameTree) (path : Str) :
    (∃ s, s ≠ .ok ∧ t.createFile path = (s, t)) ∨ ∃ c, t.createFile path = (.ok, t.bind c .regular) := by
  unfold createFile
  split
  · next s nowhere => exact .inl ⟨s, locate_error nowhere, rfl⟩
  · next c _ =>
    split
    · exact .inl ⟨_, by decide, rfl⟩
    · exact .inr ⟨c, rfl⟩

/-- The statuses of calls one after the other, and the tree they leave. -/
noncomputable def run (t : NameTree) : List NamespaceManager.Call → List Status × NameTree
  | [] => ([], t)
  | call :: calls =>
    let r := t.exec call
    let rest := r.2.run calls
    (r.1 :: rest.1, rest.2)

end NameTree

end OpenFS
