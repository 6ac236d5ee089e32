import Mathlib.Data.List.Nodup
import OpenFS.Common.Config

/-!
# What a configuration file can say

The configurations that files give are those whose texts have no line break in them and no blanks
at their ends, and each of them can be written down and read back.
-/

namespace OpenFS

open Fields

variable {line key value file : Str} {e : Thrown}

/-- A text that a line can hold behind its `=`. -/
structure Plain (s : Str) : Prop where
  trimmed : trim isBlank s = s
  oneLine : '\n' ∉ s

theorem Plain.nil : Plain [] := ⟨rfl, by simp⟩

theorem not_mem_trim {c : Char} {s : Str} (absent : c ∉ s) : c ∉ trim isBlank s :=
  fun member => absent (trim_subset member)

theorem Plain.trim {s : Str} (oneLine : '\n' ∉ s) : Plain (trim isBlank s) :=
  ⟨trim_trim s, not_mem_trim oneLine⟩

/-! ## Lines -/

/-- A line sets a value when it has an `=`, unless it starts with `#`. -/
theorem entry_eq_some :
    entry line = some (key, value) ↔ ∃ l r, line = l ++ '=' :: r ∧ '=' ∉ l ∧ line.head? ≠ some '#' ∧
      key = trim isBlank l ∧ value = trim isBlank r := by
  constructor
  · intro sets
    unfold entry at sets
    split at sets
    · cases sets
    · rename_i written
      push Not at written
      split at sets
      · rename_i equals
        simp only [Option.some.injEq, Prod.mk.injEq] at sets
        obtain ⟨rfl, rfl⟩ := sets
        refine ⟨_, _, ?_, ?_, written.2, rfl, rfl⟩
        · conv_lhs => rw [← List.takeWhile_append_dropWhile (p := (· ≠ '=')) (l := line)]
          congr 1
          cases rest : line.dropWhile (· ≠ '=') with
          | nil =>
            have none := List.dropWhile_eq_nil_iff.mp rest '=' equals
            simp at none
          | cons c r =>
            have filled : line.dropWhile (· ≠ '=') ≠ [] := by simp only [rest, ne_eq, reduceCtorEq, not_false_iff]
            have stop := List.head_dropWhile_not (· ≠ '=') filled
            simp only [rest, List.head_cons] at stop
            simpa using stop
        · intro member
          simpa using List.mem_takeWhile_imp member
      · cases sets
  · rintro ⟨l, r, rfl, plain, comment, rfl, rfl⟩
    have before : ∀ c ∈ l, decide (c ≠ '=') = true := fun c member => by
      rw [decide_eq_true_eq]
      rintro rfl
      exact plain member
    unfold entry
    rw [if_neg (by simpa using comment), if_pos (by simp), List.takeWhile_append_of_pos before,
      dropWhile_padding before]
    simp

/-- What is written into a line is what the line sets. -/
theorem entry_written (named : trim isBlank key = key) (start : key.head? ≠ some '#') (filled : key ≠ [])
    (noEquals : '=' ∉ key) (plain : Plain value) : entry (key ++ '=' :: value) = some (key, value) := by
  refine entry_eq_some.mpr ⟨key, value, rfl, noEquals, ?_, named.symm, plain.trimmed.symm⟩
  rwa [List.head?_append_of_ne_nil _ filled]

theorem plain_of_mem_keyValues (sets : (key, value) ∈ keyValues file) : Plain value := by
  unfold keyValues at sets
  obtain ⟨line, member, set⟩ := List.mem_filterMap.mp (List.mem_reverse.mp sets)
  obtain ⟨l, r, rfl, -, -, -, rfl⟩ := entry_eq_some.mp set
  apply Plain.trim
  intro broken
  exact not_mem_of_split member (by simp [broken])

/-! ## Numbers -/

/-- The characters of a number in decimal. -/
def digits (n : UInt64) : Str := Nat.toDigits 10 n.toNat

theorem isDigit_of_mem_digits {n : UInt64} {c : Char} (member : c ∈ digits n) : c.isDigit = true :=
  Nat.isDigit_of_mem_toDigits (by omega) (by omega) member

theorem digits_ne_nil (n : UInt64) : digits n ≠ [] := Nat.toDigits_ne_nil

theorem signed_digit {c : Char} {s : Str} (digit : c.isDigit = true) : signed (c :: s) = (false, c :: s) := by
  unfold signed
  split
  · rename_i same
    cases same
    simp at digit
  · rename_i same
    cases same
    simp at digit
  · rfl

theorem plain_digits (n : UInt64) : Plain (digits n) := by
  have solid : ∀ c ∈ digits n, isBlank c = false := by
    intro c member
    have digit := isDigit_of_mem_digits member
    rw [Bool.eq_false_iff]
    intro blank
    simp only [isBlank, List.mem_cons, List.not_mem_nil, or_false, decide_eq_true_eq] at blank
    rcases blank with rfl | rfl | rfl | rfl <;> simp at digit
  constructor
  · rw [trim_eq_self_iff]
    exact ⟨fun c first => solid c (List.mem_of_mem_head? first), fun c last =>
      solid c (List.mem_of_mem_getLast? last)⟩
  · intro broken
    simpa [isBlank] using solid _ broken

theorem stoull_digits (n : UInt64) : stoull (digits n) = .ok n := by
  have all : ∀ c ∈ digits n, c.isDigit = true := fun c => isDigit_of_mem_digits
  have noNul : (digits n).takeWhile (· ≠ '\x00') = digits n := by
    rw [List.takeWhile_eq_self_iff]
    intro c member
    have digit := all c member
    rw [decide_eq_true_eq]
    rintro rfl
    simp at digit
  have whole : (digits n).takeWhile Char.isDigit = digits n := List.takeWhile_eq_self_iff.mpr all
  have front : (digits n).dropWhile isSpace = digits n ∧ signed (digits n) = (false, digits n) := by
    cases spelled : digits n with
    | nil => exact absurd spelled (digits_ne_nil n)
    | cons c s =>
      have digit := all c (by simp [spelled])
      refine ⟨List.dropWhile_cons_of_neg fun space => ?_, signed_digit digit⟩
      simp only [isSpace, List.mem_cons, List.not_mem_nil, or_false, decide_eq_true_eq] at space
      rcases space with rfl | rfl | rfl | rfl | rfl | rfl <;> simp at digit
  have read : Nat.ofDigitChars 10 (digits n) 0 = n.toNat := Nat.ofDigitChars_toDigits (by omega) (by omega)
  have small := n.toNat_lt
  simp only [stoull, noNul, front.1, front.2, whole, if_neg (digits_ne_nil n), read,
    if_neg (by omega : ¬ 2 ^ 64 ≤ n.toNat)]
  simp

/-! ## Files -/

namespace Config

/-- The assignments of a configuration. -/
def entries (c : Config) : List (Str × Str) :=
  [("meta.listen_addr".toList, c.metaConfig.listenAddr),
   ("meta.data_dir".toList, c.metaConfig.dataDir),
   ("meta.node_id".toList, digits c.metaConfig.nodeId.toUInt64),
   ("meta.raft_peers".toList, c.metaConfig.raftPeers),
   ("data.listen_addr".toList, c.dataConfig.listenAddr),
   ("data.data_dir".toList, c.dataConfig.dataDir),
   ("data.meta_addr".toList, c.dataConfig.metaAddr),
   ("data.segment_size".toList, digits c.dataConfig.segmentSize),
   ("data.max_segments".toList, digits c.dataConfig.maxSegments.toUInt64),
   ("data.disk_paths".toList, join ',' c.dataConfig.diskPaths),
   ("data.disk_size".toList, digits c.dataConfig.diskSize),
   ("data.wal_blocks".toList, digits c.dataConfig.walBlocks),
   ("client.meta_addr".toList, c.clientConfig.metaAddr)]

/-- A configuration written down, one setting a line. -/
def text (c : Config) : Str := join '\n' (c.entries.map fun b => b.1 ++ '=' :: b.2)

/-- What a file can say. -/
structure Writable (c : Config) : Prop where
  texts : ∀ s ∈ [c.metaConfig.listenAddr, c.metaConfig.dataDir, c.metaConfig.raftPeers, c.dataConfig.listenAddr,
    c.dataConfig.dataDir, c.dataConfig.metaAddr, c.clientConfig.metaAddr], Plain s
  paths : ∀ path ∈ c.dataConfig.diskPaths, Plain path ∧ path ≠ [] ∧ ',' ∉ path
  others : c.clientConfig = { metaAddr := c.clientConfig.metaAddr }

instance (s : Str) : Decidable (Plain s) :=
  decidable_of_iff (trim isBlank s = s ∧ '\n' ∉ s) ⟨fun h => ⟨h.1, h.2⟩, fun h => ⟨h.1, h.2⟩⟩

theorem writable_default : Writable {} :=
  ⟨by decide, by decide, rfl⟩

end Config

theorem diskPaths_valid {value path : Str} (plain : Plain value) (listed : path ∈ diskPaths value) :
    Plain path ∧ path ≠ [] ∧ ',' ∉ path := by
  unfold diskPaths at listed
  obtain ⟨cut, filled⟩ := List.mem_filter.mp listed
  obtain ⟨field, member, rfl⟩ := List.mem_map.mp cut
  have within : '\n' ∉ field := fun broken => plain.oneLine (mem_of_mem_split member broken)
  exact ⟨Plain.trim within, by simpa using filled, not_mem_trim (not_mem_of_split member)⟩

theorem diskPaths_join {paths : List Str} (valid : ∀ path ∈ paths, Plain path ∧ path ≠ [] ∧ ',' ∉ path) :
    diskPaths (join ',' paths) = paths := by
  unfold diskPaths
  rw [split_join fun path listed => (valid path listed).2.2]
  have trimmed : paths.map (trim isBlank) = paths := by
    conv_rhs => rw [← List.map_id paths]
    exact List.map_congr_left fun path listed => (valid path listed).1.trimmed
  rw [trimmed, List.filter_eq_self]
  intro path listed
  simpa using (valid path listed).2.1

theorem plain_join {paths : List Str} (valid : ∀ path ∈ paths, Plain path ∧ path ≠ [] ∧ ',' ∉ path) :
    Plain (join ',' paths) := by
  constructor
  · rw [trim_eq_self_iff]
    constructor
    · intro c first
      cases paths with
      | nil => simp at first
      | cons path paths =>
        obtain ⟨plain, filled, -⟩ := valid path (by simp)
        rw [join_cons, List.head?_append_of_ne_nil _ filled] at first
        exact (trim_eq_self_iff.mp plain.trimmed).1 c first
    · intro c last
      by_cases none : paths = []
      · simp [none] at last
      · rw [getLast?_join none] at last
        cases last
        decide
  · exact not_mem_join (by decide) fun path listed => (valid path listed).1.oneLine

/-- What one setting leaves is writable. -/
theorem assign_writable {s : Assignment} {config after : Config} (made : s ∈ assignments) (plain : Plain value)
    (before : config.Writable) (assigned : s.assign value config = .ok after) : after.Writable := by
  obtain ⟨texts, paths, others⟩ := before
  simp only [List.forall_mem_cons, List.not_mem_nil, false_imp_iff, implies_true, and_true] at texts
  simp only [assignments, List.mem_cons, List.not_mem_nil, or_false] at made
  have number : ∀ {set : UInt64 → Config → Config}, (stoull value).map (fun n => set n config) = .ok after →
      ∃ n, after = set n config := by
    intro set result
    cases read : stoull value with
    | error e =>
      rw [read] at result
      cases result
    | ok n =>
      rw [read] at result
      exact ⟨n, (Except.ok.inj result).symm⟩
  rcases made with rfl | rfl | rfl | rfl | rfl | rfl | rfl | rfl | rfl | rfl | rfl | rfl | rfl
  all_goals
    first
      | obtain ⟨n, rfl⟩ := number assigned
      | obtain rfl := Except.ok.inj assigned
    refine ⟨?_, ?_, ?_⟩
    · simp only [setMeta, setData, setClient, List.forall_mem_cons, List.not_mem_nil, false_imp_iff,
        implies_true, and_true]
      simp only [texts, plain, and_self]
    · first
        | exact paths
        | exact fun path => diskPaths_valid plain
    · simp only [setMeta, setData, setClient]
      rw [others]

theorem populate_writable {kv : List (Str × Str)} (plain : ∀ {k v}, (k, v) ∈ kv → Plain v) {rest : List Assignment}
    (made : rest ⊆ assignments) {config : Config} (before : config.Writable) :
    (populate kv rest config).2.Writable := by
  induction rest generalizing config with
  | nil => exact before
  | cons s rest ih =>
    have later : ∀ {config : Config}, config.Writable → (populate kv rest config).2.Writable :=
      ih fun s' member => made (List.mem_cons_of_mem s member)
    cases found : kv.lookup s.key with
    | none =>
      rw [populate_none found]
      exact later before
    | some value =>
      cases assigned : s.assign value config with
      | error e =>
        rw [populate_error found assigned]
        exact before
      | ok after =>
        obtain ⟨l, r, split, -⟩ := List.lookup_eq_some_iff.mp found
        have value_plain : Plain value := plain (k := s.key) (by simp [split])
        rw [populate_ok found assigned]
        exact later (assign_writable (made (by simp)) value_plain before assigned)

/-! ## Writing -/

/-- Keys that a line can hold before its `=`. -/
theorem keys_valid : ∀ s ∈ assignments, trim isBlank s.key = s.key ∧ s.key.head? ≠ some '#' ∧ s.key ≠ [] ∧
    '=' ∉ s.key ∧ '\n' ∉ s.key := by
  decide

theorem keys_distinct : (assignments.map Assignment.key).Nodup := by
  decide

namespace Config

theorem keys_entries (c : Config) : c.entries.map Prod.fst = assignments.map Assignment.key := rfl

theorem plain_entries {c : Config} (writable : c.Writable) : ∀ b ∈ c.entries, Plain b.2 := by
  obtain ⟨texts, paths, -⟩ := writable
  simp only [List.forall_mem_cons, List.not_mem_nil, false_imp_iff, implies_true, and_true] at texts
  simp only [entries, List.forall_mem_cons, List.not_mem_nil, false_imp_iff, implies_true, and_true]
  simp only [texts, plain_digits, plain_join paths, and_self]

theorem keyValues_text {c : Config} (writable : c.Writable) : keyValues c.text = c.entries.reverse := by
  have valid : ∀ b ∈ c.entries, trim isBlank b.1 = b.1 ∧ b.1.head? ≠ some '#' ∧ b.1 ≠ [] ∧ '=' ∉ b.1 ∧
      '\n' ∉ b.1 := by
    intro b member
    have key : b.1 ∈ assignments.map Assignment.key := by
      rw [← keys_entries c]
      exact List.mem_map_of_mem member
    obtain ⟨s, made, same⟩ := List.mem_map.mp key
    exact same ▸ keys_valid s made
  have plain := plain_entries writable
  unfold keyValues text
  rw [split_join]
  · congr 1
    rw [List.filterMap_map]
    refine (List.filterMap_congr (g := some) fun b member => ?_).trans List.filterMap_some
    obtain ⟨named, start, filled, noEquals, -⟩ := valid b member
    exact entry_written named start filled noEquals (plain b member)
  · intro line member
    obtain ⟨b, listed, rfl⟩ := List.mem_map.mp member
    intro broken
    rcases List.mem_append.mp broken with inKey | rest
    · exact (valid b listed).2.2.2.2 inKey
    · rcases List.mem_cons.mp rest with equals | inValue
      · exact absurd equals (by decide)
      · exact (plain b listed).oneLine inValue

/-- Where every setting has the value of `c`, the assignments make `c`. -/
theorem populate_entries {c : Config} (writable : c.Writable) {kv : List (Str × Str)}
    (set : ∀ b ∈ c.entries, kv.lookup b.1 = some b.2) : populate kv assignments {} = (.ok (), c) := by
  simp only [entries, List.forall_mem_cons, List.not_mem_nil, false_imp_iff, implies_true, and_true] at set
  obtain ⟨h1, h2, h3, h4, h5, h6, h7, h8, h9, h10, h11, h12, h13⟩ := set
  simp only [assignments, populate, Assignment.text, Assignment.number, h1, h2, h3, h4, h5, h6, h7, h8, h9, h10, h11, h12,
    h13, stoull_digits, Except.map, setMeta, setData, setClient, diskPaths_join writable.paths,
    UInt16.toUInt16_toUInt64, UInt32.toUInt32_toUInt64]
  rw [← writable.others]

theorem lookup_entries (c : Config) : ∀ b ∈ c.entries, c.entries.reverse.lookup b.1 = some b.2 := by
  intro b member
  obtain ⟨l, r, split⟩ := List.append_of_mem (List.mem_reverse.mpr member)
  refine List.lookup_eq_some_iff.mpr ⟨l, r, split, fun p inside => ?_⟩
  have distinct : (c.entries.reverse.map Prod.fst).Nodup := by
    rw [List.map_reverse, keys_entries]
    exact List.nodup_reverse.mpr keys_distinct
  rw [split, List.map_append, List.map_cons] at distinct
  have apart := (List.nodup_append.mp distinct).2.2 p.1 (List.mem_map_of_mem inside) b.1 (by simp)
  simpa [bne_iff_ne] using apart.symm

/-- Every load leaves a configuration that can be written down, and every such configuration is read
back from what is written, whatever was configured before. -/
theorem loads_are_writable (old : Config) :
    (∀ file, (old.loadFromFile file).2.Writable) ∧
      ∀ c : Config, c.Writable → old.loadFromFile (some c.text) = (.ok true, c) := by
  constructor
  · intro file
    unfold loadFromFile
    cases file with
    | none => exact writable_default
    | some file =>
      have kept : (populate (keyValues file) assignments {}).2.Writable :=
        populate_writable plain_of_mem_keyValues (List.Subset.refl assignments) writable_default
      dsimp only
      generalize populate (keyValues file) assignments {} = made at kept ⊢
      obtain ⟨out, after⟩ := made
      cases out with
      | error e => exact kept
      | ok => exact kept
  · intro c writable
    have set := lookup_entries c
    rw [← keyValues_text writable] at set
    simp only [loadFromFile, populate_entries writable set]

theorem loads_are_writable_two_disks :
    ({} : Config).loadFromFile
        (some (text { dataConfig := { diskPaths := ["/mnt/a b".toList, "/mnt/c".toList], walBlocks := 8 } })) =
      (.ok true, { dataConfig := { diskPaths := ["/mnt/a b".toList, "/mnt/c".toList], walBlocks := 8 } }) :=
  (loads_are_writable {}).2 _ ⟨by decide, by decide, rfl⟩

end Config

end OpenFS
