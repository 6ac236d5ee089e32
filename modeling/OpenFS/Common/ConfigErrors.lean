import OpenFS.Common.ConfigText

/-!
# Configuration files that cannot be loaded

A load throws at the first setting whose last line has no number to give. What was set before
stays: the configuration is that of the file without its lines for that key and for later ones.
-/

namespace OpenFS

open Fields

variable {value file key : Str} {e : Thrown} {kv kv' : List (Str × Str)} {config after : Config}

/-! ## Numbers -/

/-- White space, an optional sign, the digits of `n`, and anything else. -/
structure Numeral (value : Str) (negative : Bool) (n : Nat) : Prop where
  spelled : ∃ space sign ds rest, value = space ++ (sign ++ (ds ++ rest)) ∧ (∀ c ∈ space, isSpace c = true) ∧
    (if negative then sign = ['-'] else sign = [] ∨ sign = ['+']) ∧ ds ≠ [] ∧ (∀ c ∈ ds, c.isDigit = true) ∧
    (∀ c, rest.head? = some c → c.isDigit = false) ∧ n = Nat.ofDigitChars 10 ds 0

/-- Why a number is refused. -/
def Refused (value : Str) : Thrown → Prop
  | .invalidArgument => ∀ negative n, ¬ Numeral value negative n
  | .outOfRange => ∃ negative n, Numeral value negative n ∧ 2 ^ 64 ≤ n

theorem takeWhile_digits {ds rest : Str} (digits : ∀ c ∈ ds, c.isDigit = true)
    (stop : ∀ c, rest.head? = some c → c.isDigit = false) : (ds ++ rest).takeWhile Char.isDigit = ds := by
  rw [List.takeWhile_append_of_pos digits]
  cases rest with
  | nil => simp
  | cons c rest => rw [List.takeWhile_cons_of_neg (by simp [stop c rfl]), List.append_nil]

theorem ne_nul_of_isDigit {c : Char} (digit : c.isDigit = true) : c ≠ '\x00' := by
  rintro rfl
  simp at digit

theorem isSpace_eq_false_of_isDigit {c : Char} (digit : c.isDigit = true) : isSpace c = false := by
  rw [Bool.eq_false_iff]
  intro space
  simp only [isSpace, List.mem_cons, List.not_mem_nil, or_false, decide_eq_true_eq] at space
  rcases space with rfl | rfl | rfl | rfl | rfl | rfl <;> simp at digit

theorem ne_nul_of_isSpace {c : Char} (space : isSpace c = true) : c ≠ '\x00' := by
  rintro rfl
  simp [isSpace] at space

/-- A sign is read off, and is no white space. -/
theorem signed_append {negative : Bool} {sign ds : Str} {d : Char} (rest : Str)
    (signs : if negative then sign = ['-'] else sign = [] ∨ sign = ['+']) (digit : d.isDigit = true) :
    (sign ++ (d :: ds ++ rest)).dropWhile isSpace = sign ++ (d :: ds ++ rest) ∧
      signed (sign ++ (d :: ds ++ rest)) = (negative, d :: ds ++ rest) := by
  cases negative with
  | true =>
    obtain rfl : sign = ['-'] := by simpa using signs
    exact ⟨List.dropWhile_cons_of_neg (by decide), rfl⟩
  | false =>
    have either : sign = [] ∨ sign = ['+'] := by simpa using signs
    rcases either with rfl | rfl
    · refine ⟨List.dropWhile_cons_of_neg ?_, signed_digit digit⟩
      simp [isSpace_eq_false_of_isDigit digit]
    · exact ⟨List.dropWhile_cons_of_neg (by decide), rfl⟩

/-- A numeral is read, whatever follows it. -/
theorem stoull_numeral {negative : Bool} {n : Nat} (numeral : Numeral value negative n) :
    stoull value = if 2 ^ 64 ≤ n then .error .outOfRange
      else .ok (if negative then -UInt64.ofNat n else UInt64.ofNat n) := by
  obtain ⟨space, sign, ds, rest, rfl, spaces, signs, filled, digits, stop, rfl⟩ := numeral.spelled
  have signNul : ∀ c ∈ sign, c ≠ '\x00' := by
    intro c member
    cases negative with
    | true =>
      obtain rfl : sign = ['-'] := by simpa using signs
      obtain rfl := List.mem_singleton.mp member
      decide
    | false =>
      have either : sign = [] ∨ sign = ['+'] := by simpa using signs
      rcases either with rfl | rfl
      · cases member
      · obtain rfl := List.mem_singleton.mp member
        decide
  have noNul : ∀ c ∈ space ++ (sign ++ ds), decide (c ≠ '\x00') = true := by
    intro c member
    rw [decide_eq_true_eq]
    rcases List.mem_append.mp member with inSpace | member
    · exact ne_nul_of_isSpace (spaces c inSpace)
    · rcases List.mem_append.mp member with inSign | inDigits
      · exact signNul c inSign
      · exact ne_nul_of_isDigit (digits c inDigits)
  have read : (space ++ (sign ++ (ds ++ rest))).takeWhile (· ≠ '\x00') =
      space ++ (sign ++ (ds ++ rest.takeWhile (· ≠ '\x00'))) := by
    have cut : (space ++ (sign ++ ds) ++ rest).takeWhile (· ≠ '\x00') =
        space ++ (sign ++ ds) ++ rest.takeWhile (· ≠ '\x00') := List.takeWhile_append_of_pos noNul
    simpa only [List.append_assoc] using cut
  have stop' : ∀ c, (rest.takeWhile (· ≠ '\x00')).head? = some c → c.isDigit = false := by
    intro c first
    cases rest with
    | nil => simp at first
    | cons a rest =>
      by_cases nul : a = '\x00'
      · simp [nul] at first
      · rw [List.takeWhile_cons_of_pos (by simpa using nul)] at first
        exact stop c first
  obtain ⟨d, ds, rfl⟩ := List.exists_cons_of_ne_nil filled
  obtain ⟨front, sign_read⟩ :=
    @signed_append negative sign ds d (rest.takeWhile (· ≠ '\x00')) signs (digits d (by simp))
  simp only [stoull, read, dropWhile_padding spaces, front, sign_read, takeWhile_digits digits stop',
    if_neg filled]

theorem exists_sign (s : Str) : ∃ sign, s = sign ++ (signed s).2 ∧
    if (signed s).1 then sign = ['-'] else sign = [] ∨ sign = ['+'] := by
  unfold signed
  split
  · exact ⟨['-'], rfl, by simp⟩
  · exact ⟨['+'], rfl, by simp⟩
  · exact ⟨[], rfl, by simp⟩

/-- The head of what `dropWhile` leaves. -/
theorem head_dropWhile {p : Char → Bool} {s : Str} {c : Char} (first : (s.dropWhile p).head? = some c) :
    p c = false := by
  obtain ⟨rest, left⟩ := List.head?_eq_some_iff.mp first
  have filled : s.dropWhile p ≠ [] := by simp [left]
  have stop := List.head_dropWhile_not p filled
  simpa only [left, List.head_cons] using stop

/-- What is not refused as no number is a numeral. -/
theorem numeral_of_stoull (read : stoull value ≠ .error .invalidArgument) :
    ∃ negative n, Numeral value negative n := by
  let text := value.takeWhile (· ≠ '\x00')
  let number := signed (text.dropWhile isSpace)
  let ds := number.2.takeWhile Char.isDigit
  obtain ⟨sign, whole, signs⟩ := exists_sign (text.dropWhile isSpace)
  have filled : ds ≠ [] := by
    intro none
    apply read
    simp only [stoull]
    rw [if_pos none]
  refine ⟨number.1, Nat.ofDigitChars 10 ds 0, ⟨text.takeWhile isSpace, sign, ds,
    number.2.dropWhile Char.isDigit ++ value.dropWhile (· ≠ '\x00'), ?_, ?_, signs, filled, ?_, ?_, rfl⟩⟩
  · calc value = text ++ value.dropWhile (· ≠ '\x00') := List.takeWhile_append_dropWhile.symm
      _ = text.takeWhile isSpace ++ text.dropWhile isSpace ++ value.dropWhile (· ≠ '\x00') := by
        rw [List.takeWhile_append_dropWhile (p := isSpace)]
      _ = text.takeWhile isSpace ++ (sign ++ number.2) ++ value.dropWhile (· ≠ '\x00') := by rw [← whole]
      _ = text.takeWhile isSpace ++ (sign ++ (ds ++ number.2.dropWhile Char.isDigit)) ++
          value.dropWhile (· ≠ '\x00') := by rw [List.takeWhile_append_dropWhile (p := Char.isDigit)]
      _ = _ := by simp only [List.append_assoc]
  · exact fun c member => List.mem_takeWhile_imp member
  · exact fun c member => List.mem_takeWhile_imp member
  · intro c first
    rw [List.head?_append] at first
    cases left : (number.2.dropWhile Char.isDigit).head? with
    | none =>
      rw [left, Option.none_or] at first
      have nul := head_dropWhile first
      obtain rfl : c = '\x00' := by simpa using nul
      decide
    | some c' =>
      rw [left, Option.some_or] at first
      cases first
      exact head_dropWhile left

/-- Numbers are refused for one of two reasons. -/
theorem stoull_error_iff : stoull value = .error e ↔ Refused value e := by
  constructor
  · intro refused
    cases e with
    | invalidArgument =>
      intro negative n numeral
      rw [stoull_numeral numeral] at refused
      split at refused <;> cases refused
    | outOfRange =>
      obtain ⟨negative, n, numeral⟩ := numeral_of_stoull (show stoull value ≠ _ by simp [refused])
      refine ⟨negative, n, numeral, ?_⟩
      rw [stoull_numeral numeral] at refused
      split at refused
      · assumption
      · cases refused
  · intro refused
    cases e with
    | invalidArgument =>
      by_contra read
      obtain ⟨negative, n, numeral⟩ := numeral_of_stoull read
      exact refused negative n numeral
    | outOfRange =>
      obtain ⟨negative, n, numeral, large⟩ := refused
      rw [stoull_numeral numeral, if_pos large]

/-! ## Assignments -/

/-- The keys that need numbers. -/
def numberKeys : List Str :=
  ["meta.node_id", "data.segment_size", "data.max_segments", "data.disk_size", "data.wal_blocks"].map String.toList

/-- Only a number can be refused. -/
theorem assign_error_iff {s : Assignment} (made : s ∈ assignments) :
    s.assign value config = .error e ↔ s.key ∈ numberKeys ∧ stoull value = .error e := by
  have text : ∀ {key set}, key.toList ∉ numberKeys →
      ((Assignment.text key set).assign value config = .error e ↔
        (Assignment.text key set).key ∈ numberKeys ∧ stoull value = .error e) := by
    intro key set other
    constructor
    · intro thrown
      cases thrown
    · intro refused
      exact absurd refused.1 other
  have number : ∀ {key set}, key.toList ∈ numberKeys →
      ((Assignment.number key set).assign value config = .error e ↔
        (Assignment.number key set).key ∈ numberKeys ∧ stoull value = .error e) := by
    intro key set known
    unfold Assignment.number
    simp only [known, true_and]
    cases stoull value <;> simp [Except.map]
  simp only [assignments, List.mem_cons, List.not_mem_nil, or_false] at made
  rcases made with rfl | rfl | rfl | rfl | rfl | rfl | rfl | rfl | rfl | rfl | rfl | rfl | rfl
  all_goals
    first
      | exact text (by decide)
      | exact number (by decide)

/-- Where the assignments stop. -/
theorem populate_error_iff {rest : List Assignment} :
    populate kv rest config = (.error e, after) ↔ ∃ before s later value, rest = before ++ s :: later ∧
      populate kv before config = (.ok (), after) ∧ kv.lookup s.key = some value ∧
      s.assign value after = .error e := by
  induction rest generalizing config with
  | nil => simp
  | cons s rest ih =>
    constructor
    · intro stopped
      cases set : kv.lookup s.key with
      | none =>
        rw [populate_none set] at stopped
        obtain ⟨before, s', later, value, rfl, made, rest⟩ := ih.mp stopped
        exact ⟨s :: before, s', later, value, rfl, (populate_none set).trans made, rest⟩
      | some value =>
        cases assigned : s.assign value config with
        | error e' =>
          rw [populate_error set assigned] at stopped
          cases stopped
          exact ⟨[], s, rest, value, rfl, rfl, set, assigned⟩
        | ok next =>
          rw [populate_ok set assigned] at stopped
          obtain ⟨before, s', later, value', rfl, made, rest⟩ := ih.mp stopped
          exact ⟨s :: before, s', later, value', rfl, (populate_ok set assigned).trans made, rest⟩
    · rintro ⟨before, s', later, value, split, made, set, thrown⟩
      cases before with
      | nil =>
        cases split
        cases made
        exact populate_error set thrown
      | cons s'' before =>
        cases split
        cases set' : kv.lookup s.key with
        | none =>
          rw [populate_none set'] at made ⊢
          exact ih.mpr ⟨before, s', later, value, rfl, made, set, thrown⟩
        | some value' =>
          cases assigned : s.assign value' config with
          | error e' =>
            rw [populate_error set' assigned] at made
            cases made
          | ok next =>
            rw [populate_ok set' assigned] at made ⊢
            exact ih.mpr ⟨before, s', later, value, rfl, made, set, thrown⟩

theorem populate_congr {rest : List Assignment} (same : ∀ s ∈ rest, kv.lookup s.key = kv'.lookup s.key) :
    populate kv rest config = populate kv' rest config := by
  induction rest generalizing config with
  | nil => rfl
  | cons s rest ih =>
    have first := same s (by simp)
    have later : ∀ {config}, populate kv rest config = populate kv' rest config :=
      ih fun s' member => same s' (List.mem_cons_of_mem s member)
    cases set : kv.lookup s.key with
    | none => rw [populate_none set, populate_none (first ▸ set), later]
    | some value =>
      cases assigned : s.assign value config with
      | error e => rw [populate_error set assigned, populate_error (first ▸ set) assigned]
      | ok next => rw [populate_ok set assigned, populate_ok (first ▸ set) assigned, later]

theorem populate_unset {rest : List Assignment} (unset : ∀ s ∈ rest, kv.lookup s.key = none) :
    populate kv rest config = (.ok (), config) := by
  induction rest with
  | nil => rfl
  | cons s rest ih =>
    rw [populate_none (unset s (by simp))]
    exact ih fun s' member => unset s' (List.mem_cons_of_mem s member)

theorem populate_append {before rest : List Assignment} (made : populate kv before config = (.ok (), after)) :
    populate kv (before ++ rest) config = populate kv rest after := by
  induction before generalizing config with
  | nil =>
    cases made
    rfl
  | cons s before ih =>
    rw [List.cons_append]
    cases set : kv.lookup s.key with
    | none =>
      rw [populate_none set] at made ⊢
      exact ih made
    | some value =>
      cases assigned : s.assign value config with
      | error e =>
        rw [populate_error set assigned] at made
        cases made
      | ok next =>
        rw [populate_ok set assigned] at made ⊢
        exact ih made

/-- Where nothing is refused, every value was taken. -/
theorem exists_assign_ok {rest : List Assignment} (made : populate kv rest config = (.ok (), after)) :
    ∀ s ∈ rest, ∀ value, kv.lookup s.key = some value → ∃ c c', s.assign value c = .ok c' := by
  induction rest generalizing config with
  | nil => simp
  | cons s rest ih =>
    intro s' member value set
    cases found : kv.lookup s.key with
    | none =>
      rw [populate_none found] at made
      rcases List.mem_cons.mp member with rfl | later
      · cases found.symm.trans set
      · exact ih made s' later value set
    | some value' =>
      cases assigned : s.assign value' config with
      | error e =>
        rw [populate_error found assigned] at made
        cases made
      | ok next =>
        rw [populate_ok found assigned] at made
        rcases List.mem_cons.mp member with rfl | later
        · cases found.symm.trans set
          exact ⟨config, next, assigned⟩
        · exact ih made s' later value set

/-! ## Files -/

/-- The last line of the file that sets `key` sets `value`. -/
def LastSets (file key value : Str) : Prop :=
  ∃ before line after, split '\n' file = before ++ line :: after ∧ entry line = some (key, value) ∧
    ∀ l ∈ after, ∀ v, entry l ≠ some (key, v)

theorem lookup_eq_some_iff : (keyValues file).lookup key = some value ↔ LastSets file key value := by
  rw [List.lookup_eq_some_iff]
  unfold keyValues
  constructor
  · rintro ⟨later, earlier, cut, other⟩
    have lines : (split '\n' file).filterMap entry = earlier.reverse ++ (key, value) :: later.reverse := by
      rw [← List.reverse_reverse ((split '\n' file).filterMap entry), cut]
      simp
    obtain ⟨before, rest, whole, -, sets⟩ := List.filterMap_eq_append_iff.mp lines
    obtain ⟨silent, line, after, rfl, -, set, behind⟩ := List.filterMap_eq_cons_iff.mp sets
    refine ⟨before ++ silent, line, after, by simpa using whole, set, fun l member v again => ?_⟩
    have listed : (key, v) ∈ later.reverse := by
      rw [← behind]
      exact List.mem_filterMap.mpr ⟨l, member, again⟩
    simpa using other (key, v) (List.mem_reverse.mp listed)
  · rintro ⟨before, line, after, cut, set, other⟩
    refine ⟨(after.filterMap entry).reverse, (before.filterMap entry).reverse, ?_, ?_⟩
    · rw [cut, List.filterMap_append, List.filterMap_cons_some set]
      simp
    · intro p member
      obtain ⟨l, inside, sets⟩ := List.mem_filterMap.mp (List.mem_reverse.mp member)
      rw [bne_iff_ne]
      rintro rfl
      exact other l inside p.2 sets

/-- The file without the lines that set other keys. -/
def onlyKeys (keys : List Str) (file : Str) : Str :=
  join '\n' ((split '\n' file).filter fun line => (entry line).all fun b => decide (b.1 ∈ keys))

theorem keyValues_onlyKeys (keys : List Str) (file : Str) :
    keyValues (onlyKeys keys file) = (keyValues file).filter fun b => decide (b.1 ∈ keys) := by
  unfold keyValues onlyKeys
  rw [split_join fun l member => not_mem_of_split (List.mem_of_mem_filter member), List.filter_reverse]
  congr 1
  induction split '\n' file with
  | nil => rfl
  | cons line lines ih =>
    cases set : entry line with
    | none => rw [List.filter_cons_of_pos (by simp [set]), List.filterMap_cons_none set,
      List.filterMap_cons_none set, ih]
    | some b =>
      rw [List.filterMap_cons_some set]
      by_cases known : b.1 ∈ keys
      · rw [List.filter_cons_of_pos (by simp [set, known]), List.filter_cons_of_pos (by simpa using known),
          List.filterMap_cons_some set, ih]
      · rw [List.filter_cons_of_neg (by simp [set, known]), List.filter_cons_of_neg (by simpa using known), ih]

theorem lookup_filter (keys : List Str) (kv : List (Str × Str)) (key : Str) :
    (kv.filter fun b => decide (b.1 ∈ keys)).lookup key = if key ∈ keys then kv.lookup key else none := by
  induction kv with
  | nil => simp
  | cons b kv ih =>
    by_cases known : b.1 ∈ keys
    · rw [List.filter_cons_of_pos (by simpa using known), List.lookup_cons, List.lookup_cons, ih]
      by_cases same : key = b.1
      · simp [same, known]
      · simp only [beq_false_of_ne same]
    · rw [List.filter_cons_of_neg (by simpa using known), List.lookup_cons, ih]
      by_cases same : key = b.1
      · simp [same, known]
      · simp only [beq_false_of_ne same]

theorem exists_setting_of_number : ∀ key ∈ numberKeys, ∃ s ∈ assignments, s.key = key := by
  decide

namespace Config

variable {old c : Config}

theorem loads_iff : old.loadFromFile (some file) = (.ok true, c) ↔
    populate (keyValues file) assignments {} = (.ok (), c) := by
  unfold loadFromFile
  dsimp only
  generalize populate (keyValues file) assignments {} = made
  obtain ⟨out, left⟩ := made
  cases out <;> simp

theorem throws_iff : old.loadFromFile (some file) = (.error e, c) ↔
    populate (keyValues file) assignments {} = (.error e, c) := by
  unfold loadFromFile
  dsimp only
  generalize populate (keyValues file) assignments {} = made
  obtain ⟨out, left⟩ := made
  cases out <;> simp

/-- In the file with the lines for the first assignments alone, these see the same values and the others
see none. -/
theorem onlyKeys_loads_iff {before rest : List Assignment} (order : assignments = before ++ rest) :
    old.loadFromFile (some (onlyKeys (before.map Assignment.key) file)) = (.ok true, c) ↔
      populate (keyValues file) before {} = (.ok (), c) := by
  rw [loads_iff, keyValues_onlyKeys]
  generalize keyValues file = kv
  have apart := keys_distinct
  rw [order, List.map_append] at apart
  have same : ∀ config, populate (kv.filter fun b => decide (b.1 ∈ before.map Assignment.key)) before config =
      populate kv before config := by
    intro config
    apply populate_congr
    intro s member
    rw [lookup_filter, if_pos (List.mem_map_of_mem member)]
  have unset : ∀ config, populate (kv.filter fun b => decide (b.1 ∈ before.map Assignment.key)) rest config =
      (.ok (), config) := by
    intro config
    apply populate_unset
    intro s member
    rw [lookup_filter, if_neg]
    intro early
    exact (List.nodup_append.mp apart).2.2 _ early _ (List.mem_map_of_mem member) rfl
  rw [order]
  constructor
  · intro made
    obtain ⟨⟨out, left⟩, found⟩ : ∃ r, populate kv before {} = r := ⟨_, rfl⟩
    rw [← same] at found
    cases out with
    | error e =>
      obtain ⟨first, s, later, value, rfl, stopped⟩ := populate_error_iff.mp found
      have refused := populate_error_iff.mpr ⟨first, s, later ++ rest, value,
        List.append_assoc first (s :: later) rest, stopped⟩
      cases made.symm.trans refused
    | ok =>
      rw [populate_append found, unset] at made
      rw [← same]
      exact found.trans made
  · intro made
    rw [← same] at made
    rw [populate_append made, unset]

/-- A file loads when no number is refused. Otherwise the first refusal in the order of the assignments is
thrown, and what is left is the configuration of the file without its lines for that key and the
later ones. -/
theorem loads_or_throws (old : Config) (file : Str) :
    ((old.loadFromFile (some file)).1 = .ok true ↔
      ∀ key ∈ numberKeys, ∀ value, LastSets file key value → ∀ e, ¬ Refused value e) ∧
    ∀ e c, old.loadFromFile (some file) = (.error e, c) ↔
      ∃ before s later value, assignments = before ++ s :: later ∧ s.key ∈ numberKeys ∧ LastSets file s.key value ∧
        Refused value e ∧ old.loadFromFile (some (onlyKeys (before.map Assignment.key) file)) = (.ok true, c) := by
  have stops : ∀ e c, old.loadFromFile (some file) = (.error e, c) ↔
      ∃ before s later value, assignments = before ++ s :: later ∧ s.key ∈ numberKeys ∧ LastSets file s.key value ∧
        Refused value e ∧ old.loadFromFile (some (onlyKeys (before.map Assignment.key) file)) = (.ok true, c) := by
    intro e c
    have mem : ∀ {before s later}, assignments = before ++ s :: later → s ∈ assignments := by
      intro before s later order
      rw [order]
      exact List.mem_append_cons_self
    rw [throws_iff, populate_error_iff]
    constructor
    · rintro ⟨before, s, later, value, order, made, set, thrown⟩
      obtain ⟨number, refused⟩ := (assign_error_iff (mem order)).mp thrown
      exact ⟨before, s, later, value, order, number, lookup_eq_some_iff.mp set, stoull_error_iff.mp refused,
        (onlyKeys_loads_iff order).mpr made⟩
    · rintro ⟨before, s, later, value, order, number, set, refused, made⟩
      exact ⟨before, s, later, value, order, (onlyKeys_loads_iff order).mp made, lookup_eq_some_iff.mpr set,
        (assign_error_iff (mem order)).mpr ⟨number, stoull_error_iff.mpr refused⟩⟩
  refine ⟨⟨fun loaded key number value set e refused => ?_, fun fine => ?_⟩, stops⟩
  · obtain ⟨s, made, rfl⟩ := exists_setting_of_number key number
    obtain ⟨c, found⟩ : ∃ c, old.loadFromFile (some file) = (.ok true, c) := ⟨_, Prod.ext loaded rfl⟩
    obtain ⟨c, c', taken⟩ := exists_assign_ok (loads_iff.mp found) s made value (lookup_eq_some_iff.mpr set)
    have thrown : s.assign value c = .error e := (assign_error_iff made).mpr ⟨number, stoull_error_iff.mpr refused⟩
    cases taken.symm.trans thrown
  · obtain ⟨⟨out, c⟩, made⟩ : ∃ r, populate (keyValues file) assignments {} = r := ⟨_, rfl⟩
    cases out with
    | error e =>
      obtain ⟨before, s, later, value, order, number, set, refused, -⟩ := (stops e c).mp (throws_iff.mpr made)
      exact absurd refused (fine s.key number value set e)
    | ok => exact congrArg Prod.fst (loads_iff.mpr made)

end Config

end OpenFS
