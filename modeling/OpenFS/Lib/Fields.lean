import Mathlib.Data.List.DropRight
import Mathlib.Data.List.TakeWhile

/-!
# Delimited fields and padding

Text is cut into fields at each delimiter, as a reader that asks for one field at a time does:
a field ends at a delimiter or where the text ends, and nothing follows a last delimiter.
`trim` takes padding off both ends of a field.
-/

namespace Fields

variable {α : Type} {d : α} {pad : α → Bool} {l s : List α} {ls : List (List α)}

/-- The fields of a text. -/
def split [DecidableEq α] (d : α) : List α → List (List α)
  | [] => []
  | c :: cs =>
    if c = d then [] :: split d cs
    else
      match split d cs with
      | [] => [[c]]
      | l :: ls => (c :: l) :: ls

/-- Fields, each with a delimiter behind it. -/
def join (d : α) (ls : List (List α)) : List α := ls.flatMap fun l => l ++ [d]

@[simp] theorem join_nil : join d [] = [] := rfl

@[simp] theorem join_cons : join d (l :: ls) = l ++ d :: join d ls := by simp [join]

theorem getLast?_join (filled : ls ≠ []) : (join d ls).getLast? = some d := by
  rcases List.eq_nil_or_concat' ls with rfl | ⟨ls, l, rfl⟩
  · exact absurd rfl filled
  · simp [join]

theorem not_mem_join {c : α} (other : c ≠ d) (absent : ∀ l ∈ ls, c ∉ l) : c ∉ join d ls := by
  intro member
  obtain ⟨l, listed, inside⟩ := List.mem_flatMap.mp member
  rcases List.mem_append.mp inside with inside | delimiter
  · exact absent l listed inside
  · exact other (by simpa using delimiter)

section
variable [DecidableEq α]

@[simp] theorem split_nil : split d [] = [] := rfl

@[simp] theorem split_delimiter (s : List α) : split d (d :: s) = [] :: split d s := by simp [split]

/-- The text up to the first delimiter is a field. -/
theorem split_append (plain : d ∉ l) (s : List α) : split d (l ++ d :: s) = l :: split d s := by
  induction l with
  | nil => simp
  | cons c l ih =>
    have other : c ≠ d := fun same => plain (by simp [same])
    have rest := ih fun member => plain (by simp [member])
    rw [List.cons_append, split, if_neg other, rest]

theorem split_join_append (plain : ∀ l ∈ ls, d ∉ l) (s : List α) :
    split d (join d ls ++ s) = ls ++ split d s := by
  induction ls with
  | nil => simp
  | cons l ls ih =>
    rw [join_cons, List.append_assoc, List.cons_append, split_append (plain l (by simp)),
      ih fun l' member => plain l' (by simp [member]), List.cons_append]

theorem split_join (plain : ∀ l ∈ ls, d ∉ l) : split d (join d ls) = ls := by
  have cut := split_join_append plain []
  simpa using cut

/-- No field holds a delimiter. -/
theorem not_mem_of_split (member : l ∈ split d s) : d ∉ l := by
  induction s generalizing l with
  | nil => simp at member
  | cons c s ih =>
    rw [split] at member
    split at member
    · rcases List.mem_cons.mp member with rfl | later
      · simp
      · exact ih later
    · rename_i other
      split at member
      · rename_i ended
        obtain rfl : l = [c] := by simpa using member
        simpa using fun same => other same.symm
      · rename_i l' ls found
        rcases List.mem_cons.mp member with rfl | later
        · have first := ih (l := l') (by simp [found])
          simpa [first] using fun same => other same.symm
        · exact ih (by simp [found, later])

theorem mem_of_mem_split {c : α} (field : l ∈ split d s) (member : c ∈ l) : c ∈ s := by
  induction s generalizing l with
  | nil => simp at field
  | cons a s ih =>
    rw [split] at field
    split at field
    · rcases List.mem_cons.mp field with rfl | later
      · simp at member
      · exact List.mem_cons_of_mem _ (ih later member)
    · split at field
      · obtain rfl : l = [a] := by simpa using field
        exact List.mem_cons.mpr (.inl (by simpa using member))
      · rename_i l' ls found
        rcases List.mem_cons.mp field with rfl | later
        · rcases List.mem_cons.mp member with rfl | inside
          · simp
          · exact List.mem_cons_of_mem _ (ih (l := l') (by simp [found]) inside)
        · exact List.mem_cons_of_mem _ (ih (by simp [found, later]) member)

end

/-! ## Padding -/

/-- A field without the padding at its ends. -/
def trim (pad : α → Bool) (s : List α) : List α := (s.dropWhile pad).rdropWhile pad

@[simp] theorem trim_nil : trim pad [] = [] := rfl

theorem dropWhile_padding (padding : ∀ c ∈ l, pad c) (s : List α) :
    (l ++ s).dropWhile pad = s.dropWhile pad := by
  induction l with
  | nil => rfl
  | cons c l ih =>
    rw [List.cons_append, List.dropWhile_cons_of_pos (padding c (by simp)),
      ih fun c' member => padding c' (by simp [member])]

theorem trim_subset : trim pad s ⊆ s := fun _ member =>
  (List.dropWhile_sublist pad).subset ((List.rdropWhile_prefix pad _).subset member)

/-- What trimming leaves as it is starts and ends outside the padding. -/
theorem trim_eq_self_iff : trim pad s = s ↔
    (∀ c, s.head? = some c → pad c = false) ∧ (∀ c, s.getLast? = some c → pad c = false) := by
  have front : (∀ c, s.head? = some c → pad c = false) → s.dropWhile pad = s := by
    intro first
    cases s with
    | nil => rfl
    | cons c s => exact List.dropWhile_cons_of_neg (by simp [first c rfl])
  constructor
  · intro trimmed
    have first : ∀ c, s.head? = some c → pad c = false := by
      intro c head
      cases s with
      | nil => simp at head
      | cons a s =>
        obtain rfl : a = c := by simpa using head
        rw [Bool.eq_false_iff]
        intro padding
        have shorter := (List.rdropWhile_prefix pad ((a :: s).dropWhile pad)).length_le
        have kept := congrArg List.length trimmed
        unfold trim at kept
        rw [List.dropWhile_cons_of_pos padding] at shorter kept
        have rest := (List.dropWhile_sublist pad (l := s)).length_le
        rw [List.length_cons] at kept
        omega
    refine ⟨first, fun c last => ?_⟩
    unfold trim at trimmed
    rw [front first, List.rdropWhile_eq_self_iff] at trimmed
    obtain ⟨before, rfl⟩ := List.getLast?_eq_some_iff.mp last
    simpa using trimmed (by simp)
  · rintro ⟨first, last⟩
    unfold trim
    rw [front first, List.rdropWhile_eq_self_iff]
    intro filled
    simp [last _ (List.getLast?_eq_some_getLast filled)]

/-- Trimming once is enough. -/
theorem trim_trim (s : List α) : trim pad (trim pad s) = trim pad s := by
  obtain ⟨rest, whole⟩ := List.rdropWhile_prefix pad (s.dropWhile pad)
  have front : (trim pad s).dropWhile pad = trim pad s := by
    unfold trim
    cases kept : (s.dropWhile pad).rdropWhile pad with
    | nil => rfl
    | cons c t =>
      have stays := List.dropWhile_idempotent pad s
      rw [← whole, kept, List.cons_append] at stays
      apply List.dropWhile_cons_of_neg
      intro padding
      rw [List.dropWhile_cons_of_pos padding] at stays
      have shorter := (List.dropWhile_sublist pad (l := t ++ rest)).length_le
      rw [stays, List.length_cons] at shorter
      omega
  show ((trim pad s).dropWhile pad).rdropWhile pad = _
  rw [front]
  exact List.rdropWhile_idempotent pad _

end Fields
