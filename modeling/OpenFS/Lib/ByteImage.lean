import Mathlib.Algebra.Group.Nat.Defs
import Mathlib.Data.List.Basic

/-!
# Byte images of files

An `Image` is the content of a file: its size, and its bytes, which are zero
past the end. Writing past the end grows the file and leaves zeros in a hole.
`toLE` and `fromLE` lay numbers out in bytes, least significant first.
-/

namespace ByteImage

@[ext] structure Image where
  size : Nat
  byte : Nat → UInt8
  zero_tail : ∀ i, size ≤ i → byte i = 0

namespace Image

/-- A file of `n` zeros. -/
def zeros (n : Nat) : Image := ⟨n, fun _ => 0, fun _ _ => rfl⟩

def empty : Image := zeros 0

/-- The `n` bytes from offset `off` on, zeros past the end. -/
def bytes (img : Image) (off n : Nat) : List UInt8 := (List.range n).map fun i => img.byte (off + i)

/-- Bytes `bs` laid over the image at `off`; writing nothing does not grow it. -/
def write (img : Image) (off : Nat) (bs : List UInt8) : Image where
  size := if bs = [] then img.size else max img.size (off + bs.length)
  byte i := if off ≤ i ∧ i < off + bs.length then bs.getD (i - off) 0 else img.byte i
  zero_tail := by
    intro i past
    split at past
    · next nothing => subst nothing; simpa using img.zero_tail i past
    · rw [if_neg (by omega)]
      exact img.zero_tail i (by omega)

/-- The content of a file that holds exactly `bs`. -/
def ofBytes (bs : List UInt8) : Image := empty.write 0 bs

@[simp] theorem length_bytes (img : Image) (off n : Nat) : (img.bytes off n).length = n := by
  simp [bytes]

theorem getElem_bytes (img : Image) (off n i : Nat) (h : i < (img.bytes off n).length) :
    (img.bytes off n)[i] = img.byte (off + i) := by
  simp [bytes]

@[simp] theorem bytes_zero (img : Image) (off : Nat) : img.bytes off 0 = [] := rfl

theorem bytes_congr {a b : Image} {off off' n : Nat}
    (same : ∀ i, i < n → a.byte (off + i) = b.byte (off' + i)) : a.bytes off n = b.bytes off' n := by
  unfold bytes
  apply List.map_congr_left
  intro i member
  exact same i (List.mem_range.mp member)

theorem bytes_add (img : Image) (off n m : Nat) :
    img.bytes off (n + m) = img.bytes off n ++ img.bytes (off + n) m := by
  unfold bytes
  rw [List.range_add, List.map_append, List.map_map]
  congr 1
  apply List.map_congr_left
  intro i _
  simp [Nat.add_assoc]

theorem take_bytes (img : Image) (off n m : Nat) (h : m ≤ n) : (img.bytes off n).take m = img.bytes off m := by
  obtain ⟨k, rfl⟩ := Nat.exists_eq_add_of_le h
  rw [bytes_add, List.take_left' (length_bytes ..)]

theorem write_byte_of_outside {img : Image} {off : Nat} {bs : List UInt8} {i : Nat}
    (outside : i < off ∨ off + bs.length ≤ i) : (img.write off bs).byte i = img.byte i := by
  apply if_neg
  omega

theorem write_byte_of_inside {img : Image} {off : Nat} {bs : List UInt8} {i : Nat} (h : i < bs.length) :
    (img.write off bs).byte (off + i) = bs[i] := by
  show (if off ≤ off + i ∧ off + i < off + bs.length then bs.getD (off + i - off) 0 else _) = _
  rw [if_pos (by omega), Nat.add_sub_cancel_left]
  simp [h]

/-- A write that stays inside the file does not change its size. -/
theorem write_size_of_inside {img : Image} {off : Nat} {bs : List UInt8} (h : off + bs.length ≤ img.size) :
    (img.write off bs).size = img.size := by
  show (if bs = [] then _ else _) = _
  split
  · rfl
  · omega

/-- A write at the end of the file appends. -/
theorem write_size_of_end (img : Image) (bs : List UInt8) :
    (img.write img.size bs).size = img.size + bs.length := by
  show (if bs = [] then _ else _) = _
  split
  · next nothing => rw [nothing, List.length_nil, Nat.add_zero]
  · omega

@[simp] theorem size_ofBytes (bs : List UInt8) : (ofBytes bs).size = bs.length := by
  have appended := write_size_of_end empty bs
  rwa [show empty.size = 0 from rfl, Nat.zero_add] at appended

theorem byte_ofBytes {bs : List UInt8} {i : Nat} (h : i < bs.length) : (ofBytes bs).byte i = bs[i] := by
  have inside := @write_byte_of_inside empty 0 _ _ h
  rwa [Nat.zero_add] at inside

/-- Zeros past the end change no byte. -/
theorem byte_write_zeros (img : Image) {off n : Nat} (past : img.size ≤ off) (i : Nat) :
    (img.write off (List.replicate n 0)).byte i = img.byte i := by
  by_cases inside : off ≤ i ∧ i < off + (List.replicate n (0 : UInt8)).length
  · obtain ⟨k, rfl⟩ := Nat.exists_eq_add_of_le inside.1
    rw [write_byte_of_inside (by omega), List.getElem_replicate, img.zero_tail _ (by omega)]
  · exact write_byte_of_outside (by omega)

theorem size_le_write (img : Image) (off : Nat) (bs : List UInt8) : img.size ≤ (img.write off bs).size := by
  show _ ≤ (if bs = [] then _ else _)
  split
  · exact Nat.le_refl _
  · omega

/-- The file reaches as far as what was written. -/
theorem end_le_size_write (img : Image) (off : Nat) {bs : List UInt8} (some : bs ≠ []) :
    off + bs.length ≤ (img.write off bs).size := by
  show _ ≤ (if bs = [] then _ else _)
  rw [if_neg some]
  exact Nat.le_max_right _ _

/-- Reading back what was written. -/
theorem bytes_write_same (img : Image) (off : Nat) (bs : List UInt8) :
    (img.write off bs).bytes off bs.length = bs := by
  apply List.ext_getElem
  · simp
  · intro i _ h
    rw [getElem_bytes, write_byte_of_inside h]

theorem bytes_ofBytes (bs : List UInt8) : (ofBytes bs).bytes 0 bs.length = bs := bytes_write_same empty 0 bs

/-- A range that the write does not meet. -/
theorem bytes_write_of_disjoint {img : Image} {off n o : Nat} {bs : List UInt8}
    (apart : off + n ≤ o ∨ o + bs.length ≤ off) : (img.write o bs).bytes off n = img.bytes off n := by
  apply bytes_congr
  intro i h
  apply write_byte_of_outside
  omega

/-- The first `n` bytes of one list laid over another that goes on like it. -/
theorem write_take_of_drop (img : Image) (off : Nat) {bs bs' : List UInt8} {n : Nat}
    (length : bs.length = bs'.length) (tail : bs.drop n = bs'.drop n) :
    (img.write off bs).write off (bs'.take n) = img.write off bs' := by
  have short : (bs'.take n).length = min n bs.length := by rw [List.length_take, length]
  by_cases nothing : bs = []
  · subst nothing
    obtain rfl := List.length_eq_zero_iff.mp length.symm
    rw [List.take_nil]
    apply Image.ext
    · rfl
    · funext i
      exact write_byte_of_outside (by simp only [List.length_nil]; omega)
  have something : bs' ≠ [] := fun none => nothing (List.length_eq_zero_iff.mp (by rw [length, none, List.length_nil]))
  apply Image.ext
  · have inside := end_le_size_write img off nothing
    rw [write_size_of_inside (by omega)]
    show (if _ then _ else _) = (if _ then _ else _)
    rw [if_neg nothing, if_neg something, length]
  · funext i
    by_cases within : off ≤ i ∧ i < off + bs.length
    · obtain ⟨k, rfl⟩ := Nat.exists_eq_add_of_le within.1
      rw [@write_byte_of_inside _ _ bs' _ (by omega)]
      by_cases front : k < n
      · rw [write_byte_of_inside (by omega), List.getElem_take]
      · rw [write_byte_of_outside (by omega), write_byte_of_inside (by omega)]
        have same := congrArg (·[k - n]?) tail
        simp only [List.getElem?_drop, Nat.add_sub_cancel' (Nat.le_of_not_lt front)] at same
        rw [List.getElem?_eq_getElem (by omega), List.getElem?_eq_getElem (by omega)] at same
        exact Option.some.inj same
    · rw [write_byte_of_outside (by omega), write_byte_of_outside (by omega), write_byte_of_outside (by omega)]

end Image

/-! ## Numbers in bytes -/

/-- The low `n` bytes of `x`, least significant first. -/
def toLE (n x : Nat) : List UInt8 := (List.range n).map fun i => UInt8.ofNat (x / 256 ^ i)

/-- The number that the bytes spell. -/
def fromLE : List UInt8 → Nat
  | [] => 0
  | b :: bs => b.toNat + 256 * fromLE bs

@[simp] theorem length_toLE (n x : Nat) : (toLE n x).length = n := by simp [toLE]

theorem toLE_succ (n x : Nat) : toLE (n + 1) x = UInt8.ofNat x :: toLE n (x / 256) := by
  unfold toLE
  rw [List.range_succ_eq_map, List.map_cons, List.map_map]
  simp only [Nat.pow_zero, Nat.div_one, List.cons.injEq, true_and]
  apply List.map_congr_left
  intro i _
  simp only [Function.comp, Nat.div_div_eq_div_mul, Nat.pow_succ, Nat.mul_comm]

theorem fromLE_toLE (n x : Nat) : fromLE (toLE n x) = x % 256 ^ n := by
  induction n generalizing x with
  | zero => simp [toLE, fromLE, Nat.mod_one]
  | succ n ih =>
    rw [toLE_succ, fromLE, ih, UInt8.toNat_ofNat', show 2 ^ 8 = 256 from rfl, Nat.pow_succ', Nat.mod_mul]

/-! ## Machine integers in bytes -/

theorem uint8_ofNat_fromLE (x : UInt8) : UInt8.ofNat (fromLE [x]) = x := by simp [fromLE]

theorem uint16_ofNat_fromLE (x : UInt16) : UInt16.ofNat (fromLE (toLE 2 x.toNat)) = x := by
  rw [fromLE_toLE, show 256 ^ 2 = 2 ^ 16 from rfl, Nat.mod_eq_of_lt x.toNat_lt, UInt16.ofNat_toNat]

theorem uint32_ofNat_fromLE (x : UInt32) : UInt32.ofNat (fromLE (toLE 4 x.toNat)) = x := by
  rw [fromLE_toLE, show 256 ^ 4 = 2 ^ 32 from rfl, Nat.mod_eq_of_lt x.toNat_lt, UInt32.ofNat_toNat]

theorem uint64_ofNat_fromLE (x : UInt64) : UInt64.ofNat (fromLE (toLE 8 x.toNat)) = x := by
  rw [fromLE_toLE, show 256 ^ 8 = 2 ^ 64 from rfl, Nat.mod_eq_of_lt x.toNat_lt, UInt64.ofNat_toNat]

end ByteImage
