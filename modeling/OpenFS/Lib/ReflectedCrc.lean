import Mathlib.Logic.Function.Iterate

/-!
# Reflected cyclic redundancy checks

The remainder is shifted to the right one bit at a time, and bytes enter at its low end.
A shift is linear in exclusive or, so eight of them can be read from a table of 256
remainders. If the polynomial has its highest bit, a shift can be undone, and then the
remainder tells all bytes of a message that is no longer than itself.
-/

namespace ReflectedCrc

variable {w : Nat}

/-- Shift one bit out; the polynomial is added if it was set. -/
def bitStep (poly c : BitVec w) : BitVec w := if c.getLsbD 0 then (c >>> 1) ^^^ poly else c >>> 1

/-- A byte enters, and its bits are shifted out. -/
def byteStep (poly c : BitVec w) (byte : BitVec 8) : BitVec w := (bitStep poly)^[8] (c ^^^ byte.setWidth w)

/-- The remainder after some bytes. -/
def remainder (poly init : BitVec w) (bytes : List (BitVec 8)) : BitVec w := bytes.foldl (byteStep poly) init

/-- The bytes as one number, the first one lowest. -/
def word : List (BitVec 8) → BitVec w
  | [] => 0
  | byte :: bytes => byte.setWidth w ^^^ (word bytes <<< 8)

section
variable {poly : BitVec w}

/-! ## Linearity -/

theorem bitStep_xor (a b : BitVec w) : bitStep poly (a ^^^ b) = bitStep poly a ^^^ bitStep poly b := by
  unfold bitStep
  rw [BitVec.getLsbD_xor, BitVec.ushiftRight_xor_distrib]
  cases a.getLsbD 0 <;> cases b.getLsbD 0
  · rfl
  · exact BitVec.xor_assoc ..
  · show (a >>> 1 ^^^ b >>> 1) ^^^ poly = a >>> 1 ^^^ poly ^^^ b >>> 1
    ac_rfl
  · show a >>> 1 ^^^ b >>> 1 = (a >>> 1 ^^^ poly) ^^^ (b >>> 1 ^^^ poly)
    rw [BitVec.xor_assoc, BitVec.xor_comm poly, BitVec.xor_assoc, BitVec.xor_self, BitVec.xor_zero]

theorem bitSteps_xor (n : Nat) (a b : BitVec w) :
    (bitStep poly)^[n] (a ^^^ b) = (bitStep poly)^[n] a ^^^ (bitStep poly)^[n] b := by
  induction n generalizing a b with
  | zero => rfl
  | succ n ih => rw [Function.iterate_succ_apply, Function.iterate_succ_apply, Function.iterate_succ_apply,
    bitStep_xor, ih]

/-- Bits that are clear are only shifted out. -/
theorem bitSteps_of_clear {c : BitVec w} {n : Nat} (clear : ∀ i < n, c.getLsbD i = false) :
    (bitStep poly)^[n] c = c >>> n := by
  induction n with
  | zero => exact (BitVec.ushiftRight_zero c).symm
  | succ n ih =>
    have low : (c >>> n).getLsbD 0 = false := by
      rw [BitVec.getLsbD_ushiftRight]
      exact clear n (Nat.lt_succ_self n)
    rw [Function.iterate_succ_apply', ih fun i below => clear i (Nat.lt_succ_of_lt below)]
    unfold bitStep
    rw [if_neg (by simp [low]), BitVec.shiftRight_add]

/-- What is above the byte that is shifted out. -/
theorem bitSteps_xor_shiftLeft {a b : BitVec w} {n : Nat} (whole : (b <<< n) >>> n = b) :
    (bitStep poly)^[n] (a ^^^ (b <<< n)) = (bitStep poly)^[n] a ^^^ b := by
  have clear : ∀ i < n, (b <<< n).getLsbD i = false := fun i below => by simp [below]
  rw [bitSteps_xor, bitSteps_of_clear clear, whole]

/-! ## The table -/

/-- One table lookup instead of eight shifts: the low byte is the index. -/
theorem byteStep_eq (c : BitVec w) (byte : BitVec 8) :
    byteStep poly c byte =
      c >>> 8 ^^^ (bitStep poly)^[8] (((c ^^^ byte.setWidth w).setWidth 8).setWidth w) := by
  have upper : (c ^^^ byte.setWidth w) >>> 8 = c >>> 8 := by
    apply BitVec.eq_of_getLsbD_eq
    intro i _
    simp [BitVec.getLsbD_xor, BitVec.getLsbD_setWidth]
  unfold byteStep
  rw [← upper]
  generalize c ^^^ byte.setWidth w = d
  have parts : d = (d.setWidth 8).setWidth w ^^^ (d ^^^ (d.setWidth 8).setWidth w) := by
    rw [BitVec.xor_comm d, ← BitVec.xor_assoc, BitVec.xor_self, BitVec.zero_xor]
  have clear : ∀ i < 8, (d ^^^ (d.setWidth 8).setWidth w).getLsbD i = false := by
    intro i below
    by_cases inside : i < w
    · simp [below, inside]
    · exact BitVec.getLsbD_of_ge _ _ (Nat.le_of_not_lt inside)
  have high : (d ^^^ (d.setWidth 8).setWidth w) >>> 8 = d >>> 8 := by
    apply BitVec.eq_of_getLsbD_eq
    intro i _
    simp [BitVec.getLsbD_xor, BitVec.getLsbD_setWidth]
  calc (bitStep poly)^[8] d
      = (bitStep poly)^[8] ((d.setWidth 8).setWidth w ^^^ (d ^^^ (d.setWidth 8).setWidth w)) := congrArg _ parts
    _ = d >>> 8 ^^^ (bitStep poly)^[8] ((d.setWidth 8).setWidth w) := by
        rw [bitSteps_xor, bitSteps_of_clear clear, high, BitVec.xor_comm]

/-! ## Nothing is lost -/

/-- The highest bit of the result tells whether the polynomial was added. -/
theorem bitStep_injective (top : poly.msb = true) : Function.Injective (bitStep poly) := by
  intro a b same
  have positive : 0 < w := by
    rcases Nat.eq_zero_or_pos w with rfl | positive
    · rw [BitVec.eq_nil poly] at top
      cases top
    · exact positive
  have highest (c : BitVec w) : (bitStep poly c).getLsbD (w - 1) = c.getLsbD 0 := by
    rw [BitVec.msb_eq_getLsbD_last] at top
    have gone : (c >>> 1).getLsbD (w - 1) = false := by
      rw [BitVec.getLsbD_ushiftRight]
      exact BitVec.getLsbD_of_ge _ _ (by omega)
    unfold bitStep
    cases c.getLsbD 0
    · exact gone
    · show ((c >>> 1) ^^^ poly).getLsbD (w - 1) = true
      rw [BitVec.getLsbD_xor, gone, top, Bool.false_xor]
  have low : a.getLsbD 0 = b.getLsbD 0 := by rw [← highest a, ← highest b, same]
  have rest : a >>> 1 = b >>> 1 := by
    unfold bitStep at same
    rw [low] at same
    by_cases odd : b.getLsbD 0 = true
    · rw [if_pos odd, if_pos odd] at same
      exact (BitVec.xor_left_inj poly).mp same
    · rwa [if_neg odd, if_neg odd] at same
  apply BitVec.eq_of_getLsbD_eq
  intro i inside
  cases i with
  | zero => exact low
  | succ i =>
    have bit := congrArg (fun c => BitVec.getLsbD c i) rest
    rwa [BitVec.getLsbD_ushiftRight, BitVec.getLsbD_ushiftRight, Nat.add_comm] at bit

theorem byteStep_injective (top : poly.msb = true) (byte : BitVec 8) :
    Function.Injective fun c => byteStep poly c byte := by
  intro a b same
  exact (BitVec.xor_left_inj _).mp ((bitStep_injective top).iterate 8 same)

/-- The same bytes keep different remainders different. -/
theorem remainder_injective (top : poly.msb = true) (bytes : List (BitVec 8)) :
    Function.Injective fun c => remainder poly c bytes := by
  induction bytes with
  | nil => exact fun _ _ same => same
  | cons byte bytes ih => exact fun _ _ same => byteStep_injective top byte (ih same)

theorem word_clear {bytes : List (BitVec 8)} {i : Nat} (past : 8 * bytes.length ≤ i) :
    (word bytes : BitVec w).getLsbD i = false := by
  induction bytes generalizing i with
  | nil => exact BitVec.getLsbD_zero
  | cons byte bytes ih =>
    rw [List.length_cons] at past
    unfold word
    rw [BitVec.getLsbD_xor, BitVec.getLsbD_shiftLeft, ih (by omega), BitVec.getLsbD_setWidth,
      BitVec.getLsbD_of_ge byte i (by omega)]
    simp

/-- Below the width nothing of it is shifted away. -/
theorem word_shiftLeft {bytes : List (BitVec 8)} {k : Nat} (fits : 8 * bytes.length + k ≤ w) :
    ((word bytes : BitVec w) <<< k) >>> k = word bytes := by
  apply BitVec.eq_of_getLsbD_eq
  intro i _
  rw [BitVec.getLsbD_ushiftRight, BitVec.getLsbD_shiftLeft]
  by_cases inside : k + i < w
  · simp [inside]
  · rw [word_clear (i := i) (by omega)]
    simp [inside]

/-- Bytes that fit into the remainder can enter at once. -/
theorem remainder_eq_word {bytes : List (BitVec 8)} (fits : 8 * bytes.length ≤ w) (c : BitVec w) :
    remainder poly c bytes = (bitStep poly)^[8 * bytes.length] (c ^^^ word bytes) := by
  induction bytes generalizing c with
  | nil => exact (BitVec.xor_zero (x := c)).symm
  | cons byte bytes ih =>
    rw [List.length_cons] at fits
    have whole : ((word bytes : BitVec w) <<< 8) >>> 8 = word bytes := word_shiftLeft (by omega)
    calc remainder poly c (byte :: bytes)
        = (bitStep poly)^[8 * bytes.length] (byteStep poly c byte ^^^ word bytes) := ih (by omega) _
      _ = (bitStep poly)^[8 * bytes.length] ((bitStep poly)^[8] (c ^^^ byte.setWidth w ^^^ word bytes <<< 8)) := by
          rw [bitSteps_xor_shiftLeft whole]
          rfl
      _ = (bitStep poly)^[8 * (byte :: bytes).length] (c ^^^ word (byte :: bytes)) := by
          rw [← Function.iterate_add_apply, BitVec.xor_assoc, List.length_cons, Nat.mul_succ]
          rfl

theorem word_injective {as bs : List (BitVec 8)} (length : as.length = bs.length) (fits : 8 * bs.length ≤ w)
    (same : (word as : BitVec w) = word bs) : as = bs := by
  induction as generalizing bs with
  | nil => exact (List.eq_nil_of_length_eq_zero length.symm).symm
  | cons a as ih =>
    cases bs with
    | nil => cases length
    | cons b bs =>
      rw [List.length_cons, List.length_cons] at length
      rw [List.length_cons] at fits
      unfold word at same
      have bits (i : Nat) := congrArg (fun c => BitVec.getLsbD c i) same
      simp only [BitVec.getLsbD_xor, BitVec.getLsbD_setWidth, BitVec.getLsbD_shiftLeft] at bits
      have first : a = b := by
        apply BitVec.eq_of_getLsbD_eq
        intro i below
        have bit := bits i
        simpa [below, show i < w by omega] using bit
      have rest : (word as : BitVec w) = word bs := by
        apply BitVec.eq_of_getLsbD_eq
        intro i _
        by_cases inside : i + 8 < w
        · have bit := bits (i + 8)
          rw [first] at bit
          simpa [inside, show ¬ i + 8 < 8 by omega] using bit
        · rw [word_clear (by omega), word_clear (by omega)]
      rw [first, ih (by omega) (by omega) rest]

/-- Different messages of the same length that fit into the remainder leave different ones. -/
theorem remainder_ne {as bs : List (BitVec 8)} (top : poly.msb = true) (length : as.length = bs.length)
    (fits : 8 * bs.length ≤ w) (other : as ≠ bs) (c : BitVec w) : remainder poly c as ≠ remainder poly c bs := by
  intro same
  rw [remainder_eq_word (length ▸ fits), remainder_eq_word fits, length] at same
  have words := (BitVec.xor_right_inj c).mp ((bitStep_injective top).iterate _ same)
  exact other (word_injective length fits words)

end

end ReflectedCrc
