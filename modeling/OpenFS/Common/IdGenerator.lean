import Mathlib.Data.List.Nodup
import Mathlib.Data.Nat.Bitwise

/-!
# The id generator

An id is made of a timestamp in milliseconds, the node's number and a sequence number, of
41, 10 and 13 bits. The clock is the list of the values that will be read from it. A call
that finds no more of them has not returned yet.
-/

namespace OpenFS

structure IdGenerator where
  nodeId : UInt16
  sequence : UInt64 := 0
  lastTimestampMs : UInt64 := 0
  deriving DecidableEq, Repr

namespace IdGenerator

def create (nodeId : UInt16) : IdGenerator := { nodeId := nodeId &&& 0x3FF }

/-- The three fields in one word. -/
def pack (now : UInt64) (nodeId : UInt16) (seq : UInt64) : UInt64 :=
  ((now &&& 0x1FFFFFFFFFF) <<< 23) ||| (nodeId.toUInt64 <<< 13) ||| seq

/-- Read the clock until it has left `last`, and then once more. -/
def waitNext (last : UInt64) : List UInt64 → Option (UInt64 × List UInt64)
  | [] => none
  | t :: clock =>
    if t = last then waitNext last clock
    else
      match clock with
      | [] => none
      | now :: clock => some (now, clock)

/-- The second half of `NextId`: take a sequence number for the timestamp. -/
def issue (g : IdGenerator) (now : UInt64) : UInt64 × IdGenerator :=
  (pack now g.nodeId (g.sequence &&& 0x1FFF), { g with lastTimestampMs := now, sequence := g.sequence + 1 })

/-- The id, and what is left of the clock. -/
def nextId (g : IdGenerator) : List UInt64 → Option ((UInt64 × IdGenerator) × List UInt64)
  | [] => none
  | now :: clock =>
    if now = g.lastTimestampMs then
      let seq := g.sequence &&& 0x1FFF
      let g := { g with sequence := g.sequence + 1 }
      if seq = 0 then (waitNext g.lastTimestampMs clock).map fun (now, clock) => (g.issue now, clock)
      else some (g.issue now, clock)
    else some ({ g with sequence := 0 }.issue now, clock)

/-- The ids that so many calls return. -/
def ids (g : IdGenerator) : Nat → List UInt64 → List UInt64
  | 0, _ => []
  | n + 1, clock =>
    match g.nextId clock with
    | none => []
    | some ((id, g), clock) => id :: g.ids n clock

/-! ## Fields of an id -/

theorem toNat_lowBits (x : UInt64) : (x &&& 0x1FFF).toNat = x.toNat % 2 ^ 13 := by
  rw [UInt64.toNat_and]
  exact Nat.and_two_pow_sub_one_eq_mod x.toNat 13

theorem toNat_pack {now seq : UInt64} {nodeId : UInt16} (early : now.toNat < 2 ^ 41) (node : nodeId.toNat < 2 ^ 10)
    (low : seq.toNat < 2 ^ 13) :
    (pack now nodeId seq).toNat = (now.toNat * 2 ^ 10 + nodeId.toNat) * 2 ^ 13 + seq.toNat := by
  have stamp : ((now &&& 0x1FFFFFFFFFF) <<< 23).toNat = now.toNat <<< 23 := by
    rw [UInt64.toNat_shiftLeft, UInt64.toNat_and]
    show (now.toNat &&& 2 ^ 41 - 1) <<< 23 % 2 ^ 64 = _
    rw [Nat.and_two_pow_sub_one_eq_mod, Nat.mod_eq_of_lt early, Nat.shiftLeft_eq]
    omega
  have number : (nodeId.toUInt64 <<< 13).toNat = nodeId.toNat <<< 13 := by
    rw [UInt64.toNat_shiftLeft, UInt16.toNat_toUInt64]
    show nodeId.toNat <<< 13 % 2 ^ 64 = _
    rw [Nat.shiftLeft_eq]
    omega
  have upper : now.toNat <<< 23 ||| nodeId.toNat <<< 13 = (now.toNat * 2 ^ 10 + nodeId.toNat) <<< 13 := by
    rw [← Nat.shiftLeft_add_eq_or_of_lt (by rw [Nat.shiftLeft_eq]; omega), Nat.shiftLeft_eq, Nat.shiftLeft_eq,
      Nat.shiftLeft_eq]
    omega
  unfold pack
  rw [UInt64.toNat_or, UInt64.toNat_or, stamp, number, upper, ← Nat.shiftLeft_add_eq_or_of_lt low,
    Nat.shiftLeft_eq]

/-- Different timestamps or sequence numbers make different ids. -/
theorem pack_inj {now now' seq seq' : UInt64} {nodeId : UInt16} (early : now.toNat < 2 ^ 41)
    (early' : now'.toNat < 2 ^ 41) (node : nodeId.toNat < 2 ^ 10) (low : seq.toNat < 2 ^ 13)
    (low' : seq'.toNat < 2 ^ 13)
    (same : pack now nodeId seq = pack now' nodeId seq') : now = now' ∧ seq = seq' := by
  have values := congrArg UInt64.toNat same
  rw [toNat_pack early node low, toNat_pack early' node low'] at values
  exact ⟨UInt64.toNat_inj.mp (by omega), UInt64.toNat_inj.mp (by omega)⟩

theorem create_nodeId (nodeId : UInt16) : (create nodeId).nodeId.toNat < 2 ^ 10 := by
  show (nodeId &&& 0x3FF).toNat < 2 ^ 10
  rw [UInt16.toNat_and]
  exact Nat.lt_of_le_of_lt Nat.and_le_right (by decide)

end IdGenerator

end OpenFS
