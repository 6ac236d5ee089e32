import OpenFS.Client.ReadCheck
import OpenFS.Common.Crc32Steps
import OpenFS.Data.DataNode

/-!
# Short corruptions

The remainder of a CRC is 32 bits wide, so it tells any change within four bytes that
follow one another. Both places that compare checksums refuse such a change.
-/

namespace OpenFS

open ReflectedCrc

/-- The two differ, and only within four bytes that follow one another. -/
structure ShortCorruption (original corrupted : List UInt8) : Prop where
  length : original.length = corrupted.length
  ne : original ≠ corrupted
  window : ∃ start, ∀ i, i < start ∨ start + 4 ≤ i → original[i]? = corrupted[i]?

/-- The parts before, within and behind the window. -/
theorem ShortCorruption.parts {p q : List UInt8} (short : ShortCorruption p q) :
    ∃ before as bs behind, p = before ++ as ++ behind ∧ q = before ++ bs ++ behind ∧ as.length = bs.length ∧
      bs.length ≤ 4 ∧ as ≠ bs := by
  obtain ⟨length, ne, start, same⟩ := short
  have before : p.take start = q.take start := by
    apply List.ext_getElem?
    intro i
    rw [List.getElem?_take, List.getElem?_take]
    split
    · next below => exact same i (.inl below)
    · rfl
  have behind : p.drop (start + 4) = q.drop (start + 4) := by
    apply List.ext_getElem?
    intro i
    rw [List.getElem?_drop, List.getElem?_drop]
    exact same _ (.inr (Nat.le_add_right _ _))
  have whole (l : List UInt8) : l = l.take start ++ (l.drop start).take 4 ++ l.drop (start + 4) := by
    rw [← List.take_add, List.take_append_drop]
  refine ⟨q.take start, (p.drop start).take 4, (q.drop start).take 4, q.drop (start + 4), ?_, whole q, ?_, ?_, ?_⟩
  · rw [← before, ← behind]
    exact whole p
  · rw [List.length_take, List.length_take, List.length_drop, List.length_drop, length]
  · exact List.length_take_le ..
  · intro within
    apply ne
    rw [whole p, whole q, before, behind, within]

theorem crc32Impl_injective (data : List UInt8) : Function.Injective fun init => crc32Impl init data := by
  intro a b same
  have registers := congrArg UInt32.toBitVec same
  dsimp only at registers
  rw [crc32Impl_eq, crc32Impl_eq] at registers
  exact UInt32.toBitVec_inj.mp (@remainder_injective _ crc32Poly (by decide) _ _ _ registers)

/-- Four bytes leave different remainders. -/
theorem crc32Impl_ne {as bs : List UInt8} (length : as.length = bs.length) (few : bs.length ≤ 4) (ne : as ≠ bs)
    (init : UInt32) : crc32Impl init as ≠ crc32Impl init bs := by
  intro same
  have registers := congrArg UInt32.toBitVec same
  rw [crc32Impl_eq, crc32Impl_eq] at registers
  have other : as.map UInt8.toBitVec ≠ bs.map UInt8.toBitVec := fun bits =>
    ne (List.map_injective_iff.mpr (fun _ _ => UInt8.toBitVec_inj.mp) bits)
  exact @remainder_ne _ crc32Poly _ _ (by decide) (by simpa using length) (by simpa using (by omega))
    other _ registers

theorem computeCRC32_ne {p q : List UInt8} (short : ShortCorruption p q) : computeCRC32 p ≠ computeCRC32 q := by
  obtain ⟨before, as, bs, behind, rfl, rfl, length, few, ne⟩ := short.parts
  intro same
  have states := (UInt32.xor_left_inj _).mp same
  simp only [crc32Impl_append] at states
  exact crc32Impl_ne length few ne _ (crc32Impl_injective behind states)

/-! ## The comparisons -/

/-- Every answer that is taken carries its own checksum. -/
theorem ReadCheck.Served.at {reads : Nat → Except Status (List UInt8 × UInt32)} {n : Nat}
    {datas : List (List UInt8)}
    (served : ReadCheck.Served reads n datas) {k : Nat} (below : k < datas.length) :
    ∃ d, reads (n + k) = .ok (d, computeCRC32 (d.take (u32 d.length))) := by
  induction datas generalizing n k with
  | nil => cases below
  | cons d ds ih =>
    cases k with
    | zero => exact ⟨d, served.1⟩
    | succ k =>
      obtain ⟨e, answer⟩ := ih served.2 (Nat.lt_of_succ_lt_succ below)
      exact ⟨e, by rw [← answer, Nat.succ_add_eq_add_succ]⟩

theorem DataService.writeBlock_of_mismatch (node : DataNode) (blockId : UInt64) {data : List UInt8}
    {crc32 : UInt32}
    (other : computeCRC32 data ≠ crc32) :
    DataService.writeBlock node blockId data crc32 = (.error .crcMismatch, node) :=
  if_pos other

/-- A read does not succeed with an answer whose checksum does not fit. -/
theorem OpenFSClient.readFile_of_mismatch (a : Answers) (client : OpenFSClient) (path : Str) (outData : List UInt8)
    (nonempty : a.inode.size ≠ 0) {k : Nat} (below : k < a.blocks.length) {d : List UInt8} {crc32 : UInt32}
    (answer : a.reads k = .ok (d, crc32)) (other : computeCRC32 (d.take (u32 d.length)) ≠ crc32) :
    ((client.readFile path outData).run a.server 0).1.1 ≠ .ok := by
  by_cases ready : client.initialized = true
  · have some_block : a.blocks ≠ [] := by
      rintro none_there
      rw [none_there] at below
      cases below
    rw [ReadCheck.run_readFile path outData ready nonempty some_block]
    generalize ran : Requests.Prog.run a.server _ _ = result
    obtain ⟨⟨status, out, client'⟩, n'⟩ := result
    rintro rfl
    obtain ⟨datas, count, served⟩ := ReadCheck.served_of_ok a ran
    obtain ⟨e, taken⟩ := served.at (count ▸ below)
    rw [Nat.zero_add, answer] at taken
    cases taken
    exact other rfl
  · rw [readFile, if_pos (by simpa using ready)]
    exact fun same => by cases same

/-- **A short corruption is caught**: the checksums differ, a data node refuses the block, and
a read in which a stored block comes back so does not succeed. -/
theorem short_corruption_caught {p q : List UInt8} (short : ShortCorruption p q) :
    computeCRC32 q ≠ computeCRC32 p ∧
      (∀ node blockId, DataService.writeBlock node blockId q (computeCRC32 p) = (.error .crcMismatch, node)) ∧
      ∀ (a : Answers) (client : OpenFSClient) (path : Str) (outData : List UInt8) (k : Nat),
        a.inode.size ≠ 0 → k < a.blocks.length → p.length < 2 ^ 32 → a.reads k = .ok (q, computeCRC32 p) →
          ((client.readFile path outData).run a.server 0).1.1 ≠ .ok := by
  have other : computeCRC32 q ≠ computeCRC32 p := (computeCRC32_ne short).symm
  refine ⟨other, fun node blockId => DataService.writeBlock_of_mismatch node blockId other, ?_⟩
  intro a client path outData k nonempty below stored answer
  have whole : q.take (u32 q.length) = q := by
    rw [show u32 q.length = q.length from Nat.mod_eq_of_lt (by rw [← short.length]; exact stored),
      List.take_length]
  exact client.readFile_of_mismatch a path outData nonempty below answer (by rw [whole]; exact other)

/-- One bit of one byte. -/
theorem short_corruption_oneBit : computeCRC32 [1] ≠ computeCRC32 [0] :=
  (short_corruption_caught (p := [0]) (q := [1]) ⟨rfl, by decide, 0, fun i outside => by
    have := outside.resolve_left (Nat.not_lt_zero i)
    rw [List.getElem?_eq_none (by simp; omega), List.getElem?_eq_none (by simp; omega)]⟩).1

end OpenFS
