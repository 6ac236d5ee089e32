import OpenFS.Data.FailedReads

/-!
# Direct IO against the stream

The direct path hands the caller's offset to `pread` and `pwrite` as it is, and
fills a write up with zeros to a whole number of blocks. It agrees with the
stream exactly as long as every offset is aligned and the filling changes nothing.
-/

namespace OpenFS.DirectIO

open ByteImage FileLog BlockIOEngine FailedReads

/-- A call on a raw device. -/
def directCall (device : Image) : Call → Except Status (List UInt8) × Image
  | .readAt offset size => (readAtDirect device offset size, device)
  | .writeAt offset data =>
    match writeAtDirect device offset data with
    | (.ok, device) => (.ok [], device)
    | (s, device) => (.error s, device)

/-- What the calls return, each with the device it leaves. -/
def streamTrace (e : Engine) : List Call → List (Except Status (List UInt8) × Image)
  | [] => []
  | c :: calls => ((e.call c).1, (e.call c).2.device) :: streamTrace (e.call c).2 calls

def directTrace (device : Image) : List Call → List (Except Status (List UInt8) × Image)
  | [] => []
  | c :: calls => directCall device c :: directTrace (directCall device c).2 calls

def Agree (e : Engine) (calls : List Call) : Prop := streamTrace e calls = directTrace e.device calls

/-- Every range lies inside the device as the call finds it. -/
def AllInRange (e : Engine) : List Call → Prop
  | [] => True
  | c :: calls => InRange e.device c ∧ AllInRange (e.call c).2 calls

/-- The offset is a multiple of the block size, and what a write fills up is zero
already and inside the device. -/
def Aligned (device : Image) : Call → Prop
  | .readAt offset _ => offset % alignSize = 0
  | .writeAt offset data => offset % alignSize = 0 ∧ offset + alignedSize data.length ≤ device.size ∧
      ∀ i, offset + data.length ≤ i → i < offset + alignedSize data.length → device.byte i = 0

def EachAligned (e : Engine) : List Call → Prop
  | [] => True
  | c :: calls => Aligned e.device c ∧ EachAligned (e.call c).2 calls

theorem le_alignedSize (size : Nat) : size ≤ alignedSize size := by
  unfold alignedSize alignSize
  omega

theorem alignedSize_mod (size : Nat) : alignedSize size % alignSize = 0 := Nat.mul_mod_left _ _

/-- Filling up with `n` zeros changes nothing where they are there already. -/
theorem write_filled_iff {img : Image} {off n : Nat} {bs : List UInt8} (inside : off + bs.length ≤ img.size) :
    img.write off (bs ++ List.replicate n 0) = img.write off bs ↔
      off + bs.length + n ≤ img.size ∧ ∀ i, off + bs.length ≤ i → i < off + bs.length + n → img.byte i = 0 := by
  have long : (bs ++ List.replicate n 0).length = bs.length + n := by simp
  have filled : ∀ i, off + bs.length ≤ i → i < off + bs.length + n →
      (img.write off (bs ++ List.replicate n 0)).byte i = 0 := by
    intro i behind before
    obtain ⟨k, rfl⟩ := Nat.exists_eq_add_of_le (show off ≤ i by omega)
    rw [Image.write_byte_of_inside (by omega), List.getElem_append_right (by omega), List.getElem_replicate]
  constructor
  · intro same
    constructor
    · by_contra past
      have size := congrArg Image.size same
      rw [Image.write_size_of_inside inside] at size
      have grown : (img.write off (bs ++ List.replicate n 0)).size = max img.size (off + (bs.length + n)) := by
        show (if _ = [] then _ else _) = _
        rw [if_neg (by rw [← List.length_eq_zero_iff, long]; omega), long]
      omega
    · intro i behind before
      have byte := congrFun (congrArg Image.byte same) i
      rwa [filled i behind before, Image.write_byte_of_outside (by omega), eq_comm] at byte
  · rintro ⟨room, zero⟩
    apply Image.ext
    · rw [Image.write_size_of_inside (by omega), Image.write_size_of_inside inside]
    · funext i
      by_cases before : i < off ∨ off + bs.length + n ≤ i
      · rw [Image.write_byte_of_outside (by omega), Image.write_byte_of_outside (by omega)]
      · by_cases behind : off + bs.length ≤ i
        · rw [filled i behind (by omega), Image.write_byte_of_outside (by omega), zero i behind (by omega)]
        · obtain ⟨k, rfl⟩ := Nat.exists_eq_add_of_le (show off ≤ i by omega)
          rw [Image.write_byte_of_inside (by omega), Image.write_byte_of_inside (by omega),
            List.getElem_append_left (by omega)]

theorem readAtDirect_eq (device : Image) (offset size : Nat) : readAtDirect device offset size =
    if offset % alignSize = 0 then .ok (device.bytes offset size) else .error .ioError := by
  unfold readAtDirect preadDirect
  by_cases aligned : offset % alignSize = 0
  · rw [if_pos ⟨aligned, alignedSize_mod size⟩, if_pos aligned]
    dsimp only
    rw [Image.take_bytes _ _ _ _ (le_alignedSize size)]
  · rw [if_neg (by tauto), if_neg aligned]

theorem writeAtDirect_eq (device : Image) (offset : Nat) (data : List UInt8) :
    writeAtDirect device offset data =
      if offset % alignSize = 0 then
        (.ok, device.write offset (data ++ List.replicate (alignedSize data.length - data.length) 0))
      else (.ioError, device) := by
  have long : (data ++ List.replicate (alignedSize data.length - data.length)
      (0 : UInt8)).length % alignSize = 0 := by
    rw [List.length_append, List.length_replicate, Nat.add_sub_cancel' (le_alignedSize _)]
    exact alignedSize_mod _
  unfold writeAtDirect pwriteDirect
  by_cases aligned : offset % alignSize = 0
  · rw [if_pos ⟨aligned, long⟩, if_pos aligned]
  · rw [if_neg (by tauto), if_neg aligned]

/-- One call inside the device: the two paths agree on it exactly if it is aligned. -/
theorem call_agrees_iff {e : Engine} (good : e.file.good = true) {c : Call} (inside : InRange e.device c) :
    (((e.call c).1, (e.call c).2.device) = directCall e.device c ↔ Aligned e.device c) ∧
      (e.call c).2.file = e.file := by
  cases c with
  | readAt offset size =>
    have result := readAt_of_good good inside.1 (.inr inside.2)
    simp only [Engine.call, result]
    refine ⟨?_, trivial⟩
    rw [directCall, readAtDirect_eq, Aligned]
    split
    · next aligned => exact iff_of_true rfl aligned
    · next unaligned => exact iff_of_false (fun same => by cases congrArg Prod.fst same) unaligned
  | writeAt offset data =>
    have result := writeAt_of_good e.world () data good inside.1
    simp only [Engine.call, result]
    refine ⟨?_, trivial⟩
    have device : Engine.device { file := e.file, world := e.world.perform (.write () offset data) } =
        e.device.write offset data := by
      show Function.update e.world.files () _ () = _
      rw [Function.update_self]
      rfl
    have length := le_alignedSize data.length
    rw [device, directCall, writeAtDirect_eq, Aligned]
    by_cases aligned : offset % alignSize = 0
    · have fill := write_filled_iff (n := alignedSize data.length - data.length) inside.2
      rw [Nat.add_assoc, Nat.add_sub_cancel' length] at fill
      rw [← fill, if_pos aligned, and_iff_right aligned, Prod.mk.injEq, and_iff_right rfl]
      exact eq_comm
    · rw [if_neg aligned]
      exact iff_of_false (fun same => by cases congrArg Prod.fst same) (fun both => aligned both.1)

/-- **The two paths agree** exactly on the runs whose calls are all aligned. -/
theorem agree_iff {e : Engine} (good : e.file.good = true) {calls : List Call} (inside : AllInRange e calls) :
    Agree e calls ↔ EachAligned e calls := by
  unfold Agree
  induction calls generalizing e with
  | nil => exact iff_of_true rfl trivial
  | cons c calls ih =>
    obtain ⟨agrees, same⟩ := call_agrees_iff good inside.1
    have later := ih (e := (e.call c).2) (by rw [same]; exact good) inside.2
    rw [streamTrace, directTrace, EachAligned, List.cons.injEq, agrees]
    apply and_congr_right
    intro aligned
    have device : (e.call c).2.device = (directCall e.device c).2 := congrArg Prod.snd (agrees.mpr aligned)
    rw [← device]
    exact later

/-- Two bytes are written to the first block, filled up by the zeros that stand there, and read. -/
theorem agree_zeroDevice : Agree zeroDevice [.writeAt 0 [7, 8], .readAt 0 4096, .readAt 0 2] :=
  (@agree_iff zeroDevice rfl [.writeAt 0 [7, 8], .readAt 0 4096, .readAt 0 2]
    ⟨⟨by decide, by decide⟩, ⟨by decide, by decide⟩, ⟨by decide, by decide⟩, trivial⟩).mpr
    ⟨⟨rfl, by decide, fun _ _ _ => rfl⟩, rfl, rfl, trivial⟩

/-- The data of a block behind its 32-byte header cannot be read directly. -/
theorem data_behind_header_fails : ¬ ∀ (e : Engine), e.file.good = true → ∀ calls, AllInRange e calls →
    Agree e calls := by
  intro claim
  have same := claim zeroDevice rfl [.readAt 32 5] ⟨⟨by decide, by decide⟩, trivial⟩
  have first := congrArg Prod.fst (List.cons.inj same).1
  rw [directCall, readAtDirect_eq] at first
  cases first

end OpenFS.DirectIO
