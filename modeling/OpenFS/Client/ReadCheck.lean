import Mathlib.Data.List.Forall2
import OpenFS.Client.OpenFSClient

/-!
# What a read checks

`ReadFile` against answers that may be anything. Each block is checked only against
the checksum that came with it, so what the metadata says about a block holds of a
successful read exactly if the answers happen to satisfy it.
-/

namespace OpenFS

open Requests

/-- What the servers answer: the inode, the block list, and the `i`-th block read. -/
structure Answers where
  inode : Inode
  blocks : List BlockMeta
  reads : Nat → Except Status (List UInt8 × UInt32)
  /-- The status of an error is not kOk. -/
  error_ne_ok : ∀ n, reads n ≠ .error .ok

namespace Answers

/-- The state counts the block reads. -/
def server (a : Answers) : Server Rpc Rpc.Reply Nat
  | n, .getFileInfo _ => (.ok a.inode, n)
  | n, .getBlockLocations _ => (.ok a.blocks, n)
  | n, .readBlock .. => (a.reads n, n + 1)
  | n, q => (q.failed, n)

end Answers

namespace ReadCheck

open OpenFSClient

/-- The bytes of each answer that the loop copies. -/
def copies (size : Nat) : Nat → List (List UInt8) → List (List UInt8)
  | _, [] => []
  | writeOffset, d :: ds =>
    let copied := copySize size writeOffset d.length
    d.take copied :: copies size (u64 (writeOffset + copied)) ds

/-- The next answers are these bytes, with any checksums. -/
def Answered (reads : Nat → Except Status (List UInt8 × UInt32)) : Nat → List (List UInt8) → Prop
  | _, [] => True
  | n, d :: ds => (∃ crc, reads n = .ok (d, crc)) ∧ Answered reads (n + 1) ds

/-- The next answers carry these bytes, each with its own checksum. -/
def Served (reads : Nat → Except Status (List UInt8 × UInt32)) : Nat → List (List UInt8) → Prop
  | _, [] => True
  | n, d :: ds => reads n = .ok (d, computeCRC32 (d.take (u32 d.length))) ∧ Served reads (n + 1) ds

/-- A read of a file that is not empty returns kOk. -/
def Returns (client : OpenFSClient) (path : Str) (outData : List UInt8) (a : Answers) (out : List UInt8) : Prop :=
  a.inode.size ≠ 0 ∧ ∃ client' n, (client.readFile path outData).run a.server 0 = ((.ok, out, client'), n)

/-- A read that returns kOk uses bytes that fit the metadata, and nothing else. -/
def Checked (client : OpenFSClient) (path : Str) (outData : List UInt8) (a : Answers) : Prop :=
  ∀ out, Returns client path outData a out → ∃ datas, datas.length = a.blocks.length ∧ Answered a.reads 0 datas ∧
    List.Forall₂ (fun block used => used.length = block.size.toNat ∧ computeCRC32 used = block.crc32)
      a.blocks (copies a.inode.size.toNat 0 datas) ∧
    out = (copies a.inode.size.toNat 0 datas).flatten ∧ out.length = a.inode.size.toNat

/-- A read that returns kOk has found on every answer the checksum of its bytes. -/
def TakesServed (client : OpenFSClient) (path : Str) (outData : List UInt8) (a : Answers) : Prop :=
  ∀ out, Returns client path outData a out → ∃ datas, datas.length = a.blocks.length ∧ Served a.reads 0 datas

/-- The answers fit the metadata: with the recorded sizes before it, the file lacks, or
the answer has, `size` more bytes; those have the recorded checksum; and in the end
nothing is lacking. -/
def Fits (size : Nat) : Nat → List (BlockMeta × List UInt8) → Prop
  | total, [] => total = size
  | total, (block, d) :: rest =>
    u32 (min d.length (size - total)) = block.size.toNat ∧ computeCRC32 (d.take block.size.toNat) = block.crc32 ∧
      Fits size (total + block.size.toNat) rest

/-! ## The loop -/

theorem copySize_le {size off : Nat} (length : Nat) (fits : off ≤ size) (wide : size < 2 ^ 64) :
    copySize size off length = u32 (min length (size - off)) ∧ copySize size off length ≤ length ∧
      off + copySize size off length ≤ size := by
  have rest : u64 (size + 2 ^ 64 - off) = size - off := by
    show (size + 2 ^ 64 - off) % 2 ^ 64 = size - off
    omega
  unfold copySize
  rw [rest]
  have cut : u32 (min length (size - off)) ≤ min length (size - off) := Nat.mod_le _ _
  refine ⟨rfl, ?_, ?_⟩ <;> omega

theorem length_resize (out : List UInt8) (size : Nat) : (resize out size).length = size := by
  rw [resize, List.length_append, List.length_take, List.length_replicate]
  omega

theorem length_copyAt {out bs : List UInt8} {offset : Nat} (inside : offset + bs.length ≤ out.length) :
    (copyAt out offset bs).length = out.length := by
  simp only [copyAt, List.length_append, List.length_take, List.length_drop]
  omega

/-- What a run of the loop leaves in the output. -/
def assemble (size : Nat) : Nat → List (List UInt8) → List UInt8 → List UInt8
  | _, [], out => out
  | off, d :: ds, out =>
    let copied := copySize size off d.length
    assemble size (u64 (off + copied)) ds (copyAt out off (d.take copied))

theorem assemble_eq {size off : Nat} {out : List UInt8} (fits : off ≤ size) (wide : size < 2 ^ 64)
    (sized : out.length = size) (datas : List (List UInt8)) :
    assemble size off datas out =
      out.take off ++ (copies size off datas).flatten ++
        out.drop (off + (copies size off datas).flatten.length) := by
  induction datas generalizing off out with
  | nil => simp [assemble, copies]
  | cons d ds ih =>
    obtain ⟨-, short, inside⟩ := copySize_le d.length fits wide
    have next : u64 (off + copySize size off d.length) = off + copySize size off d.length :=
      Nat.mod_eq_of_lt (by omega)
    have copied : (d.take (copySize size off d.length)).length = copySize size off d.length := by
      rw [List.length_take, Nat.min_eq_left short]
    have kept : (copyAt out off (d.take (copySize size off d.length))).length = out.length :=
      length_copyAt (by rw [copied, sized]; exact inside)
    have prefix_ : (copyAt out off (d.take (copySize size off d.length))).take (off + copySize size off d.length) =
        out.take off ++ d.take (copySize size off d.length) := by
      rw [copyAt, List.take_left']
      rw [List.length_append, List.length_take, copied]
      omega
    have suffix_ : ∀ k, (copyAt out off (d.take (copySize size off d.length))).drop
        (off + copySize size off d.length + k) = out.drop (off + copySize size off d.length + k) := by
      intro k
      rw [copyAt, ← List.drop_drop, List.drop_left', List.drop_drop, copied]
      rw [List.length_append, List.length_take, copied]
      omega
    rw [assemble, copies, next, ih inside (kept.trans sized), prefix_, suffix_]
    simp only [List.flatten_cons, List.append_assoc, List.length_append, copied]
    rw [Nat.add_assoc]

/-- One round of the loop. -/
theorem run_readBlocks_cons (a : Answers) (client : OpenFSClient) (size off n : Nat) (out : List UInt8)
    (block : BlockMeta) (blocks : List BlockMeta) :
    (readBlocks size client (block :: blocks) off out).run a.server n =
      match a.reads n with
      | .error s => ((s, out, (client.dataAddr block.nodeId).2), n + 1)
      | .ok (d, crc) =>
        if computeCRC32 (d.take (u32 d.length)) ≠ crc then
          ((.crcMismatch, out, (client.dataAddr block.nodeId).2), n + 1)
        else
          (readBlocks size (client.dataAddr block.nodeId).2 blocks (u64 (off + copySize size off d.length))
            (if u64 (off + copySize size off d.length) ≤ out.length
             then copyAt out off (d.take (copySize size off d.length)) else out)).run a.server (n + 1) := by
  show Prog.run a.server _ _ = _
  rw [readBlocks]
  simp only [Prog.run_bind, Prog.run_call, Answers.server]
  cases a.reads n with
  | error s => rfl
  | ok reply =>
    dsimp only
    split <;> rfl

/-- Answers that carry their own checksums are taken. -/
theorem run_readBlocks (a : Answers) {size : Nat} (wide : size < 2 ^ 64) {blocks : List BlockMeta}
    {datas : List (List UInt8)} (count : datas.length = blocks.length) {n : Nat} (served : Served a.reads n datas)
    (client : OpenFSClient) {off : Nat} {out : List UInt8} (fits : off ≤ size) (sized : out.length = size) :
    ∃ client' n', (readBlocks size client blocks off out).run a.server n =
      ((.ok, assemble size off datas out, client'), n') := by
  induction blocks generalizing client datas off out n with
  | nil =>
    cases List.length_eq_zero_iff.mp count
    exact ⟨client, n, rfl⟩
  | cons block blocks ih =>
    cases datas with
    | nil => cases count
    | cons d ds =>
      obtain ⟨-, short, inside⟩ := copySize_le d.length fits wide
      have next : u64 (off + copySize size off d.length) = off + copySize size off d.length :=
        Nat.mod_eq_of_lt (by omega)
      have room : (d.take (copySize size off d.length)).length = copySize size off d.length := by
        rw [List.length_take, Nat.min_eq_left short]
      rw [run_readBlocks_cons, served.1]
      dsimp only
      rw [if_neg (by simp), assemble, next, if_pos (by rw [sized]; exact inside)]
      apply ih (Nat.succ.inj count) served.2 _ inside
      rw [length_copyAt, sized]
      rw [room, sized]
      exact inside

/-- Only such answers are taken. -/
theorem served_of_ok (a : Answers) {size : Nat} {blocks : List BlockMeta} {client client' : OpenFSClient}
    {off n n' : Nat} {out out' : List UInt8}
    (result : (readBlocks size client blocks off out).run a.server n = ((.ok, out', client'), n')) :
    ∃ datas, datas.length = blocks.length ∧ Served a.reads n datas := by
  induction blocks generalizing client off out n with
  | nil => exact ⟨[], rfl, trivial⟩
  | cons block blocks ih =>
    rw [run_readBlocks_cons] at result
    cases answer : a.reads n with
    | error s =>
      rw [answer] at result
      cases result
      exact absurd answer (a.error_ne_ok n)
    | ok reply =>
      obtain ⟨d, crc⟩ := reply
      rw [answer] at result
      dsimp only at result
      split at result
      · cases result
      · next same =>
        obtain ⟨datas, count, served⟩ := ih result
        refine ⟨d :: datas, by simp [count], ?_, served⟩
        rw [answer, Decidable.not_not.mp same]

/-! ## The metadata -/

theorem Served.answered {reads : Nat → Except Status (List UInt8 × UInt32)} {n : Nat} {ds : List (List UInt8)}
    (served : Served reads n ds) : Answered reads n ds := by
  induction ds generalizing n with
  | nil => trivial
  | cons d ds ih => exact ⟨⟨_, served.1⟩, ih served.2⟩

/-- There is only one list of answers. -/
theorem Answered.unique {reads : Nat → Except Status (List UInt8 × UInt32)} {n : Nat} {ds es : List (List UInt8)}
    (same : ds.length = es.length) (answered : Answered reads n ds) (answered' : Answered reads n es) : ds = es := by
  induction ds generalizing es n with
  | nil => exact (List.length_eq_zero_iff.mp same.symm).symm
  | cons d ds ih =>
    cases es with
    | nil => cases same
    | cons e es =>
      obtain ⟨⟨crc, first⟩, later⟩ := answered
      obtain ⟨⟨crc', first'⟩, later'⟩ := answered'
      rw [ih (Nat.succ.inj same) later later']
      cases first.symm.trans first'
      rfl

/-- The copied bytes fit the metadata exactly if the answers do. -/
theorem fits_iff {size : Nat} (wide : size < 2 ^ 64) {blocks : List BlockMeta} {datas : List (List UInt8)}
    (count : datas.length = blocks.length) {total : Nat} (fits : total ≤ size) :
    (List.Forall₂ (fun block used => used.length = block.size.toNat ∧ computeCRC32 used = block.crc32)
        blocks (copies size total datas) ∧ total + (copies size total datas).flatten.length = size) ↔
      Fits size total (blocks.zip datas) := by
  induction blocks generalizing datas total with
  | nil =>
    cases List.length_eq_zero_iff.mp count
    simp [copies, Fits]
  | cons block blocks ih =>
    cases datas with
    | nil => cases count
    | cons d ds =>
      obtain ⟨value, short, inside⟩ := copySize_le d.length fits wide
      have next : u64 (total + copySize size total d.length) = total + copySize size total d.length :=
        Nat.mod_eq_of_lt (by omega)
      have room : (d.take (copySize size total d.length)).length = copySize size total d.length := by
        rw [List.length_take, Nat.min_eq_left short]
      have later := ih (Nat.succ.inj count) inside
      rw [List.zip_cons_cons, Fits, ← value, copies, next, List.forall₂_cons, List.flatten_cons,
        List.length_append,
        room, ← Nat.add_assoc]
      constructor
      · rintro ⟨⟨⟨length, crc⟩, rest⟩, all⟩
        rw [length] at crc later rest all ⊢
        exact ⟨rfl, crc, later.mp ⟨rest, all⟩⟩
      · rintro ⟨length, crc, rest⟩
        rw [length] at later ⊢
        obtain ⟨rest, all⟩ := later.mpr rest
        exact ⟨⟨⟨rfl, crc⟩, rest⟩, all⟩

/-- A read that comes to its loop. -/
theorem run_readFile {a : Answers} {client : OpenFSClient} (path : Str) (outData : List UInt8)
    (ready : client.initialized = true) (nonempty : a.inode.size ≠ 0) (some_block : a.blocks ≠ []) :
    (client.readFile path outData).run a.server 0 =
      (readBlocks a.inode.size.toNat client a.blocks 0 (resize outData a.inode.size.toNat)).run a.server 0 := by
  rw [readFile, if_neg (by simp [ready])]
  simp only [Prog.run_bind, Prog.run_call, Answers.server]
  rw [if_neg nonempty]
  simp only [Prog.run_bind, Prog.run_call, Answers.server]
  rw [if_neg some_block]

/-- A read that returns kOk came to its loop. -/
theorem Returns.loop {client : OpenFSClient} {path : Str} {outData out : List UInt8} {a : Answers}
    (returns : Returns client path outData a out) :
    client.initialized = true ∧ a.blocks ≠ [] ∧ ∃ client' n,
      (readBlocks a.inode.size.toNat client a.blocks 0 (resize outData a.inode.size.toNat)).run a.server 0 =
        ((.ok, out, client'), n) := by
  obtain ⟨nonempty, client', n, result⟩ := returns
  have ready : client.initialized = true := by
    by_contra unready
    rw [readFile, if_pos (by simpa using unready)] at result
    cases result
  have some_block : a.blocks ≠ [] := by
    intro none_there
    rw [readFile, if_neg (by simp [ready])] at result
    simp only [Prog.run_bind, Prog.run_call, Answers.server] at result
    rw [if_neg nonempty] at result
    simp only [Prog.run_bind, Prog.run_call, Answers.server] at result
    rw [if_pos none_there] at result
    cases result
  exact ⟨ready, some_block, client', n, (run_readFile path outData ready nonempty some_block).symm.trans result⟩

theorem takesServed (client : OpenFSClient) (path : Str) (outData : List UInt8) (a : Answers) :
    TakesServed client path outData a := by
  intro out returns
  obtain ⟨-, -, client', n, result⟩ := returns.loop
  exact served_of_ok a result

/-- **A read is as good as the answers**: it takes only answers that carry the checksum of their
bytes, and what it returns then fits the metadata exactly if those answers do. -/
theorem checked_iff (client : OpenFSClient) (path : Str) (outData : List UInt8) (a : Answers) :
    TakesServed client path outData a ∧ (Checked client path outData a ↔
      (client.initialized = true → a.inode.size ≠ 0 → a.blocks ≠ [] → ∀ datas, datas.length = a.blocks.length →
        Served a.reads 0 datas → Fits a.inode.size.toNat 0 (a.blocks.zip datas))) := by
  refine ⟨takesServed client path outData a, ?_⟩
  have wide : a.inode.size.toNat < 2 ^ 64 := a.inode.size.toNat_lt
  have sized := length_resize outData a.inode.size.toNat
  constructor
  · intro checked ready nonempty some_block datas count served
    obtain ⟨client', n', result⟩ := run_readBlocks a wide count served client (Nat.zero_le _) sized
    obtain ⟨datas', count', answered, each, whole, length⟩ := checked _
      ⟨nonempty, client', n', (run_readFile path outData ready nonempty some_block).trans result⟩
    obtain rfl := answered.unique (count'.trans count.symm) served.answered
    rw [whole] at length
    exact (fits_iff wide count (Nat.zero_le _)).mp ⟨each, by rw [Nat.zero_add]; exact length⟩
  · intro fits out returns
    obtain ⟨ready, some_block, client', n, result⟩ := returns.loop
    obtain ⟨datas, count, served⟩ := served_of_ok a result
    obtain ⟨each, total⟩ := (fits_iff wide count (Nat.zero_le _)).mpr
      (fits ready returns.1 some_block datas count served)
    obtain ⟨_, _, result'⟩ := run_readBlocks a wide count served client (Nat.zero_le _) sized
    rw [result'] at result
    cases result
    rw [Nat.zero_add] at total
    have whole : assemble a.inode.size.toNat 0 datas (resize outData a.inode.size.toNat) =
        (copies a.inode.size.toNat 0 datas).flatten := by
      rw [assemble_eq (Nat.zero_le _) wide sized, Nat.zero_add, total, List.drop_of_length_le (Nat.le_of_eq sized)]
      simp
    exact ⟨datas, count, served.answered, each, whole, by rw [whole, total]⟩

/-- A one-byte file; the data node answers another byte, with that byte's checksum. -/
def otherByte : Answers where
  inode := { size := 1 }
  blocks := [{ size := 1, crc32 := computeCRC32 [0] }]
  reads := fun _ => .ok ([1], computeCRC32 [1])
  error_ne_ok := nofun

/-- The other byte is returned with kOk. -/
theorem other_byte_accepted : ¬ ∀ (client : OpenFSClient) path outData a, Checked client path outData a := by
  intro claim
  have served : Served otherByte.reads 0 [[1]] := ⟨rfl, trivial⟩
  have wide : otherByte.inode.size.toNat < 2 ^ 64 := UInt64.toNat_lt _
  have count : [[(1 : UInt8)]].length = otherByte.blocks.length := rfl
  let client : OpenFSClient := { initialized := true }
  obtain ⟨client', n', result⟩ := run_readBlocks otherByte wide count served client (Nat.zero_le _)
    (length_resize [] _)
  have read : (client.readFile ['/', 'f'] []).run otherByte.server 0 = _ :=
    run_readFile _ _ rfl (by decide) (List.cons_ne_nil _ _)
  obtain ⟨datas, count', answered, each, -⟩ := claim _ _ _ otherByte _ ⟨by decide, client', n', read.trans result⟩
  obtain rfl := answered.unique (count'.trans count.symm) served.answered
  have accepted : computeCRC32 [1] = computeCRC32 [0] := by
    cases each with
    | cons first _ => exact first.2
  exact absurd accepted (by decide)

end ReadCheck

end OpenFS
