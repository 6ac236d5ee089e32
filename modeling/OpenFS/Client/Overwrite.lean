import OpenFS.Client.System

/-!
# Writing to an existing file

`WriteFile` begins with `CreateFile`, which refuses a path that is bound. So a file
that exists cannot be written again.
-/

namespace OpenFS

open Requests

/-- A file that is there cannot be created again. -/
theorem NamespaceManager.createFile_of_lookup {ns : NamespaceManager} {path : Str} {inode : Inode}
    (notRoot : path ≠ ['/']) (there : ns.lookup path = .ok inode) (now : UInt64) (mode uid gid : UInt32)
    (size : UInt64) : ns.createFile now path mode uid gid size = (.error .alreadyExists, ns) := by
  unfold lookup at there
  rw [if_neg notRoot] at there
  unfold createFile
  split at there
  · cases there
  · next parentId filename resolved =>
    split at there
    · cases there
    · next entries listed =>
      split at there
      · cases there
      · next e found =>
        have taken : entries.any (fun e => decide (e.name = filename)) = true :=
          List.any_eq_true.mpr ⟨e, List.mem_of_find?_eq_some found, by simpa using List.find?_some found⟩
        rw [if_pos taken]

namespace Overwrite

open OpenFSClient

/-- The path names a regular file. -/
def IsFile (svc : MetaService) (path : Str) : Prop :=
  ∃ inode, svc.getFileInfo path = .ok inode ∧ inode.fileType = .regular

/-- Writes to one path, by any clients. -/
def writeAll (path : Str) : List (OpenFSClient × UInt32 × List UInt8) → ClientProg Unit
  | [] => pure ()
  | (client, mode, data) :: rest => do
    let _ ← client.writeFile path mode data
    writeAll path rest

/-- After `earlier` writes, one more returns kOk, and its data is read back. -/
def Replaces (rs : Nat → Readings) (sys : System) (path : Str)
    (earlier : List (OpenFSClient × UInt32 × List UInt8)) (client : OpenFSClient) (mode : UInt32)
    (data : List UInt8)
    (reader : OpenFSClient) (outData : List UInt8) : Prop :=
  let before := ((writeAll path earlier).run (System.serve rs) (sys, 0)).2
  let written := (client.writeFile path mode data).run (System.serve rs) before
  let read := (reader.readFile path outData).run (System.serve rs) written.2
  written.1.1 = .ok ∧ read.1.1 = .ok ∧ read.1.2.1 = data

/-- Regular files are not at the root. -/
theorem IsFile.ne_root {svc : MetaService} {path : Str} (reachable : svc.Reachable) (file : IsFile svc path) :
    path ≠ ['/'] := by
  rintro rfl
  obtain ⟨inode, there, regular⟩ := file
  obtain ⟨root, live, directory⟩ := reachable.consistent.rootLive
  have same : svc.getFileInfo ['/'] = .ok root := by
    unfold MetaService.getFileInfo NamespaceManager.lookup InodeTable.get
    rw [if_pos rfl, live]
  cases same.symm.trans there
  cases directory.symm.trans regular

/-- A write to a file is refused and changes nothing. -/
theorem run_writeFile_of_isFile {sys : System} {path : Str} (notRoot : path ≠ ['/']) (file : IsFile sys.svc path)
    (rs : Nat → Readings) (i : Nat) (client : OpenFSClient) (mode : UInt32) (data : List UInt8) :
    ((client.writeFile path mode data).run (System.serve rs) (sys, i)).1.1 ≠ .ok ∧
      ((client.writeFile path mode data).run (System.serve rs) (sys, i)).2.1 = sys := by
  obtain ⟨inode, there, -⟩ := file
  unfold writeFile
  split
  · exact ⟨nofun, rfl⟩
  · have refused := NamespaceManager.createFile_of_lookup notRoot there ((rs i).clock 0) mode 0 0
      (UInt64.ofNat data.length)
    have first : System.serve rs (sys, i) (.createFile path mode 0 0 (UInt64.ofNat data.length)) =
        (.error .alreadyExists, (sys, i + 1)) := by
      show ((sys.svc.namespaceMgr.createFile ((rs i).clock 0) path mode 0 0 (UInt64.ofNat data.length)).1,
        ({ sys with svc := { sys.svc with namespaceMgr :=
            (sys.svc.namespaceMgr.createFile ((rs i).clock 0) path mode 0 0 (UInt64.ofNat data.length)).2 }
              }, i + 1)) = _
      rw [refused]
    simp only [Prog.run_bind, Prog.run_call]
    rw [first]
    exact ⟨nofun, rfl⟩

theorem run_writeAll {sys : System} {path : Str} (notRoot : path ≠ ['/']) (file : IsFile sys.svc path)
    (rs : Nat → Readings) (writes : List (OpenFSClient × UInt32 × List UInt8)) (i : Nat) :
    ((writeAll path writes).run (System.serve rs) (sys, i)).2.1 = sys := by
  induction writes generalizing i with
  | nil => rfl
  | cons w writes ih =>
    obtain ⟨client, mode, data⟩ := w
    have unchanged := (run_writeFile_of_isFile notRoot file rs i client mode data).2
    rw [writeAll, Prog.run_bind]
    generalize (client.writeFile path mode data).run (System.serve rs) (sys, i) = result at unchanged
    obtain ⟨reply, after, j⟩ := result
    cases unchanged
    exact ih j

theorem not_replaces {sys : System} {path : Str} (notRoot : path ≠ ['/']) (file : IsFile sys.svc path)
    (rs : Nat → Readings) (earlier : List (OpenFSClient × UInt32 × List UInt8)) (client : OpenFSClient)
    (mode : UInt32) (data : List UInt8) (reader : OpenFSClient) (outData : List UInt8) :
    ¬ Replaces rs sys path earlier client mode data reader outData := by
  rintro ⟨ok, -⟩
  have same := run_writeAll notRoot file rs earlier 0
  generalize (writeAll path earlier).run (System.serve rs) (sys, 0) = before at same ok
  obtain ⟨_, after, j⟩ := before
  cases same
  exact (run_writeFile_of_isFile notRoot file rs j client mode data).1 ok

/-- **A file is never replaced**: whatever was written before, no write to a file
returns kOk. -/
theorem never_replaces {sys : System} (reachable : sys.svc.Reachable) {path : Str} (file : IsFile sys.svc path)
    (rs : Nat → Readings) (earlier : List (OpenFSClient × UInt32 × List UInt8)) (client : OpenFSClient)
    (mode : UInt32) (data : List UInt8) (reader : OpenFSClient) (outData : List UInt8) :
    ¬ Replaces rs sys path earlier client mode data reader outData :=
  not_replaces (file.ne_root reachable) file rs earlier client mode data reader outData

/-- A disk with eight free blocks. -/
def emptyDisk : DiskManager where
  superblock := { bitmapOffset := 4096, bitmapBlocks := 1, dataOffset := 8192, dataBlocks := 8 }
  bitmap := BlockBitmap.load [0] 8
  io := FileLog.Stream.closed.open'
  state := .normal
  world := ⟨fun _ => ByteImage.Image.zeros 40960, []⟩

/-- The file `/a` on a node with that disk. -/
def oneFile : System where
  svc := ((MetaService.init 0).handle (.register 0 "localhost:8200".toList 0)).handle
    (.createFsFile 0 ['/', 'a'] 0o644 0 0 0)
  node := { diskPool := { disks := [emptyDisk] }, running := true }

theorem oneFile_reachable : oneFile.svc.Reachable :=
  .step (.createFsFile 0 ['/', 'a'] 0o644 0 0 0) (.step (.register 0 "localhost:8200".toList 0) (.init 0))

theorem oneFile_isFile : IsFile oneFile.svc ['/', 'a'] :=
  ⟨NamespaceManager.newRegular 0 0o644 0 0 0 2 1 ['a'], by decide, rfl⟩

theorem never_replaces_oneFile :
    ¬ Replaces (fun _ => {}) oneFile ['/', 'a'] [({ initialized := true }, 0o644, [7])] { initialized := true } 0o644
      [0] { initialized := true } [] :=
  never_replaces oneFile_reachable oneFile_isFile _ _ _ _ _ _ _

/-- The data node would take a block of one byte, but the write of one byte to `/a`
is refused. -/
theorem overwrite_refused : oneFile.svc.Reachable ∧ IsFile oneFile.svc ['/', 'a'] ∧
    oneFile.svc.nodeMgr.getAnyOnlineNode ≠ 0 ∧
    (DataService.writeBlock oneFile.node 1 [0] (computeCRC32 [0])).1 = .ok (0, 8192) ∧
    ¬ Replaces (fun _ => {}) oneFile ['/', 'a'] [] { initialized := true } 0o644 [0]
      { initialized := true } [] := by
  refine ⟨oneFile_reachable, oneFile_isFile, by decide, ?_, ?_⟩
  · decide
  · exact not_replaces (by decide) oneFile_isFile _ _ _ _ _ _ _

end Overwrite

end OpenFS
