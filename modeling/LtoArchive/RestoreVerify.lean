import LtoArchive.RestoreBatch
import LtoArchive.Workflow

/-!
# The hash check after a restore

`_verify_restored_hash(local_path, record)` hashes the file at `local_path` and compares the
digest with the record's `file_hash` (`verifyRestoredHash`). Every restore calls it with
`restore_dir/file_name`. `_restore_packed_bulk` writes the member at that path. `_restore_loose`
copies with `_robocopy_file`, which keeps the base name of the stored path, so its file lands at
`restore_dir/basename(stored_path)`. If the two names differed, the check would hash another
file, or raise `FileNotFoundError`, which nothing in `_restore_loose` or `run` catches.

This module shows that on every index a run reaches the two names agree. Every loose record a
backup session inserts has a stored path that ends in its file name, and the other operations
only delete records. So the check after the restore of any record of a reachable index hashes
the bytes that restore wrote.

## Main definitions

* `RecordsSatisfy P db`: every record of the index satisfies the row predicate `P`;
* `FileRow.LooseNamed`: a loose record's stored path ends in its file name.

## Main results

* `RecordsSatisfy.step`: an operation keeps `RecordsSatisfy P` when every row a backup session
  can insert satisfies `P`;
* `verifyRestoredHash_restoreRecord`: on every reachable index, the check after a record's
  restore reads the restored bytes and reports whether they have the record's hash.
-/

namespace LtoArchive

/-- A loose record's stored path ends in its file name, the name `_restore_loose` prints and
checks. -/
def FileRow.LooseNamed (r : FileRow) : Prop :=
  r.isPacked = false → basename r.storedPath = r.fileName

/-- Every record of the index satisfies the row predicate `P`. -/
def RecordsSatisfy (P : FileRow → Prop) (db : DatabaseManager) : Prop :=
  ∀ r ∈ db.filesIndex, P r.toFileRow

/-- `P` holds of every row a backup session can insert. -/
def SessionRowsSatisfy (P : FileRow → Prop) : Prop :=
  ∀ (tapeLabel : String) (source tapeDrive : Path) (tape src : FS) (pm : Option (List Metadata))
    (row : FileRow), row ∈ LTOBackup.phase3Rows tapeLabel (LTOBackup.tapeRoot source tapeDrive)
      (LTOBackup.scan tape source (LTOBackup.tapeRoot source tapeDrive) src) pm → P row

/-! ## A row predicate over runs -/

section RecordsSatisfy

variable {P : FileRow → Prop} {db : DatabaseManager}

/-- A row predicate holds of fewer records. -/
theorem RecordsSatisfy.of_subset {db' : DatabaseManager} (h : RecordsSatisfy P db)
    (hsub : ∀ r ∈ db'.filesIndex, r ∈ db.filesIndex) : RecordsSatisfy P db' :=
  fun r hr => h r (hsub r hr)

/-- Inserting rows that satisfy a predicate keeps it. -/
theorem RecordsSatisfy.insertRows (h : RecordsSatisfy P db) {rows : List FileRow}
    (hrows : ∀ row ∈ rows, P row) (clock : Nat → String) :
    RecordsSatisfy P (db.insertRows rows clock) := by
  obtain ⟨new, hnew, hmap⟩ := db.insertRows_filesIndex_eq rows clock
  intro r hr
  rw [hnew] at hr
  rcases List.mem_append.1 hr with hr | hr
  · exact h r hr
  · exact hrows _ (hmap ▸ List.mem_map_of_mem _ hr)

/-- A backup session keeps a predicate that every session's rows satisfy. -/
theorem RecordsSatisfy.backupRun (h : RecordsSatisfy P db) (hP : SessionRowsSatisfy P)
    (source tapeDrive : Path) (tapeLabel : String) (tape src : FS) (pm : Option (List Metadata))
    (outcome : TransferOutcome) (clock : Nat → String) :
    RecordsSatisfy P (LTOBackup.run source tapeDrive tapeLabel db tape src pm outcome clock).1 := by
  intro r hr
  rw [LTOBackup.run_filesIndex] at hr
  exact h.insertRows (hP tapeLabel source tapeDrive tape src pm) clock r hr

/-- `run_archiver` keeps a predicate that every session's rows satisfy. -/
theorem RecordsSatisfy.runArchiver {st : Archive} (h : RecordsSatisfy P st.db)
    (hP : SessionRowsSatisfy P) (cfg : Config) (inp : ArchiverInputs) :
    RecordsSatisfy P (runArchiver cfg st inp).db := by
  rcases runArchiver_cases cfg st inp with heq | ⟨db, -, hdb, hrest⟩
  · rw [heq]
    exact h
  have h' : RecordsSatisfy P db := h.of_subset fun r hr => ensureRegistered_filesIndex hdb ▸ hr
  rcases hrest with heq | ⟨-, md, -, heq⟩ | ⟨-, heq⟩ <;> rw [heq]
  · exact h'
  · exact h'.backupRun hP _ _ _ _ _ _ _ _
  · exact h'.backupRun hP _ _ _ _ _ _ _ _

/-- One operation keeps every record satisfying `P` when every row a session can insert does. -/
theorem RecordsSatisfy.step {st : Archive} (h : RecordsSatisfy P st.db)
    (hP : SessionRowsSatisfy P) : ∀ op, RecordsSatisfy P (step st op).db
  | .archive cfg inp => h.runArchiver hP cfg inp
  | .formatTape _ => h.of_subset fun _ => TapeManager.formatTape_filesIndex_subset
  | .registerTape label cap now => h.of_subset fun r hr => by
    rwa [LtoArchive.step, TapeManager.registerTapeManual_filesIndex] at hr
  | .insertTape _ => h
  | .editStaging _ => h

/-- On every reachable index, every record satisfies a predicate that every session's rows
satisfy. -/
theorem recordsSatisfy_of_reachable {st : Archive} (h : Reachable st)
    (hP : SessionRowsSatisfy P) : RecordsSatisfy P st.db := by
  induction h with
  | init => exact fun _ hr => by cases hr
  | step op _ ih => exact ih.step hP op

end RecordsSatisfy

/-! ## Loose records are stored under their file name -/

/-- A path under `tape_root` ends as the same path under the source does: `tape_root` ends in the
source's base name. -/
theorem basename_tapeRoot_append (source tapeDrive rel : Path) :
    basename (LTOBackup.tapeRoot source tapeDrive ++ rel) = basename (source ++ rel) := by
  rcases List.eq_nil_or_concat rel with rfl | ⟨L, b, rfl⟩
  · simp only [List.append_nil, LTOBackup.tapeRoot, basename_append_singleton]
  · simp only [List.concat_eq_append, ← List.append_assoc, basename_append_singleton]

/-- A loose row of a session is named after its file, which the scan found at the same path
under the source and under `tape_root`. -/
theorem sessionRowsSatisfy_looseNamed : SessionRowsSatisfy FileRow.LooseNamed := by
  intro tapeLabel source tapeDrive tape src pm row hrow hp
  have hname : ∀ x ∈ LTOBackup.scan tape source (LTOBackup.tapeRoot source tapeDrive) src,
      basename x.2.dst = basename x.2.src := fun x hx => by
    obtain ⟨c, -, -, hinfo⟩ := LTOBackup.mem_scan hx
    rw [hinfo]
    exact basename_tapeRoot_append source tapeDrive x.1
  match pm, hrow with
  | none, hrow =>
    obtain ⟨x, hx, rfl⟩ := List.mem_map.1 hrow
    exact hname x hx
  | some [], hrow => cases hrow
  | some (m :: md), hrow =>
    rcases List.mem_append.1 hrow with hrow | hrow
    · obtain ⟨x, hx, hr⟩ := List.mem_filterMap.1 hrow
      split at hr
      · cases hr
      · obtain ⟨m', -, rfl⟩ := Option.map_eq_some'.1 hr
        exact hname x hx
    · obtain ⟨m', -, rfl⟩ := List.mem_map.1 hrow
      cases hp

/-! ## The check after a restore -/

/-- What a restore writes under the record's name has the bytes `restored` names. -/
theorem restoreWrite_of_restored {tape : FS} {r : FileRow} {b : Blob}
    (hb : LTORetriever.restored tape r = some b) :
    ∃ c, LTORetriever.restoreWrite tape r = some c ∧ c.blob = b := by
  unfold LTORetriever.restored at hb
  unfold LTORetriever.restoreWrite
  split_ifs at hb ⊢
  · obtain ⟨p, hp, hb⟩ := Option.bind_eq_some.1 hb
    refine ⟨.file b, ?_, rfl⟩
    rw [hp, Option.some_bind]
    split at hb <;> simp_all
  · obtain ⟨c, hc, rfl⟩ := Option.map_eq_some'.1 hb
    exact ⟨c, hc, rfl⟩

/-- On every index a run reaches, the hash check after the restore of a record, from a tape
whose copy of the record's data is `b`, hashes `b`: it does not raise, and it reports `OK`
exactly when `b` has the record's hash, unless the record has none. -/
theorem verifyRestoredHash_restoreRecord {st : Archive} (h : Reachable st) {r : FileRecord}
    (hr : r ∈ st.db.filesIndex) (tape : FS) (d : LocalDirs) {b : Blob}
    (hb : LTORetriever.restored tape r.toFileRow = some b) :
    verifyRestoredHash (LTORetriever.restoreRecord tape d r.toFileRow).restore [r.fileName]
        r.toFileRow =
      some (if r.fileHash = "" then .skipped else if b.sha256 = r.fileHash then .ok else .fail) := by
  have hname : LTORetriever.restoreName r.toFileRow = [r.fileName] := by
    unfold LTORetriever.restoreName
    cases hp : r.isPacked
    · rw [if_neg Bool.false_ne_true,
        recordsSatisfy_of_reachable h sessionRowsSatisfy_looseNamed r hr hp]
    · rfl
  obtain ⟨c, hc, rfl⟩ := restoreWrite_of_restored hb
  unfold verifyRestoredHash
  by_cases h0 : r.fileHash = ""
  · rw [if_pos h0, if_pos h0]
  · rw [if_neg h0, if_neg h0, LTORetriever.restoreRecord_restore_lookup, if_pos hname.symm, hc,
      Option.or_some, Option.map_some']

/-- After a direct backup of one file, restoring its record from the tape and checking it
reports `OK`. -/
theorem verifyRestoredHash_restoreRecord_after_backup :
    let cfg : Config := ⟨["src"], ["staging"], ["D:"], 1, 100⟩
    let inp : ArchiverInputs := ⟨some "T1", "", "y", "", "d", "2",
      FS.ofList [(["a.txt"], .file ⟨10, "h"⟩)] (by decide), "", ⟨fun _ => true, 10⟩, fun _ => "t"⟩
    let st := step ⟨.empty, ∅, ∅⟩ (.archive cfg inp)
    let r : FileRecord :=
      ⟨⟨"a.txt", ["src", "a.txt"], 10, "h", "T1", false, none, ["D:", "src", "a.txt"]⟩, 1, "t"⟩
    Reachable st ∧ r ∈ st.db.filesIndex ∧ LTORetriever.restored st.tape r.toFileRow = some ⟨10, "h"⟩ ∧
      verifyRestoredHash (LTORetriever.restoreRecord st.tape ⟨∅, ∅⟩ r.toFileRow).restore
        [r.fileName] r.toFileRow = some .ok := by
  intro cfg inp st r
  have h : Reachable st := .step _ (.init ∅ ∅)
  have hr : r ∈ st.db.filesIndex := by decide
  have hb : LTORetriever.restored st.tape r.toFileRow = some ⟨10, "h"⟩ := by decide
  exact ⟨h, hr, hb, (verifyRestoredHash_restoreRecord h hr st.tape ⟨∅, ∅⟩ hb).trans (by decide)⟩

end LtoArchive
