import LtoArchive.Workflow
import LtoArchive.Search

/-!
# Backup sessions over runs

`list_backup_sessions` groups the records by `DATE(backup_date)` and tape, and the retriever
reads one group back through `search_by_session`. The two queries agree on an index whose dates
`DATE` reads. Every index a run reaches is one, because `insert_file` dates each record with
`datetime.now().isoformat()`. The model's backup takes its clock readings as an input
(`ArchiverInputs.clock`), so `IsoReachable` is `Reachable` restricted to runs whose readings are
texts `isoformat` returns.

## Main definitions

* `RecordsDated P db`: the date of every record satisfies `P`;
* `IsoReachable`: the states of runs whose records are dated by `isoformat`.

## Main results

* `RecordsDated.step`: an operation keeps `RecordsDated P` when it dates records by readings
  that satisfy `P`;
* `sessions_partition_records`: on every such run, each record's session is listed once, and the
  search for a listed session returns its count of records and its byte total.
-/

namespace LtoArchive

/-- The date of every record of the index satisfies `P`. -/
def RecordsDated (P : String → Prop) (db : DatabaseManager) : Prop :=
  ∀ r ∈ db.filesIndex, P r.backupDate

/-- The clock readings an operation dates records with satisfy `P`. Of the operations, only a
backup inserts records, each dated by a reading of its clock. -/
def MenuOp.ClockSatisfies (P : String → Prop) : MenuOp → Prop
  | .archive _ inp => ∀ n, P (inp.clock n)
  | _ => True

section RecordsDated

variable {P : String → Prop} {db : DatabaseManager}

/-- A date predicate holds of fewer records. -/
theorem RecordsDated.of_subset {db' : DatabaseManager} (h : RecordsDated P db)
    (hsub : ∀ r ∈ db'.filesIndex, r ∈ db.filesIndex) : RecordsDated P db' :=
  fun r hr => h r (hsub r hr)

/-- Inserting rows dated by a clock whose readings satisfy a predicate keeps it. -/
theorem RecordsDated.insertRows (h : RecordsDated P db) {clock : Nat → String}
    (hclock : ∀ n, P (clock n)) (rows : List FileRow) :
    RecordsDated P (db.insertRows rows clock) := by
  induction rows generalizing db with
  | nil => exact h
  | cons row rows ih =>
    refine @ih (db.insertFile row (clock db.nextFileId)) fun r hr => ?_
    rcases List.mem_append.1 hr with hr | hr
    · exact h r hr
    · rw [List.mem_singleton.1 hr]
      exact hclock _

/-- A backup session whose clock readings satisfy a predicate keeps it. -/
theorem RecordsDated.backupRun (h : RecordsDated P db) {clock : Nat → String}
    (hclock : ∀ n, P (clock n)) (source tapeDrive : Path) (tapeLabel : String) (tape src : FS)
    (pm : Option (List Metadata)) (outcome : TransferOutcome) :
    RecordsDated P (LTOBackup.run source tapeDrive tapeLabel db tape src pm outcome clock).1 := by
  intro r hr
  rw [LTOBackup.run_filesIndex] at hr
  exact h.insertRows hclock _ r hr

/-- `run_archiver` with clock readings that satisfy a predicate keeps it. -/
theorem RecordsDated.runArchiver {st : Archive} (h : RecordsDated P st.db) (cfg : Config)
    {inp : ArchiverInputs} (hclock : ∀ n, P (inp.clock n)) :
    RecordsDated P (runArchiver cfg st inp).db := by
  rcases runArchiver_cases cfg st inp with heq | ⟨db, -, hdb, hrest⟩
  · rw [heq]
    exact h
  have h' : RecordsDated P db := h.of_subset fun r hr => ensureRegistered_filesIndex hdb ▸ hr
  rcases hrest with heq | ⟨-, md, -, heq⟩ | ⟨-, heq⟩ <;> rw [heq]
  · exact h'
  · exact h'.backupRun hclock _ _ _ _ _ _ _
  · exact h'.backupRun hclock _ _ _ _ _ _ _

/-- One operation keeps every record dated by `P` when the readings it dates records with
satisfy `P`. -/
theorem RecordsDated.step {st : Archive} (h : RecordsDated P st.db) :
    ∀ {op : MenuOp}, op.ClockSatisfies P → RecordsDated P (step st op).db
  | .archive cfg _, hop => h.runArchiver cfg hop
  | .formatTape _, _ => h.of_subset fun _ => TapeManager.formatTape_filesIndex_subset
  | .registerTape label cap now, _ => h.of_subset fun r hr => by
    rwa [LtoArchive.step, TapeManager.registerTapeManual_filesIndex] at hr
  | .insertTape _, _ => h
  | .editStaging _, _ => h

end RecordsDated

/-- The states of runs from a fresh index, with any tape and staging directory, in which every
record is dated by a text `datetime.now().isoformat()` returns. -/
inductive IsoReachable : Archive → Prop
  | init (tape staging : FS) : IsoReachable ⟨DatabaseManager.empty, tape, staging⟩
  | step {st : Archive} (op : MenuOp) : op.ClockSatisfies (IsIsoTimestamp · = true) →
      IsoReachable st → IsoReachable (step st op)

/-- Every record of a state reached with `isoformat` clocks is dated by `isoformat`. -/
theorem IsoReachable.recordsDated {st : Archive} (h : IsoReachable st) :
    RecordsDated (IsIsoTimestamp · = true) st.db := by
  induction h with
  | init => exact fun _ hr => by cases hr
  | step _ hop _ ih => exact ih.step hop

/-- On every index a run reaches, the sessions `list_backup_sessions` returns partition the
records: each record's `(DATE(backup_date), tape_label)` is listed exactly once, and the search
for each listed session returns as many records as its count, their sizes summing to its
total. -/
theorem sessions_partition_records {st : Archive} (h : IsoReachable st) :
    (∀ r ∈ st.db.filesIndex, (st.db.listBackupSessions.filter fun s =>
        (s.sessionDate, s.tapeLabel) = DatabaseManager.sessionKey r).length = 1) ∧
    ∀ s ∈ st.db.listBackupSessions,
      (st.db.searchBySession s.sessionDate s.tapeLabel).length = s.fileCount ∧
      ((st.db.searchBySession s.sessionDate s.tapeLabel).map (·.fileSizeBytes)).sum =
        s.totalBytes :=
  ⟨fun _ hr => DatabaseManager.listBackupSessions_key_unique hr,
    fun _ hs => DatabaseManager.searchBySession_of_mem h.recordsDated hs⟩

/-- After one backup session from a fresh index, each record is in one listed session, whose
count and byte total the session's search gives back. -/
theorem sessions_partition_records_after_backup :
    let cfg : Config := ⟨["src"], ["staging"], ["D:"], 1, 100⟩
    let inp : ArchiverInputs := ⟨some "T1", "", "y", "", "d", "2",
      FS.ofList [(["a.txt"], .file ⟨10, "h"⟩)] (by decide), "", ⟨fun _ => true, 10⟩,
      fun _ => "2024-05-01T10:00:00"⟩
    let st := step ⟨.empty, ∅, ∅⟩ (.archive cfg inp)
    IsoReachable st ∧
      (∀ r ∈ st.db.filesIndex, (st.db.listBackupSessions.filter fun s =>
          (s.sessionDate, s.tapeLabel) = DatabaseManager.sessionKey r).length = 1) ∧
      ∀ s ∈ st.db.listBackupSessions,
        (st.db.searchBySession s.sessionDate s.tapeLabel).length = s.fileCount ∧
        ((st.db.searchBySession s.sessionDate s.tapeLabel).map (·.fileSizeBytes)).sum =
          s.totalBytes := by
  intro cfg inp st
  have h : IsoReachable st := .step (.archive cfg inp)
    (fun _ => show IsIsoTimestamp "2024-05-01T10:00:00" = true by decide) (.init ∅ ∅)
  exact ⟨h, sessions_partition_records h⟩

end LtoArchive
