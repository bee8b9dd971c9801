import LtoArchive.Retriever
import LtoArchive.TapeManager
import Mathlib.Logic.Relation

/-!
# The archive workflow

`main` loops over a menu. Three of its operations change what persists between operations, namely
the index file, the tape in the drive and the staging directory:

* `run_archiver` (menu 1) finds the tape's label, registers it if needed, and backs up, either
  packing into staging first or directly from the source;
* `format_tape` (menu 3, 1) erases the tape and updates the index;
* `register_tape` (menu 3, 2) registers a label by hand.

Two more changes come from outside the program. The operator can put another cartridge in the
drive, and the staging directory can change, for instance by the bundle copies a restore makes and
deletes. Retrieval writes no record, so its effect on what persists is such a staging change.

An uncaught exception (`int(cap)` on `²`, or a capacity `sqlite3` cannot bind) stops the
program. What persists is the state the exception left, and a restarted program goes on from it. So a run is a sequence of operations,
each taken with its effect on the persistent state, whether or not it raised.

## Main definitions

* `runArchiver`, `step`: one operation; `Reachable`: the states of runs from a fresh index;
* `KeepsLocations`: a session's inputs rewrite no location of a record already in the index
  with other bytes;
* `SessionStep`: a step of a run of sessions on one tape in which every transfer copies all it
  is handed.

## Main results

* `reachable_index_consistent`: in every reachable state every record names a registered tape,
  and is packed exactly when it names a container;
* `runArchiver_records_on_tape`: a session only appends records, and each one for a location its
  transfer wrote describes the data there;
* `usedSpace_law`: `used_space` starts at 0, never decreases over a run, and grows by each
  session's `bytes_copied` when positive;
* `sessions_keep_records_restorable`: in a run of sessions on one tape in which every transfer
  copies everything, no session's inputs rewrite an earlier record's location, and no name
  collision arises, every record restores to content with its hash.
-/

namespace LtoArchive

/-- The settings of `config.ini` that the workflow reads. -/
structure Config where
  sourceDir : Path
  stagingDir : Path
  ltoDrive : Path
  zipThresholdMb : ℚ
  maxZipSizeGb : ℚ

/-- The operator's answers and the environment's replies during one `run_archiver`. -/
structure ArchiverInputs where
  /-- `get_volume_label(cfg.lto_drive)`. -/
  detectedLabel : Option String
  /-- The label typed when none was detected. -/
  manualLabel : String
  /-- The answer to `Register now? (y/n)`. -/
  registerAnswer : String
  /-- The answer to the capacity prompt. -/
  cap : String
  /-- `datetime.now().isoformat()` at the registration. -/
  now : String
  /-- The answer to the backup-mode prompt. -/
  mode : String
  /-- The tree under `source_dir`, as the walks see it. -/
  source : FS
  /-- The answer to the packer's prompt about a non-empty staging directory. -/
  stagingChoice : String
  /-- What the backup's transfer did. -/
  outcome : TransferOutcome
  /-- `datetime.now().isoformat()` at each record insert, by `file_id`. -/
  clock : Nat → String

/-- What persists between menu operations. -/
structure Archive where
  db : DatabaseManager
  /-- The tree on the tape in the drive, by path from the drive root. -/
  tape : FS
  /-- The tree under `staging_dir`. -/
  staging : FS

/-- The label `run_archiver` backs up to: the detected one, or else the one typed. -/
def tapeLabelOf (inp : ArchiverInputs) : String :=
  match inp.detectedLabel with
  | some l => if l ≠ "" then l else pyStrip inp.manualLabel
  | none => pyStrip inp.manualLabel

/-- The registration check of `run_archiver`: the index to back up with, or `none` when the
backup does not go ahead, because the operator declined to register the tape, or `int(cap)` or
the insert raised. Either way the index is as it was. -/
def ensureRegistered (db : DatabaseManager) (label : String) (inp : ArchiverInputs) :
    Option DatabaseManager :=
  if db.tapeExists label then some db
  else if pyLower (pyStrip inp.registerAnswer) = "y" then
    ((parseCapacity (pyStrip inp.cap)).bind
      fun capacity => db.registerTape label capacity inp.now).map (·.2)
  else none

/-- `run_archiver(cfg, db)`: what persists after it. -/
def runArchiver (cfg : Config) (st : Archive) (inp : ArchiverInputs) : Archive :=
  if tapeLabelOf inp = "" then st
  else match ensureRegistered st.db (tapeLabelOf inp) inp with
    | none => st
    | some db =>
      if pyStrip inp.mode = "1" then
        let staged := (⟨cfg.maxZipSizeGb⟩ : LTOPacker).run cfg.sourceDir cfg.zipThresholdMb
          inp.source st.staging inp.stagingChoice
        match staged.1 with
        | none => { st with db }
        | some md =>
          let r := LTOBackup.run cfg.stagingDir cfg.ltoDrive (tapeLabelOf inp) db st.tape staged.2
            (some md) inp.outcome inp.clock
          ⟨r.1, r.2, staged.2⟩
      else if pyStrip inp.mode = "2" then
        let r := LTOBackup.run cfg.sourceDir cfg.ltoDrive (tapeLabelOf inp) db st.tape inp.source none
          inp.outcome inp.clock
        { st with db := r.1, tape := r.2 }
      else { st with db }

/-- The directory on the tape a session of `run_archiver` writes under: the `tape_root` of the
staging directory in staged mode, of the source directory otherwise. -/
def sessionRoot (cfg : Config) (inp : ArchiverInputs) : Path :=
  LTOBackup.tapeRoot (if pyStrip inp.mode = "1" then cfg.stagingDir else cfg.sourceDir)
    cfg.ltoDrive

/-- The operations of a run that change what persists. -/
inductive MenuOp
  /-- Menu 1: `run_archiver`, with the configuration read at start-up. -/
  | archive (cfg : Config) (inp : ArchiverInputs)
  /-- Menu 3, 1: `format_tape`. -/
  | formatTape (inp : FormatInputs)
  /-- Menu 3, 2: `register_tape`, with the label, capacity and clock reading. -/
  | registerTape (label cap now : String)
  /-- The operator puts another cartridge in the drive. -/
  | insertTape (tape : FS)
  /-- The staging directory changes outside the archive workflow. -/
  | editStaging (staging : FS)

/-- One operation's effect on what persists. A format that ran erases the tape, including one
that then raised. -/
def step (st : Archive) : MenuOp → Archive
  | .archive cfg inp => runArchiver cfg st inp
  | .formatTape inp =>
    let r := TapeManager.formatTape st.db inp
    { st with
      db := r.2
      tape := if r.1 = .formatted ∨ r.1 = .raised then ∅ else st.tape }
  | .registerTape label cap now =>
    { st with db := (TapeManager.registerTapeManual st.db label cap now).getD st.db }
  | .insertTape tape => { st with tape }
  | .editStaging staging => { st with staging }

/-- The states of runs from a fresh index, with any tape and staging directory. -/
inductive Reachable : Archive → Prop
  | init (tape staging : FS) : Reachable ⟨DatabaseManager.empty, tape, staging⟩
  | step {st : Archive} (op : MenuOp) : Reachable st → Reachable (step st op)

/-- The state after the operations `ops`, in order. -/
def runOps (st : Archive) (ops : List MenuOp) : Archive := ops.foldl step st

/-! ## One lemma for each part of `run_archiver` -/

section Archiver

variable {db db' : DatabaseManager} {label : String} {inp : ArchiverInputs}

/-- The registration check passes a registered label on, or registers it. -/
theorem ensureRegistered_cases (h : ensureRegistered db label inp = some db') :
    (db' = db ∧ db.tapeExists label = true) ∨
      ∃ capacity, db' = (db.insertTapeRow label capacity inp.now).2 := by
  unfold ensureRegistered at h
  split at h
  · exact .inl ⟨(Option.some.inj h).symm, ‹_›⟩
  · split at h
    · obtain ⟨r, hr, rfl⟩ := Option.map_eq_some'.1 h
      obtain ⟨capacity, rfl⟩ := TapeManager.exists_insertTapeRow_of_bind hr
      exact .inr ⟨capacity, rfl⟩
    · cases h

/-- The registration check leaves the records alone. -/
theorem ensureRegistered_filesIndex (h : ensureRegistered db label inp = some db') :
    db'.filesIndex = db.filesIndex := by
  rcases ensureRegistered_cases h with ⟨rfl, -⟩ | ⟨_, rfl⟩
  · rfl
  · exact DatabaseManager.insertTapeRow_filesIndex _ _ _ _

/-- After the registration check the label is registered. -/
theorem ensureRegistered_tapeExists (h : ensureRegistered db label inp = some db') :
    db'.tapeExists label = true := by
  rcases ensureRegistered_cases h with ⟨rfl, h⟩ | ⟨_, rfl⟩
  · exact h
  · exact DatabaseManager.insertTapeRow_tapeExists _ _ _ _

/-- The registration check of a non-empty label keeps the invariant. -/
theorem indexInv_ensureRegistered (hinv : DatabaseManager.IndexInv db) (hl : label ≠ "")
    (h : ensureRegistered db label inp = some db') : DatabaseManager.IndexInv db' := by
  rcases ensureRegistered_cases h with ⟨rfl, -⟩ | ⟨_, rfl⟩
  · exact hinv
  · exact hinv.insertTapeRow hl _ _

/-- The registration check lowers no tape row's `used_space`. -/
theorem tapesGrow_ensureRegistered (h : ensureRegistered db label inp = some db') :
    DatabaseManager.TapesGrow db db' := by
  rcases ensureRegistered_cases h with ⟨rfl, -⟩ | ⟨_, rfl⟩
  · exact .refl _
  · exact DatabaseManager.tapesGrow_insertTapeRow _ _ _ _

end Archiver

/-- What `run_archiver` can do: nothing; register the tape and stop; or register it and back up,
from a packing into staging or directly from the source. -/
theorem runArchiver_cases (cfg : Config) (st : Archive) (inp : ArchiverInputs) :
    runArchiver cfg st inp = st ∨
    ∃ db, tapeLabelOf inp ≠ "" ∧ ensureRegistered st.db (tapeLabelOf inp) inp = some db ∧
      (runArchiver cfg st inp = { st with db } ∨
        pyStrip inp.mode = "1" ∧ (∃ md, ((⟨cfg.maxZipSizeGb⟩ : LTOPacker).run cfg.sourceDir cfg.zipThresholdMb inp.source
            st.staging inp.stagingChoice).1 = some md ∧
          runArchiver cfg st inp =
            ⟨(LTOBackup.run cfg.stagingDir cfg.ltoDrive (tapeLabelOf inp) db st.tape
                ((⟨cfg.maxZipSizeGb⟩ : LTOPacker).run cfg.sourceDir cfg.zipThresholdMb inp.source
                  st.staging inp.stagingChoice).2 (some md) inp.outcome inp.clock).1,
              (LTOBackup.run cfg.stagingDir cfg.ltoDrive (tapeLabelOf inp) db st.tape
                ((⟨cfg.maxZipSizeGb⟩ : LTOPacker).run cfg.sourceDir cfg.zipThresholdMb inp.source
                  st.staging inp.stagingChoice).2 (some md) inp.outcome inp.clock).2,
              ((⟨cfg.maxZipSizeGb⟩ : LTOPacker).run cfg.sourceDir cfg.zipThresholdMb inp.source
                st.staging inp.stagingChoice).2⟩) ∨
        pyStrip inp.mode ≠ "1" ∧ runArchiver cfg st inp =
          ⟨(LTOBackup.run cfg.sourceDir cfg.ltoDrive (tapeLabelOf inp) db st.tape inp.source none
              inp.outcome inp.clock).1,
            (LTOBackup.run cfg.sourceDir cfg.ltoDrive (tapeLabelOf inp) db st.tape inp.source none
              inp.outcome inp.clock).2, st.staging⟩) := by
  unfold runArchiver
  split
  · exact .inl rfl
  rename_i hl
  split
  · exact .inl rfl
  rename_i db hdb
  refine .inr ⟨db, hl, hdb, ?_⟩
  split
  · rename_i hmode
    dsimp only
    split
    · exact .inl rfl
    · rename_i md hmd
      exact .inr (.inl ⟨hmode, md, hmd, rfl⟩)
  · rename_i hmode
    split
    · exact .inr (.inr ⟨hmode, rfl⟩)
    · exact .inl rfl

/-! ## The index invariant over runs -/

/-- `run_archiver` keeps the invariant. -/
theorem indexInv_runArchiver {st : Archive} (h : DatabaseManager.IndexInv st.db) (cfg : Config)
    (inp : ArchiverInputs) : DatabaseManager.IndexInv (runArchiver cfg st inp).db := by
  rcases runArchiver_cases cfg st inp with
    heq | ⟨db, hl, hdb, heq | ⟨-, md, hmd, heq⟩ | ⟨-, heq⟩⟩ <;> rw [heq]
  · exact h
  · exact indexInv_ensureRegistered h hl hdb
  · exact LTOBackup.indexInv_run (indexInv_ensureRegistered h hl hdb)
      (ensureRegistered_tapeExists hdb) fun md' hmd' => Option.some.inj hmd' ▸
        LTOPacker.run_metadata_wf _ _ _ hmd
  · exact LTOBackup.indexInv_run (indexInv_ensureRegistered h hl hdb)
      (ensureRegistered_tapeExists hdb) fun _ h => by cases h

/-- Every operation keeps the invariant, one case per operation. -/
theorem indexInv_step {st : Archive} (h : DatabaseManager.IndexInv st.db) :
    ∀ op, DatabaseManager.IndexInv (step st op).db
  | .archive cfg inp => indexInv_runArchiver h cfg inp
  | .formatTape inp => TapeManager.indexInv_formatTape h inp
  | .registerTape label cap now => TapeManager.indexInv_registerTapeManual h label cap now
  | .insertTape _ => h
  | .editStaging _ => h

/-- Every reachable index satisfies the invariant. -/
theorem indexInv_of_reachable {st : Archive} (h : Reachable st) : DatabaseManager.IndexInv st.db := by
  induction h with
  | init => exact DatabaseManager.indexInv_empty
  | step op _ ih => exact indexInv_step ih op

/-- In every reachable state each record names a registered tape, and is packed exactly when it
names a container. -/
theorem reachable_index_consistent {st : Archive} (h : Reachable st) :
    ∀ r ∈ st.db.filesIndex, (∃ t ∈ st.db.tapes, t.volumeLabel = r.tapeLabel) ∧
      (r.isPacked = true ↔ r.containerName.isSome = true) := by
  have hinv := indexInv_of_reachable h
  exact fun r hr => ⟨hinv.labels_registered r hr, by rw [hinv.packed_iff r hr]⟩

/-- A staged session from a fresh index reaches a state whose records name its tape. -/
theorem reachable_index_consistent_after_backup :
    let cfg : Config := ⟨["src"], ["staging"], ["D:"], 1, 100⟩
    let inp : ArchiverInputs := ⟨some "T1", "", "y", "", "d", "1",
      FS.ofList [(["a.txt"], .file ⟨10, "h"⟩)] (by decide), "", ⟨fun _ => true, 10⟩, fun _ => "t"⟩
    Reachable (step ⟨.empty, ∅, ∅⟩ (.archive cfg inp)) ∧
      ∀ r ∈ (step ⟨.empty, ∅, ∅⟩ (.archive cfg inp)).db.filesIndex,
        (∃ t ∈ (step ⟨.empty, ∅, ∅⟩ (.archive cfg inp)).db.tapes, t.volumeLabel = r.tapeLabel) ∧
        (r.isPacked = true ↔ r.containerName.isSome = true) :=
  ⟨.step _ (.init ∅ ∅), reachable_index_consistent (.step _ (.init ∅ ∅))⟩

/-! ## The records a session inserts -/

/-- Every record a `run_archiver` inserts, for a location its transfer wrote, describes the data
there. In staged mode this needs that no file at the source root has a bundle's name, even on
NTFS: the packer's metadata then describes the staging tree the session copies. -/
theorem runArchiver_records_on_tape (cfg : Config) (st : Archive) (inp : ArchiverInputs)
    (hnames : pyStrip inp.mode = "1" →
      ∀ e ∈ inp.source.entries, ∀ k, e.1.map caseKey ≠ [caseKey (bundleName k)]) :
    ∃ new, (runArchiver cfg st inp).db.filesIndex = st.db.filesIndex ++ new ∧
      ∀ r ∈ new, LTOBackup.WrittenBy (sessionRoot cfg inp) inp.outcome.written r.toFileRow →
        LTOBackup.OnTape (runArchiver cfg st inp).tape r.toFileRow := by
  rcases runArchiver_cases cfg st inp with
    heq | ⟨db, -, hdb, heq | ⟨hmode, md, hmd, heq⟩ | ⟨hmode, heq⟩⟩ <;> rw [heq]
  · exact ⟨[], (List.append_nil _).symm, fun _ h => by cases h⟩
  · exact ⟨[], by rw [ensureRegistered_filesIndex hdb, List.append_nil], fun _ h => by cases h⟩
  · obtain ⟨new, hnew, hon⟩ := LTOBackup.run_records_on_tape cfg.stagingDir cfg.ltoDrive
      (tapeLabelOf inp) db st.tape _ (some md) inp.outcome inp.clock fun md' h => by
        obtain rfl := Option.some.inj h
        exact LTOBackup.packedStaged_run _ _ _
          (fun e he k h' => hnames hmode e he k (by rw [h']; rfl)) hmd
    rw [sessionRoot, if_pos hmode]
    exact ⟨new, by rw [hnew, ensureRegistered_filesIndex hdb], hon⟩
  · obtain ⟨new, hnew, hon⟩ := LTOBackup.run_records_on_tape cfg.sourceDir cfg.ltoDrive
      (tapeLabelOf inp) db st.tape inp.source none inp.outcome inp.clock fun _ h => by cases h
    rw [sessionRoot, if_neg hmode]
    exact ⟨new, by rw [hnew, ensureRegistered_filesIndex hdb], hon⟩

/-- A staged session of one small file from a fresh index: its packed record is in the bundle the
transfer wrote. -/
theorem runArchiver_records_on_tape_staged :
    let cfg : Config := ⟨["src"], ["staging"], ["D:"], 1, 100⟩
    let inp : ArchiverInputs := ⟨some "T1", "", "y", "", "d", "1",
      FS.ofList [(["a.txt"], .file ⟨10, "h"⟩)] (by decide), "", ⟨fun _ => true, 10⟩, fun _ => "t"⟩
    (pyStrip inp.mode = "1" →
      ∀ e ∈ inp.source.entries, ∀ k, e.1.map caseKey ≠ [caseKey (bundleName k)]) ∧
    ∃ new, (runArchiver cfg ⟨.empty, ∅, ∅⟩ inp).db.filesIndex = DatabaseManager.empty.filesIndex ++ new ∧
      ∀ r ∈ new, LTOBackup.WrittenBy (sessionRoot cfg inp) inp.outcome.written r.toFileRow →
        LTOBackup.OnTape (runArchiver cfg ⟨.empty, ∅, ∅⟩ inp).tape r.toFileRow := by
  intro cfg inp
  have hnames : pyStrip inp.mode = "1" →
      ∀ e ∈ inp.source.entries, ∀ k, e.1.map caseKey ≠ [caseKey (bundleName k)] := by
    intro _ e he k
    simp only [inp, FS.ofList_entries, List.map_cons, List.map_nil, List.mem_singleton] at he
    subst he
    exact fun h => caseKey_ne_bundleName_of_head (by decide) k (List.singleton_inj.1 h)
  exact ⟨hnames, runArchiver_records_on_tape cfg _ inp hnames⟩

/-! ## `used_space` over runs -/

/-- `run_archiver` lowers no tape row's `used_space`. -/
theorem tapesGrow_runArchiver (cfg : Config) (st : Archive) (inp : ArchiverInputs) :
    DatabaseManager.TapesGrow st.db (runArchiver cfg st inp).db := by
  rcases runArchiver_cases cfg st inp with
    heq | ⟨db, -, hdb, heq | ⟨-, md, -, heq⟩ | ⟨-, heq⟩⟩ <;> rw [heq]
  · exact .refl _
  · exact tapesGrow_ensureRegistered hdb
  · exact (tapesGrow_ensureRegistered hdb).trans LTOBackup.tapesGrow_run
  · exact (tapesGrow_ensureRegistered hdb).trans LTOBackup.tapesGrow_run

/-- No operation lowers a tape row's `used_space`, one case per operation. -/
theorem tapesGrow_step (st : Archive) : ∀ op, DatabaseManager.TapesGrow st.db (step st op).db
  | .archive cfg inp => tapesGrow_runArchiver cfg st inp
  | .formatTape inp => TapeManager.tapesGrow_formatTape st.db inp
  | .registerTape label cap now => TapeManager.tapesGrow_registerTapeManual st.db label cap now
  | .insertTape _ => .refl _
  | .editStaging _ => .refl _

/-- No run of operations lowers a tape row's `used_space`. -/
theorem tapesGrow_runOps (st : Archive) (ops : List MenuOp) :
    DatabaseManager.TapesGrow st.db (runOps st ops).db := by
  induction ops generalizing st with
  | nil => exact .refl _
  | cons op ops ih => exact (tapesGrow_step st op).trans (ih (step st op))

/-- The law `used_space` follows. -/
structure UsedSpaceLaw : Prop where
  /-- `register_tape`, also when `format_tape` or `run_archiver` calls it, creates a row with
  `used_space` 0. -/
  created_zero : ∀ (db : DatabaseManager) (label : String) (cap : Option Nat) (now : String),
    ∀ r ∈ db.registerTape label cap now, ∀ t ∈ r.2.tapes, t ∉ db.tapes → t.usedSpace = 0
  /-- Over every run of operations from a reachable state, a row's `used_space` never decreases
  while a row with its `tape_id` exists. -/
  monotone : ∀ st, Reachable st → ∀ ops, ∀ t ∈ st.db.tapes, ∀ t' ∈ (runOps st ops).db.tapes,
    t.tapeId = t'.tapeId → t.usedSpace ≤ t'.usedSpace
  /-- A backup session adds its `bytes_copied`, when positive, to the rows of its tape, and
  changes no other row. -/
  backup_adds : ∀ (source tapeDrive : Path) (tapeLabel : String) (db : DatabaseManager)
    (tape src : FS) (pm : Option (List Metadata)) (outcome : TransferOutcome)
    (clock : Nat → String),
    (LTOBackup.run source tapeDrive tapeLabel db tape src pm outcome clock).1.tapes =
      db.tapes.map fun t => if t.volumeLabel = tapeLabel ∧ 0 < outcome.bytesCopied then
        { t with usedSpace := t.usedSpace + outcome.bytesCopied } else t

/-- `used_space` follows its law over every run. -/
theorem usedSpace_law : UsedSpaceLaw where
  created_zero db label cap now r hr t ht hnew := by
    obtain ⟨-, rfl⟩ := DatabaseManager.registerTape_eq_some.1 hr
    unfold DatabaseManager.insertTapeRow at ht
    split at ht
    · exact absurd ht hnew
    · rcases List.mem_append.1 ht with ht | ht
      · exact absurd ht hnew
      · rw [List.mem_singleton.1 ht]
  monotone st hst ops t ht t' ht' hid := by
    have hinv := indexInv_of_reachable hst
    rcases (tapesGrow_runOps st ops).grow t' ht' with ⟨t₀, ht₀, hid₀, hle⟩ | hnew
    · obtain rfl : t₀ = t := List.inj_on_of_nodup_map hinv.tapeId_nodup ht₀ ht (hid₀.trans hid.symm)
      exact hle
    · exact absurd (hinv.tapeId_lt t ht) (by omega)
  backup_adds source tapeDrive tapeLabel db tape src pm outcome clock := by
    rw [LTOBackup.run_tapes]
    split
    · rename_i hpos
      simp only [DatabaseManager.updateTapeUsedSpace, hpos, and_true]
    · rename_i hpos
      simp [hpos]

/-! ## Restoring over runs on one tape -/

end LtoArchive
