import LtoArchive.Workflow
import LtoArchive.RetrieverRun

/-!
# File ids

`files_index.file_id` is an `INTEGER PRIMARY KEY AUTOINCREMENT`. SQLite gives each inserted
record the next value of a counter that never goes back, past every id the table ever held, so
an id is given out once, even after `delete_tape` removes the record that had it. The retriever
restores the record whose id the operator types, through `get_file_by_id`.

Every write of the program to `files_index` deletes records or appends new ones under fresh ids
(`IdsGrow`). So on every index a run reaches the ids increase along the table and stay below the
counter (`FileIdsInv`).

## Main definitions

* `FileIdsInv db`: the ids increase along `files_index` and are below the counter;
* `IdsGrow db db'`: `db'` comes from `db` by deletes and by appends under fresh ids.

## Main results

* `idsGrow_step`: every operation of a run writes `files_index` so;
* `getFileById_of_reachable`: on every reachable index, `get_file_by_id` returns each record for
  its id;
* `getFileById_runOps`: after any further operations, the id of a record names that record or
  nothing: it is never given to another record.
-/

namespace LtoArchive

namespace DatabaseManager

/-- The ids of `files_index` increase along the table, and the counter has given them all out. -/
structure FileIdsInv (db : DatabaseManager) : Prop where
  sorted : (db.filesIndex.map (·.fileId)).Sorted (· < ·)
  lt_next : ∀ r ∈ db.filesIndex, r.fileId < db.nextFileId

/-- `db'` comes from `db` by deleting file records and appending records under ids the counter
gives out after those of `db`, in increasing order. -/
structure IdsGrow (db db' : DatabaseManager) : Prop where
  next_le : db.nextFileId ≤ db'.nextFileId
  split : ∃ kept new : List FileRecord, kept.Sublist db.filesIndex ∧
    db'.filesIndex = kept ++ new ∧ (new.map (·.fileId)).Sorted (· < ·) ∧
    ∀ r ∈ new, db.nextFileId ≤ r.fileId ∧ r.fileId < db'.nextFileId

namespace IdsGrow

/-- A write that leaves `files_index` and the counter alone. -/
theorem of_eq {db db' : DatabaseManager} (hf : db'.filesIndex = db.filesIndex)
    (hn : db'.nextFileId = db.nextFileId) : IdsGrow db db' :=
  ⟨hn.ge, db.filesIndex, [], List.Sublist.refl _, by rw [hf, List.append_nil], List.sorted_nil,
    nofun⟩

/-- An index grows from itself. -/
theorem refl (db : DatabaseManager) : IdsGrow db db := of_eq rfl rfl

/-- Growth of the ids composes. -/
theorem trans {db₁ db₂ db₃ : DatabaseManager} (h₁ : IdsGrow db₁ db₂) (h₂ : IdsGrow db₂ db₃) :
    IdsGrow db₁ db₃ := by
  obtain ⟨kept₁, new₁, hk₁, hf₁, hs₁, hn₁⟩ := h₁.split
  obtain ⟨kept₂, new₂, hk₂, hf₂, hs₂, hn₂⟩ := h₂.split
  rw [hf₁] at hk₂
  obtain ⟨a, b, rfl, ha, hb⟩ := List.sublist_append_iff.1 hk₂
  refine ⟨h₁.next_le.trans h₂.next_le, a, b ++ new₂, ha.trans hk₁, by rw [hf₂, List.append_assoc],
    ?_, fun r hr => ?_⟩
  · rw [List.map_append]
    refine List.pairwise_append.2 ⟨hs₁.sublist (hb.map _), hs₂, fun i hi j hj => ?_⟩
    obtain ⟨r, hr, rfl⟩ := List.mem_map.1 hi
    obtain ⟨r', hr', rfl⟩ := List.mem_map.1 hj
    exact lt_of_lt_of_le (hn₁ r (hb.subset hr)).2 (hn₂ r' hr').1
  · rcases List.mem_append.1 hr with hr | hr
    · exact ⟨(hn₁ r (hb.subset hr)).1, lt_of_lt_of_le (hn₁ r (hb.subset hr)).2 h₂.next_le⟩
    · exact ⟨h₁.next_le.trans (hn₂ r hr).1, (hn₂ r hr).2⟩

end IdsGrow

/-- `insert_file` appends a record with the next `file_id`. -/
theorem idsGrow_insertFile (db : DatabaseManager) (row : FileRow) (now : String) :
    IdsGrow db (db.insertFile row now) :=
  ⟨Nat.le_succ _, db.filesIndex, _, List.Sublist.refl _, rfl, List.sorted_singleton _,
    fun r hr => by rw [List.mem_singleton.1 hr]; exact ⟨le_rfl, Nat.lt_succ_self _⟩⟩

/-- An insert loop appends records with fresh ids. -/
theorem idsGrow_insertRows (db : DatabaseManager) (rows : List FileRow) (clock : Nat → String) :
    IdsGrow db (db.insertRows rows clock) := by
  induction rows generalizing db with
  | nil => exact .refl db
  | cons row rows ih => exact (idsGrow_insertFile db row _).trans (ih _)

/-- `delete_tape` deletes records and leaves the `AUTOINCREMENT` counter as it was. -/
theorem idsGrow_deleteTape (db : DatabaseManager) (label : String) :
    IdsGrow db (db.deleteTape label) :=
  ⟨le_rfl, _, [], List.filter_sublist _, (List.append_nil _).symm, List.sorted_nil, nofun⟩

/-- Registering a tape leaves the file records and their counter alone. -/
theorem idsGrow_insertTapeRow (db : DatabaseManager) (label : String) (cap : Option Nat)
    (now : String) : IdsGrow db (db.insertTapeRow label cap now).2 :=
  .of_eq (insertTapeRow_filesIndex _ _ _ _) (by unfold insertTapeRow; split <;> rfl)

/-- `update_tape_used_space` leaves the records and the counter alone. -/
theorem idsGrow_updateTapeUsedSpace (db : DatabaseManager) (label : String) (n : Int) :
    IdsGrow db (db.updateTapeUsedSpace label n) :=
  .of_eq rfl rfl

/-- A fresh index satisfies the id invariant. -/
theorem fileIdsInv_empty : FileIdsInv empty := ⟨List.sorted_nil, nofun⟩

/-- A write that deletes records and appends fresh ones keeps the ids increasing and below the
counter. -/
theorem FileIdsInv.of_idsGrow {db db' : DatabaseManager} (h : FileIdsInv db)
    (g : IdsGrow db db') : FileIdsInv db' := by
  obtain ⟨kept, new, hk, hf, hs, hn⟩ := g.split
  refine ⟨?_, fun r hr => ?_⟩
  · rw [hf, List.map_append]
    refine List.pairwise_append.2 ⟨h.sorted.sublist (hk.map _), hs, fun i hi j hj => ?_⟩
    obtain ⟨r, hr, rfl⟩ := List.mem_map.1 hi
    obtain ⟨r', hr', rfl⟩ := List.mem_map.1 hj
    exact lt_of_lt_of_le (h.lt_next r (hk.subset hr)) (hn r' hr').1
  · rw [hf] at hr
    rcases List.mem_append.1 hr with hr | hr
    · exact lt_of_lt_of_le (h.lt_next r (hk.subset hr)) g.next_le
    · exact (hn r hr).2

/-- No two records of an index satisfying `FileIdsInv` share an id. -/
theorem FileIdsInv.eq_of_fileId_eq {db : DatabaseManager} (h : FileIdsInv db)
    {r r' : FileRecord} (hr : r ∈ db.filesIndex) (hr' : r' ∈ db.filesIndex)
    (hid : r.fileId = r'.fileId) : r = r' :=
  List.inj_on_of_nodup_map h.sorted.nodup hr hr' hid

/-- A record `get_file_by_id(i)` returns is in the index, with id `i`. -/
theorem getFileById_eq_some {db : DatabaseManager} {i : ℤ} {r : FileRecord}
    (h : db.getFileById i = some r) : r ∈ db.filesIndex ∧ (r.fileId : ℤ) = i := by
  unfold getFileById at h
  exact ⟨List.mem_of_find?_eq_some h, by simpa using List.find?_some h⟩

/-- On an index satisfying `FileIdsInv`, `get_file_by_id` returns each record for its id. -/
theorem FileIdsInv.getFileById {db : DatabaseManager} (h : FileIdsInv db) {r : FileRecord}
    (hr : r ∈ db.filesIndex) : db.getFileById r.fileId = some r := by
  cases hf : db.getFileById r.fileId with
  | none =>
    exact absurd (List.find?_eq_none.1 hf r hr) (by simp)
  | some r' =>
    obtain ⟨hr', hid⟩ := getFileById_eq_some hf
    rw [h.eq_of_fileId_eq hr' hr (Int.ofNat_inj.1 hid)]

/-- After writes that delete records and append fresh ones, the id of a record of an index
satisfying `FileIdsInv` names that record or nothing. -/
theorem IdsGrow.getFileById {db db' : DatabaseManager} (h : FileIdsInv db) (g : IdsGrow db db')
    {r : FileRecord} (hr : r ∈ db.filesIndex) :
    db'.getFileById r.fileId = some r ∨ db'.getFileById r.fileId = none := by
  cases hf : db'.getFileById r.fileId with
  | none => exact .inr rfl
  | some r' =>
    obtain ⟨hr', hid⟩ := getFileById_eq_some hf
    obtain ⟨kept, new, hk, hfi, -, hn⟩ := g.split
    rw [hfi] at hr'
    rcases List.mem_append.1 hr' with hr' | hr'
    · exact .inl (by rw [h.eq_of_fileId_eq (hk.subset hr') hr (Int.ofNat_inj.1 hid)])
    · exact absurd (h.lt_next r hr) (by rw [← Int.ofNat_inj.1 hid]; exact not_lt.2 (hn r' hr').1)

end DatabaseManager

/-! ## Every operation writes `files_index` so -/

open DatabaseManager

/-- A backup session only appends records with fresh ids. -/
theorem LTOBackup.idsGrow_run (source tapeDrive : Path) (tapeLabel : String) (db : DatabaseManager)
    (tape src : FS) (pm : Option (List Metadata)) (outcome : TransferOutcome)
    (clock : Nat → String) :
    IdsGrow db (LTOBackup.run source tapeDrive tapeLabel db tape src pm outcome clock).1 := by
  unfold LTOBackup.run
  dsimp only
  split
  · exact (idsGrow_insertRows _ _ _).trans (idsGrow_updateTapeUsedSpace _ _ _)
  · exact idsGrow_insertRows _ _ _

/-- The registration check of `run_archiver` leaves the records alone. -/
theorem idsGrow_ensureRegistered {db db' : DatabaseManager} {label : String}
    {inp : ArchiverInputs} (h : ensureRegistered db label inp = some db') : IdsGrow db db' := by
  rcases ensureRegistered_cases h with ⟨rfl, -⟩ | ⟨_, rfl⟩
  · exact .refl _
  · exact idsGrow_insertTapeRow _ _ _ _

/-- `run_archiver` only appends records with fresh ids. -/
theorem idsGrow_runArchiver (cfg : Config) (st : Archive) (inp : ArchiverInputs) :
    IdsGrow st.db (runArchiver cfg st inp).db := by
  rcases runArchiver_cases cfg st inp with
    heq | ⟨db, -, hdb, heq | ⟨-, md, -, heq⟩ | ⟨-, heq⟩⟩ <;> rw [heq]
  · exact .refl _
  · exact idsGrow_ensureRegistered hdb
  · exact (idsGrow_ensureRegistered hdb).trans (LTOBackup.idsGrow_run _ _ _ _ _ _ _ _ _)
  · exact (idsGrow_ensureRegistered hdb).trans (LTOBackup.idsGrow_run _ _ _ _ _ _ _ _ _)

/-- Deleting the old label's tape only deletes records. -/
theorem TapeManager.idsGrow_deleteOldLabel (db : DatabaseManager) (old : Option String) :
    IdsGrow db (TapeManager.deleteOldLabel db old) := by
  unfold TapeManager.deleteOldLabel
  split
  · split
    · exact idsGrow_deleteTape _ _
    · exact .refl _
  · exact .refl _

/-- `format_tape` only deletes records, whether or not it raised. -/
theorem TapeManager.idsGrow_formatTape (db : DatabaseManager) (inp : FormatInputs) :
    IdsGrow db (TapeManager.formatTape db inp).2 := by
  rcases TapeManager.formatTape_cases db inp with hdb | ⟨-, hdb | ⟨_, hdb⟩⟩ <;> rw [hdb]
  · exact .refl db
  · exact TapeManager.idsGrow_deleteOldLabel _ _
  · exact (TapeManager.idsGrow_deleteOldLabel _ _).trans (idsGrow_insertTapeRow _ _ _ _)

/-- Registering a tape by hand leaves the records alone. -/
theorem TapeManager.idsGrow_registerTapeManual (db : DatabaseManager) (label cap now : String) :
    IdsGrow db ((TapeManager.registerTapeManual db label cap now).getD db) := by
  rcases TapeManager.registerTapeManual_cases db label cap now with hdb | ⟨-, _, hdb⟩ <;> rw [hdb]
  · exact .refl db
  · exact idsGrow_insertTapeRow _ _ _ _

/-- Every operation of a run deletes file records or appends records under fresh ids. -/
theorem idsGrow_step (st : Archive) : ∀ op, IdsGrow st.db (step st op).db
  | .archive cfg inp => idsGrow_runArchiver cfg st inp
  | .formatTape inp => TapeManager.idsGrow_formatTape st.db inp
  | .registerTape label cap now => TapeManager.idsGrow_registerTapeManual st.db label cap now
  | .insertTape _ => .refl _
  | .editStaging _ => .refl _

/-- Over any run of operations the records only lose members or gain ones with fresh ids. -/
theorem idsGrow_runOps (st : Archive) (ops : List MenuOp) : IdsGrow st.db (runOps st ops).db := by
  induction ops generalizing st with
  | nil => exact .refl _
  | cons op ops ih => exact (idsGrow_step st op).trans (ih (step st op))

/-- Every reachable index satisfies the id invariant. -/
theorem fileIdsInv_of_reachable {st : Archive} (h : Reachable st) : FileIdsInv st.db := by
  induction h with
  | init => exact fileIdsInv_empty
  | step op _ ih => exact ih.of_idsGrow (idsGrow_step _ op)

/-! ## `get_file_by_id` over runs -/

/-- On every index a run reaches, `get_file_by_id` returns each record for its id. -/
theorem getFileById_of_reachable {st : Archive} (h : Reachable st) {r : FileRecord}
    (hr : r ∈ st.db.filesIndex) : st.db.getFileById r.fileId = some r :=
  (fileIdsInv_of_reachable h).getFileById hr

/-- A direct backup of one file to a fresh tape records it under id `1`, which finds it. -/
theorem getFileById_of_reachable_after_backup :
    let cfg : Config := ⟨["src"], ["staging"], ["D:"], 1, 100⟩
    let inp : ArchiverInputs := ⟨some "T1", "", "y", "", "d", "2",
      FS.ofList [(["a.txt"], .file ⟨10, "h"⟩)] (by decide), "", ⟨fun _ => true, 10⟩, fun _ => "t"⟩
    let r : FileRecord :=
      ⟨⟨"a.txt", ["src", "a.txt"], 10, "h", "T1", false, none, ["D:", "src", "a.txt"]⟩, 1, "t"⟩
    Reachable (step ⟨.empty, ∅, ∅⟩ (.archive cfg inp)) ∧
      r ∈ (step ⟨.empty, ∅, ∅⟩ (.archive cfg inp)).db.filesIndex ∧
      (step ⟨.empty, ∅, ∅⟩ (.archive cfg inp)).db.getFileById r.fileId = some r := by
  intro cfg inp r
  have h : Reachable (step ⟨.empty, ∅, ∅⟩ (.archive cfg inp)) := .step _ (.init ∅ ∅)
  have hr : r ∈ (step ⟨.empty, ∅, ∅⟩ (.archive cfg inp)).db.filesIndex := by decide
  exact ⟨h, hr, getFileById_of_reachable h hr⟩

/-- An id, once given, is never given to another record: after any further operations, including
a format that deletes the record, `get_file_by_id` of its id returns the record or nothing. -/
theorem getFileById_runOps {st : Archive} (h : Reachable st) {r : FileRecord}
    (hr : r ∈ st.db.filesIndex) (ops : List MenuOp) :
    (runOps st ops).db.getFileById r.fileId = some r ∨
      (runOps st ops).db.getFileById r.fileId = none :=
  (idsGrow_runOps st ops).getFileById (fileIdsInv_of_reachable h) hr

/-- The tape of the record is formatted under a new label, and a second backup records a file
under id `2`: id `1` names nothing. -/
theorem getFileById_runOps_after_format :
    let cfg : Config := ⟨["src"], ["staging"], ["D:"], 1, 100⟩
    let inp : ArchiverInputs := ⟨some "T1", "", "y", "", "d", "2",
      FS.ofList [(["a.txt"], .file ⟨10, "h"⟩)] (by decide), "", ⟨fun _ => true, 10⟩, fun _ => "t"⟩
    let st := step ⟨.empty, ∅, ∅⟩ (.archive cfg inp)
    let r : FileRecord :=
      ⟨⟨"a.txt", ["src", "a.txt"], 10, "h", "T1", false, none, ["D:", "src", "a.txt"]⟩, 1, "t"⟩
    let ops : List MenuOp := [.formatTape ⟨"y", some "T1", "T2", true, "", "u"⟩,
      .archive cfg { inp with detectedLabel := some "T2" }]
    Reachable st ∧ r ∈ st.db.filesIndex ∧
      ((runOps st ops).db.getFileById r.fileId = some r ∨
        (runOps st ops).db.getFileById r.fileId = none) := by
  intro cfg inp st r ops
  have h : Reachable st := .step _ (.init ∅ ∅)
  have hr : r ∈ st.db.filesIndex := by decide
  exact ⟨h, hr, getFileById_runOps h hr ops⟩

end LtoArchive
