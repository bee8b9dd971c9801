import LtoArchive.Search
import LtoArchive.RestoreMany
import LtoArchive.PyNumber

/-!
# The retriever's menu

`LTORetriever.run` asks for a search, lists the records it finds, and restores either all of
them, through `_restore_many`, or the one whose `file_id` the operator types, after a
`_verify_tape` of its tape. The record an id names is looked up in the whole index
(`get_file_by_id`), listed or not.

Option 5 lists the backup sessions and reads a session number with `int`. The session is
`sessions[idx - 1]`, a Python list index: a negative number counts from the end of the list, and
one below `-len(sessions) + 1` raises an `IndexError` that nothing in the program catches. A
search raises too when its `LIKE` pattern is too long.

## Main definitions

* `RetrieverInputs`: what the operator types at the prompts;
* `pyGetIdx`: `xs[i]` on a Python list;
* `LTORetriever.listed`: the records `run` lists for the option chosen;
* `LTORetriever.retrieve`: `LTORetriever.run`, on the restore model of `_restore_many`.

## Main results

* `retrieve_all`: `ALL` restores the listed records through `_restore_many`;
* `retrieve_all_grouped`: restoring all listed records returns and restores them as
  `_restore_many` groups them, when their sources are on the tapes inserted and each loose
  record with a hash is named after its stored path.
-/

namespace LtoArchive

/-- `xs[i]` on a Python list: a negative index counts from the end; `none` where it raises
`IndexError`. -/
def pyGetIdx {α : Type} (xs : List α) (i : ℤ) : Option α :=
  if 0 ≤ i then xs.get? i.toNat
  else if 0 ≤ xs.length + i then xs.get? (xs.length + i).toNat
  else none

/-- `input(...).strip() or None`. -/
def strippedOrNone (s : String) : Option String :=
  if pyStrip s = "" then none else some (pyStrip s)

/-- What the operator types at `LTORetriever.run`'s prompts. A prompt the run does not reach is
not read. -/
structure RetrieverInputs where
  /-- `Option (1-5)`. -/
  opt : String
  /-- `Filename or pattern`. -/
  nameQuery : String
  /-- `Backed-up from`. -/
  dateFrom : String
  /-- `Backed-up to`. -/
  dateTo : String
  /-- `Original directory path`. -/
  dirPath : String
  /-- `Select session #`. -/
  sessionNumber : String
  /-- `Enter file ID to restore, ALL to restore all, or 0 to cancel`. -/
  selection : String
deriving DecidableEq, Repr, Inhabited

namespace DatabaseManager

/-- `get_file_by_id(file_id)`: the record with that `file_id`. -/
def getFileById (db : DatabaseManager) (fileId : ℤ) : Option FileRecord :=
  db.filesIndex.find? fun r => (r.fileId : ℤ) = fileId

end DatabaseManager

namespace LTORetriever

/-- The records `LTORetriever.run` lists for the option chosen. `some none` when it returns
before listing: an unknown option, an empty directory path, no session, or a session number
that `int` rejects, `0` or past the last session. `none` when a search or `sessions[idx - 1]`
raises. -/
def listed (db : DatabaseManager) (inp : RetrieverInputs) : Option (Option (List FileRecord)) :=
  let opt := pyStrip inp.opt
  if opt = "1" ∨ opt = "2" ∨ opt = "3" then
    let byName := opt = "1" ∨ opt = "3"
    let byDate := opt = "2" ∨ opt = "3"
    (db.searchFiles (if byName then strippedOrNone inp.nameQuery else none)
      (if byDate then strippedOrNone inp.dateFrom else none)
      (if byDate then strippedOrNone inp.dateTo else none)).map some
  else if opt = "4" then
    if pyStrip inp.dirPath = "" then some none
    else (db.searchByDirectory (pyStrip inp.dirPath)).map some
  else if opt = "5" then
    let sessions := db.listBackupSessions
    if sessions = [] then some none
    else
      match pyInt (pyStrip inp.sessionNumber) with
      | none => some none
      | some idx =>
        if idx = 0 ∨ (sessions.length : ℤ) < idx then some none
        else (pyGetIdx sessions (idx - 1)).map fun s =>
          some (db.searchBySession s.sessionDate s.tapeLabel)
  else some none

/-- The calls restoring one selected record: `_verify_tape` of its tape, then `_restore_packed`
or `_restore_loose`. `_restore_packed(record)` does what the bulk restore does with the one
record (`restorePacked`). -/
def selectedCalls (r : FileRow) : List RestoreCall :=
  [.verifyTape r.tapeLabel,
    if r.isPacked then .restorePackedBulk r.containerName [r] else .restoreLoose r]

/-- `LTORetriever.run()` with `tape` in the drive and the local directories `dirs`: the restore
state at the end, and whether the run returned (`false` when an exception escaped it). -/
def retrieve (mounted : String → FS) (db : DatabaseManager) (tape : FS) (dirs : LocalDirs)
    (inp : RetrieverInputs) : RestoreState × Bool :=
  match listed db inp with
  | none => (⟨tape, dirs, 0, []⟩, false)
  | some none => (⟨tape, dirs, 0, []⟩, true)
  | some (some results) =>
    let sel := pyStrip inp.selection
    if results = [] ∨ sel = "0" ∨ sel = "" then (⟨tape, dirs, 0, []⟩, true)
    else if pyUpper sel = "ALL" then restoreMany mounted tape dirs (results.map (·.toFileRow))
    else
      match (pyInt sel).bind db.getFileById with
      | none => (⟨tape, dirs, 0, []⟩, true)
      | some r => runCalls mounted ⟨tape, dirs, 0, []⟩ (selectedCalls r.toFileRow)

/-! ## Restoring what is listed -/

section Restore

variable (mounted : String → FS) (db : DatabaseManager) (tape : FS) (dirs : LocalDirs)
  (inp : RetrieverInputs)

/-- `ALL`, in any case, restores the listed records through `_restore_many`. -/
theorem retrieve_all {results : List FileRecord} (hl : listed db inp = some (some results))
    (hne : results ≠ []) (hsel : pyUpper (pyStrip inp.selection) = "ALL") :
    retrieve mounted db tape dirs inp = restoreMany mounted tape dirs (results.map (·.toFileRow)) := by
  have h0 : pyStrip inp.selection ≠ "0" := fun h => by rw [h] at hsel; exact absurd hsel (by decide)
  have h1 : pyStrip inp.selection ≠ "" := fun h => by rw [h] at hsel; exact absurd hsel (by decide)
  rw [retrieve, hl]
  simp only [hne, h0, h1, hsel, or_self, if_false, if_true]

/-- Restoring all listed records: when each listed loose record's file and each listed packed
record's container is on the tape inserted for its label, and each listed loose record with a
hash is named after its stored path, the run returns, and its calls restore the listed records as
`_restore_many` groups them. -/
theorem retrieve_all_grouped {results : List FileRecord}
    (hl : listed db inp = some (some results)) (hne : results ≠ [])
    (hsel : pyUpper (pyStrip inp.selection) = "ALL")
    (hloose : ∀ r ∈ results, r.isPacked = false →
      ((mounted r.tapeLabel).lookup r.storedPath).isSome = true ∧
        (r.fileHash = "" ∨ basename r.storedPath = r.fileName))
    (hpacked : ∀ r ∈ results, r.isPacked = true →
      (r.containerName.any fun p => ((mounted r.tapeLabel).lookup p).isSome) = true) :
    (retrieve mounted db tape dirs inp).2 = true ∧
      GroupedCalls (results.map (·.toFileRow)) (retrieve mounted db tape dirs inp).1.log ∧
      (retrieve mounted db tape dirs inp).1.doneCount = results.length := by
  rw [retrieve_all mounted db tape dirs inp hl hne hsel]
  obtain ⟨hrun, hgrouped, hdone⟩ := restoreMany_grouped mounted tape dirs
    (results.map (·.toFileRow)) (by simpa using hloose) (by simpa using hpacked)
  exact ⟨hrun, hgrouped, hdone.trans (List.length_map _ _)⟩

/-- `all` after a name search restores a loose file of `T1` and a member of a bundle on `T2`. -/
theorem retrieve_all_grouped_two_tapes :
    let t1 := FS.ofList [(["D:", "src", "a.txt"], .file ⟨10, "h"⟩)] (by decide)
    let t2 := FS.ofList [(["D:", "staging", "Bundle_001.zip"], .zip [(["b.txt"], ⟨5, "k"⟩)])]
      (by decide)
    let mounted : String → FS := fun l => if l = "T1" then t1 else t2
    let db := (DatabaseManager.empty.insertFile ⟨"a.txt", ["src", "a.txt"], 10, "h", "T1", false,
      none, ["D:", "src", "a.txt"]⟩ "2024-05-01T10:00:00").insertFile ⟨"b.txt", ["src", "b.txt"], 5,
      "k", "T2", true, some ["D:", "staging", "Bundle_001.zip"], ["b.txt"]⟩ "2024-05-01T10:00:00"
    let inp : RetrieverInputs := ⟨"1", "*.txt", "", "", "", "", "all"⟩
    let results := (db.searchFiles (some "*.txt") none none).getD []
    listed db inp = some (some results) ∧ results ≠ [] ∧ pyUpper (pyStrip inp.selection) = "ALL" ∧
      (∀ r ∈ results, r.isPacked = false →
        ((mounted r.tapeLabel).lookup r.storedPath).isSome = true ∧
          (r.fileHash = "" ∨ basename r.storedPath = r.fileName)) ∧
      (∀ r ∈ results, r.isPacked = true →
        (r.containerName.any fun p => ((mounted r.tapeLabel).lookup p).isSome) = true) ∧
      (retrieve mounted db ∅ ⟨∅, ∅⟩ inp).2 = true ∧
      GroupedCalls (results.map (·.toFileRow)) (retrieve mounted db ∅ ⟨∅, ∅⟩ inp).1.log ∧
      (retrieve mounted db ∅ ⟨∅, ∅⟩ inp).1.doneCount = results.length := by
  intro t1 t2 mounted db inp results
  have hl : listed db inp = some (some results) := by decide
  have hne : results ≠ [] := by decide
  have hsel : pyUpper (pyStrip inp.selection) = "ALL" := by decide
  have hloose : ∀ r ∈ results, r.isPacked = false →
      ((mounted r.tapeLabel).lookup r.storedPath).isSome = true ∧
        (r.fileHash = "" ∨ basename r.storedPath = r.fileName) := by decide
  have hpacked : ∀ r ∈ results, r.isPacked = true →
      (r.containerName.any fun p => ((mounted r.tapeLabel).lookup p).isSome) = true := by decide
  exact ⟨hl, hne, hsel, hloose, hpacked,
    retrieve_all_grouped mounted db ∅ ⟨∅, ∅⟩ inp hl hne hsel hloose hpacked⟩

end Restore

end LTORetriever

end LtoArchive
