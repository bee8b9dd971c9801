import LtoArchive.Basic

/-!
# The archive index

`DatabaseManager` keeps two SQLite tables: `tapes`, one row per registered medium, and
`files_index`, one row per backed-up file. The model keeps each table as the list of its rows in
insertion order, and each method that writes them is a function on the tables:

* `registerTape` binds the capacity, which raises `OverflowError` for an `int` of `2 ** 63` or
  more, then inserts a tape row unless the label is taken, when the `UNIQUE` constraint turns the
  insert into a no-op reported as `false`;
* `deleteTape` deletes the tape's file records, then its row;
* `insertFile` appends a file record under the next `file_id`;
* `updateTapeUsedSpace` adds to the `used_space` of the row with the label.

Row ids come from `AUTOINCREMENT` counters, so an id is never given out twice. The timestamps
`datetime.now().isoformat()` supplies are arguments of the methods that read the clock.
-/

namespace LtoArchive

/-- A row of the `tapes` table. -/
structure TapeRow where
  /-- `tape_id`, from the table's `AUTOINCREMENT` counter. -/
  tapeId : Nat
  /-- `volume_label`, unique among the rows. -/
  volumeLabel : String
  /-- `date_formatted`: when the row was registered. -/
  dateFormatted : String
  /-- `total_capacity` in GB, `NULL` when the operator gave none. -/
  totalCapacity : Option Nat
  /-- `used_space` in bytes; the column defaults to `0`. -/
  usedSpace : Int
deriving DecidableEq, Repr, Inhabited

/-- The values `insert_file` is called with: every column of `files_index` but the row id and
the backup date, which the insert supplies itself. -/
structure FileRow where
  fileName : String
  originalPath : Path
  fileSizeBytes : Nat
  /-- The SHA-256 hex digest, `""` when none is known. -/
  fileHash : String
  tapeLabel : String
  isPacked : Bool
  /-- The bundle's path on the tape, `NULL` for a loose file. -/
  containerName : Option Path
  /-- For a loose file its path on the tape; for a packed file its path inside the bundle. -/
  storedPath : Path
deriving DecidableEq, Repr, Inhabited

/-- A row of the `files_index` table. -/
structure FileRecord extends FileRow where
  /-- `file_id`, from the table's `AUTOINCREMENT` counter. -/
  fileId : Nat
  /-- `backup_date`: `datetime.now().isoformat()` at the insert. -/
  backupDate : String
deriving DecidableEq, Repr, Inhabited

/-- The two tables and their id counters. -/
structure DatabaseManager where
  tapes : List TapeRow
  filesIndex : List FileRecord
  /-- The `tape_id` the next inserted tape row gets. -/
  nextTapeId : Nat
  /-- The `file_id` the next inserted file record gets. -/
  nextFileId : Nat
deriving DecidableEq, Repr, Inhabited

namespace DatabaseManager

/-- The index `_init_schema` creates in a fresh database file. -/
def empty : DatabaseManager := ⟨[], [], 1, 1⟩

/-- `tape_exists`: some tape row has this label. -/
def tapeExists (db : DatabaseManager) (volumeLabel : String) : Bool :=
  db.tapes.any (·.volumeLabel == volumeLabel)

/-- Whether `sqlite3` binds the Python `int` `n` as an `INTEGER`: a signed 64-bit integer. -/
def fitsSqliteInteger (n : Nat) : Bool := n < 2 ^ 63

/-- The `INSERT` of `register_tape` once its values are bound: a row with `used_space` at its
default `0`, or no change, reported as `false`, when the label is already registered. -/
def insertTapeRow (db : DatabaseManager) (volumeLabel : String) (capacityGb : Option Nat)
    (now : String) : Bool × DatabaseManager :=
  if db.tapeExists volumeLabel then (false, db)
  else
    let row : TapeRow := ⟨db.nextTapeId, volumeLabel, now, capacityGb, 0⟩
    (true, { db with tapes := db.tapes ++ [row], nextTapeId := db.nextTapeId + 1 })

/-- `register_tape`: `none` where binding the capacity raises `OverflowError`, which the
`except sqlite3.IntegrityError` lets through; otherwise the insert. -/
def registerTape (db : DatabaseManager) (volumeLabel : String) (capacityGb : Option Nat)
    (now : String) : Option (Bool × DatabaseManager) :=
  if capacityGb.all fitsSqliteInteger then some (db.insertTapeRow volumeLabel capacityGb now)
  else none

/-- `delete_tape`: delete the tape's file records, then its row. -/
def deleteTape (db : DatabaseManager) (volumeLabel : String) : DatabaseManager :=
  { db with
    filesIndex := db.filesIndex.filter (·.tapeLabel != volumeLabel)
    tapes := db.tapes.filter (·.volumeLabel != volumeLabel) }

/-- `insert_file`: append a record under the next `file_id`, dated `now`. -/
def insertFile (db : DatabaseManager) (row : FileRow) (now : String) : DatabaseManager :=
  { db with
    filesIndex := db.filesIndex ++ [{ row with fileId := db.nextFileId, backupDate := now }]
    nextFileId := db.nextFileId + 1 }

/-- `update_tape_used_space`: `used_space = COALESCE(used_space, 0) + bytes_added` on the rows
with the label. -/
def updateTapeUsedSpace (db : DatabaseManager) (volumeLabel : String) (bytesAdded : Int) :
    DatabaseManager :=
  { db with
    tapes := db.tapes.map fun t =>
      if t.volumeLabel = volumeLabel then { t with usedSpace := t.usedSpace + bytesAdded } else t }

/-- Insert `rows` one after another, each dated by the clock reading at its own insert. -/
def insertRows (db : DatabaseManager) (rows : List FileRow) (clock : Nat → String) :
    DatabaseManager :=
  rows.foldl (fun db row => db.insertFile row (clock db.nextFileId)) db

/-! ## Lemmas -/

/-- `tape_exists(label)` holds when a row of `tapes` has that label. -/
theorem tapeExists_iff (db : DatabaseManager) (label : String) :
    db.tapeExists label = true ↔ ∃ t ∈ db.tapes, t.volumeLabel = label := by
  simp [tapeExists]

/-- `register_tape` returns exactly when the capacity fits an `INTEGER`, and then it is the
insert. -/
theorem registerTape_eq_some {db : DatabaseManager} {label : String} {cap : Option Nat}
    {now : String} {r : Bool × DatabaseManager} :
    db.registerTape label cap now = some r ↔
      cap.all fitsSqliteInteger = true ∧ r = db.insertTapeRow label cap now := by
  unfold registerTape
  split <;> rename_i h
  · exact ⟨fun h' => ⟨h, (Option.some.inj h').symm⟩, fun h' => congrArg some h'.2.symm⟩
  · exact ⟨nofun, fun h' => absurd h'.1 h⟩

@[simp]
theorem insertFile_tapes (db : DatabaseManager) (row : FileRow) (now : String) :
    (db.insertFile row now).tapes = db.tapes := rfl

@[simp]
theorem updateTapeUsedSpace_filesIndex (db : DatabaseManager) (label : String) (n : Int) :
    (db.updateTapeUsedSpace label n).filesIndex = db.filesIndex := rfl

/-- An insert loop leaves the tape rows alone. -/
@[simp]
theorem insertRows_tapes (db : DatabaseManager) (rows : List FileRow) (clock : Nat → String) :
    (db.insertRows rows clock).tapes = db.tapes := by
  induction rows generalizing db with
  | nil => rfl
  | cons row rows ih => exact (ih _).trans rfl

/-- An insert loop leaves the `tapes` counter alone. -/
@[simp]
theorem insertRows_nextTapeId (db : DatabaseManager) (rows : List FileRow) (clock : Nat → String) :
    (db.insertRows rows clock).nextTapeId = db.nextTapeId := by
  induction rows generalizing db with
  | nil => rfl
  | cons row rows ih => exact (ih _).trans rfl

/-- The records inserted after `db` are exactly the new ones: `insertRows` keeps every old
record and adds records whose ids are not yet taken. -/
theorem insertRows_filesIndex_eq (db : DatabaseManager) (rows : List FileRow)
    (clock : Nat → String) :
    ∃ new : List FileRecord, (db.insertRows rows clock).filesIndex = db.filesIndex ++ new ∧
      new.map (·.toFileRow) = rows := by
  induction rows generalizing db with
  | nil => exact ⟨[], by simp [insertRows]⟩
  | cons row rows ih =>
    obtain ⟨new, hnew, hmap⟩ := ih (db.insertFile row (clock db.nextFileId))
    refine ⟨{ row with fileId := db.nextFileId, backupDate := clock db.nextFileId } :: new, ?_,
      by simpa using hmap⟩
    simpa [insertRows, insertFile] using hnew

/-! ## The index invariant -/

/-- What every index the program reaches satisfies. -/
structure IndexInv (db : DatabaseManager) : Prop where
  /-- Every record's tape is registered: the foreign key on `tape_label`. -/
  labels_registered : ∀ r ∈ db.filesIndex, ∃ t ∈ db.tapes, t.volumeLabel = r.tapeLabel
  /-- A record is packed exactly when it names a container. -/
  packed_iff : ∀ r ∈ db.filesIndex, r.isPacked = r.containerName.isSome
  /-- No tape is registered under the empty label: every caller of `register_tape` refuses it. -/
  label_ne_empty : ∀ t ∈ db.tapes, t.volumeLabel ≠ ""
  /-- Every `tape_id` was given out by the counter. -/
  tapeId_lt : ∀ t ∈ db.tapes, t.tapeId < db.nextTapeId
  /-- No two rows share a `tape_id`. -/
  tapeId_nodup : (db.tapes.map (·.tapeId)).Nodup

/-- A fresh index satisfies the invariant. -/
theorem indexInv_empty : IndexInv empty :=
  ⟨by simp [empty], by simp [empty], by simp [empty], by simp [empty], by simp [empty]⟩

/-- Registering a non-empty label keeps the invariant. -/
theorem IndexInv.insertTapeRow {db : DatabaseManager} (h : IndexInv db) {label : String}
    (hl : label ≠ "") (cap : Option Nat) (now : String) :
    IndexInv (db.insertTapeRow label cap now).2 := by
  unfold DatabaseManager.insertTapeRow
  split
  · exact h
  · refine ⟨fun r hr => ?_, h.packed_iff, fun t ht => ?_, fun t ht => ?_, ?_⟩
    · obtain ⟨t, ht, hl⟩ := h.labels_registered r hr
      exact ⟨t, List.mem_append_left _ ht, hl⟩
    · rcases List.mem_append.1 ht with ht | ht
      · exact h.label_ne_empty t ht
      · rw [List.mem_singleton.1 ht]; exact hl
    · rcases List.mem_append.1 ht with ht | ht
      · exact Nat.lt_succ_of_lt (h.tapeId_lt t ht)
      · rw [List.mem_singleton.1 ht]; exact Nat.lt_succ_self _
    · rw [List.map_append, List.nodup_append]
      exact ⟨h.tapeId_nodup, List.nodup_singleton _, fun i hi hj => by
        obtain ⟨t, ht, rfl⟩ := List.mem_map.1 hi
        exact absurd (h.tapeId_lt t ht) (by simp at hj; omega)⟩

/-- `delete_tape` keeps the invariant: it deletes a label's records with its row. -/
theorem IndexInv.deleteTape {db : DatabaseManager} (h : IndexInv db) (label : String) :
    IndexInv (db.deleteTape label) := by
  refine ⟨fun r hr => ?_, fun r hr => h.packed_iff r (List.mem_filter.1 hr).1,
    fun t ht => h.label_ne_empty t (List.mem_filter.1 ht).1,
    fun t ht => h.tapeId_lt t (List.mem_filter.1 ht).1,
    h.tapeId_nodup.sublist ((List.filter_sublist _).map _)⟩
  obtain ⟨hr, hne⟩ := List.mem_filter.1 hr
  obtain ⟨t, ht, hl⟩ := h.labels_registered r hr
  exact ⟨t, List.mem_filter.2 ⟨ht, by simpa [hl] using hne⟩, hl⟩

/-- `update_tape_used_space` keeps the invariant. -/
theorem IndexInv.updateTapeUsedSpace {db : DatabaseManager} (h : IndexInv db) (label : String)
    (n : Int) : IndexInv (db.updateTapeUsedSpace label n) := by
  have hmem : ∀ t' ∈ (db.updateTapeUsedSpace label n).tapes, ∃ t ∈ db.tapes,
      t'.volumeLabel = t.volumeLabel ∧ t'.tapeId = t.tapeId := by
    intro t' ht'
    obtain ⟨t, ht, rfl⟩ := List.mem_map.1 ht'
    exact ⟨t, ht, by split <;> rfl, by split <;> rfl⟩
  refine ⟨fun r hr => ?_, h.packed_iff, fun t' ht' => ?_, fun t' ht' => ?_, ?_⟩
  · obtain ⟨t, ht, hl⟩ := h.labels_registered r hr
    refine ⟨_, List.mem_map_of_mem _ ht, ?_⟩
    split <;> exact hl
  · obtain ⟨t, ht, hl, -⟩ := hmem t' ht'
    exact hl ▸ h.label_ne_empty t ht
  · obtain ⟨t, ht, -, hi⟩ := hmem t' ht'
    exact hi ▸ h.tapeId_lt t ht
  · simpa [DatabaseManager.updateTapeUsedSpace, List.map_map, Function.comp_def, apply_ite TapeRow.tapeId]
      using h.tapeId_nodup

/-- Inserting records for registered tapes, each packed exactly when it names a container, keeps
the invariant. -/
theorem IndexInv.insertRows {db : DatabaseManager} (h : IndexInv db) {rows : List FileRow}
    (hrows : ∀ row ∈ rows, (∃ t ∈ db.tapes, t.volumeLabel = row.tapeLabel) ∧
      row.isPacked = row.containerName.isSome) (clock : Nat → String) :
    IndexInv (db.insertRows rows clock) := by
  obtain ⟨new, hnew, hmap⟩ := db.insertRows_filesIndex_eq rows clock
  have hrow : ∀ r ∈ new, r.toFileRow ∈ rows := fun r hr => hmap ▸ List.mem_map_of_mem _ hr
  refine ⟨fun r hr => ?_, fun r hr => ?_, ?_, ?_, ?_⟩
  · rw [insertRows_tapes]
    rcases List.mem_append.1 (hnew ▸ hr) with hr | hr
    · exact h.labels_registered r hr
    · exact (hrows _ (hrow r hr)).1
  · rcases List.mem_append.1 (hnew ▸ hr) with hr | hr
    · exact h.packed_iff r hr
    · exact (hrows _ (hrow r hr)).2
  · rw [insertRows_tapes]; exact h.label_ne_empty
  · intro t ht
    rw [insertRows_tapes] at ht
    rw [insertRows_nextTapeId]
    exact h.tapeId_lt t ht
  · rw [insertRows_tapes]; exact h.tapeId_nodup

/-! ## How the tape rows change -/

/-- How an operation changes the tape rows, as far as `used_space` goes: every row it leaves is an
earlier row with the same id and at least its used space, or has an id the counter had not given
out. -/
structure TapesGrow (db db' : DatabaseManager) : Prop where
  nextTapeId_le : db.nextTapeId ≤ db'.nextTapeId
  grow : ∀ t' ∈ db'.tapes, (∃ t ∈ db.tapes, t.tapeId = t'.tapeId ∧ t.usedSpace ≤ t'.usedSpace) ∨
    db.nextTapeId ≤ t'.tapeId

/-- An index's tapes grow from themselves. -/
theorem TapesGrow.refl (db : DatabaseManager) : TapesGrow db db :=
  ⟨le_rfl, fun t ht => .inl ⟨t, ht, rfl, le_rfl⟩⟩

/-- Growth of the tape rows composes. -/
theorem TapesGrow.trans {db₁ db₂ db₃ : DatabaseManager} (h₁ : TapesGrow db₁ db₂)
    (h₂ : TapesGrow db₂ db₃) : TapesGrow db₁ db₃ := by
  refine ⟨h₁.nextTapeId_le.trans h₂.nextTapeId_le, fun t₃ ht₃ => ?_⟩
  rcases h₂.grow t₃ ht₃ with ⟨t₂, ht₂, hid, hle⟩ | hnew
  · rcases h₁.grow t₂ ht₂ with ⟨t₁, ht₁, hid', hle'⟩ | hnew'
    · exact .inl ⟨t₁, ht₁, hid'.trans hid, hle'.trans hle⟩
    · exact .inr (hid ▸ hnew')
  · exact .inr (h₁.nextTapeId_le.trans hnew)

/-- An operation that keeps a sublist of the rows, unchanged, and the counter. -/
theorem TapesGrow.of_sublist {db db' : DatabaseManager} (hsub : ∀ t ∈ db'.tapes, t ∈ db.tapes)
    (hnext : db'.nextTapeId = db.nextTapeId) : TapesGrow db db' :=
  ⟨hnext.ge, fun t ht => .inl ⟨t, hsub t ht, rfl, le_rfl⟩⟩

/-- Registering a tape keeps every existing row and adds at most one under a fresh id. -/
theorem tapesGrow_insertTapeRow (db : DatabaseManager) (label : String) (cap : Option Nat)
    (now : String) : TapesGrow db (db.insertTapeRow label cap now).2 := by
  unfold insertTapeRow
  split
  · exact TapesGrow.refl db
  · refine ⟨Nat.le_succ _, fun t ht => ?_⟩
    rcases List.mem_append.1 ht with ht | ht
    · exact .inl ⟨t, ht, rfl, le_rfl⟩
    · exact .inr (by rw [List.mem_singleton.1 ht])

/-- Adding a non-negative amount to a tape's `used_space` lowers no row's. -/
theorem tapesGrow_updateTapeUsedSpace (db : DatabaseManager) (label : String) {n : Int}
    (hn : 0 ≤ n) : TapesGrow db (db.updateTapeUsedSpace label n) := by
  refine ⟨le_rfl, fun t' ht' => .inl ?_⟩
  obtain ⟨t, ht, rfl⟩ := List.mem_map.1 ht'
  refine ⟨t, ht, by split <;> rfl, ?_⟩
  split
  · exact le_add_of_nonneg_right hn
  · exact le_rfl

/-- An insert loop leaves the tape rows alone. -/
theorem tapesGrow_insertRows (db : DatabaseManager) (rows : List FileRow) (clock : Nat → String) :
    TapesGrow db (db.insertRows rows clock) :=
  .of_sublist (by simp) (by simp)

/-- Registering a label leaves it registered, whether the row was added or already there. -/
theorem insertTapeRow_tapeExists (db : DatabaseManager) (label : String) (cap : Option Nat)
    (now : String) : (db.insertTapeRow label cap now).2.tapeExists label = true := by
  unfold insertTapeRow
  split
  · assumption
  · simp [tapeExists]

/-- Registering a tape leaves the file records alone. -/
@[simp]
theorem insertTapeRow_filesIndex (db : DatabaseManager) (label : String) (cap : Option Nat)
    (now : String) : (db.insertTapeRow label cap now).2.filesIndex = db.filesIndex := by
  unfold insertTapeRow; split <;> rfl

end DatabaseManager

end LtoArchive
