import LtoArchive.Index

/-!
# Tape maintenance

`TapeManager.format_tape` erases the tape in the drive and brings the index in line with the
blank tape. After the operator confirms, it probes the old label and reads the new one, then runs
`LtfsCmdFormat.exe`. When that succeeds it deletes the old tape's records, if the old label is
registered. It reads a capacity and registers the new label. `TapeManager.register_tape`
registers a label by hand.

Both read the capacity as `int(cap) if cap.isdigit() else None`. `isdigit` holds of every
Unicode digit, `int` reads only the decimal ones, of any script, and at most 4300 of them, so it
raises `ValueError` on a digit such as `²` or `①`. `register_tape` then binds the capacity, and
`sqlite3` raises `OverflowError` on an `int` of `2 ** 63` or more. Nothing catches either, so
the program stops with the index as it stands. `FormatOutcome` records how `format_tape` ended.

## Main results

* `formatTape_cases`: a format leaves the index unchanged, deletes the old label's tape, or
  deletes it and registers the new label;
* `indexInv_formatTape` and `indexInv_registerTapeManual`: both keep the invariant;
* `formatTape_raises_after_delete`: a capacity answer `isdigit` accepts but `int` or `sqlite3`
  rejects stops the format after the old label's records are deleted, with the new label
  unregistered.
-/

namespace LtoArchive

/-- The operator's answers and the environment's replies during `format_tape`. -/
structure FormatInputs where
  /-- The answer to the confirmation prompt. -/
  confirm : String
  /-- `get_volume_label` of the drive, before the format. -/
  oldLabel : Option String
  /-- The answer to the new-label prompt. -/
  label : String
  /-- Whether `LtfsCmdFormat.exe` was found and exited with status `0`. -/
  formatOk : Bool
  /-- The answer to the capacity prompt. -/
  cap : String
  /-- `datetime.now().isoformat()` at the registration. -/
  now : String

/-- How `format_tape` ended. -/
inductive FormatOutcome
  /-- Not confirmed, or no label given: `[ABORTED]`, nothing done. -/
  | cancelled
  /-- `LtfsCmdFormat.exe` failed or is missing; the tape and the index are as they were. -/
  | failed
  /-- The tape was formatted, then `int(cap)` raised `ValueError` or `register_tape` raised
  `OverflowError`. -/
  | raised
  /-- The tape was formatted and `register_tape` was called. -/
  | formatted
deriving DecidableEq, Repr

namespace TapeManager

/-- `if old_label and self.db.tape_exists(old_label): self.db.delete_tape(old_label)`. -/
def deleteOldLabel (db : DatabaseManager) : Option String → DatabaseManager
  | some old => if old ≠ "" ∧ db.tapeExists old = true then db.deleteTape old else db
  | none => db

/-- `TapeManager.format_tape`: how it ended, and the index it leaves. -/
def formatTape (db : DatabaseManager) (inp : FormatInputs) : FormatOutcome × DatabaseManager :=
  if pyLower (pyStrip inp.confirm) ≠ "y" then (.cancelled, db)
  else if pyStrip inp.label = "" then (.cancelled, db)
  else if !inp.formatOk then (.failed, db)
  else
    let db := deleteOldLabel db inp.oldLabel
    match (parseCapacity (pyStrip inp.cap)).bind
        fun capacity => db.registerTape (pyStrip inp.label) capacity inp.now with
    | none => (.raised, db)
    | some r => (.formatted, r.2)

/-- `TapeManager.register_tape`: the index after registering the label typed, or `none` when
`int(cap)` or the insert raises, leaving the index as it was. -/
def registerTapeManual (db : DatabaseManager) (label cap now : String) : Option DatabaseManager :=
  if pyStrip label = "" then some db
  else ((parseCapacity (pyStrip cap)).bind
    fun capacity => db.registerTape (pyStrip label) capacity now).map (·.2)

/-! ## Deleting the old tape -/

section DeleteOld

variable {db : DatabaseManager} {old : Option String}

/-- Deleting the old label keeps only earlier tape rows. -/
theorem deleteOldLabel_tapes_subset {t : TapeRow} (ht : t ∈ (deleteOldLabel db old).tapes) :
    t ∈ db.tapes := by
  unfold deleteOldLabel at ht
  split at ht
  · split at ht
    · exact (List.mem_filter.1 ht).1
    · exact ht
  · exact ht

/-- Deleting the old label keeps only earlier records. -/
theorem deleteOldLabel_filesIndex_subset {r : FileRecord}
    (hr : r ∈ (deleteOldLabel db old).filesIndex) : r ∈ db.filesIndex := by
  unfold deleteOldLabel at hr
  split at hr
  · split at hr
    · exact (List.mem_filter.1 hr).1
    · exact hr
  · exact hr

/-- Deleting the old label leaves the `tapes` counter alone. -/
@[simp]
theorem deleteOldLabel_nextTapeId : (deleteOldLabel db old).nextTapeId = db.nextTapeId := by
  unfold deleteOldLabel; split <;> (try split) <;> rfl

/-- Deleting the old label keeps the invariant. -/
theorem indexInv_deleteOldLabel (h : DatabaseManager.IndexInv db) :
    DatabaseManager.IndexInv (deleteOldLabel db old) := by
  unfold TapeManager.deleteOldLabel; split <;> (try split) <;> first | exact h | exact h.deleteTape _

end DeleteOld

/-! ## Formatting -/

/-- A capacity read and registered: the label's row inserted, after a bind that did not
raise. -/
theorem exists_insertTapeRow_of_bind {db : DatabaseManager} {label now : String}
    {o : Option (Option Nat)} {r : Bool × DatabaseManager}
    (h : (o.bind fun capacity => db.registerTape label capacity now) = some r) :
    ∃ capacity, r = db.insertTapeRow label capacity now := by
  obtain ⟨capacity, -, hr⟩ := Option.bind_eq_some.1 h
  exact ⟨capacity, (DatabaseManager.registerTape_eq_some.1 hr).2⟩

/-- What `format_tape` can do to the index: nothing; delete the old label's tape and stop when
the capacity raises; or delete it and register the new label. -/
theorem formatTape_cases (db : DatabaseManager) (inp : FormatInputs) :
    (formatTape db inp).2 = db ∨
      pyStrip inp.label ≠ "" ∧
        ((formatTape db inp).2 = deleteOldLabel db inp.oldLabel ∨
          ∃ capacity, (formatTape db inp).2 =
            ((deleteOldLabel db inp.oldLabel).insertTapeRow (pyStrip inp.label) capacity inp.now).2) := by
  unfold formatTape
  split
  · exact .inl rfl
  split
  · exact .inl rfl
  split
  · exact .inl rfl
  rename_i hl _
  refine .inr ⟨hl, ?_⟩
  dsimp only
  split
  · exact .inl rfl
  · rename_i r hr
    obtain ⟨capacity, rfl⟩ := exists_insertTapeRow_of_bind hr
    exact .inr ⟨capacity, rfl⟩

/-- A format adds no file record. -/
theorem formatTape_filesIndex_subset {db : DatabaseManager} {inp : FormatInputs} {r : FileRecord}
    (hr : r ∈ (formatTape db inp).2.filesIndex) : r ∈ db.filesIndex := by
  rcases formatTape_cases db inp with hdb | ⟨-, hdb | ⟨_, hdb⟩⟩ <;> rw [hdb] at hr
  · exact hr
  · exact deleteOldLabel_filesIndex_subset hr
  · rw [DatabaseManager.insertTapeRow_filesIndex] at hr
    exact deleteOldLabel_filesIndex_subset hr

/-- `format_tape` keeps the invariant, whether or not it raised. -/
theorem indexInv_formatTape {db : DatabaseManager} (h : DatabaseManager.IndexInv db)
    (inp : FormatInputs) : DatabaseManager.IndexInv (formatTape db inp).2 := by
  rcases formatTape_cases db inp with hdb | ⟨hl, hdb | ⟨_, hdb⟩⟩ <;> rw [hdb]
  · exact h
  · exact indexInv_deleteOldLabel h
  · exact (indexInv_deleteOldLabel h).insertTapeRow hl _ _

/-- What `register_tape` can do to the index: nothing, when the label is blank or the capacity
raises; or register the label. -/
theorem registerTapeManual_cases (db : DatabaseManager) (label cap now : String) :
    (registerTapeManual db label cap now).getD db = db ∨ pyStrip label ≠ "" ∧
      ∃ capacity, (registerTapeManual db label cap now).getD db =
        (db.insertTapeRow (pyStrip label) capacity now).2 := by
  unfold registerTapeManual
  split
  · exact .inl rfl
  · rcases h : (parseCapacity (pyStrip cap)).bind
        fun capacity => db.registerTape (pyStrip label) capacity now with _ | r
    · exact .inl rfl
    · obtain ⟨capacity, rfl⟩ := exists_insertTapeRow_of_bind h
      exact .inr ⟨‹_›, capacity, rfl⟩

/-- Registering a tape by hand keeps the invariant. -/
theorem indexInv_registerTapeManual {db : DatabaseManager} (h : DatabaseManager.IndexInv db)
    (label cap now : String) :
    DatabaseManager.IndexInv ((registerTapeManual db label cap now).getD db) := by
  rcases registerTapeManual_cases db label cap now with hdb | ⟨hl, _, hdb⟩ <;> rw [hdb]
  · exact h
  · exact h.insertTapeRow hl _ _

/-- Registering a tape by hand leaves the records alone. -/
theorem registerTapeManual_filesIndex (db : DatabaseManager) (label cap now : String) :
    ((registerTapeManual db label cap now).getD db).filesIndex = db.filesIndex := by
  rcases registerTapeManual_cases db label cap now with hdb | ⟨-, _, hdb⟩ <;> rw [hdb]
  exact DatabaseManager.insertTapeRow_filesIndex _ _ _ _

/-- `format_tape` lowers no remaining tape row's `used_space`. -/
theorem tapesGrow_formatTape (db : DatabaseManager) (inp : FormatInputs) :
    DatabaseManager.TapesGrow db (formatTape db inp).2 := by
  have hdel : DatabaseManager.TapesGrow db (deleteOldLabel db inp.oldLabel) :=
    .of_sublist (fun _ => deleteOldLabel_tapes_subset) deleteOldLabel_nextTapeId
  rcases formatTape_cases db inp with hdb | ⟨-, hdb | ⟨_, hdb⟩⟩ <;> rw [hdb]
  · exact .refl db
  · exact hdel
  · exact hdel.trans (DatabaseManager.tapesGrow_insertTapeRow _ _ _ _)

/-- Registering a tape by hand lowers no tape row's `used_space`. -/
theorem tapesGrow_registerTapeManual (db : DatabaseManager) (label cap now : String) :
    DatabaseManager.TapesGrow db ((registerTapeManual db label cap now).getD db) := by
  rcases registerTapeManual_cases db label cap now with hdb | ⟨-, _, hdb⟩ <;> rw [hdb]
  · exact .refl db
  · exact DatabaseManager.tapesGrow_insertTapeRow _ _ _ _

/-- A capacity answer for which `isdigit` holds but `int` raises (`²`, `①`), or whose number
`sqlite3` cannot bind (twenty nines), stops `format_tape` after the old label's tape and records
are deleted: the tape is blank and the new label is not registered. -/
theorem formatTape_raises_after_delete :
    let db₀ : DatabaseManager := ⟨[⟨1, "T0", "d0", none, 10⟩],
      [⟨⟨"a.txt", ["src", "a.txt"], 10, "h", "T0", false, none, ["D:", "src", "a.txt"]⟩, 1, "d1"⟩],
      2, 2⟩
    ∀ cap ∈ ["²", "①", "99999999999999999999"], cap.data.all isPyDigit = true ∧
      formatTape db₀ ⟨"y", some "T0", "T1", true, cap, "d2"⟩ = (.raised, ⟨[], [], 2, 2⟩) := by
  decide

end TapeManager

end LtoArchive
