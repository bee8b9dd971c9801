import LtoArchive.Backup

/-!
# The streaming backup of `lto_backup.py`

`src/lto_backup.py` (LAMS v5.0) is an earlier form of the program, without the robocopy phase,
the `used_space` column, the session queries or the bulk restore. Its `LTOBackup.run` walks the
source once. Each file not yet on the tape at its size is copied and hashed in one
pass, and its record is inserted at once. The packed records follow the walk. The session of
`lto_archive_manager.py` splits that walk in three: a scan that only hashes, one `robocopy` call,
then the inserts. It also adds `bytes_copied` to the tape's `used_space`. Both files use the same
`files_index` table and the same `insert_file`.

This module models the streaming session as `LtoBackup.LTOBackup.run`, on the definitions of
`Backup`, and proves that the robocopy session does what the streaming one did. Suppose robocopy
writes exactly the files the scan hashed. Then the two sessions leave the same tape and the same
index, except that the robocopy session adds `bytes_copied` to `used_space`. Splitting the walk
loses and reorders nothing.

## Main definitions

* `LtoBackup.LTOBackup.walkRows`: the inserts the walk makes for one copied file;
* `LtoBackup.LTOBackup.copyFile`: one file of the walk;
* `LtoBackup.LTOBackup.run`: the streaming session.

## Main results

* `LTOBackup.foldl_copyFile`: the walk is the scan's inserts and the scan's writes, in walk order;
* `LTOBackup.run_refines_streaming`: the robocopy session is the streaming session followed by
  the `used_space` update.
-/

namespace LtoArchive

/-- The inserts the streaming walk makes for a file it copied. In direct mode
(`packer_metadata is None`) the file is a loose record. With a non-empty metadata list, a file
that is no bundle by name and that the metadata lists as loose is recorded under the entry's
original path. An empty metadata list inserts nothing. -/
def LtoBackup.LTOBackup.walkRows (tapeLabel : String) (rel : Path) (info : HashInfo) :
    Option (List Metadata) → List FileRow
  | none => [LTOBackup.directRow tapeLabel info]
  | some [] => []
  | some md =>
    if LTOBackup.isBundleFile (basename info.src) then []
    else match (LTOBackup.metaByRel md).lookup rel with
      | some m =>
        [⟨basename info.src, m.originalPath, info.fsize, info.hash, tapeLabel, false, none,
          info.dst⟩]
      | none => []

/-- One file of the streaming walk, on the index and the tape: skipped when its destination is on
the tape at its size; otherwise written to the tape, hashed as it is written, and recorded. -/
def LtoBackup.LTOBackup.copyFile (source root : Path) (tapeLabel : String)
    (packerMetadata : Option (List Metadata)) (clock : Nat → String) (s : DatabaseManager × FS)
    (e : Σ _ : Path, Content) : DatabaseManager × FS :=
  if LTOBackup.alreadyOnTape s.2 (root ++ e.1) e.2 then s
  else
    (s.1.insertRows (walkRows tapeLabel e.1 (LTOBackup.hashInfo source root e.1 e.2)
        packerMetadata) clock,
      s.2.insert (root ++ e.1) e.2)

/-- `LTOBackup.run` of `lto_backup.py` on the index `db` and the tape `tape`, for the tree `src`
under `source`: the walk, then the packed records when the metadata is a non-empty list. -/
def LtoBackup.LTOBackup.run (source tapeDrive : Path) (tapeLabel : String) (db : DatabaseManager)
    (tape src : FS) (packerMetadata : Option (List Metadata)) (clock : Nat → String) :
    DatabaseManager × FS :=
  let root := LTOBackup.tapeRoot source tapeDrive
  let s := src.entries.foldl (copyFile source root tapeLabel packerMetadata clock) (db, tape)
  match packerMetadata with
  | some (m :: ms) =>
    (s.1.insertRows (LTOBackup.packedRows tapeLabel root (m :: ms)) clock, s.2)
  | _ => s

namespace LTOBackup

open LtoBackup.LTOBackup (walkRows copyFile)

/-- Inserting two lists of rows is inserting one after the other. -/
theorem insertRows_append (db : DatabaseManager) (rows rows' : List FileRow)
    (clock : Nat → String) :
    db.insertRows (rows ++ rows') clock = (db.insertRows rows clock).insertRows rows' clock :=
  List.foldl_append _ _ _ _

/-- The scan sees a path only through its lookup. -/
theorem alreadyOnTape_congr {t t' : FS} {dst : Path} (h : t.lookup dst = t'.lookup dst)
    (c : Content) : alreadyOnTape t dst c = alreadyOnTape t' dst c := by
  simp only [alreadyOnTape, h]

/-- The inserts of phase 3 are those the streaming walk makes for the hashed files, in order,
followed by the packed records when the metadata is a non-empty list. -/
theorem phase3Rows_eq_flatMap_walkRows (tapeLabel : String) (root : Path)
    (hashMap : List (Path × HashInfo)) (pm : Option (List Metadata)) :
    phase3Rows tapeLabel root hashMap pm =
      hashMap.flatMap (fun x => walkRows tapeLabel x.1 x.2 pm) ++
        match pm with
        | some (m :: ms) => packedRows tapeLabel root (m :: ms)
        | _ => [] := by
  rcases pm with _ | _ | ⟨m, ms⟩
  · simp [phase3Rows, walkRows, List.map_eq_flatMap]
  · simp [phase3Rows, walkRows]
  · simp only [phase3Rows, stagedLooseRows, List.filterMap_eq_flatMap_toList]
    congr 2
    funext x
    simp only [walkRows]
    split
    · rfl
    · cases (metaByRel (m :: ms)).lookup x.1 <;> rfl

section Walk

variable {source root : Path} {tapeLabel : String} {pm : Option (List Metadata)}
  {clock : Nat → String} {tape : FS}

/-- The walk over files whose destinations show on the current tape as on `tape`: it inserts
what the scan of `tape` hashes, in walk order, and writes the files that scan hashes. -/
theorem foldl_copyFile (l : List (Σ _ : Path, Content)) (hl : l.NodupKeys)
    (s : DatabaseManager × FS) (hs : ∀ e ∈ l, s.2.lookup (root ++ e.1) = tape.lookup (root ++ e.1)) :
    l.foldl (copyFile source root tapeLabel pm clock) s =
      (s.1.insertRows ((l.filterMap fun e =>
          if alreadyOnTape tape (root ++ e.1) e.2 then none
          else some (e.1, hashInfo source root e.1 e.2)).flatMap
            fun x => walkRows tapeLabel x.1 x.2 pm) clock,
        l.foldl (fun t e => if !alreadyOnTape tape (root ++ e.1) e.2 then t.insert (root ++ e.1) e.2
          else t) s.2) := by
  induction l generalizing s with
  | nil => rfl
  | cons e l ih =>
    rw [List.nodupKeys_cons] at hl
    have hs' := hs e (List.mem_cons_self _ _)
    rw [List.foldl_cons, List.foldl_cons, copyFile, alreadyOnTape_congr hs']
    cases hon : alreadyOnTape tape (root ++ e.1) e.2
    · -- the file is copied and recorded; the later destinations are other paths
      rw [if_neg Bool.false_ne_true, ih hl.2 _ fun e' he' => ?_]
      · simp only [hon, Bool.false_eq_true, if_false, List.filterMap_cons, List.flatMap_cons,
          insertRows_append, Bool.not_false, if_true]
      · have hne : root ++ e.1 ≠ root ++ e'.1 := fun h =>
          hl.1 (List.append_cancel_left h ▸ List.mem_keys_of_mem he' :)
        rw [AList.lookup_insert_ne hne.symm]
        exact hs e' (List.mem_cons_of_mem _ he')
    · -- the file is skipped
      rw [if_pos rfl, ih hl.2 s fun e' he' => hs e' (List.mem_cons_of_mem _ he')]
      simp only [hon, if_true, List.filterMap_cons, Bool.not_true, Bool.false_eq_true, if_false]

end Walk

/-- When `robocopy` writes exactly the files the scan hashed, the session of
`lto_archive_manager.py` leaves the tape and the index as the streaming session of
`lto_backup.py` does, except that it then adds `bytes_copied`, when positive, to the tape's
`used_space`. -/
theorem run_refines_streaming (source tapeDrive : Path) (tapeLabel : String)
    (db : DatabaseManager) (tape src : FS) (pm : Option (List Metadata))
    (outcome : TransferOutcome) (clock : Nat → String)
    (hw : ∀ e ∈ src.entries,
      outcome.written e.1 = !alreadyOnTape tape (tapeRoot source tapeDrive ++ e.1) e.2) :
    run source tapeDrive tapeLabel db tape src pm outcome clock =
      let s := LtoBackup.LTOBackup.run source tapeDrive tapeLabel db tape src pm clock
      (if 0 < outcome.bytesCopied then s.1.updateTapeUsedSpace tapeLabel outcome.bytesCopied
        else s.1, s.2) := by
  have hfold := @foldl_copyFile source (tapeRoot source tapeDrive) tapeLabel pm clock tape
    src.entries src.nodupKeys (db, tape) fun _ _ => rfl
  have htransfer : transfer tape (tapeRoot source tapeDrive) src outcome.written =
      (src.entries.foldl (copyFile source (tapeRoot source tapeDrive) tapeLabel pm clock)
        (db, tape)).2 := by
    rw [hfold, transfer]
    exact List.foldl_ext _ _ _ fun t e he => by rw [hw e he]
  simp only [run, LtoBackup.LTOBackup.run, htransfer, phase3Rows_eq_flatMap_walkRows,
    insertRows_append]
  rw [hfold]
  rcases pm with _ | _ | ⟨m, ms⟩ <;> rfl

/-- A direct session over two files, one of them already on the tape at its size, which robocopy
and the streaming walk both leave alone. -/
theorem run_refines_streaming_skip :
    let src := FS.ofList [(["a.txt"], .file ⟨10, "h"⟩), (["b.txt"], .file ⟨5, "k"⟩)] (by decide)
    let tape := FS.ofList [(["D:", "src", "a.txt"], .file ⟨10, "h"⟩)] (by decide)
    let outcome : TransferOutcome := ⟨fun rel => rel == ["b.txt"], 5⟩
    (∀ e ∈ src.entries,
      outcome.written e.1 = !alreadyOnTape tape (tapeRoot ["src"] ["D:"] ++ e.1) e.2) ∧
    run ["src"] ["D:"] "T1" .empty tape src none outcome (fun _ => "t") =
      let s := LtoBackup.LTOBackup.run ["src"] ["D:"] "T1" .empty tape src none (fun _ => "t")
      (if 0 < outcome.bytesCopied then s.1.updateTapeUsedSpace "T1" outcome.bytesCopied else s.1,
        s.2) := by
  intro src tape outcome
  have hw : ∀ e ∈ src.entries,
      outcome.written e.1 = !alreadyOnTape tape (tapeRoot ["src"] ["D:"] ++ e.1) e.2 := by decide
  exact ⟨hw, run_refines_streaming _ _ _ _ _ _ _ _ _ hw⟩

end LTOBackup

end LtoArchive
