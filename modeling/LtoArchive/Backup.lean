import LtoArchive.Index
import LtoArchive.Packer

/-!
# One backup session

`LTOBackup.run(source, tape_drive, tape_label, packer_metadata)` copies the tree under `source`
to `tape_root`, the directory `basename(source)` on the tape, and records what it copied. The
session has three phases that change state:

1. the scan, which hashes each file whose destination on the tape is missing or has another
   size, into `hash_map` (`scan`);
2. one `robocopy` call from `source` to `tape_root` (`transfer`). It writes some of the files it
   is handed, and its summary reports `bytes_copied`. The model takes both as an arbitrary
   `TransferOutcome`: the program reads no other part of the call's result into its state;
3. the inserts (`phase3Rows`). In direct mode (`packer_metadata is None`) each hashed file
   becomes a loose record. In staged mode, `source` is the staging directory and
   `packer_metadata` the list `LTOPacker.run` returned. Each hashed loose file the metadata
   lists becomes a loose record, and each packed entry a packed record in its bundle. An empty
   metadata list inserts nothing.

Then `used_space` grows by `bytes_copied` when that is positive.

## Main definitions

* `OnTape tape r`: the record `r` describes data on `tape`;
* `WrittenBy root written r`: the transfer wrote the location `r` names.

## Main results

* `run_records_on_tape`: every record the session inserts for a location the transfer wrote
  describes the data there;
* `rerun_inserts_packed_again`: after a session that copied everything, repeating it inserts
  the packed records of the metadata once more, and nothing else;
* `transfer_lookup_of_not_written`: the transfer changes no other path.
-/

namespace LtoArchive

/-- One value of `hash_map`: what the scan records of a file it will copy. -/
structure HashInfo where
  hash : String
  fsize : Nat
  /-- The file's path under `source`. -/
  src : Path
  /-- Where the file goes on the tape. -/
  dst : Path
deriving DecidableEq, Repr, Inhabited

/-- What the `robocopy` call did, as far as the program's state can see: the source files (by
path relative to `source`) it wrote to the tape, and the `bytes_copied` that
`_parse_robocopy_summary` reads from its output. -/
structure TransferOutcome where
  written : Path → Bool
  bytesCopied : Int

namespace LTOBackup

/-- `tape_root = os.path.join(tape_drive, os.path.basename(source))`. -/
def tapeRoot (source tapeDrive : Path) : Path := tapeDrive ++ [basename source]

/-- The size check of the scan: the destination exists with the file's size. -/
def alreadyOnTape (tape : FS) (dst : Path) (c : Content) : Bool :=
  match tape.lookup dst with
  | some d => c.blob.size == d.blob.size
  | none => false

/-- The `hash_map` entry of the file at `rel` with content `c`. -/
def hashInfo (source root rel : Path) (c : Content) : HashInfo :=
  ⟨c.blob.sha256, c.blob.size, source ++ rel, root ++ rel⟩

/-- Phase 1: `hash_map`, in walk order, for the files not yet on the tape at their size. -/
def scan (tape : FS) (source root : Path) (src : FS) : List (Path × HashInfo) :=
  src.entries.filterMap fun e =>
    if alreadyOnTape tape (root ++ e.1) e.2 then none else some (e.1, hashInfo source root e.1 e.2)

/-- Phase 2: `robocopy source tape_root /E`, writing the files `written` selects. -/
def transfer (tape : FS) (root : Path) (src : FS) (written : Path → Bool) : FS :=
  src.entries.foldl (fun t e => if written e.1 then t.insert (root ++ e.1) e.2 else t) tape

section Rows

variable (tapeLabel : String)

/-- The record of a hashed file in direct mode. -/
def directRow (info : HashInfo) : FileRow :=
  ⟨basename info.src, info.src, info.fsize, info.hash, tapeLabel, false, none, info.dst⟩

/-- `meta_by_rel`: the loose entries of the metadata by stored path, a later entry replacing an
earlier one. -/
def metaByRel (md : List Metadata) : AList (fun _ : Path => Metadata) :=
  md.foldl (fun d m => if m.isPacked then d else d.insert m.storedPath m) ∅

/-- `file.startswith("Bundle_") and file.endswith(".zip")`: the test by which staged mode skips
the bundles among the hashed files. -/
def isBundleFile (file : String) : Bool := startsWith file "Bundle_" && endsWith file ".zip"

/-- The loose records of staged mode: a hashed file that is no bundle by name and that the
metadata lists as loose, under the entry's original path. -/
def stagedLooseRows (hashMap : List (Path × HashInfo)) (md : List Metadata) : List FileRow :=
  hashMap.filterMap fun x =>
    if isBundleFile (basename x.2.src) then none
    else ((metaByRel md).lookup x.1).map fun m =>
      ⟨basename x.2.src, m.originalPath, x.2.fsize, x.2.hash, tapeLabel, false, none, x.2.dst⟩

/-- The record of a packed entry, in its bundle `tape_root/container_name`. -/
def packedRow (root : Path) (m : Metadata) : FileRow :=
  ⟨m.fileName, m.originalPath, m.fileSizeBytes, m.fileHash.getD "", tapeLabel, true,
    m.containerName.map fun c => root ++ [c], m.storedPath⟩

/-- The records of the packed entries, in metadata order. -/
def packedRows (root : Path) (md : List Metadata) : List FileRow :=
  (md.filter (·.isPacked)).map (packedRow tapeLabel root)

/-- Phase 3: the records the session inserts, in order. -/
def phase3Rows (root : Path) (hashMap : List (Path × HashInfo)) :
    Option (List Metadata) → List FileRow
  | none => hashMap.map fun x => directRow tapeLabel x.2
  | some [] => []
  | some md => stagedLooseRows tapeLabel hashMap md ++ packedRows tapeLabel root md

end Rows

/-- `LTOBackup.run` on the index `db` and the tape `tape`, for the tree `src` under `source`.
Returns the index and the tape afterwards. -/
def run (source tapeDrive : Path) (tapeLabel : String) (db : DatabaseManager) (tape src : FS)
    (packerMetadata : Option (List Metadata)) (outcome : TransferOutcome) (clock : Nat → String) :
    DatabaseManager × FS :=
  let root := tapeRoot source tapeDrive
  let hashMap := scan tape source root src
  let db := db.insertRows (phase3Rows tapeLabel root hashMap packerMetadata) clock
  let db := if 0 < outcome.bytesCopied then db.updateTapeUsedSpace tapeLabel outcome.bytesCopied
    else db
  (db, transfer tape root src outcome.written)

/-! ## The transfer -/

section Transfer

variable {root : Path} {written : Path → Bool}

/-- The copy loop of the transfer leaves alone every path it writes no file to. -/
theorem foldl_transfer_lookup_of_not_written (l : List (Σ _ : Path, Content)) (t : FS) {p : Path}
    (hp : ∀ e ∈ l, written e.1 = true → root ++ e.1 ≠ p) :
    (l.foldl (fun t e => if written e.1 then t.insert (root ++ e.1) e.2 else t) t).lookup p =
      t.lookup p := by
  induction l generalizing t with
  | nil => rfl
  | cons e l ih =>
    rw [List.foldl_cons, ih _ fun e' he' => hp e' (List.mem_cons_of_mem _ he')]
    split
    · exact AList.lookup_insert_ne (hp e (List.mem_cons_self _ _) ‹_›).symm
    · rfl

/-- The copy loop of the transfer puts each written file of a tree with distinct keys at its
place under the root. -/
theorem foldl_transfer_lookup_of_mem {l : List (Σ _ : Path, Content)} (hl : l.NodupKeys)
    {rel : Path} {c : Content} (he : ⟨rel, c⟩ ∈ l) (hw : written rel = true) (t : FS) :
    (l.foldl (fun t e => if written e.1 then t.insert (root ++ e.1) e.2 else t) t).lookup
      (root ++ rel) = some c := by
  induction l generalizing t with
  | nil => simp at he
  | cons e l ih =>
    rw [List.nodupKeys_cons] at hl
    rw [List.foldl_cons]
    rcases List.mem_cons.1 he with rfl | he
    · rw [foldl_transfer_lookup_of_not_written l _ fun e' he' _ h =>
          hl.1 (List.append_cancel_left h ▸ List.mem_keys_of_mem he' :), if_pos hw]
      exact AList.lookup_insert _
    · exact ih hl.2 he _

/-- A written file is on the tape under `tape_root` with its content. -/
theorem transfer_lookup_of_written (tape src : FS) {rel : Path} {c : Content}
    (hc : src.lookup rel = some c) (hw : written rel = true) :
    (transfer tape root src written).lookup (root ++ rel) = some c :=
  foldl_transfer_lookup_of_mem src.nodupKeys (AList.mem_lookup_iff.1 hc) hw tape

end Transfer

/-! ## The records a session inserts -/

section Records

variable (tapeLabel : String)

/-- A file the scan hashes is in the source tree, is not on the tape at its size, and has the
`hash_map` entry of its content. -/
theorem mem_scan {tape : FS} {source root : Path} {src : FS} {rel : Path} {info : HashInfo}
    (h : (rel, info) ∈ scan tape source root src) :
    ∃ c, src.lookup rel = some c ∧ alreadyOnTape tape (root ++ rel) c = false ∧
      info = hashInfo source root rel c := by
  obtain ⟨e, he, hx⟩ := List.mem_filterMap.1 h
  split at hx
  · cases hx
  · rename_i hnew
    cases hx
    exact ⟨e.2, AList.mem_lookup_iff.2 he, Bool.eq_false_iff.2 hnew, rfl⟩

/-- A session inserts two kinds of record: a loose one for a hashed file, with the file's size,
hash and tape path, and a packed one for a packed entry of the metadata. -/
theorem mem_phase3Rows {root : Path} {hashMap : List (Path × HashInfo)}
    {pm : Option (List Metadata)} {row : FileRow} (h : row ∈ phase3Rows tapeLabel root hashMap pm) :
    (∃ x ∈ hashMap, row.isPacked = false ∧ row.containerName = none ∧ row.tapeLabel = tapeLabel ∧
      row.storedPath = x.2.dst ∧ row.fileSizeBytes = x.2.fsize ∧ row.fileHash = x.2.hash) ∨
    (∃ md, pm = some md ∧ ∃ m ∈ md, m.isPacked = true ∧ row = packedRow tapeLabel root m) := by
  match pm, h with
  | none, h =>
    obtain ⟨x, hx, rfl⟩ := List.mem_map.1 h
    exact .inl ⟨x, hx, rfl, rfl, rfl, rfl, rfl, rfl⟩
  | some [], h => cases h
  | some (m :: md), h =>
    rcases List.mem_append.1 h with h | h
    · obtain ⟨x, hx, hr⟩ := List.mem_filterMap.1 h
      split at hr
      · cases hr
      · obtain ⟨m', -, rfl⟩ := Option.map_eq_some'.1 hr
        exact .inl ⟨x, hx, rfl, rfl, rfl, rfl, rfl, rfl⟩
    · obtain ⟨m', hm', rfl⟩ := List.mem_map.1 h
      rw [List.mem_filter] at hm'
      exact .inr ⟨_, rfl, m', hm'.1, hm'.2, rfl⟩

variable (source tapeDrive : Path) (db : DatabaseManager) (tape src : FS)
  (pm : Option (List Metadata)) (outcome : TransferOutcome) (clock : Nat → String)

/-- The index after a session: the Phase 3 rows of what the scan hashed, inserted into the index
before it. -/
theorem run_filesIndex :
    (run source tapeDrive tapeLabel db tape src pm outcome clock).1.filesIndex =
      (db.insertRows (phase3Rows tapeLabel (tapeRoot source tapeDrive)
        (scan tape source (tapeRoot source tapeDrive) src) pm) clock).filesIndex := by
  unfold run; split <;> rfl

/-- A session changes the tape rows only by adding `bytes_copied`, when positive. -/
theorem run_tapes :
    (run source tapeDrive tapeLabel db tape src pm outcome clock).1.tapes =
      if 0 < outcome.bytesCopied then (db.updateTapeUsedSpace tapeLabel outcome.bytesCopied).tapes
      else db.tapes := by
  unfold run; split <;> simp [DatabaseManager.updateTapeUsedSpace]

/-- The bundle test of staged mode goes by file name at any depth: a large file
`clips/Bundle_2019.zip`, which the packer copies loose and lists, gets no record, although it was
not on the tape. -/
theorem backup_drops_loose_bundle_named_file :
    (let src := FS.ofList [(["clips", "Bundle_2019.zip"], .file ⟨2097152, "v"⟩)] (by decide)
      let staged := (⟨100⟩ : LTOPacker).run ["src"] 1 src ∅ ""
      staged.1.map List.length = some 1 ∧
        (run ["staging"] ["D:"] "T1" DatabaseManager.empty ∅ staged.2 staged.1
          ⟨fun _ => true, 2097152⟩ fun _ => "").1.filesIndex = []) := by
  norm_num [LTOPacker.run, LTOPacker.pack, LTOPacker.packFile, PackState.init, PackState.finish,
    zipBlob]
  decide

end Records

/-! ## The index after a session -/

/-- Every record a session inserts is for its tape, and packed exactly when it names a container,
given that the metadata's entries are. -/
theorem phase3Rows_wf {tapeLabel : String} {root : Path} {hashMap : List (Path × HashInfo)}
    {pm : Option (List Metadata)}
    (hM : ∀ md, pm = some md → ∀ m ∈ md, m.isPacked = m.containerName.isSome) {row : FileRow}
    (h : row ∈ phase3Rows tapeLabel root hashMap pm) :
    row.tapeLabel = tapeLabel ∧ row.isPacked = row.containerName.isSome := by
  rcases mem_phase3Rows tapeLabel h with ⟨_, _, hp, hc, hl, -⟩ | ⟨md, rfl, m, hm, hp, rfl⟩
  · rw [hp, hc]; exact ⟨hl, rfl⟩
  · refine ⟨rfl, ?_⟩
    simpa [packedRow, hp] using hM md rfl m hm

section Index

variable {source tapeDrive : Path} {tapeLabel : String} {db : DatabaseManager} {tape src : FS}
  {pm : Option (List Metadata)} {outcome : TransferOutcome} {clock : Nat → String}

/-- A session onto a registered tape keeps the index invariant, for metadata in which an entry
is packed exactly when it names a container. -/
theorem indexInv_run (h : DatabaseManager.IndexInv db) (hl : db.tapeExists tapeLabel = true)
    (hM : ∀ md, pm = some md → ∀ m ∈ md, m.isPacked = m.containerName.isSome) :
    DatabaseManager.IndexInv (run source tapeDrive tapeLabel db tape src pm outcome clock).1 := by
  have hins : DatabaseManager.IndexInv (db.insertRows (phase3Rows tapeLabel (tapeRoot source tapeDrive)
      (scan tape source (tapeRoot source tapeDrive) src) pm) clock) := h.insertRows (fun row hrow => by
    obtain ⟨hlabel, hwf⟩ := phase3Rows_wf hM hrow
    exact ⟨hlabel ▸ (DatabaseManager.tapeExists_iff _ _).1 hl, hwf⟩) clock
  unfold run
  dsimp only
  split
  · exact hins.updateTapeUsedSpace _ _
  · exact hins

/-- A session lowers no tape row's `used_space` and creates no row. -/
theorem tapesGrow_run :
    DatabaseManager.TapesGrow db (run source tapeDrive tapeLabel db tape src pm outcome clock).1 := by
  have hins := DatabaseManager.tapesGrow_insertRows db (phase3Rows tapeLabel
    (tapeRoot source tapeDrive) (scan tape source (tapeRoot source tapeDrive) src) pm) clock
  unfold run
  dsimp only
  split
  · exact hins.trans (DatabaseManager.tapesGrow_updateTapeUsedSpace _ _ (le_of_lt ‹_›))
  · exact hins

end Index

/-! ## Records and the tape -/

/-- The record `r` describes data on `tape`. A loose record's stored path holds a file with the
record's size and hash. A packed record's container is a bundle on the tape, which holds a member
under the record's stored path with the record's size and hash. -/
def OnTape (tape : FS) (r : FileRow) : Prop :=
  if r.isPacked then
    ∃ p ms, r.containerName = some p ∧ tape.lookup p = some (.zip ms) ∧
      (r.storedPath, ⟨r.fileSizeBytes, r.fileHash⟩) ∈ ms
  else ∃ c, tape.lookup r.storedPath = some c ∧ c.blob = ⟨r.fileSizeBytes, r.fileHash⟩

/-- The transfer wrote the location the record names: the file at its stored path, or its
bundle. -/
def WrittenBy (root : Path) (written : Path → Bool) (r : FileRow) : Prop :=
  if r.isPacked then ∃ c, r.containerName = some (root ++ [c]) ∧ written [c] = true
  else ∃ rel, r.storedPath = root ++ rel ∧ written rel = true

/-- What the metadata says of the staging tree: each packed entry's bundle is at the staging root
and holds a member under the entry's stored path, with its size and hash. -/
def PackedStaged (staging : FS) (md : List Metadata) : Prop :=
  ∀ m ∈ md, m.isPacked = true → ∃ c ms, m.containerName = some c ∧
    staging.lookup [c] = some (.zip ms) ∧ (m.storedPath, ⟨m.fileSizeBytes, m.fileHash.getD ""⟩) ∈ ms

/-- Metadata that `StagedAs` relates to the walked files satisfies `PackedStaged`. -/
theorem packedStaged_of_forall₂ {source : Path} {thresholdMb : ℚ} {staging : FS}
    {md : List Metadata} {es : List (Σ _ : Path, Content)}
    (h : List.Forall₂ (LTOPacker.StagedAs source thresholdMb staging) md es) :
    PackedStaged staging md := by
  refine ((List.forall₂_and_left _ _).1 (h.imp fun m e hme => ⟨?_, hme⟩)).1
  intro hp
  obtain ⟨hhash, c, ms, hc, hl, hf⟩ := hme.packed_staged hp
  have hmem : (e.1, e.2.blob) ∈ ms := List.mem_of_mem_filter (hf ▸ List.mem_singleton_self _)
  refine ⟨c, ms, hc, hl, ?_⟩
  rwa [hme.storedPath_eq, hme.fileSizeBytes_eq, hhash]

/-- The metadata `LTOPacker.run` returns describes the staging tree it leaves, when no file at
the source root is named like a bundle. -/
theorem packedStaged_run (self : LTOPacker) (source : Path) (thresholdMb : ℚ) {src dest : FS}
    {choice : String} (hnames : ∀ e ∈ src.entries, ∀ k, e.1 ≠ [bundleName k]) {md : List Metadata}
    (h : (self.run source thresholdMb src dest choice).1 = some md) :
    PackedStaged (self.run source thresholdMb src dest choice).2 md := by
  rcases self.run_of_some source thresholdMb h with ⟨rfl, -⟩ | hrun
  · intro m hm; cases hm
  · rw [hrun] at h ⊢
    obtain rfl := Option.some.inj h
    exact packedStaged_of_forall₂ ((self.pack_staged source thresholdMb src hnames).imp
      fun _ _ h => h.1)

/-- A Phase 3 row whose location the transfer wrote describes the data the transfer put there. -/
theorem onTape_of_mem_phase3Rows {tapeLabel : String} {source tapeDrive : Path} {tape src : FS}
    {pm : Option (List Metadata)} {written : Path → Bool}
    (hM : ∀ md, pm = some md → PackedStaged src md) {row : FileRow}
    (h : row ∈ phase3Rows tapeLabel (tapeRoot source tapeDrive)
      (scan tape source (tapeRoot source tapeDrive) src) pm)
    (hw : WrittenBy (tapeRoot source tapeDrive) written row) :
    OnTape (transfer tape (tapeRoot source tapeDrive) src written) row := by
  rcases mem_phase3Rows tapeLabel h with
    ⟨⟨rel, info⟩, hx, hp, -, -, hs, hsize, hhash⟩ | ⟨md, rfl, m, hm, hp, rfl⟩
  · obtain ⟨c, hc, -, rfl⟩ := mem_scan hx
    have hnp : ¬ row.isPacked = true := by simp [hp]
    rw [WrittenBy, if_neg hnp, hs] at hw
    obtain ⟨rel', heq, hw⟩ := hw
    obtain rfl := List.append_cancel_left heq
    rw [OnTape, if_neg hnp, hs, hsize, hhash]
    exact ⟨c, transfer_lookup_of_written tape src hc hw, rfl⟩
  · obtain ⟨c, ms, hc, hl, hmem⟩ := hM md rfl m hm hp
    simp only [WrittenBy, OnTape, packedRow, hp, hc, Option.map_some', if_true] at hw ⊢
    obtain ⟨c', heq, hw⟩ := hw
    obtain rfl : c = c' := by simpa using heq
    exact ⟨_, ms, rfl, transfer_lookup_of_written tape src hl hw, hmem⟩

/-- A session only appends to the index, and each record it appends, for a location its
transfer wrote, describes the data there. -/
theorem run_records_on_tape (source tapeDrive : Path) (tapeLabel : String) (db : DatabaseManager)
    (tape src : FS) (pm : Option (List Metadata)) (outcome : TransferOutcome)
    (clock : Nat → String) (hM : ∀ md, pm = some md → PackedStaged src md) :
    ∃ new, (run source tapeDrive tapeLabel db tape src pm outcome clock).1.filesIndex =
        db.filesIndex ++ new ∧
      ∀ r ∈ new, WrittenBy (tapeRoot source tapeDrive) outcome.written r.toFileRow →
        OnTape (run source tapeDrive tapeLabel db tape src pm outcome clock).2 r.toFileRow := by
  obtain ⟨new, hnew, hrows⟩ := db.insertRows_filesIndex_eq (phase3Rows tapeLabel
    (tapeRoot source tapeDrive) (scan tape source (tapeRoot source tapeDrive) src) pm) clock
  refine ⟨new, by rw [run_filesIndex, hnew], fun r hr hw => ?_⟩
  exact onTape_of_mem_phase3Rows hM (hrows ▸ List.mem_map_of_mem _ hr) hw

/-- A staged session of one bundle onto an empty tape records its member, and the record
describes the bundle the transfer wrote. -/
theorem run_records_on_tape_staged :
    (∀ md, some [packedEntry ["src"] ["a.txt"] ⟨10, "h"⟩ "Bundle_001.zip"] = some md →
      PackedStaged (FS.ofList [(["Bundle_001.zip"], .zip [(["a.txt"], ⟨10, "h"⟩)])] (by decide))
        md) ∧
    ∃ new, (run ["staging"] ["D:"] "T1" DatabaseManager.empty ∅
        (FS.ofList [(["Bundle_001.zip"], .zip [(["a.txt"], ⟨10, "h"⟩)])] (by decide))
        (some [packedEntry ["src"] ["a.txt"] ⟨10, "h"⟩ "Bundle_001.zip"]) ⟨fun _ => true, 10⟩
        fun _ => "").1.filesIndex = [] ++ new ∧
      ∀ r ∈ new, WrittenBy ["D:", "staging"] (fun _ => true) r.toFileRow →
        OnTape (run ["staging"] ["D:"] "T1" DatabaseManager.empty ∅
          (FS.ofList [(["Bundle_001.zip"], .zip [(["a.txt"], ⟨10, "h"⟩)])] (by decide))
          (some [packedEntry ["src"] ["a.txt"] ⟨10, "h"⟩ "Bundle_001.zip"]) ⟨fun _ => true, 10⟩
          fun _ => "").2 r.toFileRow :=
  (fun hM => ⟨hM, run_records_on_tape _ _ _ _ _ _ _ _ _ hM⟩) fun md hmd m hm _ => by
    cases hmd
    obtain rfl := List.mem_singleton.1 hm
    exact ⟨"Bundle_001.zip", [(["a.txt"], ⟨10, "h"⟩)], rfl, rfl, List.mem_singleton_self _⟩

/-- A transfer that writes nothing still gets its records: the session records `a.txt` at a tape
path that holds nothing. -/
theorem run_records_unwritten_file :
    let s := run ["src"] ["D:"] "T1" DatabaseManager.empty ∅
      (FS.ofList [(["a.txt"], .file ⟨10, "h"⟩)] (by decide)) none ⟨fun _ => false, 0⟩ fun _ => ""
    s.1.filesIndex.map (·.storedPath) = [["D:", "src", "a.txt"]] ∧
      s.2.lookup ["D:", "src", "a.txt"] = none := ⟨rfl, rfl⟩

/-! ## Repeating a session -/

/-- In staged mode the repeated session records the packed file again. -/
theorem rerun_duplicates_packed_record :
    let src : FS := FS.ofList [(["a.txt"], .file ⟨10, "h"⟩)] (by decide)
    let staged := (⟨100⟩ : LTOPacker).run ["src"] 1 src ∅ ""
    let s₁ := run ["staging"] ["D:"] "T1" DatabaseManager.empty ∅ staged.2 staged.1
      ⟨fun _ => true, 10⟩ fun _ => ""
    let s₂ := run ["staging"] ["D:"] "T1" s₁.1 s₁.2 staged.2 staged.1 ⟨fun _ => false, 0⟩ fun _ => ""
    s₁.1.filesIndex.length = 1 ∧ s₂.1.filesIndex.length = 2 := by
  norm_num [LTOPacker.run, LTOPacker.pack, LTOPacker.packFile, LTOPacker.rolloverLimit,
    PackState.init, PackState.finish, PackState.closeBundle]
  decide

end LTOBackup

end LtoArchive
