import LtoArchive.RetrieverRun

/-!
# Restoring in batches and one by one

`_restore_many` does not restore the records in the order it is handed them. It asks for each
tape once, restores that tape's loose records first, and copies each bundle once for all the
records packed in it. `LTORetriever.run` restores one typed id at a time, by `_verify_tape` and
then `_restore_packed` or `_restore_loose`. This module proves that the batching changes nothing
the operator sees. Suppose every source is on the tape inserted for its label, every loose
record with a hash is named after its stored path, so that no hash check raises, and no two
records are restored to names NTFS could take for one. Then `_restore_many` leaves the restore
and staging directories holding the same files as restoring the records one at a time.

A restore only writes. It puts one file under the record's name in `restore_dir` and erases the
copy of the record's bundle in `staging_dir`, and what it writes depends on the tape alone, so
restores of records with distinct names commute. `AList` inserts commute only up to the order of
the entries, so the results are compared by what each path holds (`SameDirs`).

## Main definitions

* `restoreRecord tape d r`: the restore `run` makes for one record after `_verify_tape`;
* `restoreEach`: the restores `run` makes for each record in turn;
* `SameDirs d₁ d₂`: the two states of the local directories hold the same files.

## Main results

* `restoreRecord_restore_lookup` and `restoreRecord_staging_lookup`: what one restore writes;
* `sameDirs_foldl_perm`: restoring a permutation of records with distinct names gives the same
  files;
* `sameDirs_restorePackedBulk`: one bulk restore of a bundle's records gives the files their
  one-record restores give;
* `restoreMany_sameDirs_restoreEach`: `_restore_many` gives the files the one-by-one restores
  give.
-/

namespace LtoArchive

namespace LTORetriever

/-! ## One restore -/

/-- The restore `run` makes for a record after `_verify_tape`, with `tape` in the drive:
`_restore_packed` for a packed record, `_restore_loose` otherwise. -/
def restoreRecord (tape : FS) (d : LocalDirs) (r : FileRow) : LocalDirs :=
  if r.isPacked then restorePacked tape d r else restoreLoose tape d r

/-- The name a restore of `r` writes in `restore_dir`: `file_name` for a packed record, and for a
loose one the stored path's base name, which `robocopy` keeps. -/
def restoreName (r : FileRow) : Path :=
  if r.isPacked then [r.fileName] else [basename r.storedPath]

/-- What a restore of `r` from `tape` writes under `restoreName r`, if it writes anything. -/
def restoreWrite (tape : FS) (r : FileRow) : Option Content :=
  if r.isPacked then
    r.containerName.bind fun p => match tape.lookup p with
      | some (.zip ms) => (extractMember ms r.storedPath r.fileName).map .file
      | _ => none
  else tape.lookup r.storedPath

/-- The name in `staging_dir` a restore of `r` from `tape` copies the record's bundle to, and
deletes. -/
def stagingName (tape : FS) (r : FileRow) : Option Path :=
  if r.isPacked then r.containerName.bind fun p => (tape.lookup p).map fun _ => [basename p]
  else none

/-- Writing `c` at `k'` changes what `k'` holds and nothing else. -/
theorem lookup_insert_ite (S : FS) (k k' : Path) (c : Content) :
    (S.insert k' c).lookup k = if k = k' then some c else S.lookup k := by
  split_ifs with h
  · rw [h, AList.lookup_insert]
  · rw [AList.lookup_insert_ne h]

/-- Copying a file to `k'` and deleting it leaves `k'` empty and every other path as it was. -/
theorem lookup_insert_erase (S : FS) (k k' : Path) (c : Content) :
    ((S.insert k' c).erase k').lookup k = if k = k' then none else S.lookup k := by
  split_ifs with h
  · rw [h, AList.lookup_erase]
  · rw [AList.lookup_erase_ne h, AList.lookup_insert_ne h]

/-- A record's restore changes the restore directory only at its own name, and there only when
its bytes were found. -/
theorem restoreRecord_restore_lookup (tape : FS) (d : LocalDirs) (r : FileRow) (k : Path) :
    (restoreRecord tape d r).restore.lookup k =
      if k = restoreName r then (restoreWrite tape r).or (d.restore.lookup k)
      else d.restore.lookup k := by
  unfold restoreRecord restoreName restoreWrite
  cases r.isPacked
  · simp only [restoreLoose, Bool.false_eq_true, if_false]
    cases tape.lookup r.storedPath <;> simp [lookup_insert_ite]
  · simp only [restorePacked, if_true]
    rcases r.containerName with _ | p
    · simp
    · rcases hc : tape.lookup p with _ | (b | ms)
      · simp [restorePackedBulk, hc]
      · simp [restorePackedBulk, hc]
      · simp only [restorePackedBulk, hc, Option.some_bind, List.foldl_cons, List.foldl_nil]
        cases extractMember ms r.storedPath r.fileName <;> simp [lookup_insert_ite]

/-- A record's restore deletes only its bundle's copy from staging. -/
theorem restoreRecord_staging_lookup (tape : FS) (d : LocalDirs) (r : FileRow) (k : Path) :
    (restoreRecord tape d r).staging.lookup k =
      if stagingName tape r = some k then none else d.staging.lookup k := by
  unfold restoreRecord stagingName
  cases r.isPacked
  · simp only [restoreLoose, Bool.false_eq_true, if_false]
    split <;> simp
  · simp only [restorePacked, if_true]
    rcases r.containerName with _ | p
    · simp
    · rcases hc : tape.lookup p with _ | c
      · simp [restorePackedBulk, hc]
      · simp [restorePackedBulk, hc, lookup_insert_erase, eq_comm]

/-! ## Restores with distinct names commute -/

/-- The two states of the local directories hold the same files: they differ at most in the
order of their entries. -/
def SameDirs (d₁ d₂ : LocalDirs) : Prop :=
  ∀ k, d₁.restore.lookup k = d₂.restore.lookup k ∧ d₁.staging.lookup k = d₂.staging.lookup k

namespace SameDirs

/-- Directories hold the same files as themselves. -/
@[refl]
theorem refl (d : LocalDirs) : SameDirs d d := fun _ => ⟨rfl, rfl⟩

/-- Holding the same files is symmetric. -/
@[symm]
theorem symm {d₁ d₂ : LocalDirs} (h : SameDirs d₁ d₂) : SameDirs d₂ d₁ :=
  fun k => ⟨(h k).1.symm, (h k).2.symm⟩

/-- Holding the same files is transitive. -/
@[trans]
theorem trans {d₁ d₂ d₃ : LocalDirs} (h₁ : SameDirs d₁ d₂) (h₂ : SameDirs d₂ d₃) :
    SameDirs d₁ d₃ :=
  fun k => ⟨(h₁ k).1.trans (h₂ k).1, (h₁ k).2.trans (h₂ k).2⟩

end SameDirs

/-- A restore keeps two states that hold the same files holding the same files. -/
theorem sameDirs_restoreRecord {d₁ d₂ : LocalDirs} (h : SameDirs d₁ d₂) (tape : FS)
    (r : FileRow) : SameDirs (restoreRecord tape d₁ r) (restoreRecord tape d₂ r) := fun k => by
  rw [restoreRecord_restore_lookup, restoreRecord_restore_lookup, restoreRecord_staging_lookup,
    restoreRecord_staging_lookup, (h k).1, (h k).2]
  exact ⟨rfl, rfl⟩

/-- Restores of two records with distinct names, each from its own tape, commute. -/
theorem sameDirs_restoreRecord_comm {a b : FileRow} (hab : restoreName a ≠ restoreName b)
    (ta tb : FS) (d : LocalDirs) :
    SameDirs (restoreRecord tb (restoreRecord ta d a) b)
      (restoreRecord ta (restoreRecord tb d b) a) := fun k => by
  simp only [restoreRecord_restore_lookup, restoreRecord_staging_lookup]
  refine ⟨?_, by split_ifs <;> rfl⟩
  by_cases ha : k = restoreName a <;> by_cases hb : k = restoreName b
  · exact absurd (ha.symm.trans hb) hab
  all_goals simp [ha, hb, hab, Ne.symm hab]

section Fold

variable (mounted : String → FS)

/-- Restoring `records` one after the other, each from the tape inserted for its label. -/
theorem sameDirs_foldl {d₁ d₂ : LocalDirs} (h : SameDirs d₁ d₂) (records : List FileRow) :
    SameDirs (records.foldl (fun d r => restoreRecord (mounted r.tapeLabel) d r) d₁)
      (records.foldl (fun d r => restoreRecord (mounted r.tapeLabel) d r) d₂) := by
  induction records generalizing d₁ d₂ with
  | nil => exact h
  | cons r records ih => exact ih (sameDirs_restoreRecord h _ r)

/-- Restoring the records in another order gives the same files, when no two of them are
restored to one name. -/
theorem sameDirs_foldl_perm {rs₁ rs₂ : List FileRow} (hp : rs₁.Perm rs₂)
    (hn : (rs₁.map restoreName).Nodup) (d : LocalDirs) :
    SameDirs (rs₁.foldl (fun d r => restoreRecord (mounted r.tapeLabel) d r) d)
      (rs₂.foldl (fun d r => restoreRecord (mounted r.tapeLabel) d r) d) := by
  induction hp generalizing d with
  | nil => exact .refl d
  | cons r _ ih => exact ih (List.nodup_cons.1 hn).2 _
  | swap a b rs =>
    have hba : restoreName b ≠ restoreName a := fun h =>
      (List.nodup_cons.1 hn).1 (h ▸ List.mem_cons_self _ _)
    exact sameDirs_foldl mounted (sameDirs_restoreRecord_comm hba _ _ d) rs
  | trans h₁₂ _ ih₁₂ ih₂₃ => exact (ih₁₂ hn d).trans (ih₂₃ ((h₁₂.map _).nodup_iff.1 hn) d)

end Fold

/-! ## A bulk restore is the one-record restores -/

section Bulk

variable (tape : FS) (p : Path) {rs : List FileRow}

/-- One bulk restore of a bundle writes the restore directory as restoring its records one at a
time does. -/
theorem restore_foldl_restoreRecord (d : LocalDirs)
    (hrs : ∀ r ∈ rs, r.isPacked = true ∧ r.containerName = some p) :
    (rs.foldl (restoreRecord tape) d).restore = (restorePackedBulk tape d p rs).restore := by
  induction rs generalizing d with
  | nil => unfold restorePackedBulk; rcases tape.lookup p with _ | (_ | _) <;> rfl
  | cons r rs ih =>
    obtain ⟨hp, hc⟩ := hrs r (List.mem_cons_self _ _)
    rw [List.foldl_cons, ih _ fun r' h => hrs r' (List.mem_cons_of_mem _ h), restoreRecord,
      if_pos hp, restorePacked, hc]
    dsimp only
    unfold restorePackedBulk
    rcases tape.lookup p with _ | (_ | _) <;> rfl

/-- Restoring records one at a time deletes from staging exactly their bundles' copies. -/
theorem staging_lookup_foldl_restoreRecord (d : LocalDirs) (k : Path) :
    (rs.foldl (restoreRecord tape) d).staging.lookup k =
      if ∃ r ∈ rs, stagingName tape r = some k then none else d.staging.lookup k := by
  induction rs generalizing d with
  | nil => simp
  | cons r rs ih =>
    rw [List.foldl_cons, ih, restoreRecord_staging_lookup]
    by_cases h : stagingName tape r = some k <;> simp [h]

/-- One bulk restore of records packed in the bundle at `p` gives the files their one-record
restores give. -/
theorem sameDirs_restorePackedBulk (d : LocalDirs) (hne : rs ≠ [])
    (hrs : ∀ r ∈ rs, r.isPacked = true ∧ r.containerName = some p) :
    SameDirs (restorePackedBulk tape d p rs) (rs.foldl (restoreRecord tape) d) := fun k => by
  refine ⟨by rw [restore_foldl_restoreRecord tape p d hrs], ?_⟩
  obtain ⟨r, hr⟩ := List.exists_mem_of_ne_nil rs hne
  have hname : ∀ r ∈ rs, stagingName tape r = (tape.lookup p).map fun _ => [basename p] :=
    fun r hr => by simp [stagingName, hrs r hr]
  have hex : (∃ r ∈ rs, stagingName tape r = some k) ↔
      ((tape.lookup p).map fun _ => [basename p]) = some k :=
    ⟨fun ⟨r', hr', h⟩ => hname r' hr' ▸ h, fun h => ⟨r, hr, (hname r hr).trans h⟩⟩
  simp only [staging_lookup_foldl_restoreRecord, hex]
  unfold restorePackedBulk
  rcases tape.lookup p with _ | c
  · simp
  · simp [lookup_insert_erase, eq_comm]

end Bulk

/-! ## Running calls restores their records -/

namespace RestoreCall

/-- A call whose restores one-record restores can stand for: a loose restore of a loose record,
or a bulk restore of at least one record packed in its container. -/
def Batch : RestoreCall → Prop
  | verifyTape _ => True
  | restoreLoose r => r.isPacked = false
  | restorePackedBulk p rs => rs ≠ [] ∧ ∀ r ∈ rs, r.isPacked = true ∧ r.containerName = p

/-- A call that restores records is no `_verify_tape` call. -/
theorem verifiedLabel_eq_none_of_mem {c : RestoreCall} {r : FileRow} (hr : r ∈ c.records) :
    c.verifiedLabel = none := by
  cases c with
  | verifyTape _ => cases hr
  | restoreLoose _ | restorePackedBulk _ _ => rfl

end RestoreCall

open RestoreCall

section Run

variable (mounted : String → FS)

/-- A call that returns restores its records as one-record restores from the tapes inserted for
their labels would. -/
theorem execCall_sameDirs {s s' : RestoreState} {c : RestoreCall}
    (hc : execCall mounted s c = some s') (hb : c.Batch)
    (htape : ∀ r ∈ c.records, s.tape = mounted r.tapeLabel) :
    SameDirs s'.dirs (c.records.foldl (fun d r => restoreRecord (mounted r.tapeLabel) d r) s.dirs) := by
  cases c with
  | verifyTape l =>
    cases hc
    exact .refl _
  | restoreLoose r =>
    obtain ⟨-, rfl⟩ := execCall_restoreLoose_eq_some mounted hc
    rw [records, List.foldl_cons, List.foldl_nil, restoreRecord, if_neg (ne_true_of_eq_false hb),
      ← htape r (List.mem_singleton_self _)]
  | restorePackedBulk p rs =>
    obtain ⟨hne, hrs⟩ := hb
    rcases p with _ | q
    · cases hc
    simp only [execCall] at hc
    split_ifs at hc
    cases hc
    rw [records, List.foldl_ext _ (restoreRecord s.tape) _ fun d r hr => by rw [← htape r hr]]
    exact sameDirs_restorePackedBulk _ _ _ hne hrs

/-- When each call verifies before it restores and finds its source on the tape verified, the
calls return and restore their records as one-record restores, in the order of the calls. -/
theorem runCalls_sameDirs : ∀ (calls : List RestoreCall) (cur : Option String) (s : RestoreState),
    VerifiedBefore cur calls → (∀ l, cur = some l → s.tape = mounted l) → (∀ c ∈ calls, c.Batch) →
    (∀ c ∈ calls, c.verifiedLabel = none → ∃ r ∈ c.records, c.CanRun (mounted r.tapeLabel)) →
    (runCalls mounted s calls).2 = true ∧
      SameDirs (runCalls mounted s calls).1.dirs ((calls.flatMap RestoreCall.records).foldl
        (fun d r => restoreRecord (mounted r.tapeLabel) d r) s.dirs)
  | [], _, _, _, _, _, _ => ⟨rfl, .refl _⟩
  | c :: cs, cur, s, hv, htape, hb, hcan => by
    obtain ⟨hcur, hv⟩ := hv.cons
    have hrecs : ∀ r ∈ c.records, s.tape = mounted r.tapeLabel := fun r hr =>
      htape _ (hcur (verifiedLabel_eq_none_of_mem hr) r hr)
    have hc : c.CanRun s.tape := by
      cases c with
      | verifyTape => trivial
      | restoreLoose _ | restorePackedBulk _ _ =>
        obtain ⟨r, hr, hrun⟩ := hcan _ (List.mem_cons_self _ _) rfl
        rwa [hrecs r hr]
    obtain ⟨s₁, hs₁, -, -, htape₁⟩ := execCall_of_canRun mounted hc
    have htape' : ∀ l, c.verifiedLabel.or cur = some l → s₁.tape = mounted l := by
      intro l hl
      rw [htape₁]
      cases hl' : c.verifiedLabel with
      | some l' =>
        rw [hl', Option.or_some] at hl
        cases hl
        rfl
      | none => rw [hl', Option.none_or] at hl; exact htape l hl
    obtain ⟨hrun, hsame⟩ := runCalls_sameDirs cs _ s₁ hv htape'
      (fun c' h => hb c' (List.mem_cons_of_mem _ h)) fun c' h => hcan c' (List.mem_cons_of_mem _ h)
    rw [runCalls, hs₁, List.flatMap_cons, List.foldl_append]
    exact ⟨hrun, hsame.trans (sameDirs_foldl mounted
      (execCall_sameDirs mounted hs₁ (hb c (List.mem_cons_self _ _)) hrecs) _)⟩

end Run

/-! ## `_restore_many` and one record at a time -/

/-- `run` called once for each record, in turn, with the record's `file_id` typed: each time a
`_verify_tape` of its tape, then its restore. The program stops at the first call that
raises. -/
def restoreEach (mounted : String → FS) (tape : FS) (dirs : LocalDirs) (records : List FileRow) :
    RestoreState × Bool :=
  runCalls mounted ⟨tape, dirs, 0, []⟩ (records.flatMap selectedCalls)

/-- The calls for one tape restore its records, each once. -/
theorem flatMap_records_tapeCalls_perm (l : String) (rs : List FileRow) :
    ((tapeCalls l rs).flatMap RestoreCall.records).Perm rs := by
  simp only [tapeCalls, List.flatMap_cons, List.flatMap_append, List.flatMap_map, records,
    List.nil_append, List.flatMap_singleton']
  rw [List.flatMap_def]
  exact ((flatten_groupByKey_perm _ _).append_left _).trans
    (List.perm_append_comm.trans (List.filter_append_perm _ rs))

/-- `_restore_many` restores each record it is handed once. -/
theorem flatMap_records_restoreCalls_perm (records : List FileRow) :
    ((restoreCalls records).flatMap RestoreCall.records).Perm records := by
  rw [restoreCalls, List.flatMap_assoc]
  refine (List.Perm.flatMap_left _ fun g _ => flatMap_records_tapeCalls_perm g.1 g.2).trans ?_
  rw [List.flatMap_def]
  exact flatten_groupByKey_perm _ records

/-- Every bulk call of `_restore_many` is handed records of its own bundle. -/
theorem batch_restoreCalls {records : List FileRow} : ∀ c ∈ restoreCalls records, c.Batch := by
  intro c hc
  rcases mem_restoreCalls hc with ⟨l, rfl⟩ | ⟨r, -, hp, rfl⟩ | ⟨r, hr, hp, rfl⟩
  · trivial
  · exact hp
  · refine ⟨List.ne_nil_of_mem (mem_pairRecords_self hr hp), fun r' h => ?_⟩
    simp only [pairRecords, List.mem_filter, Bool.and_eq_true, decide_eq_true_eq] at h
    exact ⟨h.2.1.1, h.2.2⟩

/-- Restoring one record at a time hands each record to one call, in order. -/
theorem flatMap_records_selectedCalls (records : List FileRow) :
    (records.flatMap selectedCalls).flatMap RestoreCall.records = records := by
  induction records with
  | nil => rfl
  | cons r rs ih =>
    rw [List.flatMap_cons, List.flatMap_append, ih, selectedCalls]
    cases r.isPacked <;> rfl

/-- Restoring one record at a time verifies each record's tape before its restore. -/
theorem verifiedBefore_selectedCalls :
    ∀ (records : List FileRow) (cur : Option String),
      VerifiedBefore cur (records.flatMap selectedCalls)
  | [], _ => trivial
  | r :: rs, _ => by
    rw [List.flatMap_cons, selectedCalls, List.cons_append, List.cons_append, List.nil_append]
    cases r.isPacked <;>
      exact ⟨by simp [records], verifiedBefore_selectedCalls rs _⟩

/-- Every call of the one-by-one restores is handed records of its own bundle. -/
theorem batch_selectedCalls {records : List FileRow} :
    ∀ c ∈ records.flatMap selectedCalls, c.Batch := by
  intro c hc
  obtain ⟨r, -, hc⟩ := List.mem_flatMap.1 hc
  simp only [selectedCalls, List.mem_cons, List.mem_singleton, List.not_mem_nil, or_false] at hc
  rcases hc with rfl | rfl
  · trivial
  · cases hp : r.isPacked
    · exact hp
    · exact ⟨List.cons_ne_nil _ _, by simp [hp]⟩

section Restore

variable (mounted : String → FS) {records : List FileRow}
  (hloose : ∀ r ∈ records, r.isPacked = false →
    ((mounted r.tapeLabel).lookup r.storedPath).isSome = true ∧
      (r.fileHash = "" ∨ basename r.storedPath = r.fileName))
  (hpacked : ∀ r ∈ records, r.isPacked = true →
    (r.containerName.any fun p => ((mounted r.tapeLabel).lookup p).isSome) = true)

include hloose hpacked in
/-- The one-by-one restores can run when every record's data is on its tape. -/
theorem canRun_selectedCalls : ∀ c ∈ records.flatMap selectedCalls, c.verifiedLabel = none →
    ∃ r ∈ c.records, c.CanRun (mounted r.tapeLabel) := by
  intro c hc hl
  obtain ⟨r, hr, hc⟩ := List.mem_flatMap.1 hc
  simp only [selectedCalls, List.mem_cons, List.mem_singleton, List.not_mem_nil, or_false] at hc
  rcases hc with rfl | rfl
  · cases hl
  · refine ⟨r, by cases r.isPacked <;> exact List.mem_singleton_self _, ?_⟩
    cases hp : r.isPacked
    · exact hloose r hr hp
    · have h := hpacked r hr hp
      cases hc : r.containerName with
      | none => simp [hc] at h
      | some q => exact ⟨q, rfl, by simpa [hc] using h⟩

include hloose hpacked in
/-- `_restore_many` restores the same files as `run` does one record at a time: when every
loose record's file and every packed record's bundle is on the tape inserted for its label,
every loose record with a hash is named after its stored path, and no two records are restored
to names NTFS could take for one, both return, and they leave the restore and staging
directories holding the same files. -/
theorem restoreMany_sameDirs_restoreEach (tape : FS) (dirs : LocalDirs)
    (hnames : ((records.map restoreName).map (·.map caseKey)).Nodup) :
    (restoreMany mounted tape dirs records).2 = true ∧
      (restoreEach mounted tape dirs records).2 = true ∧
      SameDirs (restoreMany mounted tape dirs records).1.dirs
        (restoreEach mounted tape dirs records).1.dirs := by
  obtain ⟨hmany, hsame₁⟩ := runCalls_sameDirs mounted (restoreCalls records) none ⟨tape, dirs, 0, []⟩
    (restoreCalls_grouped records).verified_before (fun _ h => by cases h) batch_restoreCalls
    (canRun_restoreCalls mounted hloose hpacked)
  obtain ⟨heach, hsame₂⟩ := runCalls_sameDirs mounted (records.flatMap selectedCalls) none
    ⟨tape, dirs, 0, []⟩ (verifiedBefore_selectedCalls records none) (fun _ h => by cases h)
    batch_selectedCalls (canRun_selectedCalls mounted hloose hpacked)
  rw [flatMap_records_selectedCalls] at hsame₂
  exact ⟨hmany, heach, hsame₁.trans ((sameDirs_foldl_perm mounted
    (flatMap_records_restoreCalls_perm records).symm (hnames.of_map _) dirs).symm.trans
      hsame₂.symm)⟩

end Restore

/-- A loose record on one tape and a packed one on another: `_restore_many` asks for the
second tape first if it is in the drive, and still restores what the one-by-one run does. -/
theorem restoreMany_sameDirs_restoreEach_two_tapes :
    let t1 : FS := FS.ofList [(["D:", "Project_Raw", "clip.mov"], .file ⟨10, "h1"⟩)] (by decide)
    let t2 : FS := FS.ofList [(["D:", "Ready", "Bundle_001.zip"],
      .zip [(["notes", "a.txt"], ⟨3, "h2"⟩)])] (by decide)
    let mounted : String → FS := fun l => if l = "T1" then t1 else t2
    let records : List FileRow :=
      [⟨"clip.mov", ["C:", "Project_Raw", "clip.mov"], 10, "h1", "T1", false, none,
          ["D:", "Project_Raw", "clip.mov"]⟩,
        ⟨"a.txt", ["C:", "Project_Raw", "notes", "a.txt"], 3, "h2", "T2", true,
          some ["D:", "Ready", "Bundle_001.zip"], ["notes", "a.txt"]⟩]
    (∀ r ∈ records, r.isPacked = false →
      ((mounted r.tapeLabel).lookup r.storedPath).isSome = true ∧
        (r.fileHash = "" ∨ basename r.storedPath = r.fileName)) ∧
    (∀ r ∈ records, r.isPacked = true →
      (r.containerName.any fun p => ((mounted r.tapeLabel).lookup p).isSome) = true) ∧
    ((records.map restoreName).map (·.map caseKey)).Nodup ∧
    (restoreMany mounted t2 ⟨∅, ∅⟩ records).2 = true ∧
      (restoreEach mounted t2 ⟨∅, ∅⟩ records).2 = true ∧
      SameDirs (restoreMany mounted t2 ⟨∅, ∅⟩ records).1.dirs
        (restoreEach mounted t2 ⟨∅, ∅⟩ records).1.dirs := by
  intro t1 t2 mounted records
  have hloose : ∀ r ∈ records, r.isPacked = false →
      ((mounted r.tapeLabel).lookup r.storedPath).isSome = true ∧
        (r.fileHash = "" ∨ basename r.storedPath = r.fileName) := by decide
  have hpacked : ∀ r ∈ records, r.isPacked = true →
      (r.containerName.any fun p => ((mounted r.tapeLabel).lookup p).isSome) = true := by decide
  have hnames : ((records.map restoreName).map (·.map caseKey)).Nodup := by decide
  exact ⟨hloose, hpacked, hnames,
    restoreMany_sameDirs_restoreEach mounted hloose hpacked t2 ⟨∅, ∅⟩ hnames⟩

end LTORetriever

end LtoArchive
