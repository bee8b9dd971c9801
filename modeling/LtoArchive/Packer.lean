import LtoArchive.Basic
import LtoArchive.NextFit
import Mathlib.Data.List.Forall2

/-!
# The bundle packer

`LTOPacker.run` turns a source tree into a staging tree. Files below `threshold_mb` are written
into ZIP bundles `Bundle_001.zip`, `Bundle_002.zip`, ... at the staging root; a bundle is sealed
when the next small file would push its payload past `0.99 * max_zip_size_gb` GiB. Larger files
are copied loose to their relative path. The result lists one metadata record per file.

The loop is modelled as a fold of `packFile` over the walk, from `PackState.init`, followed by
`PackState.finish`. Besides the program's variables the state records the member lists of the
sealed bundles, so that the bundles the packer leaves can be stated about.

* `pack_refines_nextFit`: the bundles are next-fit bins over the small files (`NextFit`).
* `pack_bundles`: what that gives for the bundles: every small file in exactly one bundle, in
  walk order; a bundle sealed only when the next file would overflow it; bundles within
  `max_zip_size_gb` GiB except a lone file larger than the limit; no empty bundle when every
  small file fits the limit.
-/

namespace LtoArchive

/-- One metadata dict of `LTOPacker.run`'s result. -/
structure Metadata where
  fileName : String
  /-- The file's path in the source tree. -/
  originalPath : Path
  fileSizeBytes : Nat
  /-- `'file_hash'`, a key only packed files have. -/
  fileHash : Option String
  isPacked : Bool
  /-- The bundle's file name such as `Bundle_001.zip`; `None` for a loose file. -/
  containerName : Option String
  /-- The path relative to the source root: inside the bundle, or under staging. -/
  storedPath : Path
deriving DecidableEq, Repr, Inhabited

/-- The metadata dict of a packed file. -/
def packedEntry (source rel : Path) (blob : Blob) (container : String) : Metadata :=
  ⟨basename rel, source ++ rel, blob.size, some blob.sha256, true, some container, rel⟩

/-- The metadata dict of a loose file. -/
def looseEntry (source rel : Path) (c : Content) : Metadata :=
  ⟨basename rel, source ++ rel, c.blob.size, none, false, none, rel⟩

/-- An `LTOPacker`, configured with `max_zip_size_gb`. -/
structure LTOPacker where
  maxZipSizeGb : ℚ

/-- The packer's variables between two files of the walk. -/
structure PackState where
  /-- The staging tree as written so far. -/
  staging : FS
  metadata : List Metadata
  zipIdx : Nat
  /-- The members written to the open bundle `zipf`, in order. -/
  zipMembers : List (Path × Blob)
  currentZipSize : Nat
  filesInCurrentZip : Nat
  /-- The member lists of the bundles sealed so far, in order. The program keeps no such list;
  the model records each `zipf.close()` to state what the packer leaves behind. -/
  sealed : List (List (Path × Blob))

namespace PackState

/-- The state before the walk, writing into `staging`. -/
def init (staging : FS) : PackState := ⟨staging, [], 1, [], 0, 0, []⟩

/-- `zipf.close()`: the open bundle is written to the staging root. -/
def closeBundle (st : PackState) : PackState :=
  { st with
    staging := st.staging.insert [bundleName st.zipIdx] (.zip st.zipMembers)
    sealed := st.sealed ++ [st.zipMembers] }

/-- Seal the open bundle and open the next, empty one. -/
def rollover (st : PackState) : PackState :=
  { st.closeBundle with
    zipIdx := st.zipIdx + 1
    zipMembers := []
    currentZipSize := 0
    filesInCurrentZip := 0 }

/-- After the walk: seal the open bundle if it holds a file; otherwise close it and delete the
archive file, which is then under 100 bytes. -/
def finish (st : PackState) : PackState :=
  if 0 < st.filesInCurrentZip then st.closeBundle
  else
    let zipPath := [bundleName st.zipIdx]
    let staging := st.staging.insert zipPath (.zip st.zipMembers)
    { st with
      staging := if (zipBlob st.zipMembers).size < 100 then staging.erase zipPath else staging }

/-- The bundles of a state: the sealed ones, then the open one. -/
def bundles (st : PackState) : List (List (Path × Blob)) := st.sealed ++ [st.zipMembers]

/-- Sealing after the walk adds no metadata. -/
@[simp]
theorem finish_metadata (st : PackState) : st.finish.metadata = st.metadata := by
  unfold finish; split <;> rfl

/-- `finish` writes only the open bundle's path. -/
theorem finish_lookup_ne (st : PackState) {p : Path} (hp : p ≠ [bundleName st.zipIdx]) :
    st.finish.staging.lookup p = st.staging.lookup p := by
  unfold finish closeBundle
  split
  · exact AList.lookup_insert_ne hp
  · dsimp only
    split <;> simp only [AList.lookup_erase_ne hp, AList.lookup_insert_ne hp]

/-- An open bundle that holds a file is written to the staging root when the walk ends. -/
theorem finish_lookup_open (st : PackState) (h : 0 < st.filesInCurrentZip) :
    st.finish.staging.lookup [bundleName st.zipIdx] = some (.zip st.zipMembers) := by
  simp only [finish, if_pos h, closeBundle, AList.lookup_insert]

end PackState

namespace LTOPacker

variable (self : LTOPacker) (source : Path) (thresholdMb : ℚ)

/-- `max_zip_size_gb * 1024**3 * 0.99`: the payload past which the open bundle is sealed. -/
def rolloverLimit : ℚ := self.maxZipSizeGb * 1024 ^ 3 * 0.99

/-- The loop body for the file at `rel` with content `c`: below the threshold it is streamed
into the open bundle, after sealing that bundle when the file would overflow it; otherwise it is
copied loose to the same relative path under staging. -/
def packFile (st : PackState) (rel : Path) (c : Content) : PackState :=
  let fsize := c.blob.size
  if (fsize : ℚ) / (1024 * 1024) < thresholdMb then
    let st := if self.rolloverLimit < ((st.currentZipSize + fsize : ℕ) : ℚ) then st.rollover else st
    { st with
      zipMembers := st.zipMembers ++ [(rel, c.blob)]
      currentZipSize := st.currentZipSize + fsize
      filesInCurrentZip := st.filesInCurrentZip + 1
      metadata := st.metadata ++ [packedEntry source rel c.blob (bundleName st.zipIdx)] }
  else
    { st with
      staging := st.staging.insert rel c
      metadata := st.metadata ++ [looseEntry source rel c] }

/-- The packing done by `run`: the walk of the source tree `src`, then `finish`. -/
def pack (src staging : FS) : PackState :=
  (src.entries.foldl (fun st e => self.packFile source thresholdMb st e.1 e.2)
    (PackState.init staging)).finish

/-- `LTOPacker.run(source, dest, threshold_mb)`, for the source tree `src` under `source` and the
staging tree `dest`. A non-empty staging directory makes the operator choose: `2` keeps it and
returns `[]`, `1` deletes it and packs afresh, anything else aborts with `None`. Returns the
result and the staging tree left behind. -/
def run (src dest : FS) (choice : String) : Option (List Metadata) × FS :=
  if dest.entries ≠ [] then
    if pyStrip choice = "2" then (some [], dest)
    else if pyStrip choice = "1" then
      let st := self.pack source thresholdMb src ∅
      (some st.metadata, st.staging)
    else (none, dest)
  else
    let st := self.pack source thresholdMb src dest
    (some st.metadata, st.staging)

/-! ## One lemma per branch of the loop body -/

section Branches

variable {st : PackState} {rel : Path} {c : Content}

/-- A file at or above the threshold is copied loose to its relative path. -/
theorem packFile_of_large (h : ¬ (c.blob.size : ℚ) / (1024 * 1024) < thresholdMb) :
    self.packFile source thresholdMb st rel c =
      { st with
        staging := st.staging.insert rel c
        metadata := st.metadata ++ [looseEntry source rel c] } := by
  simp only [packFile, if_neg h]

/-- A small file that fits the open bundle is added to it. -/
theorem packFile_of_fits (h : (c.blob.size : ℚ) / (1024 * 1024) < thresholdMb)
    (hfit : ¬ self.rolloverLimit < ((st.currentZipSize + c.blob.size : ℕ) : ℚ)) :
    self.packFile source thresholdMb st rel c =
      { st with
        zipMembers := st.zipMembers ++ [(rel, c.blob)]
        currentZipSize := st.currentZipSize + c.blob.size
        filesInCurrentZip := st.filesInCurrentZip + 1
        metadata := st.metadata ++ [packedEntry source rel c.blob (bundleName st.zipIdx)] } := by
  simp only [packFile, if_pos h, if_neg hfit]

/-- A small file that would overflow the open bundle seals it and starts the next one. -/
theorem packFile_of_overflow (h : (c.blob.size : ℚ) / (1024 * 1024) < thresholdMb)
    (hover : self.rolloverLimit < ((st.currentZipSize + c.blob.size : ℕ) : ℚ)) :
    self.packFile source thresholdMb st rel c =
      { staging := st.staging.insert [bundleName st.zipIdx] (.zip st.zipMembers)
        metadata := st.metadata ++ [packedEntry source rel c.blob (bundleName (st.zipIdx + 1))]
        zipIdx := st.zipIdx + 1
        zipMembers := [(rel, c.blob)]
        currentZipSize := c.blob.size
        filesInCurrentZip := 1
        sealed := st.sealed ++ [st.zipMembers] } := by
  simp only [packFile, if_pos h, if_pos hover, PackState.rollover, PackState.closeBundle,
    List.nil_append, Nat.zero_add]

/-- Each file adds one metadata entry, packed exactly when it names a container. -/
theorem packFile_metadata (st : PackState) (rel : Path) (c : Content) :
    ∃ m, (self.packFile source thresholdMb st rel c).metadata = st.metadata ++ [m] ∧
      m.isPacked = m.containerName.isSome := by
  by_cases h : (c.blob.size : ℚ) / (1024 * 1024) < thresholdMb
  · by_cases hover : self.rolloverLimit < ((st.currentZipSize + c.blob.size : ℕ) : ℚ)
    · rw [packFile_of_overflow self source thresholdMb h hover]; exact ⟨_, rfl, rfl⟩
    · rw [packFile_of_fits self source thresholdMb h hover]; exact ⟨_, rfl, rfl⟩
  · rw [packFile_of_large self source thresholdMb h]; exact ⟨_, rfl, rfl⟩

end Branches

/-- Every entry `pack` returns is packed exactly when it names a container. -/
theorem pack_metadata_wf (src staging : FS) :
    ∀ m ∈ (self.pack source thresholdMb src staging).metadata, m.isPacked = m.containerName.isSome := by
  simp only [pack, PackState.finish_metadata]
  suffices ∀ (es : List (Σ _ : Path, Content)) (st : PackState),
      (∀ m ∈ st.metadata, m.isPacked = m.containerName.isSome) →
      ∀ m ∈ (es.foldl (fun st e => self.packFile source thresholdMb st e.1 e.2) st).metadata,
        m.isPacked = m.containerName.isSome from
    this _ _ (by simp [PackState.init])
  intro es
  induction es with
  | nil => exact fun _ h => h
  | cons e es ih =>
    intro st h
    refine ih _ ?_
    obtain ⟨m, hm, hwf⟩ := self.packFile_metadata source thresholdMb st e.1 e.2
    rw [hm]
    intro m' hm'
    rcases List.mem_append.1 hm' with hm' | hm'
    · exact h m' hm'
    · exact List.mem_singleton.1 hm' ▸ hwf

/-! ## The bundles are next-fit bins -/

/-- The size of a member, the item size next-fit packs by. -/
def memberSize (x : Path × Blob) : ℕ := x.2.size

/-- The small files of a walk, as the members they become, in walk order. -/
def packedItems (es : List (Σ _ : Path, Content)) : List (Path × Blob) :=
  es.filterMap fun e =>
    if (e.2.blob.size : ℚ) / (1024 * 1024) < thresholdMb then some (e.1, e.2.blob) else none

/-- The small files of a walk, one file at a time. -/
theorem packedItems_cons (e : Σ _ : Path, Content) (es : List (Σ _ : Path, Content)) :
    packedItems thresholdMb (e :: es) =
      if (e.2.blob.size : ℚ) / (1024 * 1024) < thresholdMb then
        (e.1, e.2.blob) :: packedItems thresholdMb es
      else packedItems thresholdMb es := by
  unfold packedItems
  split <;> simp [*]

/-- The packer's bundle variables agree with next-fit bins `bins`. -/
structure Refines (st : PackState) (bins : List (List (Path × Blob)) × List (Path × Blob)) :
    Prop where
  sealed_eq : st.sealed = bins.1
  zipMembers_eq : st.zipMembers = bins.2
  currentZipSize_eq : st.currentZipSize = load memberSize bins.2
  filesInCurrentZip_eq : st.filesInCurrentZip = bins.2.length

/-- Before the walk the packer's bundles are next-fit's empty bins. -/
theorem refines_init (staging : FS) : Refines (PackState.init staging) ([], []) :=
  ⟨rfl, rfl, rfl, rfl⟩

/-- The loop body is a next-fit step on a small file and leaves the bins alone on a large one. -/
theorem packFile_refines {st : PackState} {bins} (h : Refines st bins) (rel : Path) (c : Content) :
    Refines (self.packFile source thresholdMb st rel c)
      (if (c.blob.size : ℚ) / (1024 * 1024) < thresholdMb then
        nextFitStep self.rolloverLimit memberSize bins (rel, c.blob) else bins) := by
  obtain ⟨h1, h2, h3, h4⟩ := h
  unfold packFile nextFitStep
  by_cases hsmall : (c.blob.size : ℚ) / (1024 * 1024) < thresholdMb
  · simp only [hsmall, if_true, memberSize, h3]
    by_cases hover : self.rolloverLimit < ((load memberSize bins.2 + c.blob.size : ℕ) : ℚ)
    · simp only [hover, if_true]
      exact ⟨by simp [PackState.rollover, PackState.closeBundle, h1, h2], rfl,
        by simp [PackState.rollover, memberSize], rfl⟩
    · simp only [hover, if_false]
      exact ⟨h1, by simp [h2], by simp [memberSize, h3], by simp [h4]⟩
  · simp only [hsmall, if_false]
    exact ⟨h1, h2, h3, h4⟩

/-- The walk is next-fit over its small files. -/
theorem foldl_packFile_refines (es : List (Σ _ : Path, Content)) {st : PackState} {bins}
    (h : Refines st bins) :
    Refines (es.foldl (fun st e => self.packFile source thresholdMb st e.1 e.2) st)
      ((packedItems thresholdMb es).foldl (nextFitStep self.rolloverLimit memberSize) bins) := by
  induction es generalizing st bins with
  | nil => exact h
  | cons e es ih =>
    have := ih (packFile_refines self source thresholdMb h e.1 e.2)
    rw [List.foldl_cons, packedItems_cons]
    split <;> simpa only [*, ite_true, ite_false, List.foldl_cons] using this

/-- The bundles `pack` seals are the next-fit bins of the small files, the last one sealed only
when it holds a file. -/
theorem pack_refines_nextFit (src staging : FS) :
    (self.pack source thresholdMb src staging).sealed =
      (nextFit self.rolloverLimit memberSize (packedItems thresholdMb src.entries)).1 ++
        if (nextFit self.rolloverLimit memberSize (packedItems thresholdMb src.entries)).2 = []
        then [] else [(nextFit self.rolloverLimit memberSize (packedItems thresholdMb src.entries)).2] := by
  obtain ⟨h1, h2, -, h4⟩ :=
    foldl_packFile_refines self source thresholdMb src.entries (refines_init staging)
  simp only [pack, PackState.finish]
  split
  · rename_i hpos
    rw [h4, List.length_pos] at hpos
    simp [PackState.closeBundle, h1, h2, hpos, nextFit]
  · rename_i hzero
    rw [h4, List.length_pos, not_not] at hzero
    simp [h1, hzero, nextFit]

/-- What the bundles the packer seals satisfy, for the small files `items` of the walk. -/
structure BundleProps (bundles : List (List (Path × Blob))) (items : List (Path × Blob)) :
    Prop where
  /-- Every small file is a member of exactly one bundle, in walk order. -/
  flatten_eq : bundles.flatten = items
  /-- A bundle is sealed before the next only because that one's first file would have pushed
  its payload past the rollover limit. -/
  sealed_on_overflow : bundles.Chain' fun a b =>
    self.rolloverLimit < ((load memberSize a + load memberSize (b.take 1) : ℕ) : ℚ)
  /-- A bundle's payload is within `max_zip_size_gb` GiB, unless it is a single file larger than
  the rollover limit. -/
  within_max : ∀ b ∈ bundles, (load memberSize b : ℚ) ≤ self.maxZipSizeGb * 1024 ^ 3 ∨
    ∃ x, b = [x] ∧ self.rolloverLimit < x.2.size
  /-- When every small file is within the rollover limit, no bundle is empty. -/
  ne_nil_of_fit : (∀ x ∈ items, (x.2.size : ℚ) ≤ self.rolloverLimit) → ∀ b ∈ bundles, b ≠ []

/-- Sealing the open bin, when it holds an item, keeps the items in order. -/
theorem flatten_sealedBins (bins : List (List (Path × Blob)) × List (Path × Blob)) :
    (bins.1 ++ if bins.2 = [] then [] else [bins.2]).flatten = bins.1.flatten ++ bins.2 := by
  split <;> simp [*]

/-- A bin of the sealed list is a closed bin or the open one. -/
theorem mem_of_mem_sealedBins {bins : List (List (Path × Blob)) × List (Path × Blob)}
    {b : List (Path × Blob)}
    (hb : b ∈ bins.1 ++ if bins.2 = [] then [] else [bins.2]) : b ∈ bins.1 ++ [bins.2] := by
  split at hb <;> simp_all

/-- The rollover limit is below `max_zip_size_gb` GiB. -/
theorem rolloverLimit_le (hmax : 0 < self.maxZipSizeGb) :
    self.rolloverLimit ≤ self.maxZipSizeGb * 1024 ^ 3 := by
  unfold rolloverLimit
  linarith

/-- The sealed bundles hold the small files of the walk, in order, are sealed only on overflow,
and stay within `max_zip_size_gb` GiB unless a single file exceeds the limit. -/
theorem pack_bundles (src staging : FS) (hmax : 0 < self.maxZipSizeGb) :
    BundleProps self (self.pack source thresholdMb src staging).sealed
      (packedItems thresholdMb src.entries) := by
  rw [pack_refines_nextFit]
  set items := packedItems thresholdMb src.entries
  have hflat := nextFit_flatten self.rolloverLimit memberSize items
  have hchain := nextFit_chain self.rolloverLimit memberSize items
  have hload := nextFit_load_le self.rolloverLimit memberSize items
  have hclosed := nextFit_closed_ne_nil self.rolloverLimit memberSize items
  have hle := rolloverLimit_le self hmax
  set bins := nextFit self.rolloverLimit memberSize items
  refine ⟨(flatten_sealedBins bins).trans hflat, ?_, ?_, ?_⟩
  · split
    · simpa using hchain.left_of_append
    · exact hchain
  · intro b hb
    match b, mem_of_mem_sealedBins hb with
    | [], _ => exact .inl (by simp only [load_nil, Nat.cast_zero]; positivity)
    | [x], _ =>
      by_cases hx : self.rolloverLimit < x.2.size
      · exact .inr ⟨x, rfl, hx⟩
      · exact .inl (by simp only [load_singleton, memberSize]; linarith)
    | x :: y :: zs, hmem => exact .inl ((hload _ hmem (by simp)).trans hle)
  · intro hfit b hb
    split at hb
    · exact hclosed hfit b (by simpa using hb)
    · rcases List.mem_append.1 hb with hb | hb
      · exact hclosed hfit b hb
      · rw [List.mem_singleton.1 hb]; assumption

/-- One small file makes one bundle. -/
theorem pack_bundles_one_file :
    (0 : ℚ) < (⟨1⟩ : LTOPacker).maxZipSizeGb ∧
      BundleProps ⟨1⟩ ((⟨1⟩ : LTOPacker).pack ["src"] 1
        (FS.ofList [(["a.txt"], .file ⟨10, "x"⟩)] (by decide)) ∅).sealed
        (packedItems 1 (FS.ofList [(["a.txt"], .file ⟨10, "x"⟩)] (by decide)).entries) :=
  ⟨by norm_num, pack_bundles ⟨1⟩ ["src"] 1 _ ∅ (by norm_num)⟩

/-- With `max_zip_size_gb` so small that a file below the threshold exceeds the rollover
limit, the packer seals an empty `Bundle_001.zip` and leaves it in staging, then puts the file
alone in a bundle larger than `max_zip_size_gb` GiB. -/
theorem pack_oversized_small_file :
    let packer : LTOPacker := ⟨100 / 1024 ^ 3⟩
    let st := packer.pack ["src"] 1 (FS.ofList [(["a.dat"], .file ⟨150, "a"⟩)] (by decide)) ∅
    st.staging.lookup [bundleName 1] = some (.zip []) ∧ [] ∈ st.sealed ∧
      ∃ b ∈ st.sealed, packer.maxZipSizeGb * 1024 ^ 3 < (load memberSize b : ℚ) := by
  norm_num [pack, packFile, rolloverLimit, PackState.init, PackState.finish,
    PackState.rollover, PackState.closeBundle, memberSize]
  decide

/-! ## Where the packer stages each file -/

/-- The metadata entry `m` is the one `packFile` writes for the walked file `e`; for a small
file it names a bundle of `st` holding `e`'s bytes. -/
def Describes (st : PackState) (m : Metadata) (e : Σ _ : Path, Content) : Prop :=
  if (e.2.blob.size : ℚ) / (1024 * 1024) < thresholdMb then
    ∃ k b, m = packedEntry source e.1 e.2.blob (bundleName (k + 1)) ∧ st.bundles[k]? = some b ∧
      (e.1, e.2.blob) ∈ b
  else m = looseEntry source e.1 e.2

/-- Every bundle of `st` is, with at least its members, a bundle of `st'`. -/
def BundlesGrow (st st' : PackState) : Prop :=
  ∀ (k : Nat) (b : List (Path × Blob)), st.bundles[k]? = some b →
    ∃ b', st'.bundles[k]? = some b' ∧ ∀ x ∈ b, x ∈ b'

/-- What an entry says of a state stays true as the bundles grow. -/
theorem Describes.mono {st st' : PackState} (hg : BundlesGrow st st') {m e}
    (h : Describes source thresholdMb st m e) : Describes source thresholdMb st' m e := by
  by_cases hsmall : (e.2.blob.size : ℚ) / (1024 * 1024) < thresholdMb
  · simp only [Describes, if_pos hsmall] at h ⊢
    obtain ⟨k, b, hm, hk, hx⟩ := h
    obtain ⟨b', hk', hsub⟩ := hg k b hk
    exact ⟨k, b', hm, hk', hsub _ hx⟩
  · simpa only [Describes, if_neg hsmall] using h

/-- What the metadata says of a state stays true as the bundles grow. -/
theorem forall₂_describes_mono {st st' : PackState} (hg : BundlesGrow st st') {ms es}
    (h : List.Forall₂ (Describes source thresholdMb st) ms es) :
    List.Forall₂ (Describes source thresholdMb st') ms es :=
  h.imp fun _ _ hd => hd.mono source thresholdMb hg

/-- An entry of `l ++ [a]` is an entry of `l` or `a` itself. -/
theorem getElem?_append_singleton_eq_some {α : Type*} {l : List α} {a b : α} {k : ℕ}
    (h : (l ++ [a])[k]? = some b) : l[k]? = some b ∧ k < l.length ∨ k = l.length ∧ b = a := by
  rcases Nat.lt_or_ge k l.length with hlt | hge
  · exact .inl ⟨by rwa [List.getElem?_append_left hlt] at h, hlt⟩
  · rw [List.getElem?_append_right hge] at h
    rcases hk : k - l.length with _ | n
    · simp only [hk, List.getElem?_cons_zero, Option.some.injEq] at h
      exact .inr ⟨by omega, h.symm⟩
    · simp [hk] at h

/-- Adding a member to the open bundle keeps every bundle's members. -/
theorem bundlesGrow_append_member (bs : List (List (Path × Blob))) (zm : List (Path × Blob))
    (x : Path × Blob) (k : Nat) (b : List (Path × Blob)) (hk : (bs ++ [zm])[k]? = some b) :
    ∃ b', (bs ++ [zm ++ [x]])[k]? = some b' ∧ ∀ y ∈ b, y ∈ b' := by
  rcases getElem?_append_singleton_eq_some hk with ⟨hk, hlt⟩ | ⟨rfl, rfl⟩
  · exact ⟨b, by rwa [List.getElem?_append_left hlt], fun _ h => h⟩
  · exact ⟨_, List.getElem?_concat_length _ _, fun y hy => List.mem_append_left _ hy⟩

/-- What the loop keeps true of the staging tree and the metadata, for the files `done` walked
so far. -/
structure StageInv (done : List (Σ _ : Path, Content)) (st : PackState) : Prop where
  zipIdx_eq : st.zipIdx = st.sealed.length + 1
  /-- Each sealed bundle is in staging under its name. -/
  sealed_staged : ∀ k b, st.sealed[k]? = some b →
    st.staging.lookup [bundleName (k + 1)] = some (.zip b)
  /-- Each file copied loose is in staging at its relative path. -/
  loose_staged : ∀ e ∈ done, ¬ (e.2.blob.size : ℚ) / (1024 * 1024) < thresholdMb →
    st.staging.lookup e.1 = some e.2
  /-- One metadata entry per walked file, in walk order. -/
  described : List.Forall₂ (Describes source thresholdMb st) st.metadata done

/-- The staging invariant holds before the walk. -/
theorem stageInv_init (staging : FS) : StageInv source thresholdMb [] (PackState.init staging) :=
  ⟨rfl, by simp [PackState.init], by simp, .nil⟩

/-- The loop body keeps the staging invariant for a file with a fresh path and no bundle's
name. -/
theorem stageInv_packFile {done : List (Σ _ : Path, Content)} {st : PackState}
    (h : StageInv source thresholdMb done st) (e : Σ _ : Path, Content)
    (hfresh : ∀ e' ∈ done, e'.1 ≠ e.1) (hname : ∀ e' ∈ done ++ [e], ∀ k, e'.1 ≠ [bundleName k]) :
    StageInv source thresholdMb (done ++ [e]) (self.packFile source thresholdMb st e.1 e.2) := by
  obtain ⟨hidx, hsealed, hloose, hdesc⟩ := h
  by_cases hsmall : (e.2.blob.size : ℚ) / (1024 * 1024) < thresholdMb
  · by_cases hover : self.rolloverLimit < ((st.currentZipSize + e.2.blob.size : ℕ) : ℚ)
    · rw [packFile_of_overflow self source thresholdMb hsmall hover]
      refine ⟨by simp [hidx], ?_, ?_, ?_⟩
      · intro k b hk
        rcases getElem?_append_singleton_eq_some hk with ⟨hk, hlt⟩ | ⟨rfl, rfl⟩
        · rw [AList.lookup_insert_ne (by simp [hidx]; omega)]
          exact hsealed k b hk
        · rw [hidx, AList.lookup_insert]
      · intro e' he' hs
        rcases List.mem_append.1 he' with he' | he'
        · rw [AList.lookup_insert_ne (hname e' (List.mem_append_left _ he') _)]
          exact hloose e' he' hs
        · exact absurd hsmall (List.mem_singleton.1 he' ▸ hs)
      · refine List.rel_append (forall₂_describes_mono source thresholdMb ?_ hdesc) (.cons ?_ .nil)
        · intro k b hk
          refine ⟨b, ?_, fun _ h => h⟩
          simp only [PackState.bundles] at hk ⊢
          rw [List.getElem?_append_left (List.getElem?_eq_some_iff.1 hk).1]
          exact hk
        · simp only [Describes, if_pos hsmall]
          refine ⟨st.sealed.length + 1, [(e.1, e.2.blob)], by rw [hidx], ?_,
            List.mem_singleton_self _⟩
          rw [PackState.bundles, List.getElem?_append_right (by simp)]
          simp
    · rw [packFile_of_fits self source thresholdMb hsmall hover]
      refine ⟨hidx, hsealed, fun e' he' hs => ?_, ?_⟩
      · rcases List.mem_append.1 he' with he' | he'
        · exact hloose e' he' hs
        · exact absurd hsmall (List.mem_singleton.1 he' ▸ hs)
      · refine List.rel_append (forall₂_describes_mono source thresholdMb ?_ hdesc) (.cons ?_ .nil)
        · exact bundlesGrow_append_member st.sealed st.zipMembers (e.1, e.2.blob)
        · simp only [Describes, if_pos hsmall]
          exact ⟨st.sealed.length, st.zipMembers ++ [(e.1, e.2.blob)], by rw [hidx],
            List.getElem?_concat_length _ _, List.mem_concat_self _ _⟩
  · rw [packFile_of_large self source thresholdMb hsmall]
    refine ⟨hidx, fun k b hk => ?_, fun e' he' hs => ?_, ?_⟩
    · rw [AList.lookup_insert_ne (fun h => hname e (by simp) _ h.symm)]
      exact hsealed k b hk
    · rcases List.mem_append.1 he' with he' | he'
      · rw [AList.lookup_insert_ne (hfresh e' he')]
        exact hloose e' he' hs
      · rw [List.mem_singleton.1 he']
        exact AList.lookup_insert _
    · refine List.rel_append (forall₂_describes_mono source thresholdMb ?_ hdesc) (.cons ?_ .nil)
      · exact fun k b hk => ⟨b, hk, fun _ h => h⟩
      · simp only [Describes, if_neg hsmall]

/-- The walk keeps the staging invariant over files with distinct paths and no bundle's name. -/
theorem stageInv_foldl (es : List (Σ _ : Path, Content)) {done : List (Σ _ : Path, Content)}
    {st : PackState} (h : StageInv source thresholdMb done st)
    (hnodup : ((done ++ es).map (·.1)).Nodup) (hname : ∀ e ∈ done ++ es, ∀ k, e.1 ≠ [bundleName k]) :
    StageInv source thresholdMb (done ++ es)
      (es.foldl (fun st e => self.packFile source thresholdMb st e.1 e.2) st) := by
  induction es generalizing done st with
  | nil => simpa using h
  | cons e es ih =>
    rw [List.append_cons] at hnodup hname ⊢
    have hfresh : ∀ e' ∈ done, e'.1 ≠ e.1 := by
      have hd := hnodup.sublist ((List.sublist_append_left _ es).map _)
      rw [List.map_append, List.nodup_append] at hd
      exact fun e' he' heq => hd.2.2 (List.mem_map_of_mem _ he') (List.mem_singleton.2 heq)
    exact ih (self.stageInv_packFile source thresholdMb h e hfresh
      fun e' he' => hname e' (List.mem_append_left _ he')) hnodup hname

/-- The paths of the small files are a sublist of the walk's paths. -/
theorem packedItems_keys_sublist (es : List (Σ _ : Path, Content)) :
    List.Sublist ((packedItems thresholdMb es).map Prod.fst) (es.map (·.1)) := by
  induction es with
  | nil => simp [packedItems]
  | cons e es ih =>
    rw [packedItems_cons]
    split
    · exact ih.cons₂ e.1
    · exact ih.cons e.1

/-- What the staging tree `staging` holds for the walked file `e` and its metadata entry `m`. -/
structure StagedAs (staging : FS) (m : Metadata) (e : Σ _ : Path, Content) : Prop where
  storedPath_eq : m.storedPath = e.1
  fileName_eq : m.fileName = basename e.1
  originalPath_eq : m.originalPath = source ++ e.1
  fileSizeBytes_eq : m.fileSizeBytes = e.2.blob.size
  isPacked_iff : m.isPacked = true ↔ (e.2.blob.size : ℚ) / (1024 * 1024) < thresholdMb
  /-- A packed file is the one member under its path of the bundle its entry names. -/
  packed_staged : m.isPacked = true → m.fileHash = some e.2.blob.sha256 ∧
    ∃ c ms, m.containerName = some c ∧ staging.lookup [c] = some (.zip ms) ∧
      ms.filter (·.1 == e.1) = [(e.1, e.2.blob)]
  /-- A loose file is in staging at its stored path. -/
  loose_staged : m.isPacked = false → staging.lookup e.1 = some e.2

/-- The bundle the entry `m` names holds only members made from `items`, in their order. -/
def InBundle (staging : FS) (items : List (Path × Blob)) (m : Metadata) : Prop :=
  ∀ c ms, m.containerName = some c → staging.lookup [c] = some (.zip ms) → List.Sublist ms items

/-- At the end of the walk, a described file is staged where its entry says, and its bundle is
made from the small files. -/
theorem stagedAs_of_describes {done : List (Σ _ : Path, Content)} {st : PackState} {bins}
    {items : List (Path × Blob)} (hinv : StageInv source thresholdMb done st)
    (href : Refines st bins) (hflat : (bins.1 ++ [bins.2]).flatten = items)
    (hkeys : (items.map Prod.fst).Nodup) (hnames : ∀ e ∈ done, ∀ k, e.1 ≠ [bundleName k])
    {m : Metadata} {e : Σ _ : Path, Content} (he : e ∈ done)
    (hd : Describes source thresholdMb st m e) :
    StagedAs source thresholdMb st.finish.staging m e ∧ InBundle st.finish.staging items m := by
  by_cases hsmall : (e.2.blob.size : ℚ) / (1024 * 1024) < thresholdMb
  · simp only [Describes, if_pos hsmall] at hd
    obtain ⟨k, b, rfl, hk, hx⟩ := hd
    have hsub : List.Sublist b items := by
      rw [← hflat, ← href.sealed_eq, ← href.zipMembers_eq]
      exact List.sublist_flatten_of_mem (List.getElem?_mem hk)
    have hlookup : st.finish.staging.lookup [bundleName (k + 1)] = some (.zip b) := by
      rcases getElem?_append_singleton_eq_some hk with ⟨hk, hlt⟩ | ⟨rfl, rfl⟩
      · rw [st.finish_lookup_ne (by simp [hinv.zipIdx_eq]; omega)]
        exact hinv.sealed_staged k b hk
      · have hpos : 0 < st.filesInCurrentZip := by
          rw [href.filesInCurrentZip_eq, ← href.zipMembers_eq]; exact List.length_pos_of_mem hx
        rw [← hinv.zipIdx_eq]
        exact st.finish_lookup_open hpos
    refine ⟨⟨rfl, rfl, rfl, rfl, iff_of_true rfl hsmall,
      fun _ => ⟨rfl, _, b, rfl, hlookup, filter_key_eq_singleton (hkeys.sublist (hsub.map _)) hx⟩,
      fun h => absurd h (by simp [packedEntry])⟩, fun c ms hc hl => ?_⟩
    obtain rfl : bundleName (k + 1) = c := Option.some.inj hc
    rw [hlookup, Option.some.injEq, Content.zip.injEq] at hl
    exact hl ▸ hsub
  · simp only [Describes, if_neg hsmall] at hd
    subst hd
    refine ⟨⟨rfl, rfl, rfl, rfl, iff_of_false (by simp [looseEntry]) hsmall,
      fun h => absurd h (by simp [looseEntry]), fun _ => ?_⟩, fun c ms hc => by cases hc⟩
    rw [st.finish_lookup_ne (hnames e he _)]
    exact hinv.loose_staged e he hsmall

/-- What `pack` leaves on an empty staging directory, when no file at the source root is named
like a bundle: one entry per walked file in walk order, each staged where it says, each bundle
made from the small files. -/
theorem pack_staged (src : FS) (hnames : ∀ e ∈ src.entries, ∀ k, e.1 ≠ [bundleName k]) :
    List.Forall₂ (fun m e => StagedAs source thresholdMb (self.pack source thresholdMb src ∅).staging
        m e ∧ InBundle (self.pack source thresholdMb src ∅).staging (packedItems thresholdMb src.entries) m)
      (self.pack source thresholdMb src ∅).metadata src.entries := by
  have hinv := self.stageInv_foldl source thresholdMb src.entries
    (stageInv_init source thresholdMb ∅) (by simpa using src.nodupKeys) (by simpa using hnames)
  have href := self.foldl_packFile_refines source thresholdMb src.entries (refines_init ∅)
  have hflat : ((nextFit self.rolloverLimit memberSize (packedItems thresholdMb src.entries)).1 ++
      [(nextFit self.rolloverLimit memberSize (packedItems thresholdMb src.entries)).2]).flatten =
        packedItems thresholdMb src.entries := by
    rw [List.flatten_append, List.flatten_singleton,
      nextFit_flatten self.rolloverLimit memberSize (packedItems thresholdMb src.entries)]
  have hkeys : ((packedItems thresholdMb src.entries).map Prod.fst).Nodup :=
    (show (src.entries.map (·.1)).Nodup from src.nodupKeys).sublist
      (packedItems_keys_sublist thresholdMb src.entries)
  simp only [pack, PackState.finish_metadata]
  rw [List.nil_append] at hinv
  have hdesc := hinv.described
  rw [List.forall₂_iff_zip] at hdesc ⊢
  exact ⟨hdesc.1, fun hz => stagedAs_of_describes source thresholdMb hinv href hflat hkeys hnames
    (List.of_mem_zip hz).2 (hdesc.2 hz)⟩

/-- On an empty staging directory the packer asks nothing and packs. -/
theorem run_of_empty (src : FS) (choice : String) :
    self.run source thresholdMb src ∅ choice =
      (some (self.pack source thresholdMb src ∅).metadata, (self.pack source thresholdMb src ∅).staging) :=
  if_neg (by simp)

/-- `run` returns metadata only by keeping the staging directory, with no entries, or by packing
afresh on an empty one. -/
theorem run_of_some {src dest : FS} {choice : String} {md : List Metadata}
    (h : (self.run source thresholdMb src dest choice).1 = some md) :
    (md = [] ∧ (self.run source thresholdMb src dest choice).2 = dest) ∨
      self.run source thresholdMb src dest choice =
        (some (self.pack source thresholdMb src ∅).metadata, (self.pack source thresholdMb src ∅).staging) := by
  by_cases hd : dest.entries = []
  · obtain rfl : dest = ∅ := AList.ext hd
    exact .inr (self.run_of_empty source thresholdMb src choice)
  · unfold run at h ⊢
    rw [if_pos hd] at h ⊢
    split at h
    · rename_i h2
      rw [if_pos h2]
      exact .inl ⟨(Option.some.inj h).symm, rfl⟩
    · rename_i h2
      rw [if_neg h2]
      split at h
      · rename_i h1
        exact .inr (by rw [if_pos h1])
      · cases h

/-- An entry the packer returns is packed exactly when it names a container. -/
theorem run_metadata_wf {src dest : FS} {choice : String} {md : List Metadata}
    (h : (self.run source thresholdMb src dest choice).1 = some md) :
    ∀ m ∈ md, m.isPacked = m.containerName.isSome := by
  rcases self.run_of_some source thresholdMb h with ⟨rfl, -⟩ | hrun
  · simp
  · rw [hrun] at h
    exact Option.some.inj h ▸ self.pack_metadata_wf source thresholdMb src ∅

/-- A large file at the source root named `Bundle_001.zip` is copied loose over the bundle of
that name, which the packer sealed when `B.dat` overflowed it: `A.dat`'s entry names a container
that is no longer a ZIP archive. -/
theorem run_loose_file_overwrites_bundle :
    let packer : LTOPacker := ⟨100 / 1024 ^ 3⟩
    let src := FS.ofList [(["A.dat"], .file ⟨60, "a"⟩), (["B.dat"], .file ⟨60, "b"⟩),
      (["Bundle_001.zip"], .file ⟨2097152, "z"⟩)] (by decide)
    let r := packer.run ["src"] 1 src ∅ ""
    (r.1.bind List.head?).bind (·.containerName) = some "Bundle_001.zip" ∧
      r.2.lookup ["Bundle_001.zip"] = some (.file ⟨2097152, "z"⟩) := by
  norm_num [run, pack, packFile, rolloverLimit, PackState.init, PackState.finish,
      PackState.rollover, PackState.closeBundle, packedEntry]
  decide

end LTOPacker

end LtoArchive
