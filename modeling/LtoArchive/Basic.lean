import Mathlib.Data.List.AList
import Mathlib.Tactic.Ring
import Mathlib.Tactic.IntervalCases
import Mathlib.Data.Nat.Digits

/-!
# Paths, file contents and directory trees

The archiver moves files between the source tree, the staging directory, the tape and the
restore directory. This module fixes how the model sees all of them.

* A path is the list of its components: `os.path.join` is `++`, and `os.path.basename` is the
  last component.
* A file's content is what the archiver observes of it: its length (`os.path.getsize`) and its
  SHA-256 digest (`_hash_file`), or, for a ZIP bundle, the list of its members. Copying a file
  keeps its content.
* A directory tree is an association list from paths to contents. No path holds two files, and
  the entries are in the order `os.walk` visits them.
* `bundleName k` is the packer's `f"Bundle_{k:03d}.zip"`. It is injective
  (`bundleName_injective`), so no two bundles share a path.

The helpers at the end are the Python string methods the program applies to operator input.
-/

namespace LtoArchive

/-- A file-system path as the list of its components, outermost first. -/
abbrev Path := List String

/-- `os.path.basename`: the last component of a path. -/
def basename (p : Path) : String := p.getLastD ""

/-- The base name of a path is its last component. -/
@[simp]
theorem basename_append_singleton (p : Path) (name : String) :
    basename (p ++ [name]) = name := by
  simp [basename]

/-- The content of a plain file as the archiver observes it: its length in bytes and the hex
digest `_hash_file` computes. -/
structure Blob where
  /-- `os.path.getsize`. -/
  size : Nat
  /-- `hashlib.sha256(...).hexdigest()` of the file's bytes. -/
  sha256 : String
deriving DecidableEq, Repr, Inhabited

/-- The content of a file: plain bytes, or a ZIP archive the packer wrote, given by its members
(name inside the archive, stored bytes) in the order they were written. -/
inductive Content
  | file (blob : Blob)
  | zip (members : List (Path × Blob))
deriving DecidableEq, Repr, Inhabited

/-- The bytes `zipfile` leaves on disk for a `ZIP_STORED` archive with these members, as the
archiver observes them. Members are stored verbatim, so the length is their total (the header
bytes around them are not counted), and the digest is that of an encoding of the member list:
equal member lists give equal bytes, which is all the archiver relies on. -/
def zipBlob (members : List (Path × Blob)) : Blob where
  size := (members.map fun m => m.2.size).sum
  sha256 := toString (members.map fun m => (m.1, m.2.sha256))

/-- The bytes of a file, whatever its kind. -/
def Content.blob : Content → Blob
  | .file b => b
  | .zip members => zipBlob members

@[simp]
theorem Content.blob_file (b : Blob) : (Content.file b).blob = b := rfl

/-- A member list whose names are distinct holds one member under the name of each of its
members. -/
theorem filter_key_eq_singleton {l : List (Path × Blob)} (hl : (l.map Prod.fst).Nodup)
    {x : Path × Blob} (hx : x ∈ l) : l.filter (·.1 == x.1) = [x] := by
  induction l with
  | nil => simp at hx
  | cons y l ih =>
    rw [List.map_cons, List.nodup_cons] at hl
    rcases List.mem_cons.1 hx with rfl | hx
    · have hrest : l.filter (·.1 == x.1) = [] :=
        List.filter_eq_nil_iff.2 fun z hz hzx =>
          hl.1 (by simpa [(beq_iff_eq.1 hzx).symm] using List.mem_map_of_mem Prod.fst hz)
      simp [hrest]
    · have hne : y.1 ≠ x.1 := fun h => hl.1 (h ▸ List.mem_map_of_mem Prod.fst hx)
      simp [hne, ih hl.2 hx]

/-- A directory tree: the files under one directory, by path relative to it, in walk order. -/
abbrev FS := AList (fun _ : Path => Content)

/-- The tree with these files, in this walk order; no path may repeat. -/
def FS.ofList (l : List (Path × Content)) (h : (l.map Prod.fst).Nodup) : FS :=
  ⟨l.map fun e => ⟨e.1, e.2⟩, by simpa [List.NodupKeys, List.keys, Function.comp_def] using h⟩

/-- The entries of a tree built from a list are that list, in its order. -/
@[simp]
theorem FS.ofList_entries (l : List (Path × Content)) (h : (l.map Prod.fst).Nodup) :
    (FS.ofList l h).entries = l.map fun e => ⟨e.1, e.2⟩ := rfl

/-! ## Bundle names -/

/-- The number a string of decimal digits denotes. -/
def decimalValue (l : List Char) : Nat := l.foldl (fun n c => 10 * n + (c.toNat - 48)) 0

/-- Reading digits after the value `a` shifts `a` past them. -/
theorem foldl_decimal (a : Nat) (l : List Char) :
    l.foldl (fun n c => 10 * n + (c.toNat - 48)) a = a * 10 ^ l.length + decimalValue l := by
  induction l generalizing a with
  | nil => simp [decimalValue]
  | cons c l ih =>
    simp only [List.foldl_cons, decimalValue, List.length_cons]
    rw [ih, ih (10 * 0 + _)]
    ring

/-- The first digit of a numeral counts `10 ^ n` times, for the `n` digits after it. -/
theorem decimalValue_cons (c : Char) (l : List Char) :
    decimalValue (c :: l) = (c.toNat - 48) * 10 ^ l.length + decimalValue l := by
  have h := foldl_decimal (10 * 0 + (c.toNat - 48)) l
  simp only [decimalValue, List.foldl_cons, Nat.mul_zero, Nat.zero_add] at h ⊢
  exact h

/-- `Nat.digitChar` of a digit reads back as that digit. -/
theorem digitChar_value {d : Nat} (h : d < 10) : (Nat.digitChar d).toNat - 48 = d := by
  interval_cases d <;> rfl

/-- The digits `Nat.toDigitsCore` writes in front of `ds` read back as the number. -/
theorem decimalValue_toDigitsCore (fuel n : Nat) (ds : List Char) (h : n < fuel) :
    decimalValue (Nat.toDigitsCore 10 fuel n ds) = n * 10 ^ ds.length + decimalValue ds := by
  induction fuel generalizing n ds with
  | zero => omega
  | succ f ih =>
    have hd := digitChar_value (Nat.mod_lt n (show 10 > 0 by omega))
    simp only [Nat.toDigitsCore]
    split
    · rw [decimalValue_cons, hd, Nat.mod_eq_of_lt (by omega)]
    · rw [ih _ _ (by omega), decimalValue_cons, hd, List.length_cons]
      conv_rhs => rw [← Nat.div_add_mod n 10]
      ring

/-- Leading zeros do not change a decimal value. -/
theorem decimalValue_zeros (m : Nat) (l : List Char) :
    decimalValue (List.replicate m '0' ++ l) = decimalValue l := by
  induction m with
  | zero => rfl
  | succ m ih =>
    rw [List.replicate_succ, List.cons_append, decimalValue_cons, ih]
    simp [show '0'.toNat = 48 from rfl]

/-- `f"{k:03d}"`: the decimal digits of `k`, padded with zeros to at least three. -/
def formatIndex (k : Nat) : String :=
  ⟨List.replicate (3 - (Nat.toDigits 10 k).length) '0' ++ Nat.toDigits 10 k⟩

/-- The digits `f'{k:03d}'` writes read back as `k`. -/
theorem decimalValue_formatIndex (k : Nat) : decimalValue (formatIndex k).data = k := by
  rw [formatIndex, decimalValue_zeros]
  simpa [decimalValue] using decimalValue_toDigitsCore (k + 1) k [] (by omega)

/-- The file name of the packer's `k`-th bundle, `f"Bundle_{k:03d}.zip"`. -/
def bundleName (k : Nat) : String := "Bundle_" ++ formatIndex k ++ ".zip"

example : bundleName 7 = "Bundle_007.zip" := by decide

/-- Distinct bundle indices give distinct bundle names. -/
theorem bundleName_injective : Function.Injective bundleName := by
  intro j k h
  have hdata := congrArg String.data h
  simp only [bundleName, String.data_append, List.append_assoc, List.append_cancel_left_eq,
    List.append_cancel_right_eq] at hdata
  rw [← decimalValue_formatIndex j, ← decimalValue_formatIndex k, hdata]

@[simp]
theorem bundleName_inj {j k : Nat} : bundleName j = bundleName k ↔ j = k :=
  bundleName_injective.eq_iff

/-- A key on which any two names that NTFS, which compares names without regard to case, takes
for one agree: ASCII letters in upper case, `ı` and `ſ` as the ASCII letters they upper to, and
every other character outside ASCII as one placeholder, `?`, which no Windows file name holds.
Names with distinct keys are distinct on NTFS. -/
def caseKey (s : String) : List Char :=
  s.data.map fun c =>
    if c.toNat < 128 then c.toUpper else if c = 'ı' then 'I' else if c = 'ſ' then 'S' else '?'

example : caseKey "bundle_001.zip" = caseKey "Bundle_001.zip" := by decide

/-- A name whose key does not start with `B` is no bundle's name, even on NTFS. -/
theorem caseKey_ne_bundleName_of_head {s : String} (h : (caseKey s).head? ≠ some 'B') (k : Nat) :
    caseKey s ≠ caseKey (bundleName k) := fun h' => h (by rw [h']; rfl)

/-! ## Python string methods -/

/-- Whether `str.isspace` holds of a character. -/
def isPySpace (c : Char) : Bool :=
  c.toNat ∈ [9, 10, 11, 12, 13, 28, 29, 30, 31, 32, 133, 160, 5760, 8192, 8193, 8194, 8195,
    8196, 8197, 8198, 8199, 8200, 8201, 8202, 8232, 8233, 8239, 8287, 12288]

/-- `str.strip()`. -/
def pyStrip (s : String) : String :=
  ⟨((s.data.dropWhile isPySpace).reverse.dropWhile isPySpace).reverse⟩

/-- `strip()` leaves a text with no blank in it as it is. -/
theorem pyStrip_of_forall {s : String} (h : ∀ c ∈ s.data, isPySpace c = false) : pyStrip s = s := by
  have hd : ∀ l : List Char, (∀ c ∈ l, isPySpace c = false) → l.dropWhile isPySpace = l := by
    rintro (_ | ⟨c, l⟩) hl
    · rfl
    · simp [List.dropWhile_cons, hl c (List.mem_cons_self _ _)]
  rw [pyStrip, hd _ h, hd _ fun c hc => h c (List.mem_reverse.1 hc), List.reverse_reverse]

/-- `str.lower()`. Only ASCII letters are lowered; every comparison the program makes after
`lower()` is with ASCII text, and no other character lowers to an ASCII letter that occurs in
them. -/
def pyLower (s : String) : String := ⟨s.data.map Char.toLower⟩

/-- `str.upper()`. Only ASCII letters are raised; the program compares the result with `ALL`
only, and no other character uppers to a text of `A`s and `L`s. -/
def pyUpper (s : String) : String := ⟨s.data.map Char.toUpper⟩

/-- `str.startswith`. -/
def startsWith (s pre : String) : Bool := pre.data.isPrefixOf s.data

/-- `str.endswith`. -/
def endsWith (s suf : String) : Bool := suf.data.isSuffixOf s.data

/-- The first code point of each run of ten decimal digits (Unicode category `Nd`), whose
digits are `0` to `9` in code point order, as `unicodedata` of Python 3.11 (Unicode 14.0.0)
lists them. -/
def decimalBlocks : List Nat :=
  [0x30, 0x660, 0x6f0, 0x7c0, 0x966, 0x9e6, 0xa66, 0xae6, 0xb66, 0xbe6, 0xc66, 0xce6, 0xd66,
    0xde6, 0xe50, 0xed0, 0xf20, 0x1040, 0x1090, 0x17e0, 0x1810, 0x1946, 0x19d0, 0x1a80, 0x1a90,
    0x1b50, 0x1bb0, 0x1c40, 0x1c50, 0xa620, 0xa8d0, 0xa900, 0xa9d0, 0xa9f0, 0xaa50, 0xabf0,
    0xff10, 0x104a0, 0x10d30, 0x11066, 0x110f0, 0x11136, 0x111d0, 0x112f0, 0x11450, 0x114d0,
    0x11650, 0x116c0, 0x11730, 0x118e0, 0x11950, 0x11c50, 0x11d50, 0x11da0, 0x16a60, 0x16ac0,
    0x16b50, 0x1d7ce, 0x1d7d8, 0x1d7e2, 0x1d7ec, 0x1d7f6, 0x1e140, 0x1e2f0, 0x1e950, 0x1fbf0]

/-- The ranges, bounds included, of the digits that are not decimal: superscripts, subscripts,
circled and parenthesized digits and the like, of Unicode numeric type `Digit`. -/
def digitRanges : List (Nat × Nat) :=
  [(0xb2, 0xb3), (0xb9, 0xb9), (0x1369, 0x1371), (0x19da, 0x19da), (0x2070, 0x2070),
    (0x2074, 0x2079), (0x2080, 0x2089), (0x2460, 0x2468), (0x2474, 0x247c), (0x2488, 0x2490),
    (0x24ea, 0x24ea), (0x24f5, 0x24fd), (0x24ff, 0x24ff), (0x2776, 0x277e), (0x2780, 0x2788),
    (0x278a, 0x2792), (0x10a40, 0x10a43), (0x10e60, 0x10e68), (0x11052, 0x1105a),
    (0x1f100, 0x1f10a)]

/-- `unicodedata.decimal(c)`: the value of a decimal digit of any script, the digit `int` reads
it as. -/
def pyDecimal (c : Char) : Option Nat :=
  (decimalBlocks.find? fun b => b ≤ c.toNat && c.toNat < b + 10).map (c.toNat - ·)

/-- Whether `c.isdigit()` holds: `c` is a decimal digit, or a digit that is not decimal. -/
def isPyDigit (c : Char) : Bool :=
  (pyDecimal c).isSome || digitRanges.any fun r => r.1 ≤ c.toNat && c.toNat ≤ r.2

/-- `int(s)` on a text of `isdigit` characters: the number its digits spell, or `none` where
`int` raises `ValueError`: on a digit that is not decimal, or on more than 4300 digits, the
limit `sys.get_int_max_str_digits()` has by default. -/
def pyIntDigits (cs : List Char) : Option Nat :=
  if cs.length ≤ 4300 then cs.foldlM (fun n c => (pyDecimal c).map (10 * n + ·)) 0 else none

/-- `int(cap) if cap.isdigit() else None`, as the program reads an optional capacity: `none`
when `int` raises `ValueError`. -/
def parseCapacity (cap : String) : Option (Option Nat) :=
  if cap.data ≠ [] ∧ cap.data.all isPyDigit then (pyIntDigits cap.data).map some else some none

example : parseCapacity "400" = some (some 400) := by decide
example : parseCapacity "٣" = some (some 3) := by decide
example : parseCapacity "²" = none ∧ parseCapacity "①" = none := by decide
example : parseCapacity "" = some none ∧ parseCapacity "4G" = some none := by decide

/-! ## Grouping -/

section Grouping

variable {α κ : Type*} [DecidableEq κ] (key : α → κ)

/-- `groups[key(x)].append(x)` on a `defaultdict(list)`, kept as its items in insertion order. -/
def groupInsert : List (κ × List α) → α → List (κ × List α)
  | [], x => [(key x, [x])]
  | g :: gs, x => if g.1 = key x then (g.1, g.2 ++ [x]) :: gs else g :: groupInsert gs x

/-- A `defaultdict(list)` filled by appending each element of `l` under its key: the keys in
order of first occurrence, each with its elements in order. -/
def groupByKey (l : List α) : List (κ × List α) := l.foldl (groupInsert key) []

/-- Grouping a list that ends in `x` is grouping the rest, then appending `x` to its group. -/
theorem groupByKey_append_singleton (l : List α) (x : α) :
    groupByKey key (l ++ [x]) = groupInsert key (groupByKey key l) x := by
  rw [groupByKey, List.foldl_append, List.foldl_cons, List.foldl_nil, groupByKey]

/-- The groups under the key `k` after an insert: `x` joins the first of them, or opens one. -/
theorem filter_groupInsert (gs : List (κ × List α)) (x : α) (k : κ) :
    ((groupInsert key gs x).filter (·.1 = k)).map Prod.snd =
      if k = key x then
        match (gs.filter (·.1 = k)).map Prod.snd with
        | [] => [[x]]
        | ys :: rest => (ys ++ [x]) :: rest
      else (gs.filter (·.1 = k)).map Prod.snd := by
  induction gs with
  | nil => by_cases h : k = key x <;> simp [groupInsert, h, eq_comm]
  | cons g gs ih =>
    simp only [groupInsert]
    by_cases hg : g.1 = key x
    · by_cases hk : k = key x
      · simp [hg, hk]
      · simp [List.filter_cons, hg, Ne.symm hk, hk]
    · rw [if_neg hg, List.filter_cons, List.filter_cons]
      by_cases hk : g.1 = k
      · subst hk
        simp [hg, Ne.symm hg, ih]
      · simp only [hk, decide_False, Bool.false_eq_true, if_false, ih]

/-- Each key of `l` has exactly one group, the elements of `l` under it in order; no other key
has one. -/
theorem filter_groupByKey (l : List α) (k : κ) :
    ((groupByKey key l).filter (·.1 = k)).map Prod.snd =
      if k ∈ l.map key then [l.filter (key · = k)] else [] := by
  induction l using List.reverseRecOn with
  | nil => rfl
  | append_singleton l x ih =>
    rw [groupByKey_append_singleton, filter_groupInsert, ih]
    by_cases hk : k = key x
    · subst hk
      by_cases hmem : key x ∈ l.map key <;> simp [hmem, List.filter_eq_nil_iff]
      simpa using hmem
    · have hx : ¬ key x = k := Ne.symm hk
      simp [hk, hx]

/-- A group of `groupByKey` is a key of the list with all the list's elements of that key, in
order. -/
theorem mem_groupByKey {l : List α} {g : κ × List α} :
    g ∈ groupByKey key l ↔ g.1 ∈ l.map key ∧ g.2 = l.filter (key · = g.1) := by
  have h := filter_groupByKey key l g.1
  constructor
  · intro hg
    have hmem : g.2 ∈ ((groupByKey key l).filter (·.1 = g.1)).map Prod.snd :=
      List.mem_map_of_mem _ (List.mem_filter.2 ⟨hg, by simp⟩)
    rw [h] at hmem
    split at hmem
    · exact ⟨‹_›, List.mem_singleton.1 hmem⟩
    · cases hmem
  · rintro ⟨hk, hl⟩
    rw [if_pos hk] at h
    obtain ⟨g', hg', hg'2⟩ := List.mem_map.1 (h ▸ List.mem_singleton_self _)
    obtain ⟨hg', hg'1⟩ := List.mem_filter.1 hg'
    rwa [← Prod.ext (of_decide_eq_true hg'1) (hg'2.trans hl.symm)]

/-- The members of a group are the elements of the list with the group's key. -/
theorem mem_snd_of_mem_groupByKey {l : List α} {g : κ × List α} (hg : g ∈ groupByKey key l)
    {x : α} : x ∈ g.2 ↔ x ∈ l ∧ key x = g.1 := by
  rw [((mem_groupByKey key).1 hg).2, List.mem_filter, decide_eq_true_eq]

/-- No group is empty. -/
theorem exists_mem_snd_of_mem_groupByKey {l : List α} {g : κ × List α}
    (hg : g ∈ groupByKey key l) : ∃ x, x ∈ g.2 := by
  obtain ⟨x, hx, hk⟩ := List.mem_map.1 ((mem_groupByKey key).1 hg).1
  exact ⟨x, (mem_snd_of_mem_groupByKey key hg).2 ⟨hx, hk⟩⟩

/-- The keys of the groups are the keys of the list's elements. -/
theorem mem_keys_groupByKey {l : List α} {k : κ} :
    k ∈ (groupByKey key l).map Prod.fst ↔ k ∈ l.map key := by
  refine ⟨fun hk => ?_, fun hk => List.mem_map.2 ⟨(k, l.filter (key · = k)),
    (mem_groupByKey key).2 ⟨hk, rfl⟩, rfl⟩⟩
  obtain ⟨g, hg, rfl⟩ := List.mem_map.1 hk
  exact ((mem_groupByKey key).1 hg).1

/-- No two groups share a key. -/
theorem nodup_keys_groupByKey (l : List α) : ((groupByKey key l).map Prod.fst).Nodup := by
  refine List.nodup_iff_count_le_one.2 fun k => ?_
  have h := congrArg List.length (filter_groupByKey key l k)
  rw [List.length_map] at h
  rw [List.count_eq_countP, List.countP_map, List.countP_eq_length_filter]
  show (List.filter (fun g : κ × List α => decide (g.1 = k)) _).length ≤ 1
  rw [h]
  split <;> simp

/-- Appending an element to its group adds it once to the grouped elements. -/
theorem flatten_groupInsert_perm (gs : List (κ × List α)) (x : α) :
    ((groupInsert key gs x).map Prod.snd).flatten.Perm ((gs.map Prod.snd).flatten ++ [x]) := by
  induction gs with
  | nil => simp [groupInsert]
  | cons g gs ih =>
    simp only [groupInsert]
    split
    · simp only [List.map_cons, List.flatten_cons, List.append_assoc]
      exact List.Perm.append_left _ List.perm_append_comm
    · simp only [List.map_cons, List.flatten_cons, List.append_assoc]
      exact List.Perm.append_left _ ih

/-- The groups hold the elements of `l`, each once. -/
theorem flatten_groupByKey_perm (l : List α) :
    ((groupByKey key l).map Prod.snd).flatten.Perm l := by
  induction l using List.reverseRecOn with
  | nil => rfl
  | append_singleton l x ih =>
    rw [groupByKey_append_singleton]
    exact (flatten_groupInsert_perm key _ x).trans (ih.append_right [x])

end Grouping

end LtoArchive
