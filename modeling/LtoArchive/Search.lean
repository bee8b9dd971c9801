import LtoArchive.Index
import LtoArchive.Like
import Mathlib.Data.List.Sort
import Mathlib.Algebra.BigOperators.Group.List

/-!
# Searching the index

`LTORetriever` finds the records to restore through four queries of `DatabaseManager`:

* `search_files`: by file name, a glob turned into a `LIKE` pattern, and by a range of backup
  dates, each bound compared with `backup_date`;
* `search_by_directory`: by a prefix of `original_path`, also through `LIKE`;
* `list_backup_sessions`: the groups of `GROUP BY DATE(backup_date), tape_label`, with their
  counts and byte totals;
* `search_by_session`: the records of one such group.

Texts are compared under SQLite's `BINARY` collation (`textLe`). `backup_date` is declared
`DATETIME`, so it has `NUMERIC` affinity: a text that spells a number is kept as that number,
and a bound compared with the column is read the same way (`numericAffinity`). Every number
sorts below every text. The dates in `backup_date` are what `datetime.now().isoformat()` wrote
(`IsIsoTimestamp`), texts that spell no number, and `DATE` reads their first ten characters
(`sqlDate`). `ORDER BY` is an insertion sort on the query's key; SQLite leaves the order of ties
open, and the model keeps them in table order. `LIKE` raises `OperationalError` on a pattern of
more than 50000 bytes, when there is a row to test it on.

## Main definitions

* `textLe`: `<=` between texts; `sqlNumber`, `numericAffinity`, `sqlLe`: how `NUMERIC`
  affinity reads and compares values; `sqlDate`: `DATE(t)`;
* `searchFiles`, `searchByDirectory`, `listBackupSessions`, `searchBySession`.

## Main results

* `mem_searchFiles_name`: a name query without `%` or `_` and short enough for `LIKE` finds the
  names that match it as a glob, or, when it has no `*` or `?`, those that contain it, up to
  ASCII case;
* `mem_searchFiles_dates`: on dates `isoformat` wrote and bounds of ten characters, a record is
  found exactly when its day is below the upper bound and at least the lower one, or the lower
  one spells a number;
* `listBackupSessions_key_unique`: each record's group is listed once;
* `searchBySession_of_mem`: on dates `isoformat` wrote, each listed session's search returns its
  count and byte total.
-/

namespace LtoArchive

/-! ## Texts as SQLite compares them -/

/-- `a <= b` between two texts under the `BINARY` collation: `memcmp` of their UTF-8 encodings,
which orders texts as the sequences of their code points. -/
def textLe : List Char → List Char → Bool
  | [], _ => true
  | _ :: _, [] => false
  | a :: as, b :: bs => if a = b then textLe as bs else decide (a.toNat < b.toNat)

/-- A text is at most itself. -/
@[simp]
theorem textLe_refl : ∀ a : List Char, textLe a a = true
  | [] => rfl
  | c :: a => by simp [textLe, textLe_refl a]

/-- Texts that begin with parts of one length compare as those parts, or, when the parts are
equal, as the rests. -/
theorem textLe_append : ∀ {a b : List Char} (x y : List Char), a.length = b.length →
    textLe (a ++ x) (b ++ y) = if a = b then textLe x y else textLe a b
  | [], [], _, _, _ => by simp
  | c :: a, d :: b, x, y, h => by
    simp only [List.cons_append, textLe, List.cons.injEq]
    by_cases hcd : c = d
    · simp [hcd, textLe_append x y (by simpa using h)]
    · simp [hcd]
  | [], _ :: _, _, _, h | _ :: _, [], _, _, h => by simp at h

/-! ## `NUMERIC` affinity -/

/-- A blank `sqlite3AtoF` skips around a number: space, tab, line feed, vertical tab, form feed
or carriage return. -/
def isSqlSpace (c : Char) : Bool :=
  c = ' ' || c = '\t' || c = '\n' || c = '\x0b' || c = '\x0c' || c = '\r'

/-- The characters a number literal can hold. -/
def isSqlNumberChar (c : Char) : Bool :=
  isSqlSpace c || c.isDigit || c = '+' || c = '-' || c = '.' || c = 'e' || c = 'E'

/-- The part of a number literal `sqlite3AtoF` is reading. -/
inductive NumPart
  /-- Blanks before the number. -/
  | lead
  /-- Just after the sign. -/
  | sign
  /-- The digits before the point. -/
  | int
  /-- After the point. -/
  | frac
  /-- Just after `e` or `E`. -/
  | expMark
  /-- Just after the exponent's sign. -/
  | expSign
  /-- The exponent's digits. -/
  | exp
  /-- Blanks after the number. -/
  | trail
deriving DecidableEq, Repr, Inhabited

/-- What `sqlite3AtoF` has read of a number: the part it is in, the sign, the significand's
digits as a number, how many digits it has, how many follow the point, and the exponent. -/
structure NumScan where
  part : NumPart
  neg : Bool
  significand : Nat
  nDigit : Nat
  fracDigits : Nat
  expNeg : Bool
  exp : Nat
deriving DecidableEq, Repr, Inhabited

namespace NumScan

/-- Before the first character. -/
def init : NumScan := ⟨.lead, false, 0, 0, 0, false, 0⟩

/-- One more digit of the significand. -/
def addDigit (s : NumScan) (part : NumPart) (c : Char) : NumScan :=
  { s with part, significand := 10 * s.significand + (c.toNat - 48), nDigit := s.nDigit + 1 }

/-- The value of the literal read. -/
def value (s : NumScan) : ℚ :=
  (if s.neg then -1 else 1) * s.significand *
    10 ^ ((if s.expNeg then -(s.exp : ℤ) else s.exp) - s.fracDigits)

end NumScan

/-- `sqlite3AtoF` reading one more character: `none` once the text can no longer be a number.
Blanks may stand before and after the number; the sign, the digits, the point and the exponent
come in that order, the exponent with at least one digit. -/
def numStep (s : NumScan) (c : Char) : Option NumScan :=
  match s.part with
  | .lead =>
    if isSqlSpace c then some s
    else if c = '-' then some { s with part := .sign, neg := true }
    else if c = '+' then some { s with part := .sign }
    else if c.isDigit then some (s.addDigit .int c)
    else if c = '.' then some { s with part := .frac }
    else none
  | .sign => if c.isDigit then some (s.addDigit .int c)
    else if c = '.' then some { s with part := .frac } else none
  | .int => if c.isDigit then some (s.addDigit .int c)
    else if c = '.' then some { s with part := .frac }
    else if c = 'e' ∨ c = 'E' then some { s with part := .expMark }
    else if isSqlSpace c then some { s with part := .trail } else none
  | .frac => if c.isDigit then some { s.addDigit .frac c with fracDigits := s.fracDigits + 1 }
    else if c = 'e' ∨ c = 'E' then some { s with part := .expMark }
    else if isSqlSpace c then some { s with part := .trail } else none
  | .expMark =>
    if c = '-' then some { s with part := .expSign, expNeg := true }
    else if c = '+' then some { s with part := .expSign }
    else if c.isDigit then some { s with part := .exp, exp := c.toNat - 48 } else none
  | .expSign => if c.isDigit then some { s with part := .exp, exp := c.toNat - 48 } else none
  | .exp => if c.isDigit then some { s with exp := 10 * s.exp + (c.toNat - 48) }
    else if isSqlSpace c then some { s with part := .trail } else none
  | .trail => if isSqlSpace c then some s else none

/-- `sqlite3AtoF` on a whole text: the value of the number literal it spells, with at least one
digit, or `none`. The model keeps the literal's exact value; SQLite keeps an `INTEGER`, or a
`REAL` rounded to binary64, so two numbers that differ only past binary64 precision compare
equal there. Every `backup_date` the program writes spells no number. -/
def sqlNumber (cs : List Char) : Option ℚ :=
  (cs.foldlM numStep NumScan.init).bind fun s =>
    if (s.part = .int ∨ s.part = .frac ∨ s.part = .exp ∨ s.part = .trail) ∧ 0 < s.nDigit then
      some s.value
    else none

/-- A character no number literal holds stops the scan. -/
theorem numStep_eq_none {c : Char} (hc : isSqlNumberChar c = false) (s : NumScan) :
    numStep s c = none := by
  simp only [isSqlNumberChar, Bool.or_eq_false_iff, decide_eq_false_iff_not] at hc
  obtain ⟨⟨⟨⟨⟨⟨hs, hd⟩, hp⟩, hm⟩, hdot⟩, he⟩, hE⟩ := hc
  unfold numStep
  split <;> simp [hs, hd, hp, hm, hdot, he, hE]

/-- A scan over a text that holds a character no number literal holds ends with `none`, from
any state. -/
theorem foldlM_numStep_eq_none {c : Char} (hc : isSqlNumberChar c = false) :
    ∀ {cs : List Char}, c ∈ cs → ∀ s, cs.foldlM numStep s = none
  | d :: cs, hmem, s => by
    rw [List.foldlM_cons]
    rcases List.mem_cons.1 hmem with rfl | hmem
    · rw [numStep_eq_none hc]; rfl
    · cases numStep s d with
      | none => rfl
      | some s' => exact foldlM_numStep_eq_none hc hmem s'

/-- A text holding a character no number literal holds spells no number. -/
theorem sqlNumber_eq_none_of_mem {c : Char} {cs : List Char} (hmem : c ∈ cs)
    (hc : isSqlNumberChar c = false) : sqlNumber cs = none := by
  rw [sqlNumber, foldlM_numStep_eq_none hc hmem]; rfl

/-- A value SQLite compares: a number, or a text. -/
inductive SqlValue
  | num (q : ℚ)
  | text (s : List Char)
deriving DecidableEq, Repr

/-- `NUMERIC` affinity: a text that spells a number becomes that number. -/
def numericAffinity (cs : List Char) : SqlValue :=
  match sqlNumber cs with
  | some q => .num q
  | none => .text cs

/-- `a <= b` between two values: numbers by value, texts under `BINARY`, every number below every
text. -/
def sqlLe : SqlValue → SqlValue → Bool
  | .num a, .num b => decide (a ≤ b)
  | .num _, .text _ => true
  | .text _, .num _ => false
  | .text a, .text b => textLe a b

/-- Texts compare under `BINARY`. -/
@[simp]
theorem sqlLe_text (a b : List Char) : sqlLe (.text a) (.text b) = textLe a b := rfl

/-- A text that spells no number stays a text. -/
theorem numericAffinity_of_none {cs : List Char} (h : sqlNumber cs = none) :
    numericAffinity cs = .text cs := by
  rw [numericAffinity, h]

example : (sqlNumber "2024".data).isSome ∧ (sqlNumber " -1.5e1 ".data).isSome ∧
    sqlNumber "1e".data = none ∧ sqlNumber "2024-05-01".data = none := by
  decide

/-! ## The dates `insert_file` writes -/

/-- The number the ASCII digits `cs` spell, or `none` when one of them is no digit. -/
def digitsValue (cs : List Char) : Option Nat :=
  if cs.all Char.isDigit then some (decimalValue cs) else none

/-- The days of a month of the Gregorian calendar. -/
def daysInMonth (year month : Nat) : Nat :=
  if month = 2 then if year % 4 = 0 ∧ (year % 100 ≠ 0 ∨ year % 400 = 0) then 29 else 28
  else if month = 4 ∨ month = 6 ∨ month = 9 ∨ month = 11 then 30 else 31

/-- Whether `s` is a text `datetime.isoformat()` writes for a `datetime` without time zone:
`YYYY-MM-DDTHH:MM:SS` of a valid date and time, followed by `.ffffff` when the microseconds are
not zero. -/
def IsIsoTimestamp (s : String) : Bool :=
  let cs := s.data
  let field (i n : Nat) := digitsValue ((cs.drop i).take n)
  (cs.length = 19 || cs.length = 26 && cs.get? 19 = some '.' && (field 20 6).any (0 < ·)) &&
    cs.get? 4 = some '-' && cs.get? 7 = some '-' && cs.get? 10 = some 'T' &&
    cs.get? 13 = some ':' && cs.get? 16 = some ':' &&
    match field 0 4, field 5 2, field 8 2, field 11 2, field 14 2, field 17 2 with
    | some y, some mo, some d, some h, some mi, some se =>
      1 ≤ y && 1 ≤ mo && mo ≤ 12 && 1 ≤ d && d ≤ daysInMonth y mo && h < 24 && mi < 60 && se < 60
    | _, _, _, _, _, _ => false

/-- SQLite's `DATE(t)` on a text `isoformat` wrote: its first ten characters, the day. `DATE`
reads other formats too; no insert of the program writes one, and the model gives them `NULL`. -/
def sqlDate (t : String) : Option String :=
  if IsIsoTimestamp t then some ⟨t.data.take 10⟩ else none

/-- A date `isoformat` wrote is its day, ten characters, then `T` and the time. -/
theorem IsIsoTimestamp.data_eq {s : String} (h : IsIsoTimestamp s = true) :
    ∃ day rest, s.data = day ++ 'T' :: rest ∧ day.length = 10 := by
  simp only [IsIsoTimestamp, Bool.and_eq_true, decide_eq_true_eq, Bool.or_eq_true] at h
  obtain ⟨⟨⟨⟨⟨⟨hlen, -⟩, -⟩, hT⟩, -⟩, -⟩, -⟩ := h
  have h10 : 10 < s.data.length := by rcases hlen with h | ⟨⟨h, -⟩, -⟩ <;> omega
  have hT : s.data[10] = 'T' := by
    rwa [List.get?_eq_getElem?, List.getElem?_eq_getElem h10, Option.some_inj] at hT
  refine ⟨s.data.take 10, s.data.drop 11, ?_, List.length_take_of_le (by omega)⟩
  conv_lhs => rw [← List.take_append_drop 10 s.data, List.drop_eq_getElem_cons h10, hT]

/-- `DATE` of an `isoformat` text is its first ten characters. -/
theorem sqlDate_of_iso {s : String} (h : IsIsoTimestamp s = true) :
    sqlDate s = some ⟨s.data.take 10⟩ := if_pos h

/-- A date `isoformat` wrote spells no number: its `T` is in no number literal. -/
theorem numericAffinity_of_iso {s : String} (h : IsIsoTimestamp s = true) :
    numericAffinity s.data = .text s.data := by
  obtain ⟨day, rest, hdata, -⟩ := IsIsoTimestamp.data_eq h
  exact numericAffinity_of_none (sqlNumber_eq_none_of_mem (c := 'T') (by simp [hdata]) rfl)

/-! ## The queries -/

/-- The text of a path the program stores in `original_path`: its parts joined by `\`. That is
the text `os.path.join` builds when the configured directories are written with backslashes and
no trailing separator, as the default `config.ini` has them; a configured `C:/src` stays as it is
in the stored text, which this model does not follow. -/
def pathText (p : Path) : String := "\\".intercalate p

/-- `str.rstrip(chars)`. -/
def pyRstrip (s : String) (chars : List Char) : String :=
  ⟨(s.data.reverse.dropWhile (chars.contains ·)).reverse⟩

namespace DatabaseManager

/-- The pattern `search_files` matches `file_name` against: the query with `*` and `?` replaced
by `%` and `_`, wrapped in `%` when it then holds neither. -/
def namePattern (nameQuery : String) : List Char :=
  let pattern := nameQuery.data.map likeChar
  if '%' ∉ pattern ∧ '_' ∉ pattern then '%' :: (pattern ++ ['%']) else pattern

/-- `backup_date` as its `DATETIME` column keeps it. -/
def backupValue (r : FileRecord) : SqlValue := numericAffinity r.backupDate.data

/-- The `WHERE` clause of `search_files`: a condition is left out when its argument is `None` or
empty, the upper date bound is widened by `" 23:59:59"`, and each bound is read with the
column's affinity. -/
def matchesQuery (nameQuery dateFrom dateTo : Option String) (r : FileRecord) : Bool :=
  (nameQuery.all fun q => q = "" || sqlLike (namePattern q) r.fileName.data) &&
    (dateFrom.all fun d => d = "" || sqlLe (numericAffinity d.data) (backupValue r)) &&
    (dateTo.all fun d => d = "" || sqlLe (backupValue r) (numericAffinity (d ++ " 23:59:59").data))

/-- The bytes of a text in UTF-8, as SQLite measures a `LIKE` pattern. -/
def utf8Length (cs : List Char) : Nat := (cs.map Char.utf8Size).sum

/-- `LIKE` raises `LIKE or GLOB pattern too complex` on a pattern of more than
`SQLITE_MAX_LIKE_PATTERN_LENGTH`, 50000, bytes. -/
def likeTooComplex (pattern : List Char) : Bool := 50000 < utf8Length pattern

/-- `search_files(name_query, date_from, date_to)`, `ORDER BY backup_date DESC`; `none` where
the `LIKE`, tested on the first row, raises `OperationalError`. -/
def searchFiles (db : DatabaseManager) (nameQuery dateFrom dateTo : Option String) :
    Option (List FileRecord) :=
  if db.filesIndex ≠ [] ∧ nameQuery.any (fun q => q ≠ "" && likeTooComplex (namePattern q)) then
    none
  else some ((db.filesIndex.filter (matchesQuery nameQuery dateFrom dateTo)).insertionSort
    fun a b => sqlLe (backupValue b) (backupValue a))

/-- The pattern `search_by_directory` matches `original_path` against: the query stripped of
trailing `/` and `\`, then `%`. -/
def directoryPattern (dirPath : String) : List Char :=
  (pyRstrip dirPath ['/', '\\']).data ++ ['%']

/-- `search_by_directory(dir_path)`, `ORDER BY original_path`; `none` where the `LIKE`
raises. -/
def searchByDirectory (db : DatabaseManager) (dirPath : String) : Option (List FileRecord) :=
  if db.filesIndex ≠ [] ∧ likeTooComplex (directoryPattern dirPath) then none
  else some ((db.filesIndex.filter fun r =>
      sqlLike (directoryPattern dirPath) (pathText r.originalPath).data).insertionSort
    fun a b => textLe (pathText a.originalPath).data (pathText b.originalPath).data)

/-- A row of `list_backup_sessions`. -/
structure SessionRow where
  sessionDate : Option String
  tapeLabel : String
  fileCount : Nat
  totalBytes : Nat
deriving DecidableEq, Repr, Inhabited

/-- The group `GROUP BY DATE(backup_date), tape_label` puts a record in. -/
def sessionKey (r : FileRecord) : Option String × String := (sqlDate r.backupDate, r.tapeLabel)

/-- The row `list_backup_sessions` selects for a group: `COUNT(*)` and `SUM(file_size_bytes)`. -/
def sessionRow (g : (Option String × String) × List FileRecord) : SessionRow :=
  ⟨g.1.1, g.1.2, g.2.length, (g.2.map (·.fileSizeBytes)).sum⟩

/-- `ORDER BY session_date DESC`: SQLite orders `NULL` below every text, so it comes last. -/
def laterSession (a b : SessionRow) : Bool :=
  match a.sessionDate, b.sessionDate with
  | _, none => true
  | none, some _ => false
  | some x, some y => textLe y.data x.data

/-- `list_backup_sessions()`. -/
def listBackupSessions (db : DatabaseManager) : List SessionRow :=
  ((groupByKey sessionKey db.filesIndex).map sessionRow).insertionSort fun a b => laterSession a b

/-- The `WHERE` clause of `search_by_session`: `DATE(backup_date) = NULL` holds of no record. -/
def inSession (sessionDate : Option String) (tapeLabel : String) (r : FileRecord) : Bool :=
  sessionDate.isSome && sqlDate r.backupDate = sessionDate && r.tapeLabel = tapeLabel

/-- `search_by_session(session_date, tape_label)`, `ORDER BY original_path`. -/
def searchBySession (db : DatabaseManager) (sessionDate : Option String) (tapeLabel : String) :
    List FileRecord :=
  (db.filesIndex.filter (inSession sessionDate tapeLabel)).insertionSort
    fun a b => textLe (pathText a.originalPath).data (pathText b.originalPath).data

/-! ## What the queries find -/

variable {db : DatabaseManager} {r : FileRecord}

/-- A search that returns lists the records its `WHERE` clause holds of. -/
theorem mem_of_searchFiles_eq_some {nameQuery dateFrom dateTo : Option String}
    {rs : List FileRecord} (h : db.searchFiles nameQuery dateFrom dateTo = some rs) :
    r ∈ rs ↔ r ∈ db.filesIndex ∧ matchesQuery nameQuery dateFrom dateTo r = true := by
  unfold searchFiles at h
  split at h
  · cases h
  · cases h
    rw [List.mem_insertionSort, List.mem_filter]

/-- A search whose name pattern fits `LIKE` returns. -/
theorem searchFiles_eq_some {nameQuery dateFrom dateTo : Option String}
    (hfits : ∀ q ∈ nameQuery, likeTooComplex (namePattern q) = false) :
    ∃ rs, db.searchFiles nameQuery dateFrom dateTo = some rs := by
  refine ⟨_, if_neg fun h => ?_⟩
  rcases nameQuery with _ | q
  · simp at h
  · simp [hfits q rfl] at h

/-- The replacement keeps every character but `*` and `?`. -/
theorem likeChar_eq_self {c : Char} (h1 : c ≠ '*') (h2 : c ≠ '?') : likeChar c = c := by
  simp [likeChar, h1, h2]

/-- After the replacement, a wildcard stands where its glob character stood, for a query that
held none. -/
theorem mem_map_likeChar {q : List Char} {c d : Char} (hcd : likeChar d = c)
    (hd : ∀ e, likeChar e = c → e = d ∨ e = c) (hc : c ∉ q) : c ∈ q.map likeChar ↔ d ∈ q := by
  simp only [List.mem_map]
  refine ⟨fun ⟨e, he, hec⟩ => ?_, fun h => ⟨d, h, hcd⟩⟩
  rcases hd e hec with rfl | rfl
  · exact he
  · exact absurd he hc

/-- The replacement keeps the UTF-8 length. -/
theorem utf8Size_likeChar (c : Char) : (likeChar c).utf8Size = c.utf8Size := by
  unfold likeChar
  split_ifs with h1 h2
  · rw [h1]; rfl
  · rw [h2]; rfl
  · rfl

/-- Turning a name query into a pattern adds at most the two `%` around it. -/
theorem utf8Length_namePattern (q : String) :
    utf8Length (namePattern q) ≤ utf8Length q.data + 2 := by
  have hmap : utf8Length (q.data.map likeChar) = utf8Length q.data := by
    simp only [utf8Length, List.map_map, Function.comp_def, utf8Size_likeChar]
  have hpct : ('%' : Char).utf8Size = 1 := rfl
  unfold namePattern
  dsimp only
  split_ifs
  · simp only [utf8Length, List.map_cons, List.map_append, List.map_nil, List.sum_cons,
      List.sum_append, List.sum_nil] at hmap ⊢
    omega
  · omega

/-- A name query of at most 49998 bytes with no `%` or `_` returns, and finds the names that
match it as a glob, when it has a `*` or a `?`, and otherwise the names that contain it, up to
ASCII case. -/
theorem mem_searchFiles_name {q : String} (hq : q ≠ "") (hp : '%' ∉ q.data) (hu : '_' ∉ q.data)
    (hlen : utf8Length q.data + 2 ≤ 50000) :
    ∃ rs, db.searchFiles (some q) none none = some rs ∧ ∀ r, r ∈ rs ↔ r ∈ db.filesIndex ∧
      if '*' ∈ q.data ∨ '?' ∈ q.data then globMatch q.data r.fileName.data = true
      else ∃ a b c, r.fileName.data = a ++ b ++ c ∧ foldCase b = foldCase q.data := by
  have hfits : ∀ q' ∈ some q, likeTooComplex (namePattern q') = false := by
    intro q' hq'
    rw [Option.mem_def, Option.some_inj] at hq'
    subst hq'
    have := utf8Length_namePattern q
    simp only [likeTooComplex, decide_eq_false_iff_not, not_lt]
    omega
  obtain ⟨rs, hrs⟩ := @searchFiles_eq_some db (some q) none none hfits
  refine ⟨rs, hrs, fun r => ?_⟩
  have hstar : '%' ∈ q.data.map likeChar ↔ '*' ∈ q.data :=
    mem_map_likeChar rfl (fun e he => by unfold likeChar at he; split_ifs at he <;> simp_all) hp
  have hqm : '_' ∈ q.data.map likeChar ↔ '?' ∈ q.data :=
    mem_map_likeChar rfl (fun e he => by unfold likeChar at he; split_ifs at he <;> simp_all) hu
  rw [mem_of_searchFiles_eq_some hrs]
  simp only [matchesQuery, Option.all_some, Option.all_none, Bool.and_true, hq, decide_False,
    Bool.false_or, namePattern, hstar, hqm]
  split_ifs with hw hw' hw''
  · exact (hw'.elim hw.1 hw.2).elim
  · have hid : q.data.map likeChar = q.data :=
      (List.map_congr_left fun c hc => likeChar_eq_self (fun h => hw.1 (h ▸ hc))
        fun h => hw.2 (h ▸ hc)).trans (List.map_id _)
    rw [hid, sqlLike_percent_append_percent hp hu]
  · rw [sqlLike_translate hp hu]
  · exact absurd ⟨fun h => hw'' (.inl h), fun h => hw'' (.inr h)⟩ hw

/-- `CLIP`, with no wildcard, finds `my_clip.mov`: the name contains it up to case. -/
theorem mem_searchFiles_name_contains :
    let db := empty.insertFile ⟨"my_clip.mov", ["D:", "my_clip.mov"], 1, "", "T1", false, none,
      ["D:", "my_clip.mov"]⟩ "2024-05-01T10:00:00"
    "CLIP" ≠ "" ∧ '%' ∉ "CLIP".data ∧ '_' ∉ "CLIP".data ∧ utf8Length "CLIP".data + 2 ≤ 50000 ∧
      ∃ rs, db.searchFiles (some "CLIP") none none = some rs ∧
        (⟨⟨"my_clip.mov", ["D:", "my_clip.mov"], 1, "", "T1", false, none, ["D:", "my_clip.mov"]⟩,
          1, "2024-05-01T10:00:00"⟩ : FileRecord) ∈ rs := by
  intro db
  have hq : "CLIP" ≠ "" := by decide
  have hp : '%' ∉ "CLIP".data := by decide
  have hu : '_' ∉ "CLIP".data := by decide
  have hlen : utf8Length "CLIP".data + 2 ≤ 50000 := by decide
  obtain ⟨rs, hrs, hmem⟩ := @mem_searchFiles_name db _ hq hp hu hlen
  refine ⟨hq, hp, hu, hlen, rs, hrs, (hmem _).2 ⟨by decide, ?_⟩⟩
  rw [if_neg (by decide)]
  exact ⟨"my_".data, "clip".data, ".mov".data, by decide, by decide⟩

/-- On dates `isoformat` wrote and bounds of ten characters, the search returns, and a record is
found exactly when its day is at least the lower bound, or the lower bound spells a number, which
`NUMERIC` affinity sorts below every date, and its day is below the upper bound: the `T` after
the day sorts above the blank of `" 23:59:59"`, so the records of the end day are left out. -/
theorem mem_searchFiles_dates (hiso : ∀ r ∈ db.filesIndex, IsIsoTimestamp r.backupDate = true)
    {dateFrom dateTo : String} (hf : dateFrom.length = 10) (ht : dateTo.length = 10) :
    ∃ rs, db.searchFiles none (some dateFrom) (some dateTo) = some rs ∧ ∀ r, r ∈ rs ↔
      r ∈ db.filesIndex ∧
        ((sqlNumber dateFrom.data).isSome = true ∨
          textLe dateFrom.data (r.backupDate.data.take 10) = true) ∧
        textLe (r.backupDate.data.take 10) dateTo.data = true ∧
        r.backupDate.data.take 10 ≠ dateTo.data := by
  obtain ⟨rs, hrs⟩ := @searchFiles_eq_some db none (some dateFrom) (some dateTo) nofun
  refine ⟨rs, hrs, fun r => ?_⟩
  rw [mem_of_searchFiles_eq_some hrs]
  refine and_congr_right fun hr => ?_
  obtain ⟨day, rest, hdata, hday⟩ := IsIsoTimestamp.data_eq (hiso r hr)
  have hf' : dateFrom ≠ "" := fun h => by simp [h] at hf
  have ht' : dateTo ≠ "" := fun h => by simp [h] at ht
  have hval : backupValue r = .text (day ++ 'T' :: rest) := by
    rw [backupValue, numericAffinity_of_iso (hiso r hr), hdata]
  have hupper : numericAffinity (dateTo ++ " 23:59:59").data = .text (dateTo ++ " 23:59:59").data :=
    numericAffinity_of_none (sqlNumber_eq_none_of_mem (c := ':') (by simp) rfl)
  have hlow : sqlLe (numericAffinity dateFrom.data) (.text (day ++ 'T' :: rest)) =
      ((sqlNumber dateFrom.data).isSome || textLe dateFrom.data day) := by
    unfold numericAffinity
    cases sqlNumber dateFrom.data with
    | some q => rfl
    | none =>
      rw [sqlLe, ← List.append_nil dateFrom.data, textLe_append _ _ (by rw [hday]; exact hf)]
      split_ifs with h <;> simp [h, textLe]
  have hhigh : textLe (day ++ 'T' :: rest) (dateTo ++ " 23:59:59").data =
      (textLe day dateTo.data && day != dateTo.data) := by
    rw [String.data_append, textLe_append _ _ (by rw [hday]; exact ht.symm)]
    split_ifs with h <;> simp [h, textLe]
  simp only [matchesQuery, Option.all_some, Option.all_none, hval, hupper, hlow, sqlLe_text, hhigh]
  simp [hf', ht', hdata, List.take_left' hday]

/-- A record of `2024-05-02` is found between `2024-05-01` and `2024-05-03`. -/
theorem mem_searchFiles_dates_inside :
    let db := empty.insertFile ⟨"a.txt", ["D:", "a.txt"], 1, "", "T1", false, none, ["D:", "a.txt"]⟩
      "2024-05-02T10:00:00"
    (∀ r ∈ db.filesIndex, IsIsoTimestamp r.backupDate = true) ∧ "2024-05-01".length = 10 ∧
      "2024-05-03".length = 10 ∧ ∃ rs, db.searchFiles none (some "2024-05-01") (some "2024-05-03") =
        some rs ∧ (⟨⟨"a.txt", ["D:", "a.txt"], 1, "", "T1", false, none, ["D:", "a.txt"]⟩, 1,
          "2024-05-02T10:00:00"⟩ : FileRecord) ∈ rs := by
  intro db
  have hiso : ∀ r ∈ db.filesIndex, IsIsoTimestamp r.backupDate = true := by decide
  have hf : "2024-05-01".length = 10 := by decide
  have ht : "2024-05-03".length = 10 := by decide
  obtain ⟨rs, hrs, hmem⟩ := mem_searchFiles_dates hiso hf ht
  exact ⟨hiso, hf, ht, rs, hrs, (hmem _).2 (by decide)⟩

/-- A record made on the end day of a range is not found: its `T` sorts above the blank of
`" 23:59:59"`. -/
theorem searchFiles_misses_end_day :
    sqlDate "2024-05-01T10:00:00" = some "2024-05-01" ∧
      (empty.insertFile ⟨"a.txt", ["D:", "a.txt"], 1, "", "T1", false, none, ["D:", "a.txt"]⟩
        "2024-05-01T10:00:00").searchFiles none (some "2024-05-01") (some "2024-05-01") =
          some [] := by
  decide

/-- An `_` in a name query is a wildcard and keeps the query from being wrapped in `%`:
`IMG_001` does not find `IMG_001.jpg`, and `IMG_*` finds `IMGX001.jpg`, which it does not match
as a glob. -/
theorem searchFiles_underscore_is_wildcard :
    (empty.insertFile ⟨"IMG_001.jpg", ["D:", "IMG_001.jpg"], 1, "", "T1", false, none,
        ["D:", "IMG_001.jpg"]⟩ "2024-05-01T10:00:00").searchFiles (some "IMG_001") none none =
          some [] ∧
      ((empty.insertFile ⟨"IMGX001.jpg", ["D:", "IMGX001.jpg"], 1, "", "T1", false, none,
        ["D:", "IMGX001.jpg"]⟩ "2024-05-01T10:00:00").searchFiles (some "IMG_*") none none).map
          List.length = some 1 ∧
      globMatch "IMG_*".data "IMGX001.jpg".data = false := by
  decide

/-- An `_` in a directory query is a wildcard: `D:\Project_Raw\` finds the records under
`D:\ProjectXRaw`. -/
theorem searchByDirectory_underscore_is_wildcard :
    ((empty.insertFile ⟨"a.txt", ["D:", "ProjectXRaw", "a.txt"], 1, "", "T1", false, none,
        ["D:", "a.txt"]⟩ "2024-05-01T10:00:00").searchByDirectory "D:\\Project_Raw\\").map
          List.length = some 1 ∧
      startsWith (pyLower (pathText ["D:", "ProjectXRaw", "a.txt"])) (pyLower "D:\\Project_Raw") =
        false := by
  decide

/-! ## Sessions -/

/-- On a record dated by `isoformat`, the condition of `search_by_session` is that the session
is the record's group. -/
theorem inSession_iff (h : IsIsoTimestamp r.backupDate = true) (k : Option String × String) :
    inSession k.1 k.2 r = decide (k = sessionKey r) := by
  obtain ⟨d, l⟩ := k
  cases d <;> simp [inSession, sessionKey, sqlDate_of_iso h, eq_comm]

/-- Each record's group is listed exactly once. -/
theorem listBackupSessions_key_unique (hr : r ∈ db.filesIndex) :
    (db.listBackupSessions.filter fun s => (s.sessionDate, s.tapeLabel) = sessionKey r).length = 1 := by
  have hone := congrArg List.length (filter_groupByKey sessionKey db.filesIndex (sessionKey r))
  rw [if_pos (List.mem_map_of_mem _ hr), List.length_map, List.length_singleton] at hone
  rw [listBackupSessions, ((List.perm_insertionSort _ _).filter _).length_eq, List.filter_map,
    List.length_map]
  exact hone

/-- When every date is one `isoformat` wrote, the search for a listed session returns its count
of records and its byte total. -/
theorem searchBySession_of_mem (hiso : ∀ r ∈ db.filesIndex, IsIsoTimestamp r.backupDate = true)
    {s : SessionRow} (hs : s ∈ db.listBackupSessions) :
    (db.searchBySession s.sessionDate s.tapeLabel).length = s.fileCount ∧
      ((db.searchBySession s.sessionDate s.tapeLabel).map (·.fileSizeBytes)).sum = s.totalBytes := by
  rw [listBackupSessions, List.mem_insertionSort, List.mem_map] at hs
  obtain ⟨g, hg, rfl⟩ := hs
  have hrecs : db.filesIndex.filter (inSession g.1.1 g.1.2) = g.2 := by
    rw [((mem_groupByKey sessionKey).1 hg).2]
    exact List.filter_congr fun r hr => (inSession_iff (hiso r hr) g.1).trans (by simp [eq_comm])
  have hperm := List.perm_insertionSort
    (fun a b : FileRecord => textLe (pathText a.originalPath).data (pathText b.originalPath).data = true)
    (db.filesIndex.filter (inSession g.1.1 g.1.2))
  dsimp only [sessionRow]
  rw [searchBySession, hperm.length_eq, (hperm.map _).sum_eq, hrecs]
  exact ⟨rfl, rfl⟩

end DatabaseManager

end LtoArchive
