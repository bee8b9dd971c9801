import LtoArchive.ToolOutput
import LtoArchive.PyNumber

/-!
# Reading robocopy's job summary

`LTOBackup.run` adds to the tape's used space the bytes its `robocopy` call reports as copied,
which `_parse_robocopy_summary` reads from the job summary the call prints. The summary's
`Bytes :` line has six value columns (Total, Copied, Skipped, Mismatch, Failed, Extras), each a
number robocopy prints plain, `1234567890`, or scaled by a unit token, `4.52 g`.
`_parse_robocopy_bytes` reads one column and returns the index after it; the summary reads the
Total column to pass over it, and keeps the Copied column.

Every number goes through Python's `float`, so a column reads as the float nearest to its value,
scaled by the unit's power of `1024` and truncated. That is the value itself, truncated, while
the column's digits times the scale stay below `2 ^ 53`; past that the float is off, and past
`2 ^ 1024` it is an infinity, whose `int` raises an `OverflowError` that nothing catches.

## Main definitions

* `pySplit`: `str.split()`;
* `parseRobocopyBytes`: `_parse_robocopy_bytes`;
* `parseRobocopySummary`: `_parse_robocopy_summary`, `error` when an exception escapes it;
* `ByteColumn`: a value column as the summary's grammar has it, a decimal numeral with an
  optional unit, and `ByteColumn.value`, the bytes it stands for.

## Main results

* `parseRobocopyBytes_column`: reading a column at its index returns the index past its tokens;
* `ByteColumn.read_eq_floor`: a column whose digits times its scale are below `2 ^ 53` reads as
  its value truncated;
* `parseRobocopySummary_of_bytesLine`: the summary's `bytes_copied` is what its one `Bytes :` line
  gives for the Copied column; no other line can raise.
-/

namespace LtoArchive

/-! ## The parser -/

/-- `str.split()`: the runs of characters between blanks. -/
def pySplit (s : String) : List String :=
  ((s.data.splitOnP isPySpace).filter (· ≠ [])).map String.mk

/-- The multiplier `_parse_robocopy_bytes` reads from a unit token: `1024 ^ e` for a token whose
`lower()` is the `e`-th of `k`, `m`, `g`, `t`, and `none` for any other token. Besides the eight
ASCII letters, `str.lower` maps the Kelvin sign (U+212A) to `k`; no other text lowers to one of
the four. -/
def unitMultiplier (tok : String) : Option ℕ :=
  match tok.data with
  | [c] =>
    let l := if c.toNat = 8490 then 'k' else c.toLower
    if l = 'k' then some 1024
    else if l = 'm' then some (1024 ^ 2)
    else if l = 'g' then some (1024 ^ 3)
    else if l = 't' then some (1024 ^ 4)
    else none
  | _ => none

/-- `int(float(val) * mult)`, or `int(float(val))` without a unit, under
`except ValueError: return 0`. An `OverflowError`, from `int` of an infinite product, is not
caught. -/
def readBytes (val : String) (mult : Option ℕ) : Except PyError ℤ :=
  match pyFloat val with
  | none => .ok 0
  | some x =>
    match (mult.elim x fun m => x.mul (.finite m)).toInt with
    | .error .valueError => .ok 0
    | r => r

/-- `_parse_robocopy_bytes(tokens, idx)`: the bytes of the value at `idx`, read without its
commas, and the index after it; a unit token after the number scales it and is passed over. -/
def parseRobocopyBytes (tokens : List String) (idx : ℕ) : Except PyError (ℤ × ℕ) :=
  if tokens.length ≤ idx then .ok (0, idx)
  else
    let val : String := ⟨(tokens.getD idx "").data.filter (· ≠ ',')⟩
    match (tokens.get? (idx + 1)).bind unitMultiplier with
    | some mult => (·, idx + 2) <$> readBytes val (some mult)
    | none => (·, idx + 1) <$> readBytes val none

/-- The dict `_parse_robocopy_summary` returns. -/
structure RobocopySummary where
  filesCopied : ℤ
  filesSkipped : ℤ
  filesFailed : ℤ
  bytesCopied : ℤ
  speedMbs : PyFloat
  elapsed : String
deriving DecidableEq, Repr

/-- The dict the loop starts from. -/
def RobocopySummary.initial : RobocopySummary := ⟨0, 0, 0, 0, .finite 0, ""⟩

/-- The test each branch of the loop makes of a line's tokens:
`parts[0] == word and len(parts) >= n and parts[1] == ':'`. -/
def isSummaryLine (word : String) (n : ℕ) (parts : List String) : Bool :=
  parts.head? = some word && n ≤ parts.length && parts.get? 1 = some ":"

/-- The `Files :` branch: `int` of the Copied, Skipped and Failed columns, assigned in turn until
one raises `ValueError`. -/
def readFilesLine (result : RobocopySummary) (parts : List String) : RobocopySummary :=
  match pyInt (parts.getD 3 "") with
  | none => result
  | some copied =>
    match pyInt (parts.getD 4 "") with
    | none => { result with filesCopied := copied }
    | some skipped =>
      match pyInt (parts.getD 6 "") with
      | none => { result with filesCopied := copied, filesSkipped := skipped }
      | some failed =>
        { result with filesCopied := copied, filesSkipped := skipped, filesFailed := failed }

/-- The `Bytes :` branch: the Total column is read to pass over it, and the Copied column kept. -/
def readBytesLine (result : RobocopySummary) (parts : List String) :
    Except PyError RobocopySummary := do
  let (_, i) ← parseRobocopyBytes parts 2
  let (bytesCopied, _) ← parseRobocopyBytes parts i
  pure { result with bytesCopied }

/-- The `Speed :` branch: `float` of the rate without its commas, over `1024 ** 2`. -/
def readSpeedLine (result : RobocopySummary) (parts : List String) : RobocopySummary :=
  match pyFloat ⟨(parts.getD 2 "").data.filter (· ≠ ',')⟩ with
  | some x => { result with speedMbs := x.divPos (1024 ^ 2) }
  | none => result

/-- One pass of `_parse_robocopy_summary`'s loop, on the tokens of a line. An empty line passes
no test. -/
def summaryStep (result : RobocopySummary) (line : String) : Except PyError RobocopySummary :=
  let parts := pySplit line
  if isSummaryLine "Files" 7 parts then .ok (readFilesLine result parts)
  else if isSummaryLine "Bytes" 4 parts then readBytesLine result parts
  else if isSummaryLine "Speed" 4 parts && hasSubstring (pyLower (parts.getD 3 "")) "bytes/sec" then
    .ok (readSpeedLine result parts)
  else if isSummaryLine "Times" 3 parts then .ok { result with elapsed := parts.getD 2 "" }
  else .ok result

/-- `_parse_robocopy_summary(output)`: the loop over the lines of the output, `error` when an
exception escapes it. -/
def parseRobocopySummary (output : String) : Except PyError RobocopySummary :=
  (splitLines output).foldlM summaryStep .initial

/-! ## Lines other than `Bytes :` -/

/-- The `Files :` branch leaves `bytes_copied` alone. -/
theorem readFilesLine_bytesCopied (result : RobocopySummary) (parts : List String) :
    (readFilesLine result parts).bytesCopied = result.bytesCopied := by
  unfold readFilesLine
  split
  · rfl
  · split
    · rfl
    · split <;> rfl

/-- The `Speed :` branch leaves `bytes_copied` alone. -/
theorem readSpeedLine_bytesCopied (result : RobocopySummary) (parts : List String) :
    (readSpeedLine result parts).bytesCopied = result.bytesCopied := by
  unfold readSpeedLine
  split <;> rfl

/-- A line that is no `Bytes :` line raises nothing and leaves `bytes_copied` as it was. -/
theorem summaryStep_of_not_bytes (result : RobocopySummary) {line : String}
    (h : isSummaryLine "Bytes" 4 (pySplit line) = false) :
    ∃ r, summaryStep result line = .ok r ∧ r.bytesCopied = result.bytesCopied := by
  unfold summaryStep
  simp only [h, Bool.false_eq_true, if_false]
  split_ifs
  · exact ⟨_, rfl, readFilesLine_bytesCopied _ _⟩
  · exact ⟨_, rfl, readSpeedLine_bytesCopied _ _⟩
  · exact ⟨_, rfl, rfl⟩
  · exact ⟨_, rfl, rfl⟩

/-- A run over lines none of which is a `Bytes :` line raises nothing and leaves
`bytes_copied` as it was. -/
theorem foldlM_summaryStep_of_not_bytes :
    ∀ {lines : List String} (result : RobocopySummary),
      (∀ l ∈ lines, isSummaryLine "Bytes" 4 (pySplit l) = false) →
      ∃ r, lines.foldlM summaryStep result = .ok r ∧ r.bytesCopied = result.bytesCopied
  | [], result, _ => ⟨result, rfl, rfl⟩
  | l :: lines, result, h => by
    obtain ⟨r, hr, hb⟩ := summaryStep_of_not_bytes result (h l (List.mem_cons_self _ _))
    obtain ⟨r', hr', hb'⟩ :=
      foldlM_summaryStep_of_not_bytes r fun l' hl' => h l' (List.mem_cons_of_mem _ hl')
    exact ⟨r', by rw [List.foldlM_cons, hr]; exact hr', hb'.trans hb⟩

/-! ## The grammar of the `Bytes :` line -/

/-- The power of `1024` a unit token stands for: `k`, `m`, `g`, `t` in either case. -/
def unitPower : String → Option ℕ
  | "k" | "K" => some 1
  | "m" | "M" => some 2
  | "g" | "G" => some 3
  | "t" | "T" => some 4
  | _ => none

/-- A value column of the `Bytes :` line: a decimal numeral, `1,234.5` say, whose text without
its commas is the digits `intDigits` followed, when it has a point, by `.` and the digits
`fracDigits`; and the unit token after it, when there is one. -/
structure ByteColumn where
  numeral : String
  intDigits : List Char
  fracDigits : Option (List Char)
  unit : Option String
  numeral_eq : numeral.data.filter (· ≠ ',') = intDigits ++ (fracDigits.map ('.' :: ·)).getD []
  isDigit_of_mem : ∀ c ∈ intDigits ++ fracDigits.getD [], c.isDigit = true
  digits_ne_nil : intDigits ++ fracDigits.getD [] ≠ []
  unit_ok : unit.all fun u => (unitPower u).isSome

namespace ByteColumn

variable (c : ByteColumn)

/-- The tokens `str.split` gives for the column. -/
def tokens : List String := c.numeral :: c.unit.toList

/-- The digits of the numeral, read as one integer. -/
def digits : ℕ := decimalValue (c.intDigits ++ c.fracDigits.getD [])

/-- How many digits follow the point. -/
def scale : ℕ := (c.fracDigits.getD []).length

/-- The power of `1024` of the unit, `0` without one. -/
def power : ℕ := (c.unit.bind unitPower).getD 0

/-- The number of bytes the column stands for. -/
def value : ℚ := c.digits / 10 ^ c.scale * 1024 ^ c.power

/-- What `_parse_robocopy_bytes` computes from the column. -/
def read : Except PyError ℤ :=
  readBytes ⟨c.numeral.data.filter (· ≠ ',')⟩ (c.unit.bind unitMultiplier)

end ByteColumn

/-- A unit token of the grammar is one `_parse_robocopy_bytes` takes, with the same power. -/
theorem unitMultiplier_of_unitPower {u : String} {p : ℕ} (h : unitPower u = some p) :
    unitMultiplier u = some (1024 ^ p) ∧ p ≤ 4 := by
  unfold unitPower at h
  split at h <;> cases h <;> decide

/-- A token holding a digit is no unit token. -/
theorem unitMultiplier_of_isDigit {tok : String} {d : Char} (hd : d ∈ tok.data)
    (hdig : d.isDigit = true) : unitMultiplier tok = none := by
  unfold unitMultiplier
  split
  · next c hc =>
    rw [hc, List.mem_singleton] at hd
    subst hd
    have hb := toNat_of_isDigit hdig
    have hne : ∀ x : Char, x.isDigit = false → d.toLower ≠ x := fun x hx => by
      rw [toLower_of_isDigit hdig]
      exact ne_of_isDigit hdig hx
    simp only [if_neg (show d.toNat ≠ 8490 by omega), if_neg (hne 'k' rfl),
      if_neg (hne 'm' rfl), if_neg (hne 'g' rfl), if_neg (hne 't' rfl)]
  · rfl

namespace ByteColumn

variable (c : ByteColumn)

/-- A unit stands for at most `1024 ^ 4`. -/
theorem power_le : c.power ≤ 4 := by
  unfold power
  cases h : c.unit.bind unitPower with
  | none => exact Nat.zero_le _
  | some p =>
    obtain ⟨u, -, hp⟩ := Option.bind_eq_some.1 h
    exact (unitMultiplier_of_unitPower hp).2

/-- The unit `_parse_robocopy_bytes` reads after the column's number is the column's unit. -/
theorem unit_bind_unitMultiplier : c.unit.bind unitMultiplier = some (1024 ^ c.power) ∨
    c.unit = none ∧ c.power = 0 := by
  have hok := c.unit_ok
  unfold power
  cases hu : c.unit with
  | none => exact .inr ⟨rfl, rfl⟩
  | some u =>
    rw [hu, Option.all_some, Option.isSome_iff_exists] at hok
    obtain ⟨p, hp⟩ := hok
    simp [hp, (unitMultiplier_of_unitPower hp).1]

/-- The numeral of a column is no unit token. -/
theorem unitMultiplier_numeral : unitMultiplier c.numeral = none := by
  obtain ⟨d, hd⟩ := List.exists_mem_of_ne_nil _ c.digits_ne_nil
  have hmem : d ∈ c.numeral.data.filter (· ≠ ',') := by
    rw [c.numeral_eq]
    cases hf : c.fracDigits with
    | none => simpa [hf] using hd
    | some f =>
      rw [hf, Option.getD_some, List.mem_append] at hd
      simp only [Option.map_some', Option.getD_some, List.mem_append, List.mem_cons]
      tauto
  exact unitMultiplier_of_isDigit (List.mem_filter.1 hmem).1 (c.isDigit_of_mem d hd)

/-- `float` reads the numeral, without its commas, as the float nearest to its value. -/
theorem pyFloat_numeral :
    pyFloat ⟨c.numeral.data.filter (· ≠ ',')⟩ = some (roundBinary64 (c.digits / 10 ^ c.scale)) := by
  rw [c.numeral_eq]
  exact pyFloat_digits c.isDigit_of_mem c.digits_ne_nil

/-- A column below `2 ^ 1023` bytes reads as the float nearest to its number, scaled by its
unit and truncated. -/
theorem read_eq (h : c.value < 2 ^ 1023) :
    c.read = .ok ⌊roundValue (c.digits / 10 ^ c.scale) * 2 ^ (10 * c.power)⌋ := by
  set v : ℚ := c.digits / 10 ^ c.scale
  have hv : 0 ≤ v := div_nonneg (Nat.cast_nonneg _) (pow_nonneg (by norm_num) _)
  have hscale : (1024 : ℚ) ^ c.power = 2 ^ (10 * c.power) := by
    rw [pow_mul, show (2 : ℚ) ^ 10 = 1024 by norm_num]
  have hval : v * 2 ^ (10 * c.power) < 2 ^ 1023 := by rw [← hscale]; exact h
  have hv1 : |v| < 2 ^ 1023 := by
    rw [abs_of_nonneg hv]
    exact lt_of_le_of_lt (le_mul_of_one_le_right hv (one_le_pow₀ (by norm_num))) hval
  have hr := roundValue_nonneg hv
  rw [read, readBytes, pyFloat_numeral, roundBinary64_of_abs_lt hv1]
  rcases c.unit_bind_unitMultiplier with hm | ⟨hm, hp⟩
  · have hmul := mul_two_pow_roundValue (by have := c.power_le; omega)
      (by rwa [abs_of_nonneg hv] : |v| * 2 ^ (10 * c.power) < 2 ^ 1023)
    have hx : 0 ≤ roundValue v * 2 ^ (10 * c.power) := mul_nonneg hr (by positivity)
    have hcast : ((1024 ^ c.power : ℕ) : ℚ) = 2 ^ (10 * c.power) := by exact_mod_cast hscale
    simp only [hm, Option.elim, hcast, hmul, PyFloat.toInt_of_nonneg hx]
  · rw [Option.bind_eq_none.2 fun _ h => absurd h (by simp [hm]), hp]
    simp only [Option.elim, PyFloat.toInt_of_nonneg hr, mul_zero, pow_zero, mul_one]

/-- A column whose digits, read as one integer, times its scale stay below `2 ^ 53` reads as
the bytes it stands for, truncated. -/
theorem read_eq_floor (h : c.digits * 1024 ^ c.power < 2 ^ 53) : c.read = .ok ⌊c.value⌋ := by
  have hscale : (1024 : ℚ) ^ c.power = 2 ^ (10 * c.power) := by
    rw [pow_mul, show (2 : ℚ) ^ 10 = 1024 by norm_num]
  have h' : c.digits * 2 ^ (10 * c.power) < 2 ^ 53 := by
    rwa [pow_mul, show 2 ^ 10 = 1024 by norm_num]
  have hval : c.value < 2 ^ 1023 := by
    have : (c.digits : ℚ) * 2 ^ (10 * c.power) < 2 ^ 53 := by exact_mod_cast h'
    calc c.value ≤ c.digits * 2 ^ (10 * c.power) := by
          rw [value, hscale]
          exact mul_le_mul_of_nonneg_right (div_le_self (by positivity)
            (one_le_pow₀ (by norm_num))) (by positivity)
      _ < 2 ^ 1023 := by linarith
  rw [c.read_eq hval, floor_roundValue_mul_two_pow _ _ _ h', value, hscale]

end ByteColumn

/-! ## Reading a column -/

/-- `_parse_robocopy_bytes` at the index of a column reads the column and returns the index past
its tokens, whatever columns follow. -/
theorem parseRobocopyBytes_column (pre : List String) (c : ByteColumn) (rest : List ByteColumn) :
    parseRobocopyBytes (pre ++ c.tokens ++ rest.flatMap ByteColumn.tokens) pre.length =
      (·, pre.length + c.tokens.length) <$> c.read := by
  have htoks : pre ++ c.tokens ++ rest.flatMap ByteColumn.tokens =
      pre ++ c.numeral :: (c.unit.toList ++ rest.flatMap ByteColumn.tokens) := by
    simp [ByteColumn.tokens]
  have hget : (pre ++ c.numeral :: (c.unit.toList ++ rest.flatMap ByteColumn.tokens)).get?
      (pre.length + 1) = (c.unit.toList ++ rest.flatMap ByteColumn.tokens).head? := by
    simp [List.get?_eq_getElem?, List.getElem?_append_right, List.head?_eq_getElem?]
  have hnext : (c.unit.toList ++ rest.flatMap ByteColumn.tokens).head?.bind unitMultiplier =
      c.unit.bind unitMultiplier := by
    cases c.unit with
    | some u => simp
    | none =>
      cases rest with
      | nil => rfl
      | cons c' rest => simp [ByteColumn.tokens, c'.unitMultiplier_numeral]
  have hval : (pre ++ c.numeral :: (c.unit.toList ++ rest.flatMap ByteColumn.tokens)).getD
      pre.length "" = c.numeral := by
    simp [List.getD_eq_getElem?_getD, List.getElem_append_right]
  rw [htoks, parseRobocopyBytes, if_neg (by simp), hval, hget, hnext, ByteColumn.read,
    ByteColumn.tokens]
  rcases c.unit_bind_unitMultiplier with hm | ⟨hm, -⟩
  · cases hu : c.unit with
    | none => simp [hu] at hm
    | some u =>
      rw [hu, Option.some_bind] at hm
      simp [hm]
  · simp [hm]

/-- A `Bytes :` line of columns reads the Total column, then the Copied column, which it keeps. -/
theorem summaryStep_of_columns (result : RobocopySummary) {line : String} {c₁ c₂ : ByteColumn}
    {cols : List ByteColumn}
    (hline : pySplit line = "Bytes" :: ":" :: (c₁ :: c₂ :: cols).flatMap ByteColumn.tokens) :
    summaryStep result line =
      (c₁.read >>= fun _ => c₂.read >>= fun b => pure { result with bytesCopied := b }) := by
  have h1 := parseRobocopyBytes_column ["Bytes", ":"] c₁ (c₂ :: cols)
  have h2 := parseRobocopyBytes_column (["Bytes", ":"] ++ c₁.tokens) c₂ cols
  have e1 : pySplit line = ["Bytes", ":"] ++ c₁.tokens ++ (c₂ :: cols).flatMap ByteColumn.tokens := by
    rw [hline]
    simp
  have e2 : pySplit line =
      ["Bytes", ":"] ++ c₁.tokens ++ c₂.tokens ++ cols.flatMap ByteColumn.tokens := by
    rw [hline]
    simp
  rw [← e1] at h1
  rw [← e2] at h2
  simp only [List.length_append, List.length_cons, List.length_nil] at h1 h2
  have hfiles : isSummaryLine "Files" 7 (pySplit line) = false := by
    simp [isSummaryLine, hline]
  have hbytes : isSummaryLine "Bytes" 4 (pySplit line) = true := by
    have : 1 ≤ c₁.tokens.length ∧ 1 ≤ c₂.tokens.length := by simp [ByteColumn.tokens]
    simp only [isSummaryLine, hline, List.head?_cons, List.flatMap_cons, List.length_cons,
      List.length_append, List.get?_cons_succ, List.get?_cons_zero, decide_True, Bool.true_and,
      Bool.and_true, decide_eq_true_eq]
    omega
  unfold summaryStep readBytesLine
  simp only [hfiles, hbytes, Bool.false_eq_true, if_false, if_true, h1]
  cases c₁.read with
  | error e => rfl
  | ok b₁ =>
    simp only [Functor.map, Except.map, bind, Except.bind, h2]
    cases c₂.read <;> rfl

/-- Reading robocopy's `Bytes :` line. `_parse_robocopy_bytes` at a column below `2 ^ 1023`
bytes returns the index past the column's tokens, whichever columns, scaled or not, surround it;
and a summary whose one `Bytes :` line is `Bytes : c₁ c₂ ...` reports as copied the bytes of the
Copied column `c₂`, truncated, when the Total column `c₁` stays below `2 ^ 1023` bytes and the
digits of `c₂` times its scale below `2 ^ 53`. -/
theorem parseRobocopySummary_bytesCopied :
    (∀ (pre : List String) (c : ByteColumn) (rest : List ByteColumn), c.value < 2 ^ 1023 →
      Prod.snd <$> parseRobocopyBytes (pre ++ c.tokens ++ rest.flatMap ByteColumn.tokens)
        pre.length = .ok (pre.length + c.tokens.length)) ∧
    ∀ (out line : String) (pre post : List String) (c₁ c₂ : ByteColumn) (cols : List ByteColumn),
      splitLines out = pre ++ line :: post →
      (∀ l ∈ pre ++ post, isSummaryLine "Bytes" 4 (pySplit l) = false) →
      pySplit line = "Bytes" :: ":" :: (c₁ :: c₂ :: cols).flatMap ByteColumn.tokens →
      c₁.value < 2 ^ 1023 → c₂.digits * 1024 ^ c₂.power < 2 ^ 53 →
      RobocopySummary.bytesCopied <$> parseRobocopySummary out = .ok ⌊c₂.value⌋ := by
  refine ⟨fun pre c rest h => by rw [parseRobocopyBytes_column, c.read_eq h]; rfl, ?_⟩
  intro out line pre post c₁ c₂ cols hout hother hline h₁ h₂
  obtain ⟨r₁, hr₁, -⟩ := foldlM_summaryStep_of_not_bytes .initial fun l hl =>
    hother l (List.mem_append_left _ hl)
  obtain ⟨r₃, hr₃, hb₃⟩ := foldlM_summaryStep_of_not_bytes { r₁ with bytesCopied := ⌊c₂.value⌋ }
    fun l hl => hother l (List.mem_append_right _ hl)
  rw [parseRobocopySummary, hout, List.foldlM_append, hr₁]
  simp only [bind, Except.bind, List.foldlM_cons, summaryStep_of_columns r₁ hline, c₁.read_eq h₁,
    c₂.read_eq_floor h₂, pure, Except.pure, hr₃, Functor.map, Except.map, hb₃]

/-- A summary whose `Bytes :` line copied `1,536 M` gives that many bytes. -/
theorem parseRobocopySummary_bytesCopied_job :
    let total : ByteColumn :=
      ⟨"4.52", ['4'], some ['5', '2'], some "g", by decide, by decide, by decide, by decide⟩
    let copied : ByteColumn :=
      ⟨"1,536", ['1', '5', '3', '6'], none, some "M", by decide, by decide, by decide, by decide⟩
    let line := "   Bytes :    4.52 g    1,536 M         0         0         0         0"
    total.value < 2 ^ 1023 ∧ copied.digits * 1024 ^ copied.power < 2 ^ 53 ∧
      RobocopySummary.bytesCopied <$> parseRobocopySummary
        ("   Files :         3         2         1         0         0         0\r\n" ++ line ++
          "\r\n   Speed :            59993856 Bytes/sec.\r\n") = .ok ⌊copied.value⌋ := by
  intro total copied line
  let zero : ByteColumn := ⟨"0", ['0'], none, none, by decide, by decide, by decide, by decide⟩
  have h₁ : total.value < 2 ^ 1023 := by
    rw [ByteColumn.value, show total.digits = 452 by decide, show total.scale = 2 from rfl,
      show total.power = 3 by decide]
    norm_num
  have h₂ : copied.digits * 1024 ^ copied.power < 2 ^ 53 := by decide
  exact ⟨h₁, h₂, parseRobocopySummary_bytesCopied.2 _ line
    ["   Files :         3         2         1         0         0         0"]
    ["   Speed :            59993856 Bytes/sec."] total copied [zero, zero, zero, zero]
    (by decide) (by decide) (by decide) h₁ h₂⟩

/-- The float nearest to `4.9999999999999999999` is `5`. -/
theorem roundValue_five_minus : roundValue (49999999999999999999 / 10 ^ 19) = 5 := by
  have he : ulpExp (49999999999999999999 / 10 ^ 19) = 2 - 52 :=
    ulpExp_eq (by norm_num [abs_of_pos]) (by norm_num [abs_of_pos]) (by norm_num)
  have hf : ⌊(49999999999999999999 / 10 ^ 19 : ℚ) / 2 ^ (2 - 52 : ℤ)⌋ = 5 * 2 ^ 50 - 1 := by
    rw [Int.floor_eq_iff]
    norm_num
  rw [roundValue, he, roundHalfEven, hf]
  norm_num

/-- A numeral with more digits than a float holds is read as the float nearest to it: the
Copied column `4.9999999999999999999` counts `5` bytes, not the `4` its value truncates to. -/
theorem parseRobocopySummary_rounds_long_numeral :
    let copied : ByteColumn := ⟨"4.9999999999999999999", ['4'], some (List.replicate 19 '9'), none,
      by decide, by decide, by decide, by decide⟩
    RobocopySummary.bytesCopied <$> parseRobocopySummary "Bytes : 0 4.9999999999999999999" =
      .ok 5 ∧ ⌊copied.value⌋ = 4 := by
  intro copied
  let zero : ByteColumn := ⟨"0", ['0'], none, none, by decide, by decide, by decide, by decide⟩
  have hdigits : (copied.digits : ℚ) / 10 ^ copied.scale = 49999999999999999999 / 10 ^ 19 := by
    rw [show copied.digits = 49999999999999999999 by decide, show copied.scale = 19 from rfl]
    norm_num
  have hvalue : copied.value = 49999999999999999999 / 10 ^ 19 := by
    rw [ByteColumn.value, hdigits, show copied.power = 0 from rfl, pow_zero, mul_one]
  have hzero : zero.read = .ok 0 := by
    have h0 : zero.digits = 0 := by decide
    have hv : zero.value = 0 := by simp [ByteColumn.value, h0]
    rw [zero.read_eq (by rw [hv]; norm_num), h0]
    simp [roundValue]
  have hcopied : copied.read = .ok 5 := by
    rw [copied.read_eq (by rw [hvalue]; norm_num), hdigits, roundValue_five_minus,
      show copied.power = 0 from rfl]
    norm_num
  refine ⟨?_, by rw [hvalue, Int.floor_eq_iff]; norm_num⟩
  rw [parseRobocopySummary, show splitLines "Bytes : 0 4.9999999999999999999" =
    ["Bytes : 0 4.9999999999999999999"] by decide, List.foldlM_cons,
    summaryStep_of_columns _ (show pySplit "Bytes : 0 4.9999999999999999999" =
      "Bytes" :: ":" :: [zero, copied].flatMap ByteColumn.tokens by decide), hzero, hcopied]
  rfl

end LtoArchive
