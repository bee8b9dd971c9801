import LtoArchive.Basic
import Mathlib.Data.Int.Log
import Mathlib.Data.Rat.Floor
import Mathlib.Algebra.Order.Field.Power
import Mathlib.Tactic.Linarith
import Mathlib.Tactic.Positivity
import Mathlib.Tactic.FieldSimp

/-!
# Python's numbers from text

`_parse_robocopy_bytes` reads a byte count as `int(float(val) * mult)`, and
`_parse_robocopy_summary` reads counts with `int(s)` and a speed with `float(s) / 1024**2`. This
module models those conversions: `float(s)` parses a decimal literal and rounds its exact value
to the nearest IEEE 754 binary64 number, ties to even, as CPython does; each float operation
rounds its exact result the same way; `int(x)` truncates toward zero and raises on an infinity
or a NaN.

A finite float is kept as the rational number it denotes. The sign of a zero is not kept:
nothing the program computes from a float shows it. Digits are the ASCII ones; Python also
accepts the other Unicode decimal digits, which no tool output the program reads contains.

## Main definitions

* `roundBinary64 q`: the float nearest to the rational `q`;
* `pyFloat s`, `pyInt s`: `float(s)` and `int(s)`, `none` where they raise `ValueError`;
* `PyFloat.toInt`: `int(x)` of a float.

## Main results

* `abs_roundValue_sub_le`: rounding moves a number by at most half a unit in its last place;
* `roundValue_of_isBinary64`: a binary64 number rounds to itself;
* `floor_roundValue_mul_two_pow`: when the digits of a decimal numeral, read as an integer,
  times `2 ^ m` stay below `2 ^ 53`, scaling its rounded value by `2 ^ m` and truncating gives
  the exact value scaled and truncated;
* `mul_two_pow_roundValue`: multiplying a float by a power of two below the overflow is exact;
* `pyFloat_digits`: `float` reads a numeral of digits and one optional point as the float
  nearest to its value.
-/

namespace LtoArchive

/-- A Python `float`: an IEEE 754 binary64 value. A finite value is the rational it denotes. -/
inductive PyFloat
  | finite (value : ℚ)
  | inf (negative : Bool)
  | nan
deriving DecidableEq, Repr, Inhabited

/-- The exceptions of Python's conversions that the program's handlers tell apart. -/
inductive PyError
  | valueError
  | overflowError
deriving DecidableEq, Repr, Inhabited

/-! ## Rounding to binary64 -/

/-- Round half to even: the integer nearest to `r`, the even one of two at equal distance. -/
def roundHalfEven (r : ℚ) : ℤ :=
  if r - ⌊r⌋ < 1 / 2 then ⌊r⌋
  else if 1 / 2 < r - ⌊r⌋ then ⌊r⌋ + 1
  else if ⌊r⌋ % 2 = 0 then ⌊r⌋ else ⌊r⌋ + 1

/-- The exponent of the last place of the binary64 numbers around `q`: 52 places below the
leading bit of `|q|`, and never below that of the subnormal numbers, `-1074`. -/
def ulpExp (q : ℚ) : ℤ := max (Int.log 2 |q| - 52) (-1074)

/-- `q` rounded to the nearest multiple of the last place around it, ties to even. -/
def roundValue (q : ℚ) : ℚ := roundHalfEven (q / 2 ^ ulpExp q) * 2 ^ ulpExp q

/-- The float nearest to `q`, ties to even, or an infinity past the largest finite float:
IEEE 754 rounding to nearest, which `float(s)` and every float operation use. -/
def roundBinary64 (q : ℚ) : PyFloat :=
  if |roundValue q| < 2 ^ 1024 then .finite (roundValue q) else .inf (decide (q < 0))

/-- `q` is a binary64 number: an integer below `2 ^ 53` in magnitude times a power of two of
exponent at least `-1074`. -/
def IsBinary64 (q : ℚ) : Prop :=
  ∃ M j : ℤ, |M| < 2 ^ 53 ∧ -1074 ≤ j ∧ q = M * 2 ^ j

/-- Rounding to an integer moves a value by at most one half. -/
theorem abs_roundHalfEven_sub_le (r : ℚ) : |(roundHalfEven r : ℚ) - r| ≤ 1 / 2 := by
  have h0 := Int.floor_le r
  have h1 := Int.lt_floor_add_one r
  -- rounding down is within `1 / 2` when the fraction is at most `1 / 2`, rounding up otherwise
  have down : r - ⌊r⌋ ≤ 1 / 2 → |(⌊r⌋ : ℚ) - r| ≤ 1 / 2 := fun h => by
    rwa [abs_sub_comm, abs_of_nonneg (sub_nonneg.2 h0)]
  have up : 1 / 2 ≤ r - ⌊r⌋ → |((⌊r⌋ + 1 : ℤ) : ℚ) - r| ≤ 1 / 2 := fun h => by
    push_cast
    rw [abs_of_nonneg (sub_nonneg.2 h1.le)]
    linarith
  unfold roundHalfEven
  split_ifs with ha hb
  · exact down ha.le
  · exact up hb.le
  · exact down (not_lt.1 hb)
  · exact up (not_lt.1 ha)

/-- An integer rounds to itself. -/
@[simp]
theorem roundHalfEven_intCast (n : ℤ) : roundHalfEven n = n := by
  simp [roundHalfEven]

/-- Zero rounds to zero. -/
@[simp]
theorem roundHalfEven_zero : roundHalfEven 0 = 0 := by
  simpa using roundHalfEven_intCast 0

/-- A non-negative value rounds to a non-negative integer. -/
theorem roundHalfEven_nonneg {r : ℚ} (hr : 0 ≤ r) : 0 ≤ roundHalfEven r := by
  have : 0 ≤ ⌊r⌋ := Int.floor_nonneg.2 hr
  unfold roundHalfEven
  split_ifs <;> omega

/-- The exponent of the unit in the last place is at least that of the subnormals. -/
theorem le_ulpExp (q : ℚ) : -1074 ≤ ulpExp q := le_max_right _ _

/-- `|q|` is below `2 ^ 53` units of its last place. -/
theorem abs_lt_two_zpow_ulpExp (q : ℚ) : |q| < 2 ^ (ulpExp q + 53) :=
  calc |q| < 2 ^ (Int.log 2 |q| + 1) := by exact_mod_cast Int.lt_zpow_succ_log_self (by norm_num) |q|
    _ ≤ 2 ^ (ulpExp q + 53) := zpow_le_zpow_right₀ (by norm_num) (by unfold ulpExp; omega)

/-- For a normal number the last place is `2 ^ -52` of the leading bit. -/
theorem two_zpow_ulpExp_le {q : ℚ} (hq : 2 ^ (-1022 : ℤ) ≤ |q|) :
    (2 : ℚ) ^ ulpExp q ≤ |q| * 2 ^ (-52 : ℤ) := by
  have hpos : 0 < |q| := lt_of_lt_of_le (by positivity) hq
  have hlog : -1022 ≤ Int.log 2 |q| :=
    (Int.zpow_le_iff_le_log (by norm_num) hpos).1 (by exact_mod_cast hq)
  have hE : ulpExp q = Int.log 2 |q| + -52 := by unfold ulpExp; omega
  rw [hE, zpow_add₀ two_ne_zero]
  exact mul_le_mul_of_nonneg_right (by exact_mod_cast Int.zpow_log_le_self (by norm_num) hpos)
    (by positivity)

/-- Below the normal numbers the last place is that of the subnormal ones. -/
theorem ulpExp_of_lt {q : ℚ} (h0 : 0 < |q|) (hq : |q| < 2 ^ (-1022 : ℤ)) : ulpExp q = -1074 := by
  have : Int.log 2 |q| < -1022 := (Int.lt_zpow_iff_log_lt (by norm_num) h0).1 (by exact_mod_cast hq)
  unfold ulpExp
  omega

/-- The last place of a normal `q` with `2 ^ e ≤ |q| < 2 ^ (e + 1)`. -/
theorem ulpExp_eq {q : ℚ} {e : ℤ} (hlo : 2 ^ e ≤ |q|) (hhi : |q| < 2 ^ (e + 1))
    (he : -1022 ≤ e) : ulpExp q = e - 52 := by
  have hpos : 0 < |q| := lt_of_lt_of_le (by positivity) hlo
  have h1 := (Int.zpow_le_iff_le_log (b := 2) (by norm_num) hpos).1 (by exact_mod_cast hlo)
  have h2 := (Int.lt_zpow_iff_log_lt (b := 2) (by norm_num) hpos).1 (by exact_mod_cast hhi)
  unfold ulpExp
  omega

/-- Rounding moves `q` by at most half a unit in its last place. -/
theorem abs_roundValue_sub_le (q : ℚ) : |roundValue q - q| ≤ 2 ^ ulpExp q / 2 := by
  have hu : (0 : ℚ) < 2 ^ ulpExp q := by positivity
  have heq : roundValue q - q =
      ((roundHalfEven (q / 2 ^ ulpExp q) : ℚ) - q / 2 ^ ulpExp q) * 2 ^ ulpExp q := by
    rw [roundValue, sub_mul, div_mul_cancel₀ _ hu.ne']
  calc |roundValue q - q|
      = |(roundHalfEven (q / 2 ^ ulpExp q) : ℚ) - q / 2 ^ ulpExp q| * 2 ^ ulpExp q := by
        rw [heq, abs_mul, abs_of_pos hu]
    _ ≤ 1 / 2 * 2 ^ ulpExp q := mul_le_mul_of_nonneg_right (abs_roundHalfEven_sub_le _) hu.le
    _ = 2 ^ ulpExp q / 2 := by ring

/-- Rounding to binary64 keeps a non-negative value non-negative. -/
theorem roundValue_nonneg {q : ℚ} (hq : 0 ≤ q) : 0 ≤ roundValue q :=
  mul_nonneg (by exact_mod_cast roundHalfEven_nonneg (div_nonneg hq (by positivity)))
    (by positivity)

/-- A binary64 number rounds to itself. -/
theorem roundValue_of_isBinary64 {q : ℚ} (h : IsBinary64 q) : roundValue q = q := by
  obtain ⟨M, j, hM, hj, rfl⟩ := h
  rcases eq_or_ne M 0 with rfl | hM0
  · simp [roundValue]
  have hpos : (0 : ℚ) < |(M : ℚ) * 2 ^ j| :=
    abs_pos.2 (mul_ne_zero (by exact_mod_cast hM0) (by positivity))
  have hlt : |(M : ℚ) * 2 ^ j| < 2 ^ (j + 53) := by
    rw [abs_mul, abs_of_pos (by positivity : (0 : ℚ) < 2 ^ j), zpow_add₀ two_ne_zero, mul_comm]
    exact mul_lt_mul_of_pos_left (by exact_mod_cast hM) (by positivity)
  set e := ulpExp (M * 2 ^ j) with he
  have hle : e ≤ j := by
    have := (Int.lt_zpow_iff_log_lt (b := 2) (by norm_num) hpos).1 (by exact_mod_cast hlt)
    rw [he, ulpExp]
    omega
  obtain ⟨d, hd⟩ : ∃ d : ℕ, j = e + d := ⟨(j - e).toNat, by omega⟩
  have hint : (M : ℚ) * 2 ^ j / 2 ^ e = ((M * 2 ^ d : ℤ) : ℚ) := by
    rw [hd, zpow_add₀ two_ne_zero, zpow_natCast]
    push_cast
    field_simp
    ring
  rw [roundValue, ← he, hint, roundHalfEven_intCast, ← hint, div_mul_cancel₀ _ (by positivity)]

/-- Rounding gives a binary64 number. -/
theorem isBinary64_roundValue (q : ℚ) : IsBinary64 (roundValue q) := by
  rw [roundValue]
  set e := ulpExp q
  set n := roundHalfEven (q / 2 ^ e)
  have hu : (0 : ℚ) < 2 ^ e := by positivity
  have hq : |q / 2 ^ e| < 2 ^ 53 := by
    rw [abs_div, abs_of_pos hu, div_lt_iff₀ hu, ← zpow_natCast, ← zpow_add₀ two_ne_zero, add_comm]
    exact abs_lt_two_zpow_ulpExp q
  have hn : |n| ≤ 2 ^ 53 := by
    have h1 := abs_roundHalfEven_sub_le (q / 2 ^ e)
    have h2 : |(n : ℚ)| < 2 ^ 53 + 1 := by
      linarith [abs_sub_abs_le_abs_sub (n : ℚ) (q / 2 ^ e)]
    have h3 : |n| < 2 ^ 53 + 1 := by exact_mod_cast h2
    omega
  rcases hn.lt_or_eq with hlt | heq
  · exact ⟨n, e, hlt, le_ulpExp q, rfl⟩
  · obtain ⟨k, hk, hk2⟩ : ∃ k : ℤ, n = 2 * k ∧ |k| = 2 ^ 52 := by
      rcases abs_eq (by norm_num) |>.1 heq with h | h
      · exact ⟨2 ^ 52, by rw [h]; norm_num, by norm_num⟩
      · exact ⟨-2 ^ 52, by rw [h]; norm_num, by norm_num⟩
    refine ⟨k, e + 1, by rw [hk2]; norm_num, by linarith [le_ulpExp q], ?_⟩
    rw [hk, zpow_add₀ two_ne_zero]
    push_cast
    ring

/-- A binary64 value times a power of two is still a binary64 significand times a power of
two. -/
theorem IsBinary64.mul_two_pow {q : ℚ} (h : IsBinary64 q) (m : ℕ) : IsBinary64 (q * 2 ^ m) := by
  obtain ⟨M, j, hM, hj, rfl⟩ := h
  exact ⟨M, j + m, hM, by omega, by rw [mul_assoc, zpow_add₀ two_ne_zero, zpow_natCast]⟩

/-- A binary64 value below the overflow bound rounds to itself. -/
theorem roundBinary64_of_isBinary64 {q : ℚ} (h : IsBinary64 q) (hq : |q| < 2 ^ 1024) :
    roundBinary64 q = .finite q := by
  rw [roundBinary64, roundValue_of_isBinary64 h, if_pos hq]

/-- The last place of a nonzero `q` is at most `2 ^ -52` of `|q|`, or that of the subnormal
numbers. -/
theorem two_zpow_ulpExp_le_add {q : ℚ} (hq : q ≠ 0) :
    (2 : ℚ) ^ ulpExp q ≤ |q| * 2 ^ (-52 : ℤ) + 2 ^ (-1074 : ℤ) := by
  have h0 : (0 : ℚ) ≤ |q| * 2 ^ (-52 : ℤ) := by positivity
  have h1 : (0 : ℚ) ≤ 2 ^ (-1074 : ℤ) := by positivity
  by_cases hn : 2 ^ (-1022 : ℤ) ≤ |q|
  · linarith [two_zpow_ulpExp_le hn]
  · rw [ulpExp_of_lt (abs_pos.2 hq) (not_le.1 hn)]
    linarith

/-- Rounding moves a nonzero `q` by at most `2 ^ -53` of `|q|` and half the least subnormal. -/
theorem abs_roundValue_le {q : ℚ} (hq : q ≠ 0) :
    |roundValue q| ≤ |q| + |q| * 2 ^ (-53 : ℤ) + 2 ^ (-1075 : ℤ) := by
  have h1 := abs_roundValue_sub_le q
  have h2 := two_zpow_ulpExp_le_add hq
  have h3 := abs_sub_abs_le_abs_sub (roundValue q) q
  have h4 : (2 : ℚ) ^ (-53 : ℤ) = 2 ^ (-52 : ℤ) / 2 := by norm_num
  have h5 : (2 : ℚ) ^ (-1075 : ℤ) = 2 ^ (-1074 : ℤ) / 2 := by norm_num
  rw [h4, h5]
  generalize (2 : ℚ) ^ (-52 : ℤ) = a at *
  generalize (2 : ℚ) ^ (-1074 : ℤ) = b at *
  linarith

/-- Below `2 ^ 1023` in magnitude, rounding gives a finite float. -/
theorem roundBinary64_of_abs_lt {q : ℚ} (hq : |q| < 2 ^ 1023) :
    roundBinary64 q = .finite (roundValue q) := by
  refine if_pos ?_
  rcases eq_or_ne q 0 with rfl | hq0
  · simp [roundValue]
  have h := abs_roundValue_le hq0
  have hq' : |q| * 2 ^ (-53 : ℤ) ≤ 2 ^ 1023 * 2 ^ (-53 : ℤ) :=
    mul_le_mul_of_nonneg_right hq.le (by positivity)
  have hc : (2 : ℚ) ^ 1023 + 2 ^ 1023 * 2 ^ (-53 : ℤ) + 2 ^ (-1075 : ℤ) < 2 ^ 1024 := by norm_num
  generalize (2 : ℚ) ^ (-53 : ℤ) = c at *
  generalize (2 : ℚ) ^ (-1075 : ℤ) = d at *
  linarith

/-! ## Truncating a rounded decimal -/

/-- A number within `δ` of `y` has the floor of `y` when `y` is at least `δ` from the integers
on both sides. -/
theorem floor_eq_of_abs_sub_lt {x y δ : ℚ} (hxy : |x - y| < δ) (hlo : δ ≤ y - ⌊y⌋)
    (hhi : δ ≤ ⌊y⌋ + 1 - y) : ⌊x⌋ = ⌊y⌋ := by
  rw [Int.floor_eq_iff]
  rw [abs_lt] at hxy
  constructor <;> linarith

/-- A decimal `a / 10 ^ k` scaled by `2 ^ m` is an integer, or at least `1 / 10 ^ k` away from
the integers on both sides. -/
theorem decimal_mul_two_pow_gap (a k m : ℕ)
    (hne : (a / 10 ^ k : ℚ) * 2 ^ m ≠ ⌊(a / 10 ^ k : ℚ) * 2 ^ m⌋) :
    1 / 10 ^ k ≤ (a / 10 ^ k : ℚ) * 2 ^ m - ⌊(a / 10 ^ k : ℚ) * 2 ^ m⌋ ∧
      1 / 10 ^ k ≤ ⌊(a / 10 ^ k : ℚ) * 2 ^ m⌋ + 1 - (a / 10 ^ k : ℚ) * 2 ^ m := by
  set y := (a / 10 ^ k : ℚ) * 2 ^ m
  have hk : (0 : ℚ) < 10 ^ k := by positivity
  have hy : y * 10 ^ k = ((a * 2 ^ m : ℕ) : ℚ) := by
    push_cast
    rw [mul_right_comm, div_mul_cancel₀ _ hk.ne']
  have h1 : ⌊y⌋ * 10 ^ k < ((a * 2 ^ m : ℕ) : ℤ) := by
    have := mul_lt_mul_of_pos_right (lt_of_le_of_ne (Int.floor_le y) (Ne.symm hne)) hk
    rw [hy] at this
    exact_mod_cast this
  have h2 : ((a * 2 ^ m : ℕ) : ℤ) < (⌊y⌋ + 1) * 10 ^ k := by
    have := mul_lt_mul_of_pos_right (Int.lt_floor_add_one y) hk
    rw [hy] at this
    exact_mod_cast this
  have h1' : (⌊y⌋ : ℚ) * 10 ^ k + 1 ≤ y * 10 ^ k := by
    rw [hy]
    exact_mod_cast h1
  have h2' : y * 10 ^ k + 1 ≤ ((⌊y⌋ : ℚ) + 1) * 10 ^ k := by
    rw [hy]
    exact_mod_cast h2
  constructor <;> rw [div_le_iff₀ hk] <;> linarith

/-- A nonnegative number that `2 ^ m`, `m ≤ 1074`, scales to an integer below `2 ^ 53` is a
binary64 number. -/
theorem isBinary64_of_mul_two_pow {v : ℚ} {m : ℕ} (hm : m ≤ 1074) (hv : 0 ≤ v)
    (hint : v * 2 ^ m = ⌊v * 2 ^ m⌋) (hlt : v * 2 ^ m < 2 ^ 53) : IsBinary64 v := by
  refine ⟨⌊v * 2 ^ m⌋, -(m : ℤ), ?_, by omega, ?_⟩
  · have : (⌊v * 2 ^ m⌋ : ℚ) < 2 ^ 53 := by rw [← hint]; exact hlt
    rw [abs_of_nonneg (Int.floor_nonneg.2 (by positivity))]
    exact_mod_cast this
  · rw [zpow_neg, zpow_natCast, ← hint]
    field_simp

/-- Scaled by `2 ^ m`, the rounding error of a normal `v` is at most `2 ^ -53` of the scaled
value. -/
theorem abs_roundValue_mul_sub_le {v : ℚ} (hn : 2 ^ (-1022 : ℤ) ≤ v) (m : ℕ) :
    |roundValue v * 2 ^ m - v * 2 ^ m| ≤ v * 2 ^ m / 2 ^ 53 := by
  have hv : 0 < v := lt_of_lt_of_le (by positivity) hn
  have hulp := two_zpow_ulpExp_le (by rwa [abs_of_pos hv])
  rw [abs_of_pos hv] at hulp
  calc |roundValue v * 2 ^ m - v * 2 ^ m| = |roundValue v - v| * 2 ^ m := by
        rw [← sub_mul, abs_mul, abs_of_pos (by positivity : (0 : ℚ) < 2 ^ m)]
    _ ≤ v * 2 ^ (-52 : ℤ) / 2 * 2 ^ m :=
        mul_le_mul_of_nonneg_right
          ((abs_roundValue_sub_le v).trans (div_le_div_of_nonneg_right hulp (by norm_num)))
          (by positivity)
    _ = v * 2 ^ m / 2 ^ 53 := by
        norm_num
        ring

/-- A positive subnormal `v` and its rounding, scaled by `2 ^ m` for `m ≤ 52`, both truncate
to `0`. -/
theorem floor_roundValue_mul_of_subnormal {v : ℚ} (hv : 0 < v) (hsub : v < 2 ^ (-1022 : ℤ))
    {m : ℕ} (hm : m ≤ 52) : ⌊roundValue v * 2 ^ m⌋ = 0 ∧ ⌊v * 2 ^ m⌋ = 0 := by
  have herr := abs_roundValue_sub_le v
  rw [ulpExp_of_lt (by rwa [abs_of_pos hv]) (by rwa [abs_of_pos hv])] at herr
  have htiny : ∀ x : ℚ, 0 ≤ x → x < 2 ^ (-1021 : ℤ) → ⌊x * 2 ^ m⌋ = 0 := fun x hx0 hx => by
    refine Int.floor_eq_zero_iff.2 ⟨by positivity, ?_⟩
    calc x * 2 ^ m ≤ x * 2 ^ 52 := mul_le_mul_of_nonneg_left (pow_le_pow_right₀ (by norm_num) hm) hx0
      _ < 2 ^ (-1021 : ℤ) * 2 ^ 52 := mul_lt_mul_of_pos_right hx (by positivity)
      _ < 1 := by norm_num
  have hsub' : (2 : ℚ) ^ (-1022 : ℤ) + 2 ^ (-1074 : ℤ) / 2 ≤ 2 ^ (-1021 : ℤ) := by norm_num
  have hulp0 : (0 : ℚ) ≤ 2 ^ (-1074 : ℤ) / 2 := by positivity
  refine ⟨htiny _ (roundValue_nonneg hv.le) ?_, htiny _ hv.le ?_⟩
  · exact lt_of_le_of_lt (sub_le_iff_le_add'.1 (abs_le.1 herr).2)
      (lt_of_lt_of_le (add_lt_add_right hsub _) hsub')
  · exact lt_of_lt_of_le hsub (le_trans (le_add_of_nonneg_right hulp0) hsub')

/-- When the digits of a decimal numeral, read as an integer `a`, times `2 ^ m` stay below
`2 ^ 53`, the float nearest to its value `a / 10 ^ k`, scaled by `2 ^ m` and truncated, is its
value scaled and truncated. -/
theorem floor_roundValue_mul_two_pow (a k m : ℕ) (h : a * 2 ^ m < 2 ^ 53) :
    ⌊roundValue (a / 10 ^ k) * 2 ^ m⌋ = ⌊(a / 10 ^ k : ℚ) * 2 ^ m⌋ := by
  rcases Nat.eq_zero_or_pos a with rfl | ha
  · simp [roundValue]
  have hm53 : m < 53 := by
    have : 2 ^ m < 2 ^ 53 := lt_of_le_of_lt (Nat.le_mul_of_pos_left _ ha) h
    exact (Nat.pow_lt_pow_iff_right (by norm_num)).1 this
  set v : ℚ := a / 10 ^ k with hv
  have hk : (0 : ℚ) < 10 ^ k := by positivity
  have hv0 : 0 < v := by positivity
  have hlt : v * 2 ^ m * 10 ^ k < 2 ^ 53 := by
    rw [hv, mul_right_comm, div_mul_cancel₀ _ hk.ne']
    exact_mod_cast h
  by_cases hexact : v * 2 ^ m = ⌊v * 2 ^ m⌋
  · -- `v` is then a binary64 number, and rounds to itself
    have hv53 : v * 2 ^ m < 2 ^ 53 :=
      lt_of_le_of_lt (le_mul_of_one_le_right (by positivity) (one_le_pow₀ (by norm_num))) hlt
    rw [roundValue_of_isBinary64 (isBinary64_of_mul_two_pow (by omega) hv0.le hexact hv53)]
  obtain ⟨glo, ghi⟩ := decimal_mul_two_pow_gap a k m hexact
  by_cases hn : 2 ^ (-1022 : ℤ) ≤ v
  · -- a normal number: the scaled error stays below `1 / 10 ^ k`, the gap to the integers
    refine floor_eq_of_abs_sub_lt (lt_of_le_of_lt (abs_roundValue_mul_sub_le hn m) ?_) glo ghi
    rwa [div_lt_div_iff₀ (by positivity) hk, one_mul]
  · -- a subnormal number: both sides truncate to `0`
    obtain ⟨h1, h2⟩ := floor_roundValue_mul_of_subnormal hv0 (not_le.1 hn) (by omega : m ≤ 52)
    rw [h1, h2]

/-! ## Float arithmetic -/

namespace PyFloat

/-- `x * y`: the exact product rounded to binary64, with IEEE 754's rules for an infinity (the
sign is the product of the signs, and an infinity times zero is a NaN) and for a NaN. -/
def mul : PyFloat → PyFloat → PyFloat
  | .finite a, .finite b => roundBinary64 (a * b)
  | .inf s, .inf t => .inf (s != t)
  | .inf s, .finite b | .finite b, .inf s => if b = 0 then .nan else .inf (s != decide (b < 0))
  | .nan, _ | _, .nan => .nan

/-- `x / d` for a positive `d` that is a float, `1024 ** 2` say: the exact quotient rounded; an
infinity or a NaN stays as it is. -/
def divPos (x : PyFloat) (d : ℚ) : PyFloat :=
  match x with
  | .finite a => roundBinary64 (a / d)
  | x => x

/-- `int(x)`: truncation toward zero; an infinity raises `OverflowError` and a NaN `ValueError`. -/
def toInt : PyFloat → Except PyError ℤ
  | .finite q => .ok (if 0 ≤ q then ⌊q⌋ else ⌈q⌉)
  | .inf _ => .error .overflowError
  | .nan => .error .valueError

/-- `int(x)` of a finite non-negative float is its floor. -/
theorem toInt_of_nonneg {q : ℚ} (hq : 0 ≤ q) : (finite q).toInt = .ok ⌊q⌋ := by
  rw [toInt, if_pos hq]

end PyFloat

/-- `float * int` by a power of two `2 ^ m`, `m ≤ 52`, of a float `x` with `|x| * 2 ^ m` below
`2 ^ 1023`, is exact: the product is a float. -/
theorem mul_two_pow_roundValue {q : ℚ} {m : ℕ} (hm : m ≤ 52) (hq : |q| * 2 ^ m < 2 ^ 1023) :
    (PyFloat.finite (roundValue q)).mul (.finite (2 ^ m)) = .finite (roundValue q * 2 ^ m) := by
  refine roundBinary64_of_isBinary64 ((isBinary64_roundValue q).mul_two_pow m) ?_
  rcases eq_or_ne q 0 with rfl | hq0
  · simp [roundValue]
  have hP : (0 : ℚ) < 2 ^ m := by positivity
  have hP52 : (2 : ℚ) ^ m ≤ 2 ^ 52 := pow_le_pow_right₀ (by norm_num) hm
  have hr := mul_le_mul_of_nonneg_right (abs_roundValue_le hq0) hP.le
  have e1 : (|q| + |q| * 2 ^ (-53 : ℤ) + 2 ^ (-1075 : ℤ)) * 2 ^ m =
      |q| * 2 ^ m * (1 + 2 ^ (-53 : ℤ)) + 2 ^ (-1075 : ℤ) * 2 ^ m := by ring
  have e2 : (2 : ℚ) ^ (-1075 : ℤ) * 2 ^ m ≤ 2 ^ (-1075 : ℤ) * 2 ^ 52 :=
    mul_le_mul_of_nonneg_left hP52 (by positivity)
  have e3 := mul_lt_mul_of_pos_right hq (by positivity : (0 : ℚ) < 1 + 2 ^ (-53 : ℤ))
  have e4 : (2 : ℚ) ^ 1023 * (1 + 2 ^ (-53 : ℤ)) + 2 ^ (-1075 : ℤ) * 2 ^ 52 < 2 ^ 1024 := by
    norm_num
  rw [abs_mul, abs_of_pos hP]
  rw [e1] at hr
  generalize (2 : ℚ) ^ (-53 : ℤ) = c at *
  generalize (2 : ℚ) ^ (-1075 : ℤ) = d at *
  linarith

/-! ## Reading numbers from text -/

/-- An ASCII digit is a code point from 48 to 57. -/
theorem toNat_of_isDigit {c : Char} (h : c.isDigit = true) : 48 ≤ c.toNat ∧ c.toNat ≤ 57 := by
  simp only [Char.isDigit, Bool.and_eq_true, decide_eq_true_eq] at h
  exact ⟨h.1, h.2⟩

/-- A digit is none of the characters that are no digit. -/
theorem ne_of_isDigit {c d : Char} (hc : c.isDigit = true) (hd : d.isDigit = false) : c ≠ d :=
  fun h => by rw [h, hd] at hc; contradiction

/-- `str.lower` leaves a digit alone. -/
theorem toLower_of_isDigit {c : Char} (h : c.isDigit = true) : c.toLower = c := by
  have := toNat_of_isDigit h
  simp only [Char.toLower]
  rw [if_neg (by omega)]

/-- A digit is no blank. -/
theorem isPySpace_of_isDigit {c : Char} (h : c.isDigit = true) : isPySpace c = false := by
  have := toNat_of_isDigit h
  simp only [isPySpace, decide_eq_false_iff_not, List.mem_cons, List.mem_singleton,
    List.not_mem_nil, or_false]
  omega

/-- Whether every underscore of `cs` follows an ASCII digit and is followed by one, the check
`_Py_string_to_number_with_underscores` makes before `float` or `int` reads a text; `prev` is
the character before `cs`. -/
def underscoresOk (prev : Char) : List Char → Bool
  | [] => prev ≠ '_'
  | c :: cs => (if c = '_' then prev.isDigit else prev ≠ '_' || c.isDigit) && underscoresOk c cs

/-- A sign `-` or `+` at the front of `cs`: whether it is `-`, and the rest. -/
def splitSign : List Char → Bool × List Char
  | c :: cs => if c = '-' then (true, cs) else if c = '+' then (false, cs) else (false, c :: cs)
  | [] => (false, [])

/-- A nonempty run of ASCII digits, read as a number. -/
def parseDigits (ds : List Char) : Option ℕ :=
  if ds ≠ [] ∧ ds.all Char.isDigit then some (decimalValue ds) else none

/-- `[sign] digits`, read as an integer: the exponent of a float literal, and what `int` reads. -/
def parseSigned (cs : List Char) : Option ℤ :=
  let (negative, ds) := splitSign cs
  (parseDigits ds).map fun n => if negative then -(n : ℤ) else n

/-- The mantissa of a float literal, `digits [. [digits]] | . digits`: all its digits read as one
integer, and how many of them follow the point. -/
def parseMantissa (cs : List Char) : Option (ℕ × ℕ) :=
  match cs.span (· ≠ '.') with
  | (i, []) => (parseDigits i).map fun a => (a, 0)
  | (i, _ :: f) =>
    if i ++ f ≠ [] ∧ (i ++ f).all Char.isDigit then some (decimalValue (i ++ f), f.length)
    else none

/-- A decimal float literal, `mantissa [(e | E) [sign] digits]`, read exactly. -/
def decimalLiteral (cs : List Char) : Option ℚ :=
  match cs.span fun c => c ≠ 'e' ∧ c ≠ 'E' with
  | (m, []) => (parseMantissa m).map fun (a, k) => (a : ℚ) / 10 ^ k
  | (m, _ :: x) => do
    let (a, k) ← parseMantissa m
    let x ← parseSigned x
    pure ((a : ℚ) / 10 ^ k * 10 ^ x)

/-- `PyOS_string_to_double` on a whole text: `[sign]` then `inf`, `infinity` or `nan` in any
case, or a decimal literal rounded to binary64. -/
def floatLiteral (cs : List Char) : Option PyFloat :=
  let (negative, body) := splitSign cs
  let word := body.map Char.toLower
  if word = "inf".data ∨ word = "infinity".data then some (.inf negative)
  else if word = "nan".data then some .nan
  else (decimalLiteral body).map fun q => roundBinary64 (if negative then -q else q)

/-- `float(s)` on text: its underscores are checked and dropped, the blanks around it stripped,
and the rest read as a literal; `none` where `float` raises `ValueError`. -/
def pyFloat (s : String) : Option PyFloat :=
  if underscoresOk (Char.ofNat 0) s.data then
    floatLiteral (pyStrip ⟨s.data.filter (· ≠ '_')⟩).data
  else none

/-- `int(s)` on text: `[sign] digits` between blanks, underscores allowed between digits; `none`
where `int` raises `ValueError`. -/
def pyInt (s : String) : Option ℤ :=
  if underscoresOk (Char.ofNat 0) s.data then
    parseSigned (pyStrip ⟨s.data.filter (· ≠ '_')⟩).data
  else none

/-- A text without underscores passes `float`'s underscore rule. -/
theorem underscoresOk_of_forall {prev : Char} (hp : prev ≠ '_') :
    ∀ {cs : List Char}, (∀ c ∈ cs, c ≠ '_') → underscoresOk prev cs = true
  | [], _ => by simp [underscoresOk, hp]
  | c :: cs, h => by
    have hc := h c (List.mem_cons_self _ _)
    simp only [underscoresOk, if_neg hc, underscoresOk_of_forall hc
      fun d hd => h d (List.mem_cons_of_mem _ hd), Bool.and_true, Bool.or_eq_true,
      decide_eq_true_eq]
    exact .inl hp

private theorem span_of_forall {p : α → Bool} {l : List α} (h : ∀ x ∈ l, p x = true) :
    l.span p = (l, []) := by
  rw [List.span_eq_take_drop, List.takeWhile_eq_self_iff.2 h,
    List.dropWhile_eq_nil_iff.2 h]

private theorem span_append_cons {p : α → Bool} {i rest : List α} {c : α}
    (hi : ∀ x ∈ i, p x = true) (hc : p c = false) : (i ++ c :: rest).span p = (i, c :: rest) := by
  rw [List.span_eq_take_drop, List.takeWhile_append_of_pos hi,
    List.dropWhile_append_of_pos hi]
  simp [hc]

/-- A non-empty run of ASCII digits reads as its decimal value. -/
theorem parseDigits_of_forall {ds : List Char} (hne : ds ≠ []) (hd : ∀ c ∈ ds, c.isDigit = true) :
    parseDigits ds = some (decimalValue ds) :=
  if_pos ⟨hne, List.all_eq_true.2 hd⟩

/-- The mantissa reader on digits `i`, then `.` and digits `f` when `f` is given. -/
theorem parseMantissa_digits {i : List Char} {f : Option (List Char)}
    (hd : ∀ c ∈ i ++ f.getD [], c.isDigit = true) (hne : i ++ f.getD [] ≠ []) :
    parseMantissa (i ++ (f.map ('.' :: ·)).getD []) =
      some (decimalValue (i ++ f.getD []), (f.getD []).length) := by
  have hi : ∀ c ∈ i, decide (c ≠ '.') = true := fun c hc =>
    decide_eq_true (ne_of_isDigit (hd c (List.mem_append_left _ hc)) rfl)
  cases f with
  | none =>
    simp only [Option.map_none', Option.getD_none, List.append_nil] at hd hne ⊢
    rw [parseMantissa, span_of_forall hi]
    simp [parseDigits_of_forall hne hd]
  | some f =>
    simp only [Option.map_some', Option.getD_some] at hd hne ⊢
    rw [parseMantissa, span_append_cons hi (by decide)]
    simp only [if_pos (And.intro hne (List.all_eq_true.2 hd))]

/-- `float` reads a text of digits and points as its mantissa, rounded: it holds no blank,
underscore, sign, exponent or special word. -/
theorem pyFloat_of_plain {cs : List Char} (hplain : ∀ c ∈ cs, c.isDigit = true ∨ c = '.')
    (hne : cs ≠ []) :
    pyFloat ⟨cs⟩ = (parseMantissa cs).map fun p => roundBinary64 ((p.1 : ℚ) / 10 ^ p.2) := by
  have hnot : ∀ d, d.isDigit = false → d ≠ '.' → ∀ c ∈ cs, c ≠ d := fun d h1 h2 c hc =>
    (hplain c hc).elim (fun h => ne_of_isDigit h h1) fun h => h ▸ Ne.symm h2
  obtain ⟨c, rest, hc⟩ := List.exists_cons_of_ne_nil hne
  have hsign : splitSign cs = (false, cs) := by
    rw [hc, splitSign, if_neg (hnot '-' rfl (by decide) c (hc ▸ List.mem_cons_self _ _)),
      if_neg (hnot '+' rfl (by decide) c (hc ▸ List.mem_cons_self _ _))]
  have hlower : cs.map Char.toLower = cs := (List.map_congr_left fun c hc =>
    (hplain c hc).elim toLower_of_isDigit fun h => h ▸ rfl).trans (List.map_id _)
  have hword : ∀ w : String, 'i' ∈ w.data ∨ 'n' ∈ w.data → cs ≠ w.data := by
    rintro w (hw | hw) rfl
    · exact hnot 'i' rfl (by decide) 'i' hw rfl
    · exact hnot 'n' rfl (by decide) 'n' hw rfl
  have hexp : cs.span (fun c => decide (c ≠ 'e' ∧ c ≠ 'E')) = (cs, []) :=
    span_of_forall fun c hc => decide_eq_true
      ⟨hnot 'e' rfl (by decide) c hc, hnot 'E' rfl (by decide) c hc⟩
  have hstrip : pyStrip ⟨cs⟩ = ⟨cs⟩ := pyStrip_of_forall fun c hc =>
    (hplain c hc).elim isPySpace_of_isDigit fun h => h ▸ rfl
  rw [pyFloat, if_pos (underscoresOk_of_forall (by decide) (hnot '_' rfl (by decide))),
    List.filter_eq_self.2 fun c hc => decide_eq_true (hnot '_' rfl (by decide) c hc)]
  simp only [hstrip, floatLiteral, hsign, hlower, decimalLiteral, hexp, Option.map_map,
    if_neg (not_or.2 ⟨hword "inf" (by decide), hword "infinity" (by decide)⟩),
    if_neg (hword "nan" (by decide))]
  rfl

/-- `float` reads a plain decimal numeral, digits `i` then `.` and digits `f` when `f` is given,
as the float nearest to its value. -/
theorem pyFloat_digits {i : List Char} {f : Option (List Char)}
    (hd : ∀ c ∈ i ++ f.getD [], c.isDigit = true) (hne : i ++ f.getD [] ≠ []) :
    pyFloat ⟨i ++ (f.map ('.' :: ·)).getD []⟩ =
      some (roundBinary64 (decimalValue (i ++ f.getD []) / 10 ^ (f.getD []).length)) := by
  have hplain : ∀ c ∈ i ++ (f.map ('.' :: ·)).getD [], c.isDigit = true ∨ c = '.' := by
    intro c hc
    cases f with
    | none => exact .inl (hd c (by simpa using hc))
    | some f =>
      simp only [Option.map_some', Option.getD_some, List.mem_append, List.mem_cons] at hc
      rcases hc with hc | rfl | hc
      · exact .inl (hd c (List.mem_append_left _ hc))
      · exact .inr rfl
      · exact .inl (hd c (List.mem_append_right _ hc))
  have hne' : i ++ (f.map ('.' :: ·)).getD [] ≠ [] := by
    cases f with
    | none => simpa using hne
    | some f => simp
  rw [pyFloat_of_plain hplain hne', parseMantissa_digits hd hne]
  rfl

end LtoArchive
