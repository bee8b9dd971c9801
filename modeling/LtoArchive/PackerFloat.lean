import LtoArchive.Packer
import LtoArchive.PyNumber

/-!
# The packer's float arithmetic

`LTOPacker.run` decides two things with Python floats. A file is small when
`fsize / (1024 * 1024) < threshold_mb`, where the quotient of two ints is the float nearest to it.
The open bundle is sealed when `current_zip_size + fsize > self.max_zip_size_gb * 1024**3 * 0.99`,
where the limit is a float product and the literal `0.99` is the float nearest to `99 / 100`,
slightly below it. Python compares an int with a float, and two floats, by their exact values.

The model of `Packer` makes both tests on exact rationals. This module states the loop body as the
program computes it, on floats (`packFileFloat`), and proves that it is the model's loop body
whenever the configured bundle size is a whole number of bytes below `2 ^ 45` and the file is
below `2 ^ 53` bytes: the quotient is then exact, and the float limit, though not the exact one,
lies between the same two integers.

## Main definitions

* `PyFloat.lt`, `PyFloat.ltInt`: Python's `<` between floats and `>` between an int and a float;
* `LTOPacker.floatRolloverLimit`: `max_zip_size_gb * 1024**3 * 0.99` on floats;
* `LTOPacker.packFileFloat`, `LTOPacker.packFloat`: the loop body and the walk, on floats.

## Main results

* `roundValue_mul_lt_natCast_iff`: the float product `N * 0.99`, for a whole `N` below `2 ^ 45`,
  is below an integer exactly when `N * 0.99` is;
* `LTOPacker.overflowsFloat_eq`: the float rollover test is the exact one;
* `LTOPacker.packFloat_eq`: the walk on floats stages what the model's walk stages.
-/

namespace LtoArchive

/-! ## Rounding near an integer -/

/-- Rounding does not go below an integer `n` from a number above `n` less half a unit in its
last place, when that unit is at most `1`: the integers are multiples of it. -/
theorem le_roundValue_of_sub_lt {q : ℚ} {n : ℤ} (hu : ulpExp q ≤ 0)
    (h : (n : ℚ) - 2 ^ ulpExp q / 2 < q) : (n : ℚ) ≤ roundValue q := by
  obtain ⟨m, hm⟩ : ∃ m : ℕ, ulpExp q = -(m : ℤ) := ⟨(-ulpExp q).toNat, by omega⟩
  have hs : (2 : ℚ) ^ ulpExp q * 2 ^ m = 1 := by
    rw [hm, zpow_neg, zpow_natCast, inv_mul_cancel₀ (by positivity)]
  have hlow : (n : ℚ) - 2 ^ ulpExp q < roundValue q := by
    linarith [(abs_le.1 (abs_roundValue_sub_le q)).1]
  have hk : roundValue q * 2 ^ m = roundHalfEven (q / 2 ^ ulpExp q) := by
    rw [roundValue, mul_assoc, hs, mul_one]
  have h1 : ((n * 2 ^ m : ℤ) : ℚ) - 1 < roundHalfEven (q / 2 ^ ulpExp q) := by
    have := mul_lt_mul_of_pos_right hlow (by positivity : (0 : ℚ) < 2 ^ m)
    rw [sub_mul, hs] at this
    push_cast
    rwa [← hk]
  have h2 : n * 2 ^ m ≤ roundHalfEven (q / 2 ^ ulpExp q) := by
    have : n * 2 ^ m - 1 < roundHalfEven (q / 2 ^ ulpExp q) := by exact_mod_cast h1
    omega
  calc (n : ℚ) = ((n * 2 ^ m : ℤ) : ℚ) * 2 ^ ulpExp q := by
        push_cast
        rw [mul_assoc, mul_comm ((2 : ℚ) ^ m), hs, mul_one]
    _ ≤ roundHalfEven (q / 2 ^ ulpExp q) * 2 ^ ulpExp q :=
        mul_le_mul_of_nonneg_right (by exact_mod_cast h2) (by positivity)
    _ = roundValue q := rfl

/-- A normal `q` rounds below `c` when `q` plus `2 ^ -53` of it is below `c`. -/
theorem roundValue_lt_of_add_lt {q c : ℚ} (hq : 2 ^ (-1022 : ℤ) ≤ q)
    (h : q + q * 2 ^ (-53 : ℤ) < c) : roundValue q < c := by
  have h1 := (abs_le.1 (abs_roundValue_sub_le q)).2
  have h2 := two_zpow_ulpExp_le (hq.trans (le_abs_self q))
  rw [abs_of_nonneg ((zpow_pos two_pos _).le.trans hq)] at h2
  rw [show (2 : ℚ) ^ (-53 : ℤ) = 2 ^ (-52 : ℤ) / 2 by norm_num] at h
  generalize (2 : ℚ) ^ (-52 : ℤ) = a at *
  linarith

/-- The float nearest to `0.99`, slightly below it. -/
theorem roundValue_ninety_nine_hundredths : roundValue (99 / 100) = 8917127262193582 / 2 ^ 53 := by
  have he : ulpExp (99 / 100) = -1 - 52 :=
    ulpExp_eq (by norm_num [abs_of_pos]) (by norm_num [abs_of_pos]) (by norm_num)
  have hf : ⌊(99 / 100 : ℚ) / 2 ^ (-1 - 52 : ℤ)⌋ = 8917127262193582 := by
    rw [Int.floor_eq_iff]
    norm_num
  rw [roundValue, he, roundHalfEven, hf]
  norm_num

/-- Below `2 ^ 52` the last place of a normal number is at most `1`. -/
theorem ulpExp_nonpos {q : ℚ} (hq : 2 ^ (-1022 : ℤ) ≤ q) (h : q < 2 ^ 52) : ulpExp q ≤ 0 := by
  by_contra hpos
  have h1 := one_le_zpow₀ (by norm_num : (1 : ℚ) ≤ 2) (le_of_lt (not_le.1 hpos))
  have h2 := two_zpow_ulpExp_le (hq.trans (le_abs_self _))
  rw [abs_of_nonneg ((zpow_pos two_pos _).le.trans hq)] at h2
  have h3 : q * 2 ^ (-52 : ℤ) < 1 :=
    calc q * 2 ^ (-52 : ℤ) < 2 ^ 52 * 2 ^ (-52 : ℤ) := mul_lt_mul_of_pos_right h (by positivity)
      _ = 1 := by norm_num
  exact lt_irrefl _ ((h1.trans h2).trans_lt h3)

section NinetyNine

/-! The float product `N * 0.99` for a whole number `N` of bytes below `2 ^ 45`. -/

variable {N : ℕ} (hN : N < 2 ^ 45)
include hN

/-- The product is a normal number below `2 ^ 45`. -/
theorem mul_ninetyNine_bounds (hN0 : 0 < N) :
    2 ^ (-1022 : ℤ) ≤ (N : ℚ) * (8917127262193582 / 2 ^ 53) ∧
      (N : ℚ) * (8917127262193582 / 2 ^ 53) < 2 ^ 45 := by
  have hNq : (1 : ℚ) ≤ N := by exact_mod_cast hN0
  have hN45 : (N : ℚ) < 2 ^ 45 := by exact_mod_cast hN
  refine ⟨le_trans (by norm_num) (le_mul_of_one_le_left (by norm_num) hNq), ?_⟩
  calc (N : ℚ) * (8917127262193582 / 2 ^ 53) < 2 ^ 45 * 1 :=
        mul_lt_mul hN45 (by norm_num) (by norm_num) (by positivity)
    _ = 2 ^ 45 := mul_one _

/-- An integer at most `N * 0.99` is at most the rounded product: the exact product lies within
`2 ^ -54` of itself below `N * 0.99`, which is less than half its last place. -/
theorem natCast_le_roundValue_mul {n : ℕ} (hle : (n : ℚ) ≤ N * (99 / 100)) :
    (n : ℚ) ≤ roundValue (N * (8917127262193582 / 2 ^ 53)) := by
  rcases Nat.eq_zero_or_pos N with rfl | hN0
  · simp only [Nat.cast_zero, zero_mul] at hle ⊢
    rw [roundValue, zero_div, roundHalfEven_zero, Int.cast_zero, zero_mul]
    exact hle
  obtain ⟨hlo, hhi⟩ := mul_ninetyNine_bounds hN hN0
  set x : ℚ := N * (8917127262193582 / 2 ^ 53)
  have hu53 := abs_lt_two_zpow_ulpExp x
  rw [abs_of_pos (lt_of_lt_of_le (by positivity) hlo), zpow_add₀ two_ne_zero] at hu53
  have hnear : (N : ℚ) * (99 / 100) < x + x / 2 ^ 54 :=
    calc (N : ℚ) * (99 / 100) < N * (8917127262193582 / 2 ^ 53 + 8917127262193582 / 2 ^ 53 / 2 ^ 54) :=
          mul_lt_mul_of_pos_left (by norm_num) (by positivity)
      _ = x + x / 2 ^ 54 := by ring
  have hhalf : x / 2 ^ 54 < 2 ^ ulpExp x / 2 := by
    rw [div_lt_div_iff₀ (by positivity) (by positivity)]
    linarith only [hu53]
  have h := le_roundValue_of_sub_lt (n := n) (ulpExp_nonpos hlo (hhi.trans (by norm_num)))
    (by rw [Int.cast_natCast]; linarith only [hle, hnear, hhalf])
  rwa [Int.cast_natCast] at h

/-- An integer above `N * 0.99` is above the rounded product: it is at least a hundredth above
`N * 0.99`, and the rounded product is within `2 ^ -8` of `N * 0.99`. -/
theorem roundValue_mul_lt_natCast {n : ℕ} (hlt : (N : ℚ) * (99 / 100) < n) :
    roundValue (N * (8917127262193582 / 2 ^ 53)) < n := by
  rcases Nat.eq_zero_or_pos N with rfl | hN0
  · simp only [Nat.cast_zero, zero_mul] at hlt ⊢
    rwa [roundValue, zero_div, roundHalfEven_zero, Int.cast_zero, zero_mul]
  obtain ⟨hlo, hhi⟩ := mul_ninetyNine_bounds hN hN0
  have hstep : (N : ℚ) * (99 / 100) + 1 / 100 ≤ n := by
    have hint : 99 * N + 1 ≤ 100 * n := by
      have : (99 * N : ℚ) < 100 * n := by linarith only [hlt]
      exact_mod_cast this
    have : ((99 * N + 1 : ℕ) : ℚ) ≤ (100 * n : ℕ) := by exact_mod_cast hint
    push_cast at this
    linarith only [this]
  refine roundValue_lt_of_add_lt hlo ?_
  have hbelow : (N : ℚ) * (8917127262193582 / 2 ^ 53) < N * (99 / 100) :=
    mul_lt_mul_of_pos_left (by norm_num) (by positivity)
  have hsmall : (N : ℚ) * (8917127262193582 / 2 ^ 53) * 2 ^ (-53 : ℤ) < 1 / 100 :=
    calc (N : ℚ) * (8917127262193582 / 2 ^ 53) * 2 ^ (-53 : ℤ) < 2 ^ 45 * 2 ^ (-53 : ℤ) :=
          mul_lt_mul_of_pos_right hhi (by positivity)
      _ < 1 / 100 := by norm_num
  exact (add_lt_add hbelow hsmall).trans_le hstep

/-- `N` times the float nearest to `0.99`, rounded, is below an integer `n` exactly when
`N * 0.99` is. -/
theorem roundValue_mul_lt_natCast_iff (n : ℕ) :
    roundValue (N * (8917127262193582 / 2 ^ 53)) < n ↔ (N : ℚ) * (99 / 100) < n :=
  ⟨fun h => lt_of_not_le fun hle => (natCast_le_roundValue_mul hN hle).not_lt h,
    roundValue_mul_lt_natCast hN⟩

end NinetyNine

/-! ## Python's float comparisons -/

namespace PyFloat

/-- `x < y` between two floats, on their exact values: `-inf` is below every other value and
`inf` above it, and a comparison with a NaN is false. -/
def lt : PyFloat → PyFloat → Bool
  | .finite a, .finite b => decide (a < b)
  | .finite _, .inf negative => !negative
  | .inf negative, .finite _ => negative
  | .inf s, .inf t => s && !t
  | .nan, _ | _, .nan => false

/-- `n > x` for an int `n` and a float `x`: Python compares the exact values. -/
def ltInt : PyFloat → ℤ → Bool
  | .finite a, n => decide (a < n)
  | .inf negative, _ => negative
  | .nan, _ => false

end PyFloat

/-! ## The loop on floats -/

namespace LTOPacker

/-- `fsize / (1024 * 1024)`: Python's `/` of two ints, the float nearest to the exact quotient. -/
def fsizeMb (fsize : ℕ) : PyFloat := roundBinary64 ((fsize : ℚ) / (1024 * 1024))

/-- `self.max_zip_size_gb * 1024**3 * 0.99` for the float `max_zip_size_gb`: the int `1024**3`
is converted to a float, and the literal `0.99` is the float nearest to it. -/
def floatRolloverLimit (maxZipSizeGb : PyFloat) : PyFloat :=
  (maxZipSizeGb.mul (.finite (1024 ^ 3))).mul (roundBinary64 (99 / 100))

/-- The loop body of `run` as the program computes it, with `max_zip_size_gb` and `threshold_mb`
the floats that `ConfigManager` reads: `packFile` with its two tests made on floats. -/
def packFileFloat (maxZipSizeGb thresholdMb : PyFloat) (source : Path) (st : PackState)
    (rel : Path) (c : Content) : PackState :=
  let fsize := c.blob.size
  if (fsizeMb fsize).lt thresholdMb then
    let st := if (floatRolloverLimit maxZipSizeGb).ltInt (st.currentZipSize + fsize : ℕ) then
      st.rollover else st
    { st with
      zipMembers := st.zipMembers ++ [(rel, c.blob)]
      currentZipSize := st.currentZipSize + fsize
      filesInCurrentZip := st.filesInCurrentZip + 1
      metadata := st.metadata ++ [packedEntry source rel c.blob (bundleName st.zipIdx)] }
  else
    { st with
      staging := st.staging.insert rel c
      metadata := st.metadata ++ [looseEntry source rel c] }

/-- The walk of `run` on floats, then `finish`. -/
def packFloat (maxZipSizeGb thresholdMb : PyFloat) (source : Path) (src staging : FS) :
    PackState :=
  (src.entries.foldl (fun st e => packFileFloat maxZipSizeGb thresholdMb source st e.1 e.2)
    (PackState.init staging)).finish

/-- A size below `2 ^ 53` bytes is an exact float number of MiB. -/
theorem fsizeMb_of_lt {fsize : ℕ} (h : fsize < 2 ^ 53) :
    fsizeMb fsize = .finite ((fsize : ℚ) / (1024 * 1024)) := by
  have hq : (fsize : ℚ) < 2 ^ 53 := by exact_mod_cast h
  refine roundBinary64_of_isBinary64 ⟨fsize, -20, ?_, by norm_num, ?_⟩ ?_
  · rw [abs_of_nonneg (by positivity)]
    exact_mod_cast h
  · norm_num [zpow_neg, div_eq_mul_inv]
  · rw [abs_of_nonneg (by positivity), div_lt_iff₀ (by positivity)]
    linarith [show (2 : ℚ) ^ 53 < 2 ^ 1024 * (1024 * 1024) by norm_num]

/-- Below `2 ^ 53` bytes the float test for a small file is the exact one. -/
theorem fsizeMb_lt_finite {fsize : ℕ} (h : fsize < 2 ^ 53) (t : ℚ) :
    (fsizeMb fsize).lt (.finite t) = decide ((fsize : ℚ) / (1024 * 1024) < t) := by
  rw [fsizeMb_of_lt h, PyFloat.lt]

section WholeBytes

-- The configured bundle size is `N` whole bytes, below `2 ^ 45` (32 TiB).
variable {g : ℚ} {N : ℕ} (hN : g * 1024 ^ 3 = N) (hN45 : N < 2 ^ 45)
include hN hN45

/-- The float limit is `N` times the float `0.99`, rounded once: the first product is exact. -/
theorem floatRolloverLimit_eq :
    floatRolloverLimit (.finite g) = .finite (roundValue (N * (8917127262193582 / 2 ^ 53))) := by
  have hNq : (N : ℚ) < 2 ^ 45 := by exact_mod_cast hN45
  have h1 : (PyFloat.finite g).mul (.finite (1024 ^ 3)) = .finite N := by
    show roundBinary64 (g * 1024 ^ 3) = _
    rw [hN]
    refine roundBinary64_of_isBinary64 ⟨N, 0, ?_, by norm_num, by simp⟩ ?_
    · rw [abs_of_nonneg (by positivity)]
      exact_mod_cast (by omega : N < 2 ^ 53)
    · rw [abs_of_nonneg (by positivity)]
      linarith [show (2 : ℚ) ^ 45 < 2 ^ 1024 by norm_num]
  have h2 : roundBinary64 (99 / 100) = .finite (8917127262193582 / 2 ^ 53) := by
    rw [roundBinary64_of_abs_lt (by norm_num [abs_of_pos]), roundValue_ninety_nine_hundredths]
  rw [floatRolloverLimit, h1, h2]
  refine roundBinary64_of_abs_lt ?_
  rw [abs_of_nonneg (by positivity)]
  calc (N : ℚ) * (8917127262193582 / 2 ^ 53) ≤ N := mul_le_of_le_one_right (by positivity) (by norm_num)
    _ < 2 ^ 1023 := by linarith

/-- The float rollover test is the model's exact one. -/
theorem overflowsFloat_eq (n : ℕ) :
    (floatRolloverLimit (.finite g)).ltInt n = decide ((⟨g⟩ : LTOPacker).rolloverLimit < n) := by
  have hlim : (⟨g⟩ : LTOPacker).rolloverLimit = N * (99 / 100) := by
    rw [rolloverLimit, hN]
    norm_num
  rw [floatRolloverLimit_eq hN hN45, PyFloat.ltInt, hlim, Int.cast_natCast]
  exact decide_eq_decide.2 (roundValue_mul_lt_natCast_iff hN45 n)

/-- On a file below `2 ^ 53` bytes the float loop body is the model's. -/
theorem packFileFloat_eq (t : ℚ) (source : Path) (st : PackState) (rel : Path) {c : Content}
    (hc : c.blob.size < 2 ^ 53) :
    packFileFloat (.finite g) (.finite t) source st rel c =
      (⟨g⟩ : LTOPacker).packFile source t st rel c := by
  simp only [packFileFloat, packFile, fsizeMb_lt_finite hc, overflowsFloat_eq hN hN45,
    decide_eq_true_eq]

/-- For a bundle size of whole bytes below `2 ^ 45` and files below `2 ^ 53` bytes, the walk the
program makes on floats stages what the model's exact walk stages, with the same metadata. -/
theorem packFloat_eq (t : ℚ) (source : Path) (src staging : FS)
    (hsrc : ∀ e ∈ src.entries, e.2.blob.size < 2 ^ 53) :
    packFloat (.finite g) (.finite t) source src staging =
      (⟨g⟩ : LTOPacker).pack source t src staging := by
  rw [packFloat, pack]
  congr 1
  exact List.foldl_ext _ _ _ fun st e he => packFileFloat_eq hN hN45 t source st e.1 (hsrc e he)

end WholeBytes

/-- At the default `max_zip_size_gb = 100`, the float walk over a small and a large file. -/
theorem packFloat_eq_default :
    (100 : ℚ) * 1024 ^ 3 = (107374182400 : ℕ) ∧ 107374182400 < 2 ^ 45 ∧
    (∀ e ∈ (FS.ofList [(["a.txt"], .file ⟨10, "x"⟩), (["b.mov"], .file ⟨2 ^ 30, "y"⟩)]
        (by decide)).entries, e.2.blob.size < 2 ^ 53) ∧
    packFloat (.finite 100) (.finite 100) ["src"]
        (FS.ofList [(["a.txt"], .file ⟨10, "x"⟩), (["b.mov"], .file ⟨2 ^ 30, "y"⟩)] (by decide)) ∅ =
      (⟨100⟩ : LTOPacker).pack ["src"] 100
        (FS.ofList [(["a.txt"], .file ⟨10, "x"⟩), (["b.mov"], .file ⟨2 ^ 30, "y"⟩)] (by decide)) ∅ := by
  have hN : (100 : ℚ) * 1024 ^ 3 = (107374182400 : ℕ) := by norm_num
  have hN45 : 107374182400 < 2 ^ 45 := by norm_num
  have hsrc : ∀ e ∈ (FS.ofList [(["a.txt"], .file ⟨10, "x"⟩), (["b.mov"], .file ⟨2 ^ 30, "y"⟩)]
      (by decide)).entries, e.2.blob.size < 2 ^ 53 := by decide
  exact ⟨hN, hN45, hsrc, packFloat_eq hN hN45 100 ["src"] _ ∅ hsrc⟩

end LTOPacker

end LtoArchive
