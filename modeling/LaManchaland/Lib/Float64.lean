import Mathlib.Algebra.Order.Field.Power
import Mathlib.Algebra.Order.Ring.Rat
import Mathlib.Data.Int.Log
import Mathlib.Data.Rat.Floor
import Mathlib.Tactic.FieldSimp
import Mathlib.Tactic.Linarith
import Mathlib.Tactic.NormNum
import Mathlib.Tactic.Positivity
import Mathlib.Tactic.Ring

/-!
# Rounding to IEEE doubles

A finite double is a rational `m * 2 ^ e` with a significand of 53 bits, an exponent of at least -1074 and a magnitude
below `2 ^ 1024` (`IsDouble`). `round` rounds to nearest, ties to even: it divides by the last place of the number
(`ulpExp`), rounds to an integer (`roundEven`), and gives nothing when the result is out of range.

What `round` gives is a double (`round_isDouble`), and it leaves doubles alone (`round_of_isDouble`), so that a number
survives rounding exactly when it is a double (`round_eq_self_iff`).
-/

namespace LaManchaland.Float64

/-! ## Rounding to an integer -/

/-- The nearest integer; a tie goes to the even one. -/
def roundEven (x : ℚ) : ℤ :=
  if x - ⌊x⌋ < 1 / 2 then ⌊x⌋
  else if 1 / 2 < x - ⌊x⌋ then ⌊x⌋ + 1
  else if ⌊x⌋ % 2 = 0 then ⌊x⌋ else ⌊x⌋ + 1

@[simp] theorem roundEven_intCast (n : ℤ) : roundEven n = n := by
  simp [roundEven]

theorem roundEven_floor (x : ℚ) : roundEven x = ⌊x⌋ ∨ (roundEven x = ⌊x⌋ + 1 ∧ (⌊x⌋ : ℚ) < x) := by
  unfold roundEven
  by_cases hlt : x - ⌊x⌋ < 1 / 2
  · exact .inl (if_pos hlt)
  · have hx : (⌊x⌋ : ℚ) < x := by linarith
    rw [if_neg hlt]
    split
    · exact .inr ⟨rfl, hx⟩
    · split
      · exact .inl rfl
      · exact .inr ⟨rfl, hx⟩

/-- Rounding stays below an integer bound. -/
theorem roundEven_le {x : ℚ} {n : ℤ} (h : x ≤ n) : roundEven x ≤ n := by
  have hfloor : ⌊x⌋ ≤ n := Int.floor_le_iff.mpr (by linarith)
  rcases roundEven_floor x with he | ⟨he, hx⟩
  · omega
  · have hlt : ⌊x⌋ < n := by exact_mod_cast lt_of_lt_of_le hx h
    omega

/-- Rounding stays above an integer bound. -/
theorem le_roundEven {x : ℚ} {n : ℤ} (h : (n : ℚ) ≤ x) : n ≤ roundEven x := by
  have hfloor : n ≤ ⌊x⌋ := Int.le_floor.mpr h
  rcases roundEven_floor x with he | ⟨he, -⟩ <;> omega

theorem abs_roundEven_le {x : ℚ} {n : ℤ} (h : |x| ≤ n) : |roundEven x| ≤ n := by
  rw [abs_le] at h ⊢
  refine ⟨le_roundEven ?_, roundEven_le h.2⟩
  push_cast
  exact h.1

/-! ## Doubles -/

/-- The value of a finite double. -/
def IsDouble (v : ℚ) : Prop := |v| < 2 ^ 1024 ∧ ∃ m e : ℤ, |m| ≤ 2 ^ 53 ∧ -1074 ≤ e ∧ v = m * 2 ^ e

/-- The exponent of the last place of a number. -/
def ulpExp (q : ℚ) : ℤ := max (Int.log 2 |q| - 52) (-1074)

/-- The double nearest to a number, unless it is out of range. -/
def round (q : ℚ) : Option ℚ :=
  let v : ℚ := roundEven (q / 2 ^ ulpExp q) * 2 ^ ulpExp q
  if |v| < 2 ^ 1024 then some v else none

/-- In units of its last place, a number has 53 bits. -/
theorem abs_div_ulp_le (q : ℚ) : |q / 2 ^ ulpExp q| ≤ 2 ^ 53 := by
  have hpow : (0 : ℚ) < 2 ^ ulpExp q := by positivity
  have hlog : |q| < 2 ^ (Int.log 2 |q| + 1) := Int.lt_zpow_succ_log_self (by norm_num) |q|
  have hexp : Int.log 2 |q| + 1 ≤ 53 + ulpExp q := by
    have : Int.log 2 |q| - 52 ≤ ulpExp q := le_max_left _ _
    omega
  rw [abs_div, abs_of_pos hpow, div_le_iff₀ hpow]
  calc |q| ≤ 2 ^ (Int.log 2 |q| + 1) := hlog.le
    _ ≤ 2 ^ (53 + ulpExp q) := zpow_le_zpow_right₀ (by norm_num) hexp
    _ = 2 ^ 53 * 2 ^ ulpExp q := by
      rw [zpow_add₀ (by norm_num)]
      norm_num

/-- **Rounding gives a double.** -/
theorem round_isDouble {q v : ℚ} (h : round q = some v) : IsDouble v := by
  obtain ⟨hrange, hv⟩ := Option.ite_none_right_eq_some.mp h
  rw [Option.some.injEq] at hv
  rw [hv] at hrange
  refine ⟨hrange, _, ulpExp q, abs_roundEven_le (n := 2 ^ 53) ?_, le_max_right _ _, hv.symm⟩
  exact_mod_cast abs_div_ulp_le q

/-- Rounding stays within a power of two that is not below the last place. -/
theorem abs_round_le {q : ℚ} {k : ℤ} (hexp : ulpExp q ≤ k) (h : |q| ≤ 2 ^ k) :
    |(roundEven (q / 2 ^ ulpExp q) : ℚ) * 2 ^ ulpExp q| ≤ 2 ^ k := by
  obtain ⟨n, hn⟩ := Int.eq_ofNat_of_zero_le (Int.sub_nonneg.mpr hexp)
  have hpow : (0 : ℚ) < 2 ^ ulpExp q := by positivity
  have hunits : (2 : ℚ) ^ k = ((2 ^ n : ℤ) : ℚ) * 2 ^ ulpExp q := by
    rw [Int.cast_pow, Int.cast_ofNat, ← zpow_natCast, ← hn, ← zpow_add₀ (by norm_num), sub_add_cancel]
  have habs : |q / 2 ^ ulpExp q| ≤ ((2 ^ n : ℤ) : ℚ) := by
    rw [abs_div, abs_of_pos hpow, div_le_iff₀ hpow, ← hunits]
    exact h
  have hround : (|roundEven (q / 2 ^ ulpExp q)| : ℚ) ≤ ((2 ^ n : ℤ) : ℚ) := by
    exact_mod_cast abs_roundEven_le habs
  calc |(roundEven (q / 2 ^ ulpExp q) : ℚ) * 2 ^ ulpExp q|
      = |(roundEven (q / 2 ^ ulpExp q) : ℚ)| * 2 ^ ulpExp q := by rw [abs_mul, abs_of_pos hpow]
    _ ≤ ((2 ^ n : ℤ) : ℚ) * 2 ^ ulpExp q := mul_le_mul_of_nonneg_right hround hpow.le
    _ = 2 ^ k := hunits.symm

theorem ulpExp_le {q : ℚ} {k : ℤ} (hk : 0 ≤ k) (h : |q| ≤ 2 ^ k) : ulpExp q ≤ k := by
  rcases eq_or_ne q 0 with rfl | hq
  · simp only [ulpExp, abs_zero, Int.log_zero_right]
    omega
  · have hlog : (2 : ℚ) ^ Int.log 2 |q| ≤ 2 ^ k :=
      le_trans (by exact_mod_cast Int.zpow_log_le_self (by norm_num) (abs_pos.mpr hq)) h
    have := (zpow_le_zpow_iff_right₀ (by norm_num : (1 : ℚ) < 2)).mp hlog
    rw [ulpExp]
    omega

/-- A number of at most half the range rounds to a double. -/
theorem exists_round {q : ℚ} {k : ℤ} (hk : 0 ≤ k) (hmax : k ≤ 1023) (h : |q| ≤ 2 ^ k) : ∃ v, round q = some v := by
  refine ⟨_, if_pos (lt_of_le_of_lt (abs_round_le (ulpExp_le hk h) h) ?_)⟩
  calc (2 : ℚ) ^ k < 2 ^ ((1024 : ℕ) : ℤ) := zpow_lt_zpow_right₀ (by norm_num) (by omega)
    _ = 2 ^ 1024 := zpow_natCast _ _

/-- Rounding stays below a power of two. -/
theorem abs_le_of_round {q v : ℚ} {k : ℤ} (hk : 0 ≤ k) (h : |q| ≤ 2 ^ k) (hv : round q = some v) : |v| ≤ 2 ^ k := by
  obtain ⟨-, hv⟩ := Option.ite_none_right_eq_some.mp hv
  rw [Option.some.injEq] at hv
  rw [← hv]
  exact abs_round_le (ulpExp_le hk h) h

/-- Only a significand of `2 ^ 53` reaches the place above its exponent. -/
theorem ulpExp_of_lt {m e : ℤ} (hm : |m| ≤ 2 ^ 53) (hm0 : m ≠ 0) (he : -1074 ≤ e) (hlt : e < ulpExp (m * 2 ^ e)) :
    |m| = 2 ^ 53 ∧ ulpExp (m * 2 ^ e) = e + 1 := by
  have hpow : (0 : ℚ) < 2 ^ e := by positivity
  have habs : |(m : ℚ) * 2 ^ e| = |m| * 2 ^ e := by rw [abs_mul, abs_of_pos hpow, Int.cast_abs]
  have hpos : (0 : ℚ) < |(m : ℚ) * 2 ^ e| := by
    rw [habs]
    exact mul_pos (by exact_mod_cast abs_pos.mpr hm0) hpow
  have hlog : (2 : ℚ) ^ Int.log 2 |(m : ℚ) * 2 ^ e| ≤ |m| * 2 ^ e := by
    rw [← habs]
    exact_mod_cast Int.zpow_log_le_self (by norm_num) hpos
  have hbig : e + 53 ≤ Int.log 2 |(m : ℚ) * 2 ^ e| := by
    rw [ulpExp, lt_max_iff] at hlt
    omega
  have hsplit : (2 : ℚ) ^ (e + 53) = 2 ^ 53 * 2 ^ e := by
    rw [zpow_add₀ (by norm_num), mul_comm]
    norm_num
  have hm' : |m| = 2 ^ 53 := by
    refine le_antisymm hm ?_
    have hle : (2 : ℚ) ^ (e + 53) ≤ |m| * 2 ^ e := (zpow_le_zpow_right₀ (by norm_num) hbig).trans hlog
    rw [hsplit] at hle
    exact_mod_cast le_of_mul_le_mul_right hle hpow
  refine ⟨hm', ?_⟩
  have heq : |(m : ℚ) * 2 ^ e| = (2 : ℕ) ^ (e + 53) := by
    rw [habs, hm']
    exact_mod_cast hsplit.symm
  rw [ulpExp, heq, Int.log_zpow (by norm_num)]
  omega

/-- A double is a whole number of units of its last place. -/
theorem exists_mul_ulp {v : ℚ} (h : IsDouble v) : ∃ n : ℤ, v / 2 ^ ulpExp v = n := by
  obtain ⟨-, m, e, hm, he, rfl⟩ := h
  by_cases hle : ulpExp (m * 2 ^ e) ≤ e
  · -- The last place is not above the exponent of the significand.
    obtain ⟨k, hk⟩ := Int.eq_ofNat_of_zero_le (Int.sub_nonneg.mpr hle)
    refine ⟨m * 2 ^ k, ?_⟩
    rw [mul_div_assoc, ← zpow_sub₀ (by norm_num), hk]
    push_cast
    rfl
  · rcases eq_or_ne m 0 with rfl | hm0
    · exact ⟨0, by simp⟩
    obtain ⟨hm', hexp⟩ := ulpExp_of_lt hm hm0 he (not_le.mp hle)
    obtain ⟨k, rfl⟩ : (2 : ℤ) ∣ m := by
      rw [← dvd_abs, hm']
      exact ⟨2 ^ 52, by norm_num⟩
    refine ⟨k, ?_⟩
    rw [hexp, zpow_add₀ (by norm_num)]
    field_simp
    push_cast
    ring

/-- **Rounding leaves a double alone.** -/
theorem round_of_isDouble {v : ℚ} (h : IsDouble v) : round v = some v := by
  obtain ⟨n, hn⟩ := exists_mul_ulp h
  have hv : (roundEven (v / 2 ^ ulpExp v) * 2 ^ ulpExp v : ℚ) = v := by
    rw [hn, roundEven_intCast, ← hn, div_mul_cancel₀]
    positivity
  unfold round
  rw [hv]
  exact if_pos h.1

/-- **A number survives rounding exactly when it is a double.** -/
theorem round_eq_self_iff {v : ℚ} : round v = some v ↔ IsDouble v := ⟨round_isDouble, round_of_isDouble⟩

/-- Rounding stays above a power of two. -/
theorem le_round {q v : ℚ} {k : ℤ} (hk : -1022 ≤ k) (h : 2 ^ k ≤ q) (hv : round q = some v) : 2 ^ k ≤ v := by
  obtain ⟨-, hv⟩ := Option.ite_none_right_eq_some.mp hv
  rw [Option.some.injEq] at hv
  have hq : 0 < q := lt_of_lt_of_le (by positivity) h
  have habs : |q| = q := abs_of_pos hq
  have hlog : k ≤ Int.log 2 |q| := by
    rw [habs]
    exact (Int.zpow_le_iff_le_log (by norm_num) hq).mp (by exact_mod_cast h)
  have hexp : ulpExp q = Int.log 2 |q| - 52 := max_eq_left (by omega)
  have hpow : (0 : ℚ) < 2 ^ ulpExp q := by positivity
  have hsplit : (2 : ℚ) ^ Int.log 2 |q| = ((2 ^ 52 : ℤ) : ℚ) * 2 ^ ulpExp q := by
    rw [hexp, zpow_sub₀ (by norm_num)]
    field_simp
    norm_num
  have hunits : 2 ^ 52 ≤ roundEven (q / 2 ^ ulpExp q) := by
    refine le_roundEven ?_
    rw [le_div_iff₀ hpow, ← hsplit, habs]
    exact_mod_cast Int.zpow_log_le_self (by norm_num) hq
  calc (2 : ℚ) ^ k ≤ 2 ^ Int.log 2 |q| := zpow_le_zpow_right₀ (by norm_num) hlog
    _ = ((2 ^ 52 : ℤ) : ℚ) * 2 ^ ulpExp q := hsplit
    _ ≤ roundEven (q / 2 ^ ulpExp q) * 2 ^ ulpExp q := mul_le_mul_of_nonneg_right (by exact_mod_cast hunits) hpow.le
    _ = v := hv

/-- An integer of 53 bits is a double. -/
theorem isDouble_natCast {n : ℕ} (h : n ≤ 2 ^ 53) : IsDouble n := by
  refine ⟨?_, n, 0, ?_, by norm_num, by simp⟩
  · have hle : (n : ℚ) ≤ 2 ^ 53 := by exact_mod_cast h
    rw [Nat.abs_cast]
    exact lt_of_le_of_lt hle (pow_lt_pow_right₀ (by norm_num) (by norm_num))
  · rw [Nat.abs_cast]
    exact_mod_cast h

/-- A power of two is a double. -/
theorem isDouble_two_pow {k : ℕ} (h : k < 1024) : IsDouble (2 ^ k) := by
  refine ⟨?_, 1, k, by norm_num, by omega, by simp⟩
  rw [abs_of_pos (by positivity)]
  exact pow_lt_pow_right₀ (by norm_num) h

/-- A double above a power of two can be divided by it. -/
theorem IsDouble.div_two_pow {v : ℚ} {k : ℕ} (hv : IsDouble v) (h : 2 ^ k ≤ v) : IsDouble (v / 2 ^ k) := by
  obtain ⟨hmax, m, e, hm, -, rfl⟩ := hv
  have hpow : (0 : ℚ) < 2 ^ e := by positivity
  have he : (k : ℤ) ≤ 53 + e := by
    refine (zpow_le_zpow_iff_right₀ (by norm_num : (1 : ℚ) < 2)).mp ?_
    have hm' : (m : ℚ) ≤ 2 ^ 53 := by exact_mod_cast (le_abs_self m).trans hm
    calc (2 : ℚ) ^ (k : ℤ) = 2 ^ k := zpow_natCast _ _
      _ ≤ m * 2 ^ e := h
      _ ≤ 2 ^ 53 * 2 ^ e := mul_le_mul_of_nonneg_right hm' hpow.le
      _ = 2 ^ (53 + e) := by rw [zpow_add₀ (by norm_num), zpow_ofNat]
  refine ⟨?_, m, e - k, hm, by omega, ?_⟩
  · rw [abs_div, abs_of_pos (by positivity : (0 : ℚ) < 2 ^ k)]
    exact lt_of_le_of_lt (div_le_self (abs_nonneg _) (one_le_pow₀ (by norm_num))) hmax
  · rw [zpow_sub₀ (by norm_num), zpow_natCast, mul_div_assoc]

/-! ## Rounding and order -/

section Monotone

variable {q v d : ℚ}

theorem ulpExp_mono (hq : 0 < q) (h : q ≤ d) : ulpExp q ≤ ulpExp d := by
  have hd : 0 < d := lt_of_lt_of_le hq h
  unfold ulpExp
  rw [abs_of_pos hq, abs_of_pos hd]
  exact max_le_max_right _ (sub_le_sub_right (Int.log_mono_right hq h) 52)

/-- A double in units of a place that is not above its last one. -/
theorem exists_mul_two_zpow (hd : IsDouble d) {e : ℤ} (he : e ≤ ulpExp d) : ∃ n : ℤ, d / 2 ^ e = n := by
  obtain ⟨n, hn⟩ := exists_mul_ulp hd
  obtain ⟨k, hk⟩ := Int.eq_ofNat_of_zero_le (Int.sub_nonneg.mpr he)
  have hsplit : (2 : ℚ) ^ ulpExp d = 2 ^ e * 2 ^ k := by
    rw [← zpow_natCast, ← zpow_add₀ (by norm_num)]
    exact congrArg _ (by omega)
  refine ⟨n * 2 ^ k, ?_⟩
  push_cast
  rw [← hn, hsplit]
  field_simp

/-- **Rounding stays below a double.** -/
theorem round_le (hq : 0 ≤ q) (hd : IsDouble d) (h : q ≤ d) (hv : round q = some v) : v ≤ d := by
  rcases hq.eq_or_lt with rfl | hpos
  · have hzero : IsDouble (0 : ℚ) := by simpa using isDouble_natCast (Nat.zero_le (2 ^ 53))
    rw [round_of_isDouble hzero, Option.some.injEq] at hv
    exact hv ▸ h
  · obtain ⟨-, hv⟩ := Option.ite_none_right_eq_some.mp hv
    rw [Option.some.injEq] at hv
    have hpow : (0 : ℚ) < 2 ^ ulpExp q := by positivity
    obtain ⟨n, hn⟩ := exists_mul_two_zpow hd (ulpExp_mono hpos h)
    have hunits : roundEven (q / 2 ^ ulpExp q) ≤ n := roundEven_le (hn ▸ div_le_div_of_nonneg_right h hpow.le)
    calc v = roundEven (q / 2 ^ ulpExp q) * 2 ^ ulpExp q := hv.symm
      _ ≤ n * 2 ^ ulpExp q := mul_le_mul_of_nonneg_right (by exact_mod_cast hunits) hpow.le
      _ = d := by rw [← hn, div_mul_cancel₀ _ hpow.ne']

/-- **Rounding stays above a double.** -/
theorem round_ge (hd : IsDouble d) (hpos : 0 < d) (h : d ≤ q) (hv : round q = some v) : d ≤ v := by
  have hq : 0 < q := lt_of_lt_of_le hpos h
  rcases (ulpExp_mono hpos h).eq_or_lt with heq | hlt
  · obtain ⟨-, hv⟩ := Option.ite_none_right_eq_some.mp hv
    rw [Option.some.injEq] at hv
    have hpow : (0 : ℚ) < 2 ^ ulpExp q := by positivity
    obtain ⟨n, hn⟩ := exists_mul_two_zpow hd heq.ge
    have hunits : n ≤ roundEven (q / 2 ^ ulpExp q) := le_roundEven (hn ▸ div_le_div_of_nonneg_right h hpow.le)
    calc d = n * 2 ^ ulpExp q := by rw [← hn, div_mul_cancel₀ _ hpow.ne']
      _ ≤ roundEven (q / 2 ^ ulpExp q) * 2 ^ ulpExp q := mul_le_mul_of_nonneg_right (by exact_mod_cast hunits) hpow.le
      _ = v := hv
  · -- The last place of the number is a higher one, so a power of two is between them.
    have hexp : ulpExp q = Int.log 2 q - 52 ∧ Int.log 2 d + 1 ≤ Int.log 2 q ∧ -1022 ≤ Int.log 2 q := by
      unfold ulpExp at hlt ⊢
      rw [abs_of_pos hq, abs_of_pos hpos] at hlt
      rw [abs_of_pos hq]
      omega
    have hbelow : d < 2 ^ (Int.log 2 d + 1) := Int.lt_zpow_succ_log_self (by norm_num) d
    have hpower : (2 : ℚ) ^ Int.log 2 q ≤ q := by exact_mod_cast Int.zpow_log_le_self (by norm_num) hq
    calc d ≤ 2 ^ (Int.log 2 d + 1) := hbelow.le
      _ ≤ 2 ^ Int.log 2 q := zpow_le_zpow_right₀ (by norm_num) hexp.2.1
      _ ≤ v := le_round hexp.2.2 hpower hv

end Monotone

/-- Rounding a number and its opposite. -/
theorem roundEven_neg (x : ℚ) : roundEven (-x) = -roundEven x := by
  rcases eq_or_ne (⌊x⌋ : ℚ) x with hx | hx
  · rw [← hx, ← Int.cast_neg, roundEven_intCast, roundEven_intCast]
  · have hlt : (⌊x⌋ : ℚ) < x := lt_of_le_of_ne (Int.floor_le x) hx
    have hfloor : ⌊-x⌋ = -⌊x⌋ - 1 := by
      rw [Int.floor_eq_iff]
      have hnext := Int.lt_floor_add_one x
      push_cast
      constructor <;> linarith
    unfold roundEven
    rw [hfloor]
    push_cast
    have hfrac : -x - (-(⌊x⌋ : ℚ) - 1) = 1 - (x - ⌊x⌋) := by ring
    rw [hfrac]
    rcases lt_trichotomy (x - ⌊x⌋) (1 / 2) with h | h | h
    · have hless : ¬1 - (x - ⌊x⌋) < 1 / 2 := by linarith
      have hmore : 1 / 2 < 1 - (x - ⌊x⌋) := by linarith
      rw [if_pos h, if_neg hless, if_pos hmore]
      omega
    · have hhalf : (1 : ℚ) - 1 / 2 = 1 / 2 := by norm_num
      rw [h, hhalf, if_neg (lt_irrefl _), if_neg (lt_irrefl _), if_neg (lt_irrefl _), if_neg (lt_irrefl _)]
      -- Of the two neighbours, the even one is chosen on both sides.
      by_cases heven : ⌊x⌋ % 2 = 0
      · rw [if_pos heven, if_neg (by omega)]
        omega
      · rw [if_neg heven, if_pos (by omega)]
        omega
    · have hless : ¬x - ⌊x⌋ < 1 / 2 := by linarith
      have hother : 1 - (x - ⌊x⌋) < 1 / 2 := by linarith
      rw [if_neg hless, if_pos h, if_pos hother]
      omega

theorem round_neg (q : ℚ) : round (-q) = (round q).map Neg.neg := by
  have hexp : ulpExp (-q) = ulpExp q := by rw [ulpExp, ulpExp, abs_neg]
  unfold round
  simp only [hexp, neg_div, roundEven_neg, Int.cast_neg, neg_mul, abs_neg]
  split <;> rfl

/-- An integer is rounded to an integer. -/
theorem round_intCast {n : ℤ} {v : ℚ} (h : round n = some v) : ∃ m : ℤ, v = m := by
  have hv := (Option.ite_none_right_eq_some.mp h).2
  rw [Option.some.injEq] at hv
  rcases le_or_gt 0 (ulpExp (n : ℚ)) with hexp | hexp
  · obtain ⟨k, hk⟩ := Int.eq_ofNat_of_zero_le hexp
    refine ⟨roundEven (n / 2 ^ ulpExp (n : ℚ)) * 2 ^ k, ?_⟩
    rw [← hv, hk]
    push_cast
    rfl
  · -- In smaller units it is an integer already.
    obtain ⟨k, hk⟩ := Int.eq_ofNat_of_zero_le (Int.neg_nonneg.mpr hexp.le)
    have hunits : (n : ℚ) / 2 ^ ulpExp (n : ℚ) = ((n * 2 ^ k : ℤ) : ℚ) := by
      have hneg : ulpExp (n : ℚ) = -(k : ℤ) := by omega
      rw [hneg, zpow_neg, zpow_natCast, div_inv_eq_mul]
      push_cast
      rfl
    rw [hunits, roundEven_intCast, ← hunits, div_mul_cancel₀ _ (by positivity)] at hv
    exact ⟨n, hv.symm⟩

/-! ## Magnitudes -/

theorem round_nonneg {q v : ℚ} (hq : 0 ≤ q) (h : round q = some v) : 0 ≤ v := by
  obtain ⟨-, hv⟩ := Option.ite_none_right_eq_some.mp h
  rw [Option.some.injEq] at hv
  have hpow : (0 : ℚ) < 2 ^ ulpExp q := by positivity
  have hround : 0 ≤ roundEven (q / 2 ^ ulpExp q) := le_roundEven (n := 0) (by rw [Int.cast_zero]; positivity)
  rw [← hv]
  exact mul_nonneg (by exact_mod_cast hround) hpow.le

/-- Rounding of a magnitude. -/
def nearest (q : ℚ≥0) : Option ℚ≥0 := (round q).map Rat.toNNRat

theorem nearest_eq_some {q v : ℚ≥0} : nearest q = some v ↔ round q = some (v : ℚ) := by
  constructor
  · intro h
    obtain ⟨w, hw, rfl⟩ := Option.map_eq_some_iff.mp h
    rw [hw, Rat.coe_toNNRat w (round_nonneg q.2 hw)]
  · intro h
    rw [nearest, h, Option.map_some, NNRat.toNNRat_coe]

/-- A magnitude is rounded to a double, which stays as it is. -/
theorem nearest_isDouble {q v : ℚ≥0} (h : nearest q = some v) : IsDouble v := round_isDouble (nearest_eq_some.mp h)

theorem nearest_of_isDouble {v : ℚ≥0} (h : IsDouble v) : nearest v = some v := nearest_eq_some.mpr (round_of_isDouble h)

theorem nearest_natCast {n : ℕ} (h : n ≤ 2 ^ 53) : nearest (n : ℚ≥0) = some (n : ℚ≥0) :=
  nearest_eq_some.mpr (by rw [NNRat.cast_natCast, round_of_isDouble (isDouble_natCast h)])

/-- No other integer rounds to an integer of 53 bits. -/
theorem eq_of_nearest_natCast {k n : ℕ} (hn : n < 2 ^ 53) (h : nearest (k : ℚ≥0) = some (n : ℚ≥0)) : k = n := by
  rcases le_or_gt k (2 ^ 53) with hle | hgt
  · have hself : (k : ℚ≥0) = n := Option.some.inj ((nearest_natCast hle).symm.trans h)
    exact Nat.cast_injective hself
  · have hround : round (k : ℚ) = some (n : ℚ) := by
      have := nearest_eq_some.mp h
      rwa [NNRat.cast_natCast, NNRat.cast_natCast] at this
    have hpow : (2 : ℚ) ^ ((53 : ℕ) : ℤ) = ((2 ^ 53 : ℕ) : ℚ) := by
      rw [zpow_natCast, Nat.cast_pow, Nat.cast_ofNat]
    have hlarge : (2 : ℚ) ^ ((53 : ℕ) : ℤ) ≤ n := by
      refine le_round (by omega) ?_ hround
      rw [hpow]
      exact Nat.cast_le.mpr hgt.le
    rw [hpow] at hlarge
    exact absurd hn (not_lt.mpr (Nat.cast_le.mp hlarge))

end LaManchaland.Float64
