import Mathlib

/-!
# The sine of the natural numbers, from Gaussian integers

`exp(i)` is close to a Gaussian integer `expNumerator n` over `(n - 1)!`: the Taylor sum of `n`
terms. Its powers are close to `exp(k * i)`, whose imaginary part is `sin k`; `sinNumerator` is
that of the power. `abs_sin_sub_le` bounds the distance, which the factorial makes as small as
needed, so that a statement about the digits of `sin k` is a computation with integers.
-/

namespace Sine

open Complex Finset

/-- `(n - 1)!` times the first `n` terms of the Taylor series of `exp(i)`. -/
def expNumerator : ℕ → GaussianInt
  | 0 => 0
  | n + 1 => n * expNumerator n + ⟨0, 1⟩ ^ n

/-- The numerator of an approximation of `sin k`, over `(n ! ) ^ k`. -/
def sinNumerator (n k : ℕ) : ℤ := (expNumerator (n + 1) ^ k).im

theorem toComplex_expNumerator (n : ℕ) :
    (expNumerator (n + 1) : ℂ) = n.factorial * ∑ m ∈ range (n + 1), I ^ m / m.factorial := by
  have hI : GaussianInt.toComplex ⟨0, 1⟩ = I := by simp [GaussianInt.toComplex_def']
  induction n with
  | zero => simp [expNumerator]
  | succ n ih =>
    have hfact : ((n + 1).factorial : ℂ) ≠ 0 := by exact_mod_cast (n + 1).factorial_ne_zero
    rw [expNumerator, map_add, map_mul, map_natCast, map_pow, hI, ih, sum_range_succ _ (n + 1),
      mul_add, mul_div_cancel₀ _ hfact, Nat.factorial_succ]
    push_cast
    ring

/-- The error of the Taylor sum of `n + 1` terms. -/
noncomputable def taylorError (n : ℕ) : ℝ :=
  ((n + 1).succ : ℝ) * ((n + 1).factorial * (n + 1 : ℕ) : ℝ)⁻¹

theorem norm_exp_sub_le (n : ℕ) :
    ‖exp I - expNumerator (n + 1) / n.factorial‖ ≤ taylorError n := by
  have hfact : (n.factorial : ℂ) ≠ 0 := by exact_mod_cast n.factorial_ne_zero
  have hbound := Complex.exp_bound (x := I) (by simp) (Nat.succ_pos n)
  rw [toComplex_expNumerator, mul_div_cancel_left₀ _ hfact]
  simpa [taylorError] using hbound

/-- Powers of close numbers are close. -/
theorem norm_pow_sub_le {u z : ℂ} {e : ℝ} (hu : ‖u‖ = 1) (h : ‖u - z‖ ≤ e) (he : e ≤ 1) (k : ℕ) :
    ‖u ^ k - z ^ k‖ ≤ 2 ^ k * e := by
  have he0 : 0 ≤ e := (norm_nonneg _).trans h
  have hz : ‖z‖ ≤ 2 := by
    have := norm_sub_norm_le z u
    rw [norm_sub_rev, hu] at this
    linarith
  induction k with
  | zero => simpa using he0
  | succ k ih =>
    have hsplit : u ^ (k + 1) - z ^ (k + 1) = (u ^ k - z ^ k) * u + z ^ k * (u - z) := by ring
    have hzk : ‖z ^ k‖ ≤ 2 ^ k := by
      rw [norm_pow]
      exact pow_le_pow_left₀ (norm_nonneg z) hz k
    calc ‖u ^ (k + 1) - z ^ (k + 1)‖
        ≤ ‖u ^ k - z ^ k‖ * ‖u‖ + ‖z ^ k‖ * ‖u - z‖ := by
          rw [hsplit, ← norm_mul, ← norm_mul]
          exact norm_add_le _ _
      _ ≤ 2 ^ k * e * 1 + 2 ^ k * e := by rw [hu]; gcongr
      _ = 2 ^ (k + 1) * e := by ring

/-- How close the approximation of `sin k` is. -/
theorem abs_sin_sub_le {n : ℕ} (he : taylorError n ≤ 1) (k : ℕ) :
    |Real.sin k - sinNumerator n k / (n.factorial : ℝ) ^ k| ≤ 2 ^ k * taylorError n := by
  have hu : ‖exp I‖ = 1 := by simpa using norm_exp_ofReal_mul_I 1
  have hpow := norm_pow_sub_le hu (norm_exp_sub_le n) he k
  have hexp : (exp I ^ k).im = Real.sin k := by
    rw [← exp_nat_mul, ← ofReal_natCast, exp_ofReal_mul_I_im]
  have him : ((expNumerator (n + 1) / n.factorial : ℂ) ^ k).im =
      sinNumerator n k / (n.factorial : ℝ) ^ k := by
    rw [div_pow, ← map_pow, ← Nat.cast_pow, div_natCast_im, sinNumerator, Nat.cast_pow,
      GaussianInt.intCast_im]
  rw [← hexp, ← him, ← sub_im]
  exact (abs_im_le_norm _).trans hpow

/-- The first `n` bits behind the point of `|x|`, from a fraction that is close to `x` and whose own
bits stay away from a carry by `m` more. -/
theorem floor_eq_of_close {x : ℝ} {s : ℤ} {d k n m : ℕ} (hd : 0 < d)
    (hclose : |x - s / d| ≤ 1 / 2 ^ (n + m))
    (hlow : 2 ^ m * (k * d) + d ≤ 2 ^ (n + m) * s.natAbs)
    (hhigh : 2 ^ (n + m) * s.natAbs + d < 2 ^ m * ((k + 1) * d)) : ⌊2 ^ n * |x|⌋₊ = k := by
  have hd' : (0 : ℝ) < d := by exact_mod_cast hd
  have hm : (0 : ℝ) < 2 ^ m := by positivity
  have hnm : (0 : ℝ) < 2 ^ (n + m) := by positivity
  have hs : ((s.natAbs : ℕ) : ℝ) = |(s : ℝ)| := by rw [Nat.cast_natAbs, Int.cast_abs]
  obtain ⟨hle, hge⟩ : |x| ≤ |(s : ℝ)| / d + 1 / 2 ^ (n + m) ∧
      |(s : ℝ)| / d ≤ |x| + 1 / 2 ^ (n + m) := by
    have habs := abs_le.mp ((abs_abs_sub_abs_le x (s / d)).trans hclose)
    rw [abs_div, abs_of_pos hd'] at habs
    constructor <;> linarith [habs.1, habs.2]
  have hscale : ∀ y : ℝ, 2 ^ (n + m) * d * y = 2 ^ m * d * (2 ^ n * y) := fun y => by ring
  have hfrac : (2 : ℝ) ^ (n + m) * d * (|(s : ℝ)| / d) = 2 ^ (n + m) * |(s : ℝ)| := by
    field_simp
  have hone : (2 : ℝ) ^ (n + m) * d * (1 / 2 ^ (n + m)) = d := by field_simp
  have hle' := mul_le_mul_of_nonneg_left hle (mul_pos hnm hd').le
  have hge' := mul_le_mul_of_nonneg_left hge (mul_pos hnm hd').le
  rw [mul_add, hfrac, hone, hscale] at hle' hge'
  have hlow' : (2 : ℝ) ^ m * (k * d) + d ≤ 2 ^ (n + m) * |(s : ℝ)| := by
    rw [← hs]; exact_mod_cast hlow
  have hhigh' : (2 : ℝ) ^ (n + m) * |(s : ℝ)| + d < 2 ^ m * ((k + 1) * d) := by
    rw [← hs]; exact_mod_cast hhigh
  rw [Nat.floor_eq_iff (by positivity)]
  constructor
  · have : (2 : ℝ) ^ m * d * k ≤ 2 ^ m * d * (2 ^ n * |x|) := by linarith
    exact le_of_mul_le_mul_left this (by positivity)
  · have : (2 : ℝ) ^ m * d * (2 ^ n * |x|) < 2 ^ m * d * (k + 1) := by linarith
    exact lt_of_mul_lt_mul_left this (by positivity)

end Sine
