import Mathlib

namespace FtTraceroute.Library.Rounding

/-- The nearest integer, the even one of two. -/
def roundEven (q : ℚ) : ℤ :=
  if q - ⌊q⌋ < 1 / 2 then ⌊q⌋
  else if 1 / 2 < q - ⌊q⌋ then ⌊q⌋ + 1
  else ⌊q⌋ + ⌊q⌋ % 2

/-- The last place of a number of the size of `q` with `p` binary digits. -/
def ulp (p : ℕ) (q : ℚ) : ℚ := 2 ^ (Int.log 2 |q| - (p - 1))

/-- The nearest number with `p` binary digits, from its first digit on. The exponents have
no bounds. -/
def roundDigits (p : ℕ) (q : ℚ) : ℚ := roundEven (q / ulp p q) * ulp p q

variable {p : ℕ} {q : ℚ} {n : ℤ}

theorem roundEven_int (n : ℤ) : roundEven n = n := by
  simp [roundEven]

theorem roundEven_error (q : ℚ) : |roundEven q - q| ≤ 1 / 2 := by
  have hlow := Int.floor_le q
  have hhigh := Int.lt_floor_add_one q
  unfold roundEven
  split
  · rw [abs_le]
    constructor <;> linarith
  · split
    · push_cast
      rw [abs_le]
      constructor <;> linarith
    · have hhalf : q - ⌊q⌋ = 1 / 2 := by linarith
      obtain heven | hodd := Int.emod_two_eq_zero_or_one ⌊q⌋
      · rw [heven, add_zero, abs_le]
        constructor <;> linarith
      · rw [hodd]
        push_cast
        rw [abs_le]
        constructor <;> linarith

theorem roundEven_of_near (h : |q - n| < 1 / 2) : roundEven q = n := by
  have hclose : |((roundEven q - n : ℤ) : ℚ)| < 1 := by
    have hsplit : ((roundEven q - n : ℤ) : ℚ) = (roundEven q - q) + (q - n) := by
      push_cast
      ring
    calc |((roundEven q - n : ℤ) : ℚ)| ≤ |roundEven q - q| + |q - n| := by
          rw [hsplit]
          exact abs_add_le _ _
      _ < 1 := by linarith [roundEven_error q]
  have hzero : |roundEven q - n| < 1 := by exact_mod_cast hclose
  rw [Int.abs_lt_one_iff] at hzero
  omega

theorem ulp_pos (p : ℕ) (q : ℚ) : 0 < ulp p q := zpow_pos (by norm_num) _

theorem roundDigits_error (p : ℕ) (q : ℚ) : |roundDigits p q - q| ≤ ulp p q / 2 := by
  have hpos := ulp_pos p q
  have hscale : roundDigits p q - q = (roundEven (q / ulp p q) - q / ulp p q) * ulp p q := by
    rw [roundDigits, sub_mul, div_mul_cancel₀ q hpos.ne']
  rw [hscale, abs_mul, abs_of_pos hpos]
  have herror := mul_le_mul_of_nonneg_right (roundEven_error (q / ulp p q)) hpos.le
  linarith

theorem ulp_le (hq : q ≠ 0) : ulp p q ≤ |q| * 2 ^ (1 - p : ℤ) := by
  have hlog : ((2 : ℕ) : ℚ) ^ Int.log 2 |q| ≤ |q| :=
    Int.zpow_log_le_self (by decide) (abs_pos.mpr hq)
  have hsplit : ulp p q = 2 ^ Int.log 2 |q| * 2 ^ (1 - p : ℤ) := by
    rw [ulp, ← zpow_add₀ (by norm_num)]
    congr 1
    ring
  rw [hsplit]
  exact mul_le_mul_of_nonneg_right (by exact_mod_cast hlog) (zpow_nonneg (by norm_num) _)

/-- The relative error is at most half a unit of the last of `p` digits. -/
theorem roundDigits_relative (p : ℕ) (q : ℚ) : |roundDigits p q - q| ≤ |q| * 2 ^ (-p : ℤ) := by
  obtain rfl | hq := eq_or_ne q 0
  · have hzero : roundEven 0 = 0 := roundEven_int 0
    simp [roundDigits, hzero]
  · have hhalf : (2 : ℚ) ^ (1 - p : ℤ) = 2 * 2 ^ (-p : ℤ) := by
      rw [sub_eq_add_neg, zpow_add₀ (by norm_num), zpow_one]
    have hulp := ulp_le (p := p) hq
    rw [hhalf] at hulp
    linarith [roundDigits_error p q]

theorem roundDigits_int (h : |n| < 2 ^ p) : roundDigits p n = n := by
  obtain rfl | hn := eq_or_ne n 0
  · have hzero : roundEven 0 = 0 := roundEven_int 0
    simp [roundDigits, hzero]
  · have hpos : (0 : ℚ) < |(n : ℚ)| := abs_pos.mpr (Int.cast_ne_zero.mpr hn)
    have hlog : Int.log 2 |(n : ℚ)| < p := by
      rw [← Int.lt_zpow_iff_log_lt (by decide) hpos, zpow_natCast]
      exact_mod_cast h
    obtain ⟨k, hk⟩ : ∃ k : ℕ, Int.log 2 |(n : ℚ)| - (p - 1) = -k :=
      ⟨(p - 1 - Int.log 2 |(n : ℚ)|).toNat, by omega⟩
    have hulp : ulp p n = (2 ^ k)⁻¹ := by
      rw [ulp, hk, zpow_neg, zpow_natCast]
    have hint : (n : ℚ) / ulp p n = ((n * 2 ^ k : ℤ) : ℚ) := by
      rw [hulp, div_inv_eq_mul]
      push_cast
      rfl
    rw [roundDigits, hint, roundEven_int, ← hint, div_mul_cancel₀ _ (ulp_pos p n).ne']

example : roundDigits 53 (1 / 10) = 3602879701896397 / 36028797018963968 := by decide +kernel

end FtTraceroute.Library.Rounding
