import Mathlib.Data.Int.Log
import Mathlib.Data.Rat.Floor
import Mathlib.Tactic.Linarith
import Mathlib.Tactic.Ring

/-! Rounding to 53 binary digits, to the nearest and in a tie to the even one. Numbers are
nonnegative rationals in the normal range of a double. -/
namespace Binary64

/-- The nearest integer; halfway between two the even one. -/
def nearest (q : ℚ) : ℤ :=
  if q - ⌊q⌋ < 1 / 2 then ⌊q⌋
  else if 1 / 2 < q - ⌊q⌋ then ⌊q⌋ + 1
  else if Even ⌊q⌋ then ⌊q⌋
  else ⌊q⌋ + 1

/-- The value of the last of 53 digits. -/
def lastDigit (q : ℚ) : ℚ := 2 ^ (Int.log 2 q - 52)

/-- The double nearest to `q`. -/
def round (q : ℚ) : ℚ := nearest (q / lastDigit q) * lastDigit q

theorem abs_nearest_sub_le (q : ℚ) : |nearest q - q| ≤ 1 / 2 := by
  have hfloor := Int.floor_le q
  have hlt := Int.lt_floor_add_one q
  unfold nearest
  split_ifs <;> rw [abs_le] <;> push_cast <;> constructor <;> linarith

/-- Whoever is nearer than a half is the nearest. -/
theorem nearest_eq {q : ℚ} {n : ℤ} (h : |q - n| < 1 / 2) : nearest q = n := by
  have hnear := abs_nearest_sub_le q
  have hlt : |((nearest q - n : ℤ) : ℚ)| < 1 := by
    push_cast
    calc |(nearest q : ℚ) - n| = |(nearest q - q) + (q - n)| := by ring_nf
      _ ≤ |(nearest q : ℚ) - q| + |q - n| := abs_add_le _ _
      _ < 1 := by linarith
  have hzero : nearest q - n = 0 := Int.abs_lt_one_iff.mp (by exact_mod_cast hlt)
  exact sub_eq_zero.mp hzero

theorem nearest_zero : nearest 0 = 0 := nearest_eq (by norm_num)

theorem le_nearest {q : ℚ} {n : ℤ} (h : (n : ℚ) - 1 / 2 < q) : n ≤ nearest q := by
  have hnear := abs_nearest_sub_le q
  rw [abs_le] at hnear
  have hlt : (n : ℚ) - 1 < nearest q := by linarith
  exact Int.sub_one_lt_iff.mp (by exact_mod_cast hlt)

theorem lastDigit_pos (q : ℚ) : 0 < lastDigit q := zpow_pos (by norm_num) _

/-- The last digit is small against the number. -/
theorem lastDigit_le {q : ℚ} (hq : 0 < q) : lastDigit q ≤ q / 2 ^ 52 := by
  have hlog : (2 : ℚ) ^ Int.log 2 q ≤ q := by
    have h := Int.zpow_log_le_self (b := 2) (by norm_num) hq
    exact_mod_cast h
  unfold lastDigit
  rw [zpow_sub₀ (by norm_num), le_div_iff₀ (by norm_num)]
  norm_num
  exact hlog

theorem round_zero : round 0 = 0 := by
  unfold round
  rw [zero_div, nearest_zero]
  simp

/-- Rounding costs half a last digit at most. -/
theorem abs_round_sub_le {q : ℚ} (hq : 0 ≤ q) : |round q - q| ≤ q / 2 ^ 53 := by
  rcases hq.eq_or_lt with rfl | hq
  · simp [round_zero]
  have hpos := lastDigit_pos q
  have hsplit : round q - q = (nearest (q / lastDigit q) - q / lastDigit q) * lastDigit q := by
    unfold round
    rw [sub_mul, div_mul_cancel₀ q hpos.ne']
  rw [hsplit, abs_mul, abs_of_pos hpos]
  have hnear := abs_nearest_sub_le (q / lastDigit q)
  have hdigit := lastDigit_le hq
  calc |(nearest (q / lastDigit q) : ℚ) - q / lastDigit q| * lastDigit q
      ≤ 1 / 2 * lastDigit q := by gcongr
    _ ≤ 1 / 2 * (q / 2 ^ 52) := by gcongr
    _ = q / 2 ^ 53 := by ring

end Binary64
