/- GID: Craftec/Library/Binary64
   generality: G
   digest: Rounding to double precision, nearest with ties to even, and the bounds it keeps. -/

import Mathlib

set_option autoImplicit false
set_option relaxedAutoImplicit false

namespace Craftec.Library.Binary64

/-- The integer nearest to `x`, and the even one of two that are equally near. -/
def nearest (x : ℚ) : ℤ :=
  if 2 * Int.fract x < 1 ∨ 2 * Int.fract x = 1 ∧ ⌊x⌋ % 2 = 0 then ⌊x⌋ else ⌊x⌋ + 1

/-- The exponent of the last of the 53 bits kept of `x`. -/
def lastPlace (x : ℚ) : ℤ := max (Int.log 2 |x| - 52) (-1074)

/-- The double nearest to `x`; the magnitude of `x` is taken to be in range. -/
def rounded (x : ℚ) : ℚ := nearest (x / 2 ^ lastPlace x) * 2 ^ lastPlace x

theorem le_nearest {x : ℚ} {m : ℤ} (below : m ≤ x) : m ≤ nearest x := by
  have floor : m ≤ ⌊x⌋ := Int.le_floor.mpr below
  unfold nearest
  split <;> omega

theorem nearest_le {x : ℚ} {m : ℤ} (above : x ≤ m) : nearest x ≤ m := by
  have bounds := Int.fract_add_floor x
  unfold nearest
  split
  · exact_mod_cast (Int.floor_le x).trans above
  · rename_i away
    -- a fraction is left over, so the floor lies strictly below `m`
    have left : 0 < Int.fract x := by
      by_contra none_
      exact away (Or.inl (by linarith))
    have strict : ((⌊x⌋ : ℤ) : ℚ) < m := by linarith
    exact Int.add_one_le_iff.mpr (by exact_mod_cast strict)

theorem lastPlace_le {x : ℚ} {j : ℤ} (pos : 0 < x) (small : x < 2 ^ (j + 53)) (normal : -1074 ≤ j) :
    lastPlace x ≤ j := by
  have log : Int.log 2 |x| < j + 53 := by
    rw [abs_of_pos pos]
    exact (Int.lt_zpow_iff_log_lt one_lt_two pos).mp (by exact_mod_cast small)
  unfold lastPlace
  omega

theorem mul_zpow_eq {x : ℚ} {j : ℤ} (fine : lastPlace x ≤ j) (m : ℤ) :
    (m : ℚ) * 2 ^ j = ((m * 2 ^ (j - lastPlace x).toNat : ℤ) : ℚ) * 2 ^ lastPlace x := by
  have exponent : j = ((j - lastPlace x).toNat : ℤ) + lastPlace x := by omega
  push_cast
  rw [mul_assoc, ← zpow_natCast, ← zpow_add₀ (two_ne_zero), ← exponent]

theorem le_rounded {x : ℚ} {j : ℤ} (fine : lastPlace x ≤ j) {m : ℤ} (below : m * 2 ^ j ≤ x) :
    m * 2 ^ j ≤ rounded x := by
  have unit : (0 : ℚ) < 2 ^ lastPlace x := zpow_pos two_pos _
  rw [mul_zpow_eq fine] at below ⊢
  rw [← le_div_iff₀ unit] at below
  exact mul_le_mul_of_nonneg_right (by exact_mod_cast le_nearest below) unit.le

theorem rounded_le {x : ℚ} {j : ℤ} (fine : lastPlace x ≤ j) {m : ℤ} (above : x ≤ m * 2 ^ j) :
    rounded x ≤ m * 2 ^ j := by
  have unit : (0 : ℚ) < 2 ^ lastPlace x := zpow_pos two_pos _
  rw [mul_zpow_eq fine] at above ⊢
  rw [← div_le_iff₀ unit] at above
  exact mul_le_mul_of_nonneg_right (by exact_mod_cast nearest_le above) unit.le

theorem rounded_between {x : ℚ} {j a b : ℤ} (pos : 0 < x) (normal : -1074 ≤ j) (bits : b < 2 ^ 53)
    (low : a * 2 ^ j ≤ x) (high : x ≤ b * 2 ^ j) :
    a * 2 ^ j ≤ rounded x ∧ rounded x ≤ b * 2 ^ j := by
  have unit : (0 : ℚ) < 2 ^ j := zpow_pos two_pos _
  have small : x < 2 ^ (j + 53) := by
    calc x ≤ b * 2 ^ j := high
      _ < 2 ^ 53 * 2 ^ j := mul_lt_mul_of_pos_right (by exact_mod_cast bits) unit
      _ = 2 ^ (j + 53) := by rw [zpow_add₀ two_ne_zero, mul_comm]; norm_cast
  have fine := lastPlace_le pos small normal
  exact ⟨le_rounded fine low, rounded_le fine high⟩

end Craftec.Library.Binary64
