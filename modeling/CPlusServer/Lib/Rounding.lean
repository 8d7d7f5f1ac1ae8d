import Mathlib.Data.Int.Log
import Mathlib.Data.Rat.Floor
import Mathlib.Tactic.Linarith
import Mathlib.Tactic.Ring

/-!
# Binary rounding

A format has significands of `precision` bits and a least exponent. A rational is rounded to the
nearest number of the format, and between two as near to the even one. There is no greatest number
here: where a result is too large is for its reader to say.
-/

namespace CPlusServer.Lib

/-- The nearest integer, and of two as near the even one. -/
def roundEven (x : ℚ) : Int :=
  if x - ⌊x⌋ < 1 / 2 ∨ x - ⌊x⌋ = 1 / 2 ∧ ⌊x⌋ % 2 = 0 then ⌊x⌋ else ⌊x⌋ + 1

theorem le_roundEven {n : Int} {x : ℚ} (h : n ≤ x) : n ≤ roundEven x := by
  have hfloor : n ≤ ⌊x⌋ := Int.le_floor.2 h
  unfold roundEven
  split <;> omega

theorem abs_roundEven_sub_le (x : ℚ) : |roundEven x - x| ≤ 1 / 2 := by
  have hlow := Int.floor_le x
  unfold roundEven
  split
  · rename_i h
    have hnear : x - ⌊x⌋ ≤ 1 / 2 := by
      rcases h with hless | ⟨heq, -⟩
      · exact hless.le
      · exact heq.le
    rw [abs_sub_comm, abs_of_nonneg (sub_nonneg.2 hlow)]
    exact hnear
  · rename_i h
    have hfar : 1 / 2 ≤ x - ⌊x⌋ := not_lt.1 fun hless => h (.inl hless)
    have hhigh := Int.lt_floor_add_one x
    push_cast
    rw [abs_of_pos (sub_pos.2 hhigh)]
    linarith only [hfar]

theorem roundEven_intCast (n : Int) : roundEven n = n := by
  unfold roundEven
  rw [Int.floor_intCast, sub_self, if_pos (.inl one_half_pos)]

structure BinaryFormat where
  precision : Nat
  minExponent : Int
  precision_pos : 0 < precision
  minExponent_le : minExponent ≤ 0

namespace BinaryFormat

variable {F : BinaryFormat} {x : ℚ}

/-- The exponent of the last place of the significand of `x`. -/
def lastPlace (F : BinaryFormat) (x : ℚ) : Int :=
  max (Int.log 2 |x| + 1 - F.precision) F.minExponent

def round (F : BinaryFormat) (x : ℚ) : ℚ :=
  roundEven (x / 2 ^ F.lastPlace x) * 2 ^ F.lastPlace x

/-- A multiple of the last place bounds the rounded value where it bounds the exact one. -/
theorem mul_le_round {n : Int} (h : n * 2 ^ F.lastPlace x ≤ x) :
    n * 2 ^ F.lastPlace x ≤ F.round x := by
  have hpos : (0 : ℚ) < 2 ^ F.lastPlace x := zpow_pos two_pos _
  have hle : (n : ℚ) ≤ roundEven (x / 2 ^ F.lastPlace x) := by
    exact_mod_cast le_roundEven ((le_div_iff₀ hpos).2 h)
  exact mul_le_mul_of_nonneg_right hle hpos.le

theorem round_nonneg (h : 0 ≤ x) : 0 ≤ F.round x := by
  have hle := mul_le_round (F := F) (x := x) (n := 0)
  rw [Int.cast_zero, zero_mul] at hle
  exact hle h

/-- A number in the format's range of whole numbers is a multiple of a last place that is not
above the ones. -/
theorem intCast_le_round_of_lastPlace {n : Int} (hplace : F.lastPlace x ≤ 0) (h : n ≤ x) :
    n ≤ F.round x := by
  obtain ⟨k, hk⟩ := Int.eq_ofNat_of_zero_le (neg_nonneg.2 hplace)
  have hmul : ((n * 2 ^ k : Int) : ℚ) * 2 ^ F.lastPlace x = n := by
    rw [← neg_neg (F.lastPlace x), hk, zpow_neg, zpow_natCast]
    push_cast
    exact mul_inv_cancel_right₀ (pow_ne_zero k two_ne_zero) _
  have hle := mul_le_round (F := F) (x := x) (n := n * 2 ^ k)
  rw [hmul] at hle
  exact hle h

/-- Where the last place is above the ones, a number keeps the power of two below it. -/
theorem pow_le_round_of_lastPlace (hx : 0 < x) (hplace : 0 < F.lastPlace x) :
    2 ^ F.precision ≤ F.round x := by
  have hexp : F.lastPlace x = Int.log 2 x + 1 - F.precision := by
    have hmin := F.minExponent_le
    unfold lastPlace at hplace ⊢
    rw [abs_of_pos hx] at hplace ⊢
    omega
  have hprec := F.precision_pos
  have hpow : ((2 ^ (F.precision - 1) : Int) : ℚ) * 2 ^ F.lastPlace x = 2 ^ Int.log 2 x := by
    push_cast
    rw [← zpow_natCast, ← zpow_add₀ two_ne_zero, hexp]
    congr 1
    omega
  have hle := mul_le_round (F := F) (x := x) (n := 2 ^ (F.precision - 1))
  rw [hpow] at hle
  have hlog : (2 : ℚ) ^ Int.log 2 x ≤ x := by
    exact_mod_cast Int.zpow_log_le_self one_lt_two hx
  calc (2 : ℚ) ^ F.precision = 2 ^ (F.precision : Int) := (zpow_natCast _ _).symm
    _ ≤ 2 ^ Int.log 2 x := zpow_le_zpow_right₀ one_le_two (by omega)
    _ ≤ F.round x := hle hlog

/-- Rounding does not pass below a whole number that a significand can hold. -/
theorem intCast_le_round {n : Int} (hn : n ≤ 2 ^ F.precision) (h : n ≤ x) (hx : 0 < x) :
    n ≤ F.round x := by
  rcases le_or_gt (F.lastPlace x) 0 with hfine | hcoarse
  · exact intCast_le_round_of_lastPlace hfine h
  · have hle : (n : ℚ) ≤ 2 ^ F.precision := by exact_mod_cast hn
    exact hle.trans (pow_le_round_of_lastPlace hx hcoarse)

/-! ## The error of a result -/

theorem lastPlace_le {k : Nat} (hk : 0 < k) (hmin : F.minExponent ≤ k - F.precision)
    (h : |x| < 2 ^ k) : F.lastPlace x ≤ k - F.precision := by
  have hlog : Int.log 2 |x| < k := by
    rcases eq_or_lt_of_le (abs_nonneg x) with hzero | hpos
    · rw [← hzero, Int.log_of_right_le_zero 2 le_rfl]
      exact_mod_cast hk
    · refine (Int.lt_zpow_iff_log_lt one_lt_two hpos).1 ?_
      exact_mod_cast h
  unfold lastPlace
  exact max_le (by omega) hmin

/-- A result of less than `2 ^ k` is off by half a last place of that size at most. -/
theorem abs_round_sub_le {k : Nat} (hk : 0 < k) (hmin : F.minExponent ≤ k - F.precision)
    (h : |x| < 2 ^ k) : |F.round x - x| ≤ 2 ^ ((k : Int) - F.precision) / 2 := by
  have hpos : (0 : ℚ) < 2 ^ F.lastPlace x := zpow_pos two_pos _
  have hscale : F.round x - x =
      (roundEven (x / 2 ^ F.lastPlace x) - x / 2 ^ F.lastPlace x) * 2 ^ F.lastPlace x := by
    unfold round
    rw [sub_mul, div_mul_cancel₀ _ hpos.ne']
  rw [hscale, abs_mul, abs_of_pos hpos]
  calc |(roundEven (x / 2 ^ F.lastPlace x) : ℚ) - x / 2 ^ F.lastPlace x| * 2 ^ F.lastPlace x
      ≤ 1 / 2 * 2 ^ F.lastPlace x := by
        exact mul_le_mul_of_nonneg_right (abs_roundEven_sub_le _) hpos.le
    _ ≤ 1 / 2 * 2 ^ ((k : Int) - F.precision) := by
        refine mul_le_mul_of_nonneg_left ?_ one_half_pos.le
        exact zpow_le_zpow_right₀ one_le_two (lastPlace_le hk hmin h)
    _ = 2 ^ ((k : Int) - F.precision) / 2 := by ring

/-- A whole number of fewer bits than the significand is a number of the format. -/
theorem round_intCast {n : Int} (h : |n| < 2 ^ F.precision) : F.round n = n := by
  have hplace : F.lastPlace n ≤ 0 := by
    have hle := F.minExponent_le
    refine (lastPlace_le F.precision_pos (by omega) ?_).trans_eq (sub_self _)
    exact_mod_cast h
  obtain ⟨k, hk⟩ := Int.eq_ofNat_of_zero_le (neg_nonneg.2 hplace)
  have hwhole : (n : ℚ) / 2 ^ F.lastPlace n = ((n * 2 ^ k : Int) : ℚ) := by
    rw [← neg_neg (F.lastPlace n), hk, zpow_neg, zpow_natCast, div_inv_eq_mul]
    push_cast
    rfl
  have hpos : (0 : ℚ) < 2 ^ F.lastPlace n := zpow_pos two_pos _
  unfold round
  rw [hwhole, roundEven_intCast, ← hwhole, div_mul_cancel₀ _ hpos.ne']

/-- `double`, but for the values past its largest number. -/
def binary64 : BinaryFormat := ⟨53, -1074, by decide, by decide⟩

end BinaryFormat

end CPlusServer.Lib
