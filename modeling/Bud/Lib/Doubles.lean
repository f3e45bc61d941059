import Mathlib.Data.Int.Log
import Mathlib.Data.Rat.Floor
import Mathlib.Tactic.Linarith

/-!
# Arithmetic in doubles

A double has a significand of 53 bits, and an operation on doubles gives the double nearest to the
exact result, the even one of two. Exponents are unbounded here: results that overflow, or that are
so small that bits of the significand are lost, are outside the model.

One rounding moves a number by at most one part in `2 ^ 53`. `Within n exact x` says that `x` came
from `exact` through at most `n` roundings one after the other, as far as its size can tell.
-/

namespace Bud.Doubles

/-- The nearest integer, the even one of two. -/
def nearestEven (x : ℚ) : ℤ :=
  if 2 * Int.fract x < 1 ∨ 2 * Int.fract x = 1 ∧ ⌊x⌋ % 2 = 0 then ⌊x⌋ else ⌊x⌋ + 1

/-- The nearest double. -/
def toDouble (x : ℚ) : ℚ :=
  nearestEven (x / 2 ^ (Int.log 2 |x| - 52)) * 2 ^ (Int.log 2 |x| - 52)

/-- What one rounding can change, in proportion. -/
def unitRoundoff : ℚ := 1 / 2 ^ 53

theorem abs_nearestEven_sub_le (x : ℚ) : |nearestEven x - x| ≤ 1 / 2 := by
  have hfract : Int.fract x = x - ⌊x⌋ := rfl
  have hnonneg := Int.fract_nonneg x
  have hlt := Int.fract_lt_one x
  rw [nearestEven, abs_le]
  split_ifs with h
  · have hhalf : 2 * Int.fract x ≤ 1 := h.elim le_of_lt fun h => h.1.le
    constructor <;> linarith
  · have hhalf : 1 ≤ 2 * Int.fract x := not_lt.mp fun hlt => h (.inl hlt)
    push_cast
    constructor <;> linarith

theorem abs_toDouble_sub_le (x : ℚ) : |toDouble x - x| ≤ unitRoundoff * |x| := by
  by_cases hx : x = 0
  · simp [hx, toDouble, nearestEven]
  set ulp : ℚ := 2 ^ (Int.log 2 |x| - 52) with hulp
  have hpos : 0 < ulp := zpow_pos two_pos _
  have hle : ulp * 2 ^ 52 ≤ |x| := by
    have hlog := Int.zpow_log_le_self (R := ℚ) (b := 2) (by decide) (abs_pos.mpr hx)
    rwa [hulp, ← zpow_natCast, ← zpow_add₀ two_ne_zero, Nat.cast_ofNat, sub_add_cancel]
  calc |toDouble x - x| = |nearestEven (x / ulp) - x / ulp| * ulp := by
        rw [← abs_of_pos hpos, ← abs_mul, abs_of_pos hpos, sub_mul, div_mul_cancel₀ _ hpos.ne']
        rfl
    _ ≤ 1 / 2 * ulp := mul_le_mul_of_nonneg_right (abs_nearestEven_sub_le _) hpos.le
    _ ≤ unitRoundoff * |x| := by rw [unitRoundoff]; linarith

@[simp] theorem toDouble_zero : toDouble 0 = 0 := by simp [toDouble, nearestEven]

/-- As near to `exact` as `n` roundings leave it. -/
def Within (n : ℕ) (exact x : ℚ) : Prop :=
  (1 - unitRoundoff) ^ n * exact ≤ x ∧ x ≤ (1 + unitRoundoff) ^ n * exact

section

variable {n m : ℕ} {e e' x x' : ℚ}

theorem unitRoundoff_pos : 0 < unitRoundoff := by decide +kernel

theorem one_sub_unitRoundoff_pos : 0 < 1 - unitRoundoff := by decide +kernel

theorem Within.zero (n : ℕ) : Within n 0 0 := by simp [Within]

theorem Within.eq_zero (h : Within n 0 x) : x = 0 := by
  obtain ⟨hlo, hhi⟩ := h
  rw [mul_zero] at hlo hhi
  exact le_antisymm hhi hlo

theorem Within.mono (h : Within n e x) (hnm : n ≤ m) (he : 0 ≤ e) : Within m e x := by
  have hunit := unitRoundoff_pos
  refine ⟨le_trans (mul_le_mul_of_nonneg_right ?_ he) h.1,
    h.2.trans (mul_le_mul_of_nonneg_right ?_ he)⟩
  · exact pow_le_pow_of_le_one one_sub_unitRoundoff_pos.le (by linarith) hnm
  · exact pow_le_pow_right₀ (by linarith) hnm

theorem Within.add (h : Within n e x) (h' : Within n e' x') : Within n (e + e') (x + x') := by
  rw [Within, mul_add, mul_add]
  exact ⟨add_le_add h.1 h'.1, add_le_add h.2 h'.2⟩

theorem Within.nonneg (h : Within n e x) (he : 0 ≤ e) : 0 ≤ x :=
  (mul_nonneg (pow_nonneg one_sub_unitRoundoff_pos.le n) he).trans h.1

theorem Within.toDouble (h : Within n e x) (he : 0 ≤ e) :
    Within (n + 1) e (Doubles.toDouble x) := by
  have hunit := unitRoundoff_pos
  have hround := abs_le.mp (abs_toDouble_sub_le x)
  rw [abs_of_nonneg (h.nonneg he)] at hround
  rw [Within, pow_succ', pow_succ', mul_assoc, mul_assoc]
  constructor
  · calc (1 - unitRoundoff) * ((1 - unitRoundoff) ^ n * e) ≤ (1 - unitRoundoff) * x :=
          mul_le_mul_of_nonneg_left h.1 one_sub_unitRoundoff_pos.le
      _ ≤ Doubles.toDouble x := by linarith
  · calc Doubles.toDouble x ≤ (1 + unitRoundoff) * x := by linarith
      _ ≤ (1 + unitRoundoff) * ((1 + unitRoundoff) ^ n * e) :=
          mul_le_mul_of_nonneg_left h.2 (by linarith)

theorem within_toDouble (he : 0 ≤ e) : Within 1 e (toDouble e) :=
  Within.toDouble (n := 0) (by simp [Within]) he

end

end Bud.Doubles
