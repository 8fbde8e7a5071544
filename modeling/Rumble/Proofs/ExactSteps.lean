import Mathlib.Algebra.Order.Round
import Mathlib.Analysis.SpecialFunctions.Log.Base
import Mathlib.Data.Rat.Sqrt
import Rumble.Attenuation

namespace Rumble.Attenuation

/-- The attenuation of a ratio in steps of an eighth of a decibel, as a real number. -/
noncomputable def formula (ratio : ℝ) : ℝ := -20 * Real.logb 10 ratio / 0.125

/-- `k` is nearest to the formula, said without logarithms. -/
def IsNearest (amplitude maximum : Nat) (k : ℤ) : Prop :=
  (10 : ℝ) ^ (2 * k) * amplitude ^ 320 ≤ 10 * maximum ^ 320 ∧
    (maximum : ℝ) ^ 320 < 10 ^ (2 * k + 1) * amplitude ^ 320

variable {a m : Nat} {k : ℤ} {x y : ℝ}

/-! ### The formula -/

theorem formula_eq (x : ℝ) : formula x = -160 * Real.logb 10 x := by
  rw [formula]
  ring

theorem formula_antitone (hx : 0 < x) (h : x ≤ y) : formula y ≤ formula x := by
  rw [formula_eq, formula_eq]
  have hl := Real.logb_le_logb_of_le (by norm_num : (1 : ℝ) < 10) hx h
  linarith

theorem formula_one : formula 1 = 0 := by
  rw [formula_eq, Real.logb_one, mul_zero]

theorem formula_nonneg (hx : 0 < x) (h : x ≤ 1) : 0 ≤ formula x :=
  formula_one ▸ formula_antitone hx h

theorem two_mul_formula (ha : 0 < a) (hm : 0 < m) :
    2 * formula (a / m) = Real.logb 10 ((m / a : ℝ) ^ 320) := by
  have ha' : (a : ℝ) ≠ 0 := by positivity
  have hm' : (m : ℝ) ≠ 0 := by positivity
  rw [formula_eq, Real.logb_pow, Real.logb_div ha' hm', Real.logb_div hm' ha']
  push_cast
  ring

/-! ### The nearest integer -/

theorem isNearest_iff_round (ha : 0 < a) (hm : 0 < m) :
    IsNearest a m k ↔ round (formula (a / m)) = k := by
  have hx : 0 < (m / a : ℝ) ^ 320 := by positivity
  have h2 := two_mul_formula ha hm
  have hlow : (k : ℝ) - 1 / 2 ≤ formula (a / m) ↔ (10 : ℝ) ^ (2 * k) * a ^ 320 ≤ 10 * m ^ 320 := by
    calc (k : ℝ) - 1 / 2 ≤ formula (a / m)
        ↔ ((2 * k - 1 : ℤ) : ℝ) ≤ Real.logb 10 ((m / a : ℝ) ^ 320) := by
          rw [← h2]
          push_cast
          constructor <;> intro h <;> linarith
      _ ↔ (10 : ℝ) ^ (2 * k - 1) ≤ (m / a : ℝ) ^ 320 := by
          rw [Real.le_logb_iff_rpow_le (by norm_num) hx, Real.rpow_intCast]
      _ ↔ (10 : ℝ) ^ (2 * k) * a ^ 320 ≤ 10 * m ^ 320 := by
          rw [zpow_sub_one₀ (by norm_num), div_pow, ← div_eq_mul_inv,
            div_le_div_iff₀ (by norm_num) (by positivity), mul_comm ((m : ℝ) ^ 320)]
  have hhigh : formula (a / m) < (k : ℝ) + 1 / 2 ↔
      (m : ℝ) ^ 320 < 10 ^ (2 * k + 1) * a ^ 320 := by
    calc formula (a / m) < (k : ℝ) + 1 / 2
        ↔ Real.logb 10 ((m / a : ℝ) ^ 320) < ((2 * k + 1 : ℤ) : ℝ) := by
          rw [← h2]
          push_cast
          constructor <;> intro h <;> linarith
      _ ↔ (m / a : ℝ) ^ 320 < (10 : ℝ) ^ (2 * k + 1) := by
          rw [Real.logb_lt_iff_lt_rpow (by norm_num) hx, Real.rpow_intCast]
      _ ↔ (m : ℝ) ^ 320 < 10 ^ (2 * k + 1) * a ^ 320 := by
          rw [div_pow, div_lt_iff₀ (by positivity)]
  rw [round_eq_iff, Set.mem_Ico, hlow, hhigh, IsNearest]

/-- An odd power of ten is no square, as ten is none. -/
theorem ten_zpow_odd_ne (k : ℤ) (x : ℚ) : (10 : ℚ) ^ (2 * k + 1) ≠ x * x := by
  intro h
  have hsq : ¬IsSquare (10 : ℚ) := by decide +kernel
  apply hsq
  refine ⟨x / 10 ^ k, ?_⟩
  rw [div_mul_div_comm, ← h, ← zpow_add₀ (by norm_num), ← two_mul, ← zpow_sub₀ (by norm_num),
    add_sub_cancel_left, zpow_one]

/-- The formula is never half way between two integers. -/
theorem formula_ne_half (ha : 0 < a) (hm : 0 < m) (k : ℤ) : formula (a / m) ≠ k + 1 / 2 := by
  intro h
  have hl : Real.logb 10 ((m / a : ℝ) ^ 320) = ((2 * k + 1 : ℤ) : ℝ) := by
    rw [← two_mul_formula ha hm, h]
    push_cast
    ring
  rw [Real.logb_eq_iff_rpow_eq (by norm_num) (by norm_num) (by positivity), Real.rpow_intCast] at hl
  apply ten_zpow_odd_ne k ((m / a) ^ 160)
  have hc : (((10 : ℚ) ^ (2 * k + 1) : ℚ) : ℝ) = (((m / a : ℚ) ^ 160 * (m / a) ^ 160 : ℚ) : ℝ) := by
    push_cast
    rw [hl, ← pow_add]
  exact_mod_cast hc

/-! ### Counting digits -/

theorem pow_length_toDigits {n : Nat} (hn : 0 < n) :
    10 ^ (Nat.toDigits 10 n).length ≤ 10 * n ∧ n < 10 ^ (Nat.toDigits 10 n).length := by
  have hl : 0 < (Nat.toDigits 10 n).length := Nat.length_toDigits_pos
  constructor
  · obtain ⟨l, he⟩ := Nat.exists_eq_succ_of_ne_zero hl.ne'
    rw [he, Nat.pow_succ, Nat.mul_comm]
    apply Nat.mul_le_mul_left
    rcases Nat.eq_zero_or_pos l with rfl | hp
    · exact hn
    · have hi := Nat.length_toDigits_le_iff (n := n) (by norm_num : 1 < 10) hp
      omega
  · exact (Nat.length_toDigits_le_iff (by norm_num) hl).mp le_rfl

/-- Half the length of a quotient puts it between two odd powers of ten. -/
theorem half_length_toDigits {p q : Nat} (hq : 0 < q) (h : q ≤ p) :
    10 ^ (2 * ((Nat.toDigits 10 (p / q)).length / 2)) * q ≤ 10 * p ∧
      p < 10 ^ (2 * ((Nat.toDigits 10 (p / q)).length / 2) + 1) * q := by
  obtain ⟨hlow, hhigh⟩ := pow_length_toDigits (Nat.div_pos h hq)
  generalize (Nat.toDigits 10 (p / q)).length = l at hlow hhigh ⊢
  constructor
  · calc 10 ^ (2 * (l / 2)) * q
        ≤ 10 ^ l * q := by gcongr <;> omega
      _ ≤ 10 * (p / q) * q := by gcongr
      _ = 10 * (p / q * q) := by ring
      _ ≤ 10 * p := by
        gcongr
        exact Nat.div_mul_le_self p q
  · calc p < 10 ^ l * q := (Nat.div_lt_iff_lt_mul hq).mp hhigh
      _ ≤ 10 ^ (2 * (l / 2) + 1) * q := by gcongr <;> omega

theorem exactSteps_eq (a m : Nat) :
    exactSteps a m = (Nat.toDigits 10 (m ^ 320 / a ^ 320)).length / 2 := by
  unfold exactSteps
  generalize 320 = n
  rfl

theorem isNearest_exactSteps (ha : 0 < a) (h : a ≤ m) : IsNearest a m (exactSteps a m) := by
  have hp : 0 < a ^ 320 := pow_pos ha 320
  have hq : a ^ 320 ≤ m ^ 320 := pow_le_pow_left₀ (Nat.zero_le a) h 320
  obtain ⟨hlow, hhigh⟩ := half_length_toDigits hp hq
  rw [← exactSteps_eq] at hlow hhigh
  exact ⟨by exact_mod_cast hlow, by exact_mod_cast hhigh⟩

theorem round_formula (ha : 0 < a) (h : a ≤ m) :
    round (formula (a / m)) = exactSteps a m :=
  (isNearest_iff_round ha (ha.trans_le h)).mp (isNearest_exactSteps ha h)

end Rumble.Attenuation
