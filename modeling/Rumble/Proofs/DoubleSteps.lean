import Rumble.Proofs.ExactSteps
import Rumble.Proofs.Logarithm

namespace Rumble.Attenuation

open Double

/-- The attenuation of a ratio in steps, before the nearest integer is taken. -/
def doubleFormula (p : Rat) : Rat := Double.round (-20 * log10 p) / stepDecibels

def ratioSteps (p : Rat) : Nat := (doubleFormula p + 1 / 2).floor.toNat

def IsRatio (p : Rat) : Prop := 2 ^ (-32 : Int) ≤ p ∧ p ≤ 1

variable {a m b n : Nat} {p q : Rat}

theorem steps_eq (a m : Nat) : steps a m = ratioSteps (Double.round (a / m)) := rfl

/-! ### Ratios -/

namespace IsRatio

theorem pos (h : IsRatio p) : 0 < p := (zpow_pos two_pos _).trans_le h.1

theorem of_le (ha : 0 < a) (h : a ≤ m) (hm : m < 2 ^ 32) : IsRatio (a / m) := by
  have hm0 : (0 : Rat) < m := by exact_mod_cast ha.trans_le h
  have ha : (1 : Rat) ≤ a := by exact_mod_cast ha
  have h : (a : Rat) ≤ m := by exact_mod_cast h
  have hm : (m : Rat) ≤ 2 ^ 32 := by exact_mod_cast hm.le
  constructor
  · calc (2 : Rat) ^ (-32 : Int) = 1 / 2 ^ 32 := by norm_num
      _ ≤ a / m := by gcongr
  · exact (div_le_one hm0).mpr h

theorem round (h : IsRatio p) : IsRatio (Double.round p) := by
  have hl := round_mono h.1
  have hh := round_mono h.2
  rw [round_two_zpow] at hl
  rw [← zpow_zero (2 : Rat), round_two_zpow] at hh
  exact ⟨hl, hh⟩

theorem exponent (h : IsRatio p) : -32 ≤ exponent p ∧ Double.exponent p ≤ 0 := by
  obtain ⟨hl, hh⟩ := two_zpow_exponent h.pos.ne'
  rw [abs_of_pos h.pos] at hl hh
  have h1 := (zpow_lt_zpow_iff_right₀ (one_lt_two : (1 : Rat) < 2)).mp (h.1.trans_lt hh)
  have h2 := (zpow_le_zpow_iff_right₀ (one_lt_two : (1 : Rat) < 2)).mp
    (hl.trans (h.2.trans_eq (zpow_zero 2).symm))
  omega

theorem abs_shift (h : IsRatio p) : |(shift p : Rat)| ≤ 32 := by
  have he := h.exponent
  have hs : |shift p| ≤ 32 := by
    rw [shift, abs_le]
    split <;> omega
  exact_mod_cast hs

end IsRatio

/-! ### The error -/

/-- Dividing by an eighth is exact, so the error of the decibels counts eight times. -/
theorem near_doubleFormula (h : IsRatio p) : Near (doubleFormula p) (formula p) (1 / 2 ^ 37) := by
  have hd := (near_log10 h.pos h.abs_shift).const_mul (-20)
  have hb : |((-20 : Rat) : ℝ) * Real.logb 10 p| ≤ 660 := by
    rw [abs_mul]
    have hl := abs_logb_le h.pos h.abs_shift
    norm_num
    linarith
  have hr := (hd.round hb).const_mul 8
  have he : doubleFormula p = 8 * Double.round (-20 * log10 p) := by
    rw [doubleFormula, stepDecibels]
    ring
  have hf : formula p = ((8 : Rat) : ℝ) * (((-20 : Rat) : ℝ) * Real.logb 10 p) := by
    rw [formula_eq]
    push_cast
    ring
  rw [he, hf]
  apply hr.mono
  norm_num

theorem abs_log_le {x : ℝ} (h : |x - 1| ≤ 1 / 2 ^ 53) : |Real.log x| ≤ 1 / 2 ^ 52 := by
  obtain ⟨hl, hh⟩ := abs_le.mp h
  have hx : 0 < x := by linarith [show (1 / 2 ^ 53 : ℝ) < 1 by norm_num]
  have hinv : x⁻¹ ≤ 1 + 1 / 2 ^ 52 := by
    rw [inv_le_iff_one_le_mul₀ hx]
    nlinarith
  have hlow := Real.one_sub_inv_le_log_of_pos hx
  have hhigh := Real.log_le_sub_one_of_pos hx
  rw [abs_le]
  constructor <;> linarith

/-- A relative error of the ratio is an absolute error of its logarithm. -/
theorem abs_formula_round_sub_le (hq : 0 < q) :
    |formula (Double.round q) - formula q| ≤ 1 / 2 ^ 44 := by
  have hr : |Double.round q / q - 1| ≤ 1 / 2 ^ 53 := by
    rw [div_sub_one hq.ne', abs_div, div_le_iff₀ (abs_pos.mpr hq.ne'), one_div_mul_eq_div]
    exact abs_round_sub_le q
  have hr : |(Double.round q / q : ℝ) - 1| ≤ 1 / 2 ^ 53 := by
    have h := Rat.cast_le (K := ℝ).mpr hr
    push_cast at h
    exact h
  have hround : (0 : Rat) < Double.round q :=
    (zpow_pos two_pos _).trans_le (two_zpow_exponent_round hq).1
  have hq' : (q : ℝ) ≠ 0 := by exact_mod_cast hq.ne'
  have hround' : (Double.round q : ℝ) ≠ 0 := by exact_mod_cast hround.ne'
  calc |formula (Double.round q) - formula q|
      = |160 * (1 / Real.log 10 * Real.log (Double.round q / q))| := by
        rw [formula_eq, formula_eq, ← mul_sub, ← Real.logb_div hround' hq', Real.logb,
          one_div_mul_eq_div, neg_mul, abs_neg]
    _ = 160 * (|1 / Real.log 10| * |Real.log (Double.round q / q)|) := by
      rw [abs_mul, abs_mul, abs_of_pos (a := (160 : ℝ)) (by norm_num)]
    _ ≤ 160 * (1 * (1 / 2 ^ 52)) := by
      gcongr
      · exact abs_inv_log_ten_le
      · exact abs_log_le hr
    _ ≤ 1 / 2 ^ 44 := by norm_num

theorem IsRatio.near_round (h : IsRatio q) :
    Near (doubleFormula (Double.round q)) (formula q) (1 / 2 ^ 36) :=
  ((near_doubleFormula h.round).trans (abs_formula_round_sub_le h.pos)).mono (by norm_num)

/-! ### The nearest integer -/

theorem IsRatio.formula_nonneg (h : IsRatio p) : 0 ≤ formula p :=
  Attenuation.formula_nonneg (by exact_mod_cast h.pos) (by exact_mod_cast h.2)

theorem ratioSteps_bounds (h : IsRatio p) :
    (ratioSteps p : ℝ) ≤ doubleFormula p + 1 / 2 ∧
      (doubleFormula p : ℝ) + 1 / 2 < ratioSteps p + 1 := by
  have hd : -(1 / 2) ≤ (doubleFormula p : ℝ) := by
    have hn := (abs_le.mp (near_doubleFormula h)).1
    linarith [h.formula_nonneg, show (1 / 2 ^ 37 : ℝ) ≤ 1 / 2 by norm_num]
  have hfloor : 0 ≤ (doubleFormula p + 1 / 2).floor := by
    rw [Rat.le_floor_iff, ← Rat.cast_le (K := ℝ)]
    push_cast
    linarith
  have he : ((ratioSteps p : Int) : Rat) = (doubleFormula p + 1 / 2).floor := by
    rw [ratioSteps, Int.toNat_of_nonneg hfloor]
  have hl := Rat.floor_le (doubleFormula p + 1 / 2)
  have hh := Rat.lt_floor_add_one (doubleFormula p + 1 / 2)
  rw [Int.cast_add, ← he, ← Rat.cast_lt (K := ℝ)] at hh
  rw [← he, ← Rat.cast_le (K := ℝ)] at hl
  push_cast at hl hh
  exact ⟨hl, hh⟩

/-! ### The order -/

theorem logb_two_bounds : 59 / 196 < Real.logb 10 2 ∧ Real.logb 10 2 < 146 / 485 := by
  have h10 : (1 : ℝ) < 10 := by norm_num
  have hn : ((2 ^ 485 : Nat) : ℝ) < (10 ^ 146 : Nat) := Nat.cast_lt.mpr (by decide +kernel)
  have hlow := Real.logb_lt_logb h10 (by norm_num) (by norm_num : (10 : ℝ) ^ 59 < 2 ^ 196)
  have hhigh := Real.logb_lt_logb h10 (by norm_num) hn
  rw [Nat.cast_pow, Nat.cast_pow, Nat.cast_ofNat, Nat.cast_ofNat] at hhigh
  rw [Real.logb_pow, Real.logb_pow, Real.logb_self_eq_one h10] at hlow hhigh
  push_cast at hlow hhigh
  constructor <;> linarith

/-- No power of two is where the formula is next to a half. -/
theorem exists_near_formula_two_zpow {e : Int} (hlow : -32 ≤ e) (hhigh : e ≤ 0) :
    ∃ n : Nat, |formula (2 ^ e) - n| ≤ 499 / 1000 := by
  obtain ⟨j, rfl⟩ := Int.exists_eq_neg_ofNat hhigh
  have hj : j < 33 := by omega
  have htable : ∀ j < 33, ∃ n, n = (320 * 146 * j + 485) / 970 ∧
      196 * 1000 * n ≤ 160 * 59 * 1000 * j + 499 * 196 ∧
      160 * 146 * 1000 * j ≤ 485 * 1000 * n + 499 * 485 := by
    intro j hj
    refine ⟨_, rfl, ?_⟩
    revert j
    decide +kernel
  obtain ⟨n, -, hn⟩ := htable j hj
  have hn1 : (196 * 1000 * n : ℝ) ≤ 160 * 59 * 1000 * j + 499 * 196 := by exact_mod_cast hn.1
  have hn2 : (160 * 146 * 1000 * j : ℝ) ≤ 485 * 1000 * n + 499 * 485 := by exact_mod_cast hn.2
  obtain ⟨hl, hh⟩ := logb_two_bounds
  have hf : formula (2 ^ (-j : Int)) = 160 * j * Real.logb 10 2 := by
    rw [formula_eq, ← Real.rpow_intCast, Real.logb_rpow_eq_mul_logb_of_pos two_pos]
    push_cast
    ring
  have hl := mul_le_mul_of_nonneg_left hl.le (by positivity : (0 : ℝ) ≤ 160 * j)
  have hh := mul_le_mul_of_nonneg_left hh.le (by positivity : (0 : ℝ) ≤ 160 * j)
  refine ⟨n, ?_⟩
  rw [hf, abs_le]
  constructor <;> linarith

theorem doubleFormula_antitone (hp : 0 < p) (h : p ≤ q) (he : exponent p = exponent q) :
    doubleFormula q ≤ doubleFormula p := by
  have hl := log10_mono hp h he
  have hs : (0 : Rat) ≤ stepDecibels := by
    rw [stepDecibels]
    norm_num
  rw [doubleFormula, doubleFormula]
  apply div_le_div_of_nonneg_right _ hs
  apply round_mono
  linarith

/-- Ratios with a power of two between them lie on both sides of its steps. -/
theorem ratioSteps_antitone (hp : IsRatio p) (hq : IsRatio q) (h : p ≤ q) :
    ratioSteps q ≤ ratioSteps p := by
  by_cases he : exponent p = exponent q
  · apply Int.toNat_le_toNat
    apply Rat.floor_monotone
    linarith [doubleFormula_antitone hp.pos h he]
  · have hlt : exponent p < exponent q := by
      apply (exponent_mono hp.pos.ne' _).lt_of_ne he
      rwa [abs_of_pos hp.pos, abs_of_pos hq.pos]
    have hbelow : p ≤ 2 ^ exponent q := by
      have hh := (two_zpow_exponent hp.pos.ne').2
      rw [abs_of_pos hp.pos] at hh
      exact hh.le.trans (zpow_le_zpow_right₀ one_le_two hlt)
    have habove : 2 ^ exponent q ≤ q := by
      have hl := (two_zpow_exponent hq.pos.ne').1
      rwa [abs_of_pos hq.pos] at hl
    obtain ⟨n, hn⟩ := exists_near_formula_two_zpow hq.exponent.1 hq.exponent.2
    obtain ⟨hn1, hn2⟩ := abs_le.mp hn
    have hfp : formula (2 ^ exponent q) ≤ formula p := by
      apply formula_antitone (by exact_mod_cast hp.pos)
      simpa using Rat.cast_le (K := ℝ).mpr hbelow
    have hfq : formula q ≤ formula (2 ^ exponent q) := by
      apply formula_antitone (by positivity)
      simpa using Rat.cast_le (K := ℝ).mpr habove
    have hsmall : (1 / 2 ^ 37 : ℝ) < 1 / 1000 := by norm_num
    have hnp : (n : ℝ) < ratioSteps p + 1 := by
      have hd := (abs_le.mp (near_doubleFormula hp)).1
      linarith [(ratioSteps_bounds hp).2]
    have hnq : (ratioSteps q : ℝ) < n + 1 := by
      have hd := (abs_le.mp (near_doubleFormula hq)).2
      linarith [(ratioSteps_bounds hq).1]
    have hnp : n < ratioSteps p + 1 := by exact_mod_cast hnp
    have hnq : ratioSteps q < n + 1 := by exact_mod_cast hnq
    omega

end Rumble.Attenuation
