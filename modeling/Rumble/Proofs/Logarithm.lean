import Mathlib.Analysis.Complex.ExponentialBounds
import Mathlib.Analysis.SpecialFunctions.Log.Base
import Mathlib.Analysis.SpecialFunctions.Log.Deriv
import Rumble.Double.Log
import Rumble.Proofs.Rounding

namespace Rumble.Double

open Finset

variable {q r x y : Rat}

/-! ### Errors -/

/-- A rational that stands for a real number, with an error of at most `e`. -/
def Near (q : Rat) (y e : ℝ) : Prop := |(q : ℝ) - y| ≤ e

namespace Near

variable {a b e f : ℝ}

theorem mono (h : Near q a e) (he : e ≤ f) : Near q a f := h.trans he

theorem add (hq : Near q a e) (hr : Near r b f) : Near (q + r) (a + b) (e + f) := by
  rw [Near, Rat.cast_add, add_sub_add_comm]
  exact (abs_add_le _ _).trans (add_le_add hq hr)

theorem self (q : Rat) : Near q q 0 := by
  rw [Near, sub_self, abs_zero]

theorem trans (h : Near q a e) (hab : |a - b| ≤ f) : Near q b (e + f) :=
  (abs_sub_le _ a _).trans (add_le_add h hab)

theorem const_mul (c : Rat) (h : Near q a e) : Near (c * q) (c * a) (|c| * e) := by
  rw [Near, Rat.cast_mul, ← mul_sub, abs_mul, Rat.cast_abs]
  exact mul_le_mul_of_nonneg_left h (abs_nonneg _)

theorem mul (hq : Near q a e) (hr : Near r b f) (ha : |a| ≤ 1) (hb : |b| ≤ 1) :
    Near (q * r) (a * b) (e + f + e * f) := by
  have he : (0 : ℝ) ≤ e := (abs_nonneg _).trans hq
  rw [Near, Rat.cast_mul]
  calc |(q : ℝ) * r - a * b| = |(q - a) * b + a * (r - b) + (q - a) * (r - b)| := by ring_nf
    _ ≤ |(q - a) * b| + |a * (r - b)| + |(q - a) * (r - b)| := abs_add_three _ _ _
    _ = |q - a| * |b| + |a| * |r - b| + |q - a| * |r - b| := by rw [abs_mul, abs_mul, abs_mul]
    _ ≤ e * 1 + 1 * f + e * f := by
      gcongr
      · exact hq
      · exact hr
      · exact hq
      · exact hr
    _ = e + f + e * f := by ring

theorem round (h : Near q a e) (ha : |a| ≤ b) :
    Near (Double.round q) a (e + (b + e) / 2 ^ 53) := by
  have hr : |(Double.round q : ℝ) - q| ≤ |(q : ℝ)| / 2 ^ 53 := by
    exact_mod_cast abs_round_sub_le q
  have hq : |(q : ℝ)| ≤ b + e := by
    calc |(q : ℝ)| = |a + (q - a)| := by rw [add_sub_cancel]
      _ ≤ |a| + |(q : ℝ) - a| := abs_add_le _ _
      _ ≤ b + e := add_le_add ha h
  calc |(Double.round q : ℝ) - a| = |(q - a) + (Double.round q - q)| := by ring_nf
    _ ≤ |(q : ℝ) - a| + |(Double.round q : ℝ) - q| := abs_add_le _ _
    _ ≤ e + (b + e) / 2 ^ 53 := by
      gcongr
      · exact h
      · exact hr.trans (by gcongr)

end Near

/-! ### The series -/

theorem foldr_range'_eq_sum (c : Nat → Rat) (u : Rat) (s n : Nat) :
    (List.range' s n).foldr (fun i v => c i + u * v) 0 = ∑ i ∈ range n, c (s + i) * u ^ i := by
  induction n generalizing s with
  | zero => rfl
  | succ n ih =>
    rw [List.range'_succ, List.foldr_cons, ih, sum_range_succ', pow_zero, mul_one, mul_sum,
      add_comm]
    congr 1
    apply sum_congr rfl
    intro i _
    rw [pow_succ, Nat.add_right_comm, Nat.add_assoc]
    ring

theorem lnSum_eq (x : Rat) :
    lnSum x = 2 * ∑ i ∈ range 40, ((x - 1) / (x + 1)) ^ (2 * i + 1) / (2 * i + 1) := by
  rw [lnSum, List.range_eq_range', foldr_range'_eq_sum (fun i => 1 / (2 * i + 1 : Nat)), mul_assoc,
    mul_sum]
  congr 1
  apply sum_congr rfl
  intro i _
  rw [pow_succ, pow_mul]
  push_cast
  ring

theorem lnSum_mono (hx : 0 < x) (h : x ≤ y) : lnSum x ≤ lnSum y := by
  have hy : 0 < y := hx.trans_le h
  have ht : (x - 1) / (x + 1) ≤ (y - 1) / (y + 1) := by
    rw [div_le_div_iff₀ (by positivity) (by positivity)]
    linarith
  rw [lnSum_eq, lnSum_eq]
  apply mul_le_mul_of_nonneg_left _ two_pos.le
  apply sum_le_sum
  intro i _
  apply div_le_div_of_nonneg_right _ (by positivity)
  exact (Odd.strictMono_pow ⟨i, rfl⟩).monotone ht

theorem near_lnSum (hlow : 1 / 2 ≤ x) (hhigh : x ≤ 2) :
    Near (lnSum x) (Real.log x) (1 / 2 ^ 100) := by
  have hx : (0 : ℝ) < x := by exact_mod_cast (by norm_num : (0 : Rat) < 1 / 2).trans_le hlow
  have hlow : (1 / 2 : ℝ) ≤ x := by
    have h := Rat.cast_le (K := ℝ).mpr hlow
    push_cast at h
    exact h
  have hhigh : (x : ℝ) ≤ 2 := by exact_mod_cast hhigh
  set t : ℝ := (x - 1) / (x + 1) with ht
  have habs : |t| ≤ 1 / 3 := by
    rw [abs_le, ht, le_div_iff₀ (by positivity), div_le_iff₀ (by positivity)]
    constructor <;> linarith
  have hlog : (1 + t) / (1 - t) = x := by
    rw [ht]
    field_simp
    ring
  have hsum : (lnSum x : ℝ) = 2 * ∑ i ∈ range 40, t ^ (2 * i + 1) / (2 * i + 1) := by
    rw [lnSum_eq, ht]
    push_cast
    rfl
  have hr := Real.sum_range_sub_log_div_le (habs.trans_lt (by norm_num)) 40
  rw [hlog, abs_sub_comm] at hr
  have ht2 : t ^ 2 ≤ 1 / 9 := by
    rw [← sq_abs]
    exact (pow_le_pow_left₀ (abs_nonneg t) habs 2).trans_eq (by norm_num)
  have ht81 : |t| ^ (2 * 40 + 1) ≤ (1 / 3) ^ 81 := pow_le_pow_left₀ (abs_nonneg t) habs 81
  rw [Near, hsum]
  calc |2 * ∑ i ∈ range 40, t ^ (2 * i + 1) / (2 * i + 1) - Real.log x|
      = 2 * |∑ i ∈ range 40, t ^ (2 * i + 1) / (2 * i + 1) - 1 / 2 * Real.log x| := by
        rw [← abs_two, ← abs_mul, mul_sub]
        ring_nf
    _ ≤ 2 * (|t| ^ (2 * 40 + 1) / (1 - t ^ 2)) := by gcongr
    _ ≤ 2 * ((1 / 3) ^ 81 / (1 - 1 / 9)) := by
      gcongr
    _ ≤ 1 / 2 ^ 100 := by norm_num

/-! ### Constants -/

theorem abs_log_two_le : |Real.log 2| ≤ 1 := by
  rw [abs_of_pos (Real.log_pos one_lt_two)]
  linarith [Real.log_two_lt_d9]

theorem one_le_log_ten : 1 ≤ Real.log 10 := by
  rw [Real.le_log_iff_exp_le (by norm_num)]
  linarith [Real.exp_one_lt_d9]

theorem near_lnTen : Near lnTen (Real.log 10) (1 / 2 ^ 97) := by
  have h2 := (near_lnSum (x := 2) (by norm_num) le_rfl).const_mul 3
  have h5 := near_lnSum (x := 5 / 4) (by norm_num) (by norm_num)
  have hlog : Real.log 10 = ((3 : Rat) : ℝ) * Real.log (2 : Rat) + Real.log (5 / 4 : Rat) := by
    push_cast
    rw [show (10 : ℝ) = 2 ^ 3 * (5 / 4) by norm_num, Real.log_mul (by norm_num) (by norm_num),
      Real.log_pow]
    norm_num
  rw [hlog]
  apply (h2.add h5).mono
  norm_num

theorem half_le_lnTen : 1 / 2 ≤ (lnTen : ℝ) := by
  have hl := (abs_le.mp near_lnTen).1
  have hten := one_le_log_ten
  linarith [show (1 / 2 ^ 97 : ℝ) ≤ 1 / 2 by norm_num]

theorem near_inv_lnTen : Near (1 / lnTen) (1 / Real.log 10) (1 / 2 ^ 96) := by
  have hten := one_le_log_ten
  have hln := half_le_lnTen
  rw [Near, Rat.cast_div, Rat.cast_one, div_sub_div _ _ (by positivity) (by positivity), abs_div,
    one_mul, mul_one, abs_sub_comm, abs_of_pos (a := (lnTen : ℝ) * Real.log 10) (by positivity),
    div_le_iff₀ (by positivity)]
  calc |(lnTen : ℝ) - Real.log 10| ≤ 1 / 2 ^ 97 := near_lnTen
    _ = 1 / 2 ^ 96 * (1 / 2 * 1) := by norm_num
    _ ≤ 1 / 2 ^ 96 * (lnTen * Real.log 10) := by gcongr

theorem abs_inv_log_ten_le : |1 / Real.log 10| ≤ 1 := by
  have hten := one_le_log_ten
  rw [abs_of_pos (by positivity), div_le_one (by positivity)]
  exact hten

theorem near_lnScale : Near lnScale (1 / Real.log 10) (1 / 2 ^ 52) :=
  (near_inv_lnTen.round abs_inv_log_ten_le).mono (by norm_num)

theorem lnScale_nonneg : 0 ≤ lnScale := by
  apply round_nonneg
  have h : (0 : ℝ) ≤ lnTen := by linarith [half_le_lnTen]
  have h : 0 ≤ lnTen := by exact_mod_cast h
  positivity

theorem near_logTwo : Near logTwo (Real.logb 10 2) (1 / 2 ^ 95) := by
  have h2 : Near (lnSum 2) (Real.log 2) (1 / 2 ^ 100) := by
    exact_mod_cast near_lnSum (x := 2) (by norm_num) le_rfl
  have h := h2.mul near_inv_lnTen abs_log_two_le abs_inv_log_ten_le
  rw [mul_one_div, mul_one_div] at h
  exact h.mono (by norm_num)

theorem logTwo_sub_high : 0 ≤ logTwo - logTwoHigh ∧ logTwo - logTwoHigh ≤ 1 / 2 ^ 41 := by
  have hf := Rat.floor_le (logTwo * 2 ^ (41 : Int))
  have hl := Rat.lt_floor_add_one (logTwo * 2 ^ (41 : Int))
  have h41 : (0 : Rat) < 2 ^ (41 : Int) := by positivity
  push_cast at hl
  rw [logTwoHigh]
  constructor
  · rw [sub_nonneg, div_le_iff₀ h41]
    exact hf
  · rw [sub_le_iff_le_add, ← zpow_ofNat, ← add_div, le_div_iff₀ h41, add_comm]
    exact hl.le

theorem abs_logTwo_sub_high : |logTwo - logTwoHigh| ≤ 1 / 2 ^ 41 :=
  (abs_of_nonneg logTwo_sub_high.1).trans_le logTwo_sub_high.2

theorem near_high_add_low : Near (logTwoHigh + logTwoLow) (Real.logb 10 2) (1 / 2 ^ 93) := by
  have hr : |logTwoLow - (logTwo - logTwoHigh)| ≤ 1 / 2 ^ 41 / 2 ^ 53 :=
    (abs_round_sub_le _).trans (div_le_div_of_nonneg_right abs_logTwo_sub_high (by positivity))
  have hr : |(logTwoLow : ℝ) - (logTwo - logTwoHigh)| ≤ 1 / 2 ^ 41 / 2 ^ 53 := by
    have h := Rat.cast_le (K := ℝ).mpr hr
    push_cast at h
    exact h
  have hl := near_logTwo
  rw [Near, Rat.cast_add]
  calc |(logTwoHigh : ℝ) + logTwoLow - Real.logb 10 2|
      = |(logTwoLow - (logTwo - logTwoHigh)) + (logTwo - Real.logb 10 2)| := by ring_nf
    _ ≤ |(logTwoLow : ℝ) - (logTwo - logTwoHigh)| + |logTwo - Real.logb 10 2| := abs_add_le _ _
    _ ≤ 1 / 2 ^ 41 / 2 ^ 53 + 1 / 2 ^ 95 := add_le_add hr hl
    _ ≤ 1 / 2 ^ 93 := by norm_num

/-! ### The decimal logarithm -/

/-- The power of two that is split off. -/
def shift (q : Rat) : Int := if exponent q < 0 then exponent q + 1 else exponent q

def restLog (q : Rat) : Rat := round (lnScale * round (lnSum (q / 2 ^ shift q)))

theorem log10_eq (q : Rat) :
    log10 q = round (round (round (shift q * logTwoLow) + restLog q) + shift q * logTwoHigh) := rfl

theorem div_shift_bounds (hq : 0 < q) : 1 / 2 ≤ q / 2 ^ shift q ∧ q / 2 ^ shift q ≤ 2 := by
  obtain ⟨hl, hh⟩ := two_zpow_exponent hq.ne'
  rw [abs_of_pos hq] at hl hh
  have hp : (0 : Rat) < 2 ^ shift q := zpow_pos two_pos _
  rw [le_div_iff₀ hp, div_le_iff₀ hp, shift]
  rw [zpow_add_one₀ two_ne_zero] at hh
  split
  · rw [zpow_add_one₀ two_ne_zero]
    constructor <;> linarith
  · constructor <;> linarith

theorem abs_log_le_one {u : ℝ} (hlow : 1 / 2 ≤ u) (hhigh : u ≤ 2) : |Real.log u| ≤ 1 := by
  have h2 := (le_abs_self _).trans abs_log_two_le
  have hl := Real.log_le_log (by norm_num) hlow
  have hh := Real.log_le_log (by linarith) hhigh
  rw [one_div, Real.log_inv] at hl
  rw [abs_le]
  constructor <;> linarith

theorem near_restLog (hq : 0 < q) :
    Near (restLog q) (Real.logb 10 (q / 2 ^ shift q : Rat)) (1 / 2 ^ 49) ∧
      |Real.logb 10 (q / 2 ^ shift q : Rat)| ≤ 1 := by
  obtain ⟨hl, hh⟩ := div_shift_bounds hq
  have hlog : |Real.log (q / 2 ^ shift q : Rat)| ≤ 1 := by
    have hl := Rat.cast_le (K := ℝ).mpr hl
    have hh := Rat.cast_le (K := ℝ).mpr hh
    rw [Rat.cast_div, Rat.cast_one] at hl
    exact abs_log_le_one hl hh
  have hs := ((near_lnSum hl hh).round hlog).mono (f := 1 / 2 ^ 52) (by norm_num)
  have hm := (near_lnScale.mul hs abs_inv_log_ten_le hlog).mono (f := 1 / 2 ^ 50) (by norm_num)
  have hb : |1 / Real.log 10 * Real.log (q / 2 ^ shift q : Rat)| ≤ 1 := by
    rw [abs_mul]
    exact mul_le_one₀ abs_inv_log_ten_le (abs_nonneg _) hlog
  have he : Real.logb 10 (q / 2 ^ shift q : Rat) =
      1 / Real.log 10 * Real.log (q / 2 ^ shift q : Rat) := by
    rw [Real.logb, one_div_mul_eq_div]
  rw [he]
  exact ⟨(hm.round hb).mono (by norm_num), hb⟩

theorem logb_eq (hq : 0 < q) :
    Real.logb 10 q = shift q * Real.logb 10 2 + Real.logb 10 (q / 2 ^ shift q : Rat) := by
  have hq : (0 : ℝ) < q := by exact_mod_cast hq
  have hp : (0 : ℝ) < 2 ^ shift q := by positivity
  push_cast
  rw [Real.logb_div hq.ne' hp.ne', ← Real.rpow_intCast, Real.logb_rpow_eq_mul_logb_of_pos two_pos,
    add_sub_cancel]

theorem abs_logTwoLow_le : |logTwoLow| ≤ 1 / 2 ^ 40 := by
  have hr := abs_round_sub_le (logTwo - logTwoHigh)
  have hd := abs_logTwo_sub_high
  have ht := abs_add_le (logTwoLow - (logTwo - logTwoHigh)) (logTwo - logTwoHigh)
  rw [sub_add_cancel] at ht
  rw [← logTwoLow] at hr
  linarith

theorem abs_logb_two_le : |Real.logb 10 2| ≤ 1 := by
  rw [Real.logb, ← one_div_mul_eq_div, abs_mul]
  exact mul_le_one₀ abs_inv_log_ten_le (abs_nonneg _) abs_log_two_le

theorem abs_logb_le (hq : 0 < q) (hk : |(shift q : Rat)| ≤ 32) : |Real.logb 10 q| ≤ 33 := by
  have hk : |(shift q : ℝ)| ≤ 32 := by exact_mod_cast hk
  have hm := mul_le_mul hk abs_logb_two_le (abs_nonneg _) (by norm_num)
  rw [logb_eq hq]
  apply (abs_add_le _ _).trans
  rw [abs_mul]
  linarith [(near_restLog hq).2]

theorem near_log10 (hq : 0 < q) (hk : |(shift q : Rat)| ≤ 32) :
    Near (log10 q) (Real.logb 10 q) (1 / 2 ^ 45) := by
  obtain ⟨hrest, hb⟩ := near_restLog hq
  generalize hlog : Real.logb 10 (q / 2 ^ shift q : Rat) = rest at hrest hb
  have hk' : |(shift q : ℝ)| ≤ 32 := by exact_mod_cast hk
  -- The multiple of the low places is tiny, and so is its error.
  have hlow : |((shift q * logTwoLow : Rat) : ℝ)| ≤ 1 / 2 ^ 35 := by
    have h : |shift q * logTwoLow| ≤ 32 * (1 / 2 ^ 40) := by
      rw [abs_mul]
      exact mul_le_mul hk abs_logTwoLow_le (abs_nonneg _) (by norm_num)
    have h := Rat.cast_le (K := ℝ).mpr h
    rw [Rat.cast_abs] at h
    exact h.trans (by norm_num)
  have hsum := (((Near.self _).round hlow).add hrest).mono (f := 1 / 2 ^ 48) (by norm_num)
  have hsumb : |((shift q * logTwoLow : Rat) : ℝ) + rest| ≤ 2 := by
    apply (abs_add_le _ _).trans
    linarith [hlow.trans (by norm_num : (1 / 2 ^ 35 : ℝ) ≤ 1)]
  have hall := ((hsum.round hsumb).add (Near.self (shift q * logTwoHigh))).mono
    (f := 1 / 2 ^ 47) (by norm_num)
  -- Both parts of the logarithm of two together are next to it.
  have htwo : |((shift q * logTwoLow : Rat) : ℝ) + rest + (shift q * logTwoHigh : Rat) -
      Real.logb 10 q| ≤ 1 / 2 ^ 88 := by
    have h := near_high_add_low
    rw [Near] at h
    push_cast at h ⊢
    rw [logb_eq hq, hlog]
    calc _ = |shift q * (logTwoHigh + logTwoLow - Real.logb 10 2)| := by ring_nf
      _ = |(shift q : ℝ)| * |logTwoHigh + logTwoLow - Real.logb 10 2| := abs_mul _ _
      _ ≤ 32 * (1 / 2 ^ 93) := by gcongr
      _ = 1 / 2 ^ 88 := by norm_num
  rw [log10_eq]
  exact ((hall.trans htwo).round (abs_logb_le hq hk)).mono (by norm_num)

/-- Between two powers of two every operation keeps the order. -/
theorem log10_mono (hq : 0 < q) (h : q ≤ r) (he : exponent q = exponent r) :
    log10 q ≤ log10 r := by
  have hk : shift q = shift r := by rw [shift, shift, he]
  have hp : (0 : Rat) < 2 ^ shift r := zpow_pos two_pos _
  have hrest : restLog q ≤ restLog r := by
    rw [restLog, restLog, hk]
    apply round_mono
    apply mul_le_mul_of_nonneg_left _ lnScale_nonneg
    apply round_mono
    apply lnSum_mono (div_pos hq hp)
    exact div_le_div_of_nonneg_right h hp.le
  rw [log10_eq, log10_eq, hk]
  apply round_mono
  apply add_le_add_left
  apply round_mono
  apply add_le_add_right hrest

end Rumble.Double
