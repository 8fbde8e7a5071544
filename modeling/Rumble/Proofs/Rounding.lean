import Mathlib.Algebra.Order.Field.Power
import Mathlib.Data.Rat.Floor
import Rumble.Double.Basic

namespace Rumble.Double

variable {q r : Rat}

/-! ### Exponents -/

theorem two_zpow_log2_le {n : Nat} (h : n ≠ 0) : (2 : Rat) ^ (n.log2 : Int) ≤ n := by
  have hl := Nat.log2_self_le h
  exact_mod_cast hl

theorem lt_two_zpow_log2 (n : Nat) : (n : Rat) < 2 ^ ((n.log2 : Int) + 1) := by
  have hl := Nat.lt_log2_self (n := n)
  exact_mod_cast hl

theorem two_zpow_exponent (h : q ≠ 0) :
    (2 : Rat) ^ exponent q ≤ |q| ∧ |q| < (2 : Rat) ^ (exponent q + 1) := by
  have habs : q.abs = |q| := by
    rcases le_total 0 q with hq | hq
    · rw [Rat.abs_of_nonneg hq, abs_of_nonneg hq]
    · rw [Rat.abs_of_nonpos hq, abs_of_nonpos hq]
  have hdiv : |q| = q.num.natAbs / q.den := by
    conv_lhs => rw [← Rat.num_div_den q, abs_div, Nat.abs_cast]
    rw [Nat.cast_natAbs, Int.cast_abs]
  have hnum : q.num.natAbs ≠ 0 := Int.natAbs_ne_zero.mpr (Rat.num_ne_zero.mpr h)
  rw [exponent, habs]
  -- The leading bits leave two exponents, between which the comparison decides.
  split
  · next he =>
    refine ⟨he, ?_⟩
    calc |q| = q.num.natAbs / q.den := hdiv
      _ < 2 ^ ((q.num.natAbs.log2 : Int) + 1) / 2 ^ (q.den.log2 : Int) := by
        gcongr
        · exact lt_two_zpow_log2 _
        · exact two_zpow_log2_le q.den_nz
      _ = 2 ^ ((q.num.natAbs.log2 : Int) - q.den.log2 + 1) := by
        rw [← zpow_sub₀ two_ne_zero, add_sub_right_comm]
  · next he =>
    refine ⟨?_, ?_⟩
    · calc (2 : Rat) ^ ((q.num.natAbs.log2 : Int) - q.den.log2 - 1)
          = 2 ^ (q.num.natAbs.log2 : Int) / 2 ^ ((q.den.log2 : Int) + 1) := by
            rw [← zpow_sub₀ two_ne_zero, sub_sub]
        _ ≤ q.num.natAbs / q.den := by
          gcongr
          · exact two_zpow_log2_le hnum
          · exact (lt_two_zpow_log2 _).le
        _ = |q| := hdiv.symm
    · rw [sub_add_cancel]
      exact not_le.mp he

theorem exponent_eq {e : Int} (hlow : (2 : Rat) ^ e ≤ q) (hhigh : q < 2 ^ (e + 1)) :
    exponent q = e := by
  have h2 : (1 : Rat) < 2 := one_lt_two
  have hq : 0 < q := (zpow_pos two_pos e).trans_le hlow
  obtain ⟨hl, hh⟩ := two_zpow_exponent hq.ne'
  rw [abs_of_pos hq] at hl hh
  have h1 := (zpow_lt_zpow_iff_right₀ h2).mp (hl.trans_lt hhigh)
  have h3 := (zpow_lt_zpow_iff_right₀ h2).mp (hlow.trans_lt hh)
  omega

theorem exponent_mono (hq : q ≠ 0) (h : |q| ≤ |r|) : exponent q ≤ exponent r := by
  have hr : r ≠ 0 := abs_pos.mp ((abs_pos.mpr hq).trans_le h)
  have hl := (two_zpow_exponent hq).1
  have hh := (two_zpow_exponent hr).2
  have hlt := (zpow_lt_zpow_iff_right₀ (one_lt_two : (1 : Rat) < 2)).mp ((hl.trans h).trans_lt hh)
  omega

/-! ### The nearest integer -/

theorem abs_nearestEven_sub_le (q : Rat) : |(nearestEven q : Rat) - q| ≤ 1 / 2 := by
  have hf : (q.floor : Rat) ≤ q := Rat.floor_le q
  have hl : q < (q.floor + 1 : Int) := Rat.lt_floor_add_one q
  push_cast at hl
  rw [nearestEven, abs_le]
  split
  · next hr =>
    have hr : q - q.floor ≤ 1 / 2 := hr.elim le_of_lt fun h => h.1.le
    constructor <;> linarith
  · next hr =>
    have hr : 1 / 2 ≤ q - q.floor := not_lt.mp fun h => hr (.inl h)
    push_cast
    constructor <;> linarith

theorem nearestEven_intCast (n : Int) : nearestEven n = n := by
  rw [nearestEven, Rat.floor_intCast, sub_self, if_pos (.inl (by norm_num))]

theorem nearestEven_mono (h : q ≤ r) : nearestEven q ≤ nearestEven r := by
  rcases (Rat.floor_monotone h).eq_or_lt with he | hlt
  · -- Both have the same integers around them.
    simp only [nearestEven, ← he]
    split <;> split
    · rfl
    · omega
    · next hq hr =>
      exfalso
      apply hq
      rcases hr with hr | ⟨hr, he⟩
      · left
        linarith
      · rcases (sub_le_sub_right h (q.floor : Rat)).lt_or_eq with hl | hs
        · left
          linarith
        · right
          exact ⟨hs.trans hr, he⟩
    · rfl
  · have hq : nearestEven q ≤ q.floor + 1 := by
      rw [nearestEven]
      split <;> omega
    have hr : r.floor ≤ nearestEven r := by
      rw [nearestEven]
      split <;> omega
    omega

/-! ### Rounding -/

theorem spacing_pos (q : Rat) : 0 < spacing q := zpow_pos two_pos _

theorem spacing_le (q : Rat) (h : q ≠ 0) : spacing q ≤ |q| / 2 ^ 52 := by
  rw [spacing, zpow_sub₀ two_ne_zero]
  gcongr
  · exact (two_zpow_exponent h).1
  · norm_num

theorem round_zero : round 0 = 0 := by
  have hn : nearestEven 0 = 0 := nearestEven_intCast 0
  rw [round, zero_div, hn, Int.cast_zero, zero_mul]

/-- The distance to the nearest of the numbers with 53 bits is half of their spacing. -/
theorem abs_round_sub_le (q : Rat) : |round q - q| ≤ |q| / 2 ^ 53 := by
  rcases eq_or_ne q 0 with rfl | h
  · rw [round_zero, sub_zero, abs_zero, zero_div]
  · have hs := spacing_pos q
    calc |round q - q| = |(nearestEven (q / spacing q) - q / spacing q) * spacing q| := by
          rw [round, sub_mul, div_mul_cancel₀ q hs.ne']
      _ = |nearestEven (q / spacing q) - q / spacing q| * spacing q := by
          rw [abs_mul, abs_of_pos hs]
      _ ≤ 1 / 2 * (|q| / 2 ^ 52) := by
          gcongr
          · exact abs_nearestEven_sub_le _
          · exact spacing_le q h
      _ = |q| / 2 ^ 53 := by ring

theorem round_nonneg (h : 0 ≤ q) : 0 ≤ round q := by
  have hr := (abs_le.mp (abs_round_sub_le q)).1
  rw [abs_of_nonneg h] at hr
  linarith

theorem round_le_two_mul (h : 0 ≤ q) : round q ≤ 2 * q := by
  have hr := (abs_le.mp (abs_round_sub_le q)).2
  rw [abs_of_nonneg h] at hr
  linarith

/-! ### The order -/

/-- A multiple of the spacing below a number stays below it. -/
theorem le_round {n : Int} (h : n * spacing q ≤ q) : n * spacing q ≤ round q := by
  have hs := spacing_pos q
  have hn := nearestEven_mono ((le_div_iff₀ hs).mpr h)
  rw [nearestEven_intCast] at hn
  exact mul_le_mul_of_nonneg_right (by exact_mod_cast hn) hs.le

theorem round_le {n : Int} (h : q ≤ n * spacing q) : round q ≤ n * spacing q := by
  have hs := spacing_pos q
  have hn := nearestEven_mono ((div_le_iff₀ hs).mpr h)
  rw [nearestEven_intCast] at hn
  exact mul_le_mul_of_nonneg_right (by exact_mod_cast hn) hs.le

theorem two_zpow_exponent_eq (q : Rat) : (2 : Rat) ^ exponent q = (2 ^ 52 : Int) * spacing q := by
  rw [spacing, zpow_sub₀ two_ne_zero]
  norm_num
  ring

theorem two_zpow_exponent_add_one_eq (q : Rat) :
    (2 : Rat) ^ (exponent q + 1) = (2 ^ 53 : Int) * spacing q := by
  rw [zpow_add_one₀ two_ne_zero, two_zpow_exponent_eq]
  push_cast
  ring

/-- Rounding does not leave the powers of two around a positive number. -/
theorem two_zpow_exponent_round (h : 0 < q) :
    (2 : Rat) ^ exponent q ≤ round q ∧ round q ≤ (2 : Rat) ^ (exponent q + 1) := by
  obtain ⟨hl, hh⟩ := two_zpow_exponent h.ne'
  rw [abs_of_pos h, two_zpow_exponent_eq] at hl
  rw [abs_of_pos h, two_zpow_exponent_add_one_eq] at hh
  rw [two_zpow_exponent_eq, two_zpow_exponent_add_one_eq]
  exact ⟨le_round hl, round_le hh.le⟩

theorem neg_two_zpow_exponent_round (h : q < 0) :
    -(2 : Rat) ^ (exponent q + 1) ≤ round q ∧ round q ≤ -(2 : Rat) ^ exponent q := by
  obtain ⟨hl, hh⟩ := two_zpow_exponent h.ne
  rw [abs_of_neg h, two_zpow_exponent_eq] at hl
  rw [abs_of_neg h, two_zpow_exponent_add_one_eq] at hh
  rw [two_zpow_exponent_eq, two_zpow_exponent_add_one_eq, ← neg_mul, ← neg_mul, ← Int.cast_neg,
    ← Int.cast_neg]
  constructor
  · apply le_round
    push_cast at hh ⊢
    linarith
  · apply round_le
    push_cast at hl ⊢
    linarith

theorem round_two_zpow (z : Int) : round (2 ^ z) = 2 ^ z := by
  have he : exponent (2 ^ z) = z :=
    exponent_eq le_rfl (zpow_lt_zpow_right₀ one_lt_two (lt_add_one z))
  have hz := two_zpow_exponent_eq (2 ^ z)
  rw [he] at hz
  exact le_antisymm ((round_le hz.le).trans hz.ge) (hz.le.trans (le_round hz.ge))

theorem round_mono (h : q ≤ r) : round q ≤ round r := by
  by_cases he : exponent q = exponent r
  · have hs : spacing q = spacing r := by rw [spacing, spacing, he]
    have hn := nearestEven_mono (div_le_div_of_nonneg_right h (spacing_pos r).le)
    rw [round, round, hs]
    exact mul_le_mul_of_nonneg_right (by exact_mod_cast hn) (spacing_pos r).le
  · -- With other exponents there is a power of two in between.
    have h2 : (1 : Rat) ≤ 2 := one_le_two
    rcases lt_trichotomy q 0 with hq | rfl | hq
    · have hrq := (neg_two_zpow_exponent_round hq).2
      rcases lt_or_ge r 0 with hr | hr
      · have habs : |r| ≤ |q| := by
          rw [abs_of_neg hr, abs_of_neg hq]
          exact neg_le_neg h
        have hlt := (exponent_mono hr.ne habs).lt_of_ne (Ne.symm he)
        calc round q ≤ -2 ^ exponent q := hrq
          _ ≤ -2 ^ (exponent r + 1) := neg_le_neg (zpow_le_zpow_right₀ h2 hlt)
          _ ≤ round r := (neg_two_zpow_exponent_round hr).1
      · have hz := zpow_pos (two_pos : (0 : Rat) < 2) (exponent q)
        linarith [round_nonneg hr]
    · rw [round_zero]
      exact round_nonneg h
    · have hr := hq.trans_le h
      have habs : |q| ≤ |r| := by rwa [abs_of_pos hq, abs_of_pos hr]
      have hlt := (exponent_mono hq.ne' habs).lt_of_ne he
      calc round q ≤ 2 ^ (exponent q + 1) := (two_zpow_exponent_round hq).2
        _ ≤ 2 ^ exponent r := zpow_le_zpow_right₀ h2 hlt
        _ ≤ round r := (two_zpow_exponent_round hr).1

end Rumble.Double
