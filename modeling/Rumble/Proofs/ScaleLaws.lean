import Rumble.Proofs.DoubleSteps

namespace Rumble.Attenuation

/-- A rule for the steps, behind the refusals of `scale`. -/
def scaleBy (steps : Nat → Nat → Nat) (amplitude maximum : UInt32) : Except Failure UInt32 :=
  if amplitude = 0 ∨ maximum < amplitude then .error .badValue
  else .ok (.ofNat (steps amplitude.toNat maximum.toNat))

def exactScale : UInt32 → UInt32 → Except Failure UInt32 := scaleBy exactSteps

theorem scale_eq : scale = scaleBy steps := rfl

noncomputable def tolerance : ℝ := 1 / 2 ^ 36

structure Admits (a m : Nat) : Prop where
  pos : 0 < a
  le : a ≤ m
  lt : m < 2 ^ 32

/-- Steps that fit a word, fall with the ratio, and start at zero. -/
structure IsRule (steps : Nat → Nat → Nat) : Prop where
  lt {a m : Nat} (h : Admits a m) : steps a m < 2 ^ 32
  antitone {a m b n : Nat} (h : Admits a m) (h' : Admits b n) (hr : (a / m : Rat) ≤ b / n) :
    steps b n ≤ steps a m
  full {m : Nat} (h : Admits m m) : steps m m = 0

structure Laws (scale : UInt32 → UInt32 → Except Failure UInt32) : Prop where
  refused_iff (a m : UInt32) : scale a m = .error .badValue ↔ a = 0 ∨ m = 0 ∨ m < a
  louder {a b m : UInt32} (ha : a ≠ 0) (hab : a ≤ b) (hbm : b ≤ m) :
    ∃ x y, scale a m = .ok x ∧ scale b m = .ok y ∧ y ≤ x
  wider {a m n : UInt32} (ha : a ≠ 0) (ham : a ≤ m) (hmn : m ≤ n) :
    ∃ x y, scale a m = .ok x ∧ scale a n = .ok y ∧ x ≤ y
  ratio {c a m : UInt32} (hc : c ≠ 0) (ha : c.toNat * a.toNat < 2 ^ 32)
    (hm : c.toNat * m.toNat < 2 ^ 32) : scale (c * a) (c * m) = scale a m
  full {m : UInt32} (hm : m ≠ 0) : scale m m = .ok 0

variable {a m b n : Nat} {f : Nat → Nat → Nat}

namespace Admits

theorem isRatio (h : Admits a m) : IsRatio (a / m) := .of_le h.pos h.le h.lt

theorem mul_iff {c : Nat} (hc : 0 < c) (hm : c * m < 2 ^ 32) :
    Admits (c * a) (c * m) ↔ Admits a m := by
  constructor
  · intro h
    exact ⟨Nat.pos_of_mul_pos_left h.pos, Nat.le_of_mul_le_mul_left h.le hc,
      (Nat.le_mul_of_pos_left m hc).trans_lt hm⟩
  · intro h
    exact ⟨Nat.mul_pos hc h.pos, Nat.mul_le_mul_left c h.le, hm⟩

end Admits

theorem admits_iff {a m : UInt32} : Admits a.toNat m.toNat ↔ a ≠ 0 ∧ a ≤ m := by
  rw [UInt32.le_iff_toNat_le, Ne, ← UInt32.toNat_inj, UInt32.toNat_zero]
  constructor
  · intro h
    exact ⟨h.pos.ne', h.le⟩
  · rintro ⟨ha, h⟩
    exact ⟨Nat.pos_of_ne_zero ha, h, m.toNat_lt⟩

/-! ### From a rule to its laws -/

theorem scaleBy_eq_ok {a m : UInt32} (h : Admits a.toNat m.toNat) :
    scaleBy f a m = .ok (.ofNat (f a.toNat m.toNat)) := by
  obtain ⟨ha, h⟩ := admits_iff.mp h
  apply if_neg
  rw [not_or, UInt32.not_lt]
  exact ⟨ha, h⟩

theorem scaleBy_eq_error {a m : UInt32} (h : ¬Admits a.toNat m.toNat) :
    scaleBy f a m = .error .badValue := by
  rw [admits_iff, not_and_or, not_not, UInt32.not_le] at h
  exact if_pos h

theorem scaleBy_eq_error_iff {a m : UInt32} :
    scaleBy f a m = .error .badValue ↔ a = 0 ∨ m = 0 ∨ m < a := by
  by_cases h : Admits a.toNat m.toNat
  · rw [scaleBy_eq_ok h]
    obtain ⟨ha, hm⟩ := admits_iff.mp h
    have hm0 : m ≠ 0 := by
      rintro rfl
      exact ha (UInt32.le_zero_iff.mp hm)
    simp [ha, hm0, hm]
  · rw [scaleBy_eq_error h]
    rw [admits_iff, not_and_or, not_not, UInt32.not_le] at h
    tauto

namespace IsRule

theorem toNat_ofNat (hf : IsRule f) (h : Admits a m) : (UInt32.ofNat (f a m)).toNat = f a m :=
  UInt32.toNat_ofNat_of_lt' (hf.lt h)

theorem le (hf : IsRule f) (h : Admits a m) (h' : Admits b n) (hr : (a / m : Rat) ≤ b / n) :
    UInt32.ofNat (f b n) ≤ UInt32.ofNat (f a m) := by
  rw [UInt32.le_iff_toNat_le, hf.toNat_ofNat h, hf.toNat_ofNat h']
  exact hf.antitone h h' hr

theorem mul_eq (hf : IsRule f) {c : Nat} (hc : 0 < c) (h : Admits a m)
    (h' : Admits (c * a) (c * m)) : f (c * a) (c * m) = f a m := by
  have hc : (c : Rat) ≠ 0 := by exact_mod_cast hc.ne'
  have hr : ((c * a : Nat) / (c * m : Nat) : Rat) = a / m := by
    push_cast
    exact mul_div_mul_left _ _ hc
  exact le_antisymm (hf.antitone h h' hr.ge) (hf.antitone h' h hr.le)

theorem laws (hf : IsRule f) : Laws (scaleBy f) where
  refused_iff a m := scaleBy_eq_error_iff
  louder {a b m} ha hab hbm := by
    rw [UInt32.le_iff_toNat_le] at hab hbm
    have h : Admits a.toNat m.toNat := admits_iff.mpr ⟨ha, hab.trans hbm⟩
    have h' : Admits b.toNat m.toNat := ⟨h.pos.trans_le hab, hbm, h.lt⟩
    refine ⟨_, _, scaleBy_eq_ok h, scaleBy_eq_ok h', hf.le h h' ?_⟩
    gcongr
  wider {a m n} ha ham hmn := by
    rw [UInt32.le_iff_toNat_le] at hmn
    have h : Admits a.toNat m.toNat := admits_iff.mpr ⟨ha, ham⟩
    have h' : Admits a.toNat n.toNat := ⟨h.pos, h.le.trans hmn, n.toNat_lt⟩
    refine ⟨_, _, scaleBy_eq_ok h, scaleBy_eq_ok h', hf.le h' h ?_⟩
    have hm : 0 < m.toNat := h.pos.trans_le h.le
    gcongr
  ratio {c a m} hc ha hm := by
    rw [Ne, ← UInt32.toNat_inj, UInt32.toNat_zero] at hc
    have hc : 0 < c.toNat := Nat.pos_of_ne_zero hc
    have hca : (c * a).toNat = c.toNat * a.toNat := by rw [UInt32.toNat_mul, Nat.mod_eq_of_lt ha]
    have hcm : (c * m).toNat = c.toNat * m.toNat := by rw [UInt32.toNat_mul, Nat.mod_eq_of_lt hm]
    have hiff : Admits (c * a).toNat (c * m).toNat ↔ Admits a.toNat m.toNat := by
      rw [hca, hcm]
      exact Admits.mul_iff hc hm
    by_cases h : Admits a.toNat m.toNat
    · have h' := hiff.mpr h
      rw [scaleBy_eq_ok h, scaleBy_eq_ok h', hca, hcm]
      rw [hca, hcm] at h'
      rw [hf.mul_eq hc h h']
    · rw [scaleBy_eq_error h, scaleBy_eq_error (mt hiff.mp h)]
  full {m} hm := by
    have h : Admits m.toNat m.toNat := admits_iff.mpr ⟨hm, UInt32.le_rfl⟩
    rw [scaleBy_eq_ok h, hf.full h]
    rfl

end IsRule

/-! ### Exact arithmetic -/

theorem formula_le (h : Admits a m) : formula (a / m) ≤ 5280 := by
  have hr := h.isRatio
  have hl := (abs_le.mp (Double.abs_logb_le hr.pos hr.abs_shift)).1
  push_cast at hl
  rw [formula_eq]
  linarith

theorem isRule_exactSteps : IsRule exactSteps where
  lt {a m} h := by
    have hr : (exactSteps a m : ℤ) ≤ 5280 := by
      rw [← round_formula h.pos h.le, round_eq, Int.floor_le_iff]
      push_cast
      linarith [formula_le h]
    omega
  antitone {a m b n} h h' hr := by
    have hr : (a / m : ℝ) ≤ b / n := by
      have h := Rat.cast_le (K := ℝ).mpr hr
      push_cast at h
      exact h
    have hm : 0 < m := h.pos.trans_le h.le
    have ha : 0 < a := h.pos
    have hle : (exactSteps b n : ℤ) ≤ exactSteps a m := by
      rw [← round_formula h.pos h.le, ← round_formula h'.pos h'.le, round_eq, round_eq]
      apply Int.floor_mono
      linarith [formula_antitone (by positivity) hr]
    exact_mod_cast hle
  full {m} h := by
    have hm : (m : ℝ) ≠ 0 := by exact_mod_cast h.pos.ne'
    have hr := round_formula h.pos h.le
    rw [div_self hm, formula_one, round_zero] at hr
    exact_mod_cast hr.symm

/-! ### Double precision -/

theorem abs_doubleFormula_sub_le (h : Admits a m) :
    |(doubleFormula (Double.round (a / m)) : ℝ) - formula (a / m)| ≤ tolerance := by
  have hn := h.isRatio.near_round
  rw [Double.Near] at hn
  push_cast at hn
  exact hn

theorem steps_bounds (h : Admits a m) :
    (steps a m : ℝ) ≤ doubleFormula (Double.round (a / m)) + 1 / 2 ∧
      (doubleFormula (Double.round (a / m)) : ℝ) + 1 / 2 < steps a m + 1 := by
  rw [steps_eq]
  exact ratioSteps_bounds h.isRatio.round

theorem abs_steps_sub_formula_le (h : Admits a m) :
    |(steps a m : ℝ) - formula (a / m)| ≤ 1 / 2 + tolerance := by
  obtain ⟨hl, hh⟩ := steps_bounds h
  obtain ⟨hd1, hd2⟩ := abs_le.mp (abs_doubleFormula_sub_le h)
  rw [abs_le]
  constructor <;> linarith

/-- A half that is next to the formula is all that can come between the two. -/
theorem steps_eq_exactSteps (h : Admits a m)
    (hf : ∀ j : ℤ, tolerance < |formula (a / m) - (j + 1 / 2)|) : steps a m = exactSteps a m := by
  obtain ⟨hl, hh⟩ := steps_bounds h
  obtain ⟨hd1, hd2⟩ := abs_le.mp (abs_doubleFormula_sub_le h)
  have hr : round (formula (a / m)) = steps a m := by
    rw [round_eq_iff, Set.mem_Ico]
    push_cast
    constructor
    · by_contra hlt
      have hj := hf (steps a m - 1)
      push_cast at hj
      rw [abs_of_nonpos (by linarith)] at hj
      linarith
    · by_contra hge
      have hj := hf (steps a m)
      push_cast at hj
      rw [abs_of_nonneg (by linarith)] at hj
      linarith
  rw [round_formula h.pos h.le] at hr
  exact_mod_cast hr.symm

theorem isRule_steps : IsRule steps where
  lt {a m} h := by
    have hs := (abs_le.mp (abs_steps_sub_formula_le h)).2
    have ht : tolerance ≤ 1 := by
      rw [tolerance]
      norm_num
    have hr : (steps a m : ℝ) < 2 ^ 32 := by linarith [formula_le h]
    exact_mod_cast hr
  antitone {a m b n} h h' hr :=
    ratioSteps_antitone h.isRatio.round h'.isRatio.round (Double.round_mono hr)
  full {m} h := by
    have hm : (m : ℝ) ≠ 0 := by exact_mod_cast h.pos.ne'
    have hs := (abs_le.mp (abs_steps_sub_formula_le h)).2
    rw [div_self hm, formula_one] at hs
    have ht : tolerance < 1 / 2 := by
      rw [tolerance]
      norm_num
    have hr : (steps m m : ℝ) < 1 := by linarith
    have hr : steps m m < 1 := by exact_mod_cast hr
    omega

/-! ### All amplitudes -/

/-- The attenuation of every amplitude on every scale. In exact arithmetic it is the one integer
nearest to the formula, which is never half way between two; in double precision it is within the
tolerance of being nearest. Both refuse the same amplitudes, and to both a louder amplitude is never
attenuated more, the ratio is all that counts, and the full scale is not attenuated. -/
theorem scale_nearest :
    Laws exactScale ∧ Laws scale ∧
      ∀ a m : UInt32, a ≠ 0 → a ≤ m →
        ∃ k n : UInt32, exactScale a m = .ok k ∧ scale a m = .ok n ∧
          round (formula (a.toNat / m.toNat)) = k.toNat ∧
          (∀ j : ℤ, IsNearest a.toNat m.toNat j ↔ j = k.toNat) ∧
          (∀ j : ℤ, formula (a.toNat / m.toNat) ≠ j + 1 / 2) ∧
          |(n.toNat : ℝ) - formula (a.toNat / m.toNat)| ≤ 1 / 2 + tolerance ∧
          ((∀ j : ℤ, tolerance < |formula (a.toNat / m.toNat) - (j + 1 / 2)|) → n = k) := by
  rw [scale_eq, exactScale]
  refine ⟨isRule_exactSteps.laws, isRule_steps.laws, ?_⟩
  intro a m ha hm
  have h : Admits a.toNat m.toNat := admits_iff.mpr ⟨ha, hm⟩
  have hm0 : 0 < m.toNat := h.pos.trans_le h.le
  have hround := round_formula h.pos h.le
  refine ⟨_, _, scaleBy_eq_ok h, scaleBy_eq_ok h, ?_⟩
  rw [isRule_exactSteps.toNat_ofNat h, isRule_steps.toNat_ofNat h]
  refine ⟨hround, ?_, formula_ne_half h.pos hm0, abs_steps_sub_formula_le h, ?_⟩
  · intro j
    rw [isNearest_iff_round h.pos hm0, hround]
    exact eq_comm
  · intro hf
    rw [steps_eq_exactSteps h hf]

/-- Half of the full scale is six decibels below it. -/
theorem scale_nearest_half :
    exactScale 50 100 = .ok 48 ∧ scale 50 100 = .ok 48 ∧ round (formula (50 / 100)) = 48 := by
  have he : exactScale 50 100 = .ok 48 := by decide +kernel
  have hs : scale 50 100 = .ok 48 := by decide +kernel
  have h0 : (50 : UInt32) ≠ 0 := by decide
  have hle : (50 : UInt32) ≤ 100 := by decide
  obtain ⟨k, n, hk, -, hr, -⟩ := scale_nearest.2.2 50 100 h0 hle
  obtain rfl : k = 48 := Except.ok.inj (hk.symm.trans he)
  exact ⟨he, hs, hr⟩

/-- Next to a half the two can be different. -/
example : exactScale 22680488 47591281 = .ok 52 ∧ scale 22680488 47591281 = .ok 51 := by
  decide +kernel

end Rumble.Attenuation
