import Rumble.Effect
import Rumble.Proofs.LastAssignment
import Rumble.Proofs.NumeralGrammar

namespace Rumble

/-! ### Letter case -/

theorem Text.toLower_eq_self {c : Char} (h : c.isAlpha = false) : c.toLower = c := by
  have hu : c.isUpper = false := (Bool.or_eq_false_iff.mp h).1
  exact dif_neg (of_decide_eq_false hu)

/-- Only a letter becomes another character in lower case, and that is a letter too. -/
theorem Text.toLower_eq_iff {c d : Char} (hd : d.isAlpha = false) : c.toLower = d ↔ c = d := by
  constructor
  · rintro rfl
    by_cases hu : c.val ≥ 'A'.val ∧ c.val ≤ 'Z'.val
    · have hv : c.toLower.val = c.val + 32 := congrArg Char.val (dif_pos hu)
      have hl : c.toLower.val ≥ 'a'.val ∧ c.toLower.val ≤ 'z'.val := by
        rw [ge_iff_le, UInt32.le_iff_toNat_le, UInt32.le_iff_toNat_le] at hu ⊢
        rw [hv, UInt32.toNat_add]
        simp only [UInt32.reduceToNat, Char.reduceVal] at hu ⊢
        omega
      have ha : c.toLower.isLower = true :=
        Bool.and_eq_true_iff.mpr ⟨decide_eq_true hl.1, decide_eq_true hl.2⟩
      rw [(Bool.or_eq_false_iff.mp hd).2] at ha
      cases ha
    · have hc : c.toLower = c := dif_neg hu
      exact hc.symm
  · rintro rfl
    exact toLower_eq_self hd

namespace Effect

/-- The separators that spellings are free in. -/
def IsDash (c : Char) : Prop := c = '-' ∨ c = '_'

instance (c : Char) : Decidable (IsDash c) := inferInstanceAs (Decidable (_ ∨ _))

/-- Texts that differ in letter case, dashes and underscores alone. -/
inductive Respells : List Char → List Char → Prop
  | nil : Respells [] []
  | letter {c d : Char} {cs ds : List Char} (h : c.toLower = d.toLower) (rest : Respells cs ds) :
    Respells (c :: cs) (d :: ds)
  | insert {c : Char} {cs ds : List Char} (h : IsDash c) (rest : Respells cs ds) :
    Respells (c :: cs) ds
  | drop {d : Char} {cs ds : List Char} (h : IsDash d) (rest : Respells cs ds) :
    Respells cs (d :: ds)

variable {e e' : Effect} {cs ds : List Char} {n : Nat}

/-! ### Names -/

def letters (e : Effect) : List Char := e.name.toList.filter (· ≠ '_')

theorem isDash_of_toLower_eq {c d : Char} (h : c.toLower = d.toLower) (hd : IsDash d) :
    IsDash c := by
  rcases hd with rfl | rfl
  · exact .inl ((Text.toLower_eq_iff (by decide)).mp h)
  · exact .inr ((Text.toLower_eq_iff (by decide)).mp h)

theorem squash_cons_of_isDash {c : Char} (h : IsDash c) (cs : List Char) :
    squash (c :: cs) = squash cs := by
  rcases h with rfl | rfl <;> rfl

theorem squash_cons_of_not_isDash {c : Char} (h : ¬ IsDash c) (cs : List Char) :
    squash (c :: cs) = c.toLower :: squash cs := by
  have hp : c ≠ '-' ∧ c ≠ '_' := not_or.mp h
  rw [squash, List.filter_cons_of_pos (by simpa using hp), List.map_cons]
  rfl

theorem Respells.squash_eq (h : Respells cs ds) : squash cs = squash ds := by
  induction h with
  | nil => rfl
  | @letter c d cs ds h _ ih =>
    by_cases hd : IsDash d
    · rw [squash_cons_of_isDash hd, squash_cons_of_isDash (isDash_of_toLower_eq h hd), ih]
    · have hc : ¬ IsDash c := fun hc => hd (isDash_of_toLower_eq h.symm hc)
      rw [squash_cons_of_not_isDash hc, squash_cons_of_not_isDash hd, h, ih]
  | insert h _ ih => rw [squash_cons_of_isDash h, ih]
  | drop h _ ih => rw [squash_cons_of_isDash h, ih]

theorem respells_of_squash_eq (h : squash cs = squash ds) : Respells cs ds := by
  induction cs generalizing ds with
  | nil =>
    induction ds with
    | nil => exact .nil
    | cons d ds ih =>
      by_cases hd : IsDash d
      · rw [squash_cons_of_isDash hd] at h
        exact .drop hd (ih h)
      · rw [squash_cons_of_not_isDash hd] at h
        cases h
  | cons c cs ih =>
    by_cases hc : IsDash c
    · rw [squash_cons_of_isDash hc] at h
      exact .insert hc (ih h)
    · -- The next character of the other text that is no dash has to be the same letter.
      rw [squash_cons_of_not_isDash hc] at h
      induction ds with
      | nil => cases h
      | cons d ds ihd =>
        by_cases hd : IsDash d
        · rw [squash_cons_of_isDash hd] at h
          exact .drop hd (ihd h)
        · rw [squash_cons_of_not_isDash hd] at h
          obtain ⟨hl, hr⟩ := List.cons.inj h
          exact .letter hl (ih hr)

theorem respells_iff : Respells cs ds ↔ squash cs = squash ds :=
  ⟨Respells.squash_eq, respells_of_squash_eq⟩

instance (cs ds : List Char) : Decidable (Respells cs ds) := decidable_of_iff _ respells_iff.symm

end Effect

end Rumble
