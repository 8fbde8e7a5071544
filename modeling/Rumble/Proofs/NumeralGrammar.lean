import Mathlib.Data.List.Forall2
import Mathlib.Data.Nat.Digits.Lemmas
import Mathlib.Tactic.IntervalCases
import Mathlib.Tactic.Ring
import Rumble.Text.Blank
import Rumble.Text.Numeral

namespace Rumble.Text

/-- A digit character at the place of its value, in either case. -/
def IsDigit (base : Nat) (c : Char) (d : Nat) : Prop :=
  d < base ∧ ("0123456789abcdef".toList[d]? = some c ∨ "0123456789ABCDEF".toList[d]? = some c)

instance (base : Nat) (c : Char) (d : Nat) : Decidable (IsDigit base c d) :=
  inferInstanceAs (Decidable (_ ∧ _))

/-- Digits, the most significant one first, and their value. -/
def HasDigits (base : Nat) (cs : List Char) (n : Nat) : Prop :=
  ∃ ds, List.Forall₂ (IsDigit base) cs ds ∧ n = Nat.ofDigits base ds.reverse

/-- An unsigned numeral of any length: at least one digit, behind a plus sign or not. -/
inductive IsNumeral (base : Nat) : List Char → Nat → Prop
  | plain {cs : List Char} {n : Nat} (hn : cs ≠ []) (h : HasDigits base cs n) : IsNumeral base cs n
  | signed {cs : List Char} {n : Nat} (hn : cs ≠ []) (h : HasDigits base cs n) :
    IsNumeral base ('+' :: cs) n

/-- A numeral that is decimal, or hexadecimal behind `0x` or `0X`. -/
inductive IsDecimalOrHex : List Char → Nat → Prop
  | decimal {cs : List Char} {n : Nat} (h : IsNumeral 10 cs n) : IsDecimalOrHex cs n
  | hex {x : Char} {cs : List Char} {n : Nat} (hx : x = 'x' ∨ x = 'X') (h : IsNumeral 16 cs n) :
    IsDecimalOrHex ('0' :: x :: cs) n

variable {base n d : Nat} {c : Char} {cs : List Char}

/-! ### Digits -/

theorem digit?_cases (h : digit? base c = some d) :
    d < base ∧ (d < 10 ∧ c = Char.ofNat (48 + d) ∨
      10 ≤ d ∧ (c = Char.ofNat (87 + d) ∨ c = Char.ofNat (55 + d))) := by
  have hc {m : Nat} (hm : m = c.toNat) : c = Char.ofNat m := by rw [hm, Char.ofNat_toNat]
  simp only [digit?, Option.ite_none_right_eq_some, Option.some.injEq] at h
  obtain ⟨hb, rfl⟩ := h
  refine ⟨hb, ?_⟩
  split_ifs at hb ⊢ with h0 ha hA
  · exact .inl ⟨by omega, hc (by omega)⟩
  · exact .inr ⟨by omega, .inl (hc (by omega))⟩
  · exact .inr ⟨by omega, .inr (hc (by omega))⟩
  · omega

theorem digit?_of_digit?_sixteen (h : digit? 16 c = some d) (hd : d < base) :
    digit? base c = some d := by
  simp only [digit?] at h ⊢
  split_ifs at h ⊢ <;> grind

theorem digit?_eq_some_iff (hb : base ≤ 16) : digit? base c = some d ↔ IsDigit base c d := by
  constructor
  · intro h
    have hl : ∀ d < 10, "0123456789abcdef".toList[d]? = some (Char.ofNat (48 + d)) := by decide
    have ha : ∀ d < 16, 10 ≤ d → "0123456789abcdef".toList[d]? = some (Char.ofNat (87 + d)) := by
      decide
    have hA : ∀ d < 16, 10 ≤ d → "0123456789ABCDEF".toList[d]? = some (Char.ofNat (55 + d)) := by
      decide
    obtain ⟨hd, ⟨h10, rfl⟩ | ⟨h10, rfl | rfl⟩⟩ := digit?_cases h
    · exact ⟨hd, .inl (hl d h10)⟩
    · exact ⟨hd, .inl (ha d (hd.trans_le hb) h10)⟩
    · exact ⟨hd, .inr (hA d (hd.trans_le hb) h10)⟩
  · rintro ⟨hd, hc⟩
    have hl : ∀ d < 16, "0123456789abcdef".toList[d]?.bind (digit? 16) = some d := by decide
    have hu : ∀ d < 16, "0123456789ABCDEF".toList[d]?.bind (digit? 16) = some d := by decide
    apply digit?_of_digit?_sixteen _ hd
    rcases hc with hc | hc
    · have h := hl d (hd.trans_le hb)
      rwa [hc] at h
    · have h := hu d (hd.trans_le hb)
      rwa [hc] at h

theorem foldlM_digit?_eq_some_iff (hb : base ≤ 16) (a : Nat) :
    cs.foldlM (fun n c => (digit? base c).map (base * n + ·)) a = some n ↔
      ∃ ds, List.Forall₂ (IsDigit base) cs ds ∧
        n = base ^ cs.length * a + Nat.ofDigits base ds.reverse := by
  induction cs generalizing a with
  | nil => simp [eq_comm]
  | cons c cs ih =>
    rw [List.foldlM_cons]
    simp only [Option.bind_eq_bind, Option.bind_eq_some_iff, Option.map_eq_some_iff, ih]
    constructor
    · rintro ⟨_, ⟨d, hd, rfl⟩, ds, hds, rfl⟩
      refine ⟨d :: ds, .cons ((digit?_eq_some_iff hb).mp hd) hds, ?_⟩
      rw [Nat.ofDigits_reverse_cons, List.length_cons, hds.length_eq]
      ring
    · rintro ⟨_, hds, rfl⟩
      cases hds with
      | @cons _ d _ ds hd hds =>
        refine ⟨base * a + d, ⟨d, (digit?_eq_some_iff hb).mpr hd, rfl⟩, ds, hds, ?_⟩
        rw [Nat.ofDigits_reverse_cons, List.length_cons, hds.length_eq]
        ring

theorem digits?_eq_some_iff (hb : base ≤ 16) : digits? base cs = some n ↔ HasDigits base cs n := by
  rw [digits?, foldlM_digit?_eq_some_iff hb]
  simp only [Nat.mul_zero, Nat.zero_add]
  rfl

theorem HasDigits.exists_isDigit (h : HasDigits base cs n) (hc : c ∈ cs) :
    ∃ d, IsDigit base c d := by
  obtain ⟨ds, hds, -⟩ := h
  induction hds with
  | nil => cases hc
  | cons hd _ ih =>
    rcases List.mem_cons.mp hc with rfl | hc
    · exact ⟨_, hd⟩
    · exact ih hc

theorem HasDigits.not_mem (hb : base ≤ 16) (h : HasDigits base cs n) (hc : digit? base c = none) :
    c ∉ cs := by
  intro hm
  obtain ⟨d, hd⟩ := h.exists_isDigit hm
  rw [(digit?_eq_some_iff hb).mpr hd] at hc
  cases hc

theorem isBlank_eq_false_of_isDigit {c : Char} (h : c.isDigit) : isBlank c = false := by
  have hc := toNat_of_isDigit h
  simp only [isBlank, Bool.or_eq_false_iff, Bool.and_eq_false_iff, decide_eq_false_iff_not]
  omega

theorem digit?_plus (base : Nat) : digit? base '+' = none := by
  simp [digit?]

/-! ### Numerals -/

theorem numeral?_eq_some_iff (hb : base ≤ 16) :
    numeral? base cs = some n ↔ IsNumeral base cs n := by
  constructor
  · intro h
    unfold numeral? at h
    split at h
    · cases h
    · cases h
    · next ds hn => exact .signed (by rintro rfl; exact hn rfl) ((digits?_eq_some_iff hb).mp h)
    · next hn _ _ => exact .plain hn ((digits?_eq_some_iff hb).mp h)
  · intro h
    cases h with
    | plain hn h =>
      -- No digit is a plus sign, so the whole text is digits.
      have hp : '+' ∉ cs := h.not_mem hb (digit?_plus base)
      cases cs with
      | nil => exact absurd rfl hn
      | cons c cs =>
        have hc : c ≠ '+' := fun hc => hp (hc ▸ List.mem_cons_self)
        rw [← digits?_eq_some_iff hb] at h
        unfold numeral?
        split
        · contradiction
        · next he => cases he; contradiction
        · next he => cases he; contradiction
        · exact h
    | @signed cs _ hn h =>
      cases cs with
      | nil => exact absurd rfl hn
      | cons c cs => exact (digits?_eq_some_iff hb).mpr h

theorem word32?_eq_some_iff {v : UInt32} : word32? n = some v ↔ n = v.toNat := by
  constructor
  · intro h
    rw [word32?] at h
    split at h
    · cases h
      rw [UInt32.toNat_ofNatLT]
    · cases h
  · rintro rfl
    exact word32?_toNat v

theorem word?_eq_some_iff (hb : base ≤ 16) {v : UInt32} :
    (numeral? base cs).bind word32? = some v ↔ IsNumeral base cs v.toNat := by
  simp only [Option.bind_eq_some_iff, word32?_eq_some_iff, numeral?_eq_some_iff hb,
    exists_eq_right]

theorem IsNumeral.not_mem_tail (hb : base ≤ 16) (h : IsNumeral base cs n)
    (hc : digit? base c = none) : c ∉ cs.tail := by
  intro hm
  cases h with
  | plain _ h => exact h.not_mem hb hc (List.mem_of_mem_tail hm)
  | signed _ h => exact h.not_mem hb hc hm

/-- A hexadecimal numeral with its prefix is no decimal one. -/
theorem IsDecimalOrHex.isNumeral {x : Char} (hx : x = 'x' ∨ x = 'X')
    (h : IsDecimalOrHex ('0' :: x :: cs) n) : IsNumeral 16 cs n := by
  cases h with
  | decimal h =>
    have hc : digit? 10 x = none := by rcases hx with rfl | rfl <;> decide
    exact absurd List.mem_cons_self (h.not_mem_tail (by decide) hc)
  | hex _ h => exact h

theorem readWordOrHex?_eq_some_iff {v : UInt32} :
    readWordOrHex? cs = some v ↔ IsDecimalOrHex cs v.toNat := by
  unfold readWordOrHex?
  split
  · rw [word?_eq_some_iff (by decide)]
    exact ⟨.hex (.inl rfl), IsDecimalOrHex.isNumeral (.inl rfl)⟩
  · rw [word?_eq_some_iff (by decide)]
    exact ⟨.hex (.inr rfl), IsDecimalOrHex.isNumeral (.inr rfl)⟩
  · next hx hX =>
    rw [readWord?, word?_eq_some_iff (by decide)]
    constructor
    · exact .decimal
    · intro h
      cases h with
      | decimal h => exact h
      | hex hc _ =>
        rcases hc with rfl | rfl
        · exact absurd rfl (hx _)
        · exact absurd rfl (hX _)

theorem map_readWordOrHex?_eq_some_iff :
    (readWordOrHex? cs).map UInt32.toNat = some n ↔ IsDecimalOrHex cs n ∧ n < 2 ^ 32 := by
  rw [Option.map_eq_some_iff]
  constructor
  · rintro ⟨v, hv, rfl⟩
    exact ⟨readWordOrHex?_eq_some_iff.mp hv, v.toNat_lt⟩
  · rintro ⟨h, hl⟩
    have hv : (UInt32.ofNatLT n hl).toNat = n := UInt32.toNat_ofNatLT
    exact ⟨.ofNatLT n hl, readWordOrHex?_eq_some_iff.mpr (hv.symm ▸ h), hv⟩

/-! ### Written numerals -/

/-- The digits of a number are written from the most significant one; `f` may choose their case. -/
theorem hasDigits_map_toDigits (hb : 1 < base) {f : Char → Char}
    (hf : ∀ d < base, IsDigit base (f (Nat.digitChar d)) d) (n : Nat) :
    HasDigits base ((Nat.toDigits base n).map f) n := by
  induction n using Nat.strongRecOn with
  | ind n ih =>
    rw [Nat.toDigits_eq_if hb]
    split
    · next hn =>
      refine ⟨[n], .cons (hf n hn) .nil, ?_⟩
      simp
    · next hn =>
      obtain ⟨ds, hds, hv⟩ := ih (n / base) (Nat.div_lt_self (by omega) hb)
      refine ⟨ds ++ [n % base], ?_, ?_⟩
      · rw [List.map_append]
        exact List.rel_append hds (.cons (hf _ (Nat.mod_lt n (by omega))) .nil)
      · rw [List.reverse_append, List.reverse_singleton, List.singleton_append, Nat.ofDigits_cons,
          ← hv]
        exact (Nat.mod_add_div n base).symm

theorem HasDigits.replicate_zero (hb : 0 < base) (h : HasDigits base cs n) (k : Nat) :
    HasDigits base (List.replicate k '0' ++ cs) n := by
  obtain ⟨ds, hds, rfl⟩ := h
  have hz : List.Forall₂ (IsDigit base) (List.replicate k '0') (List.replicate k 0) := by
    induction k with
    | zero => exact .nil
    | succ k ih => exact .cons ⟨hb, .inl rfl⟩ ih
  refine ⟨List.replicate k 0 ++ ds, List.rel_append hz hds, ?_⟩
  rw [List.reverse_append, List.reverse_replicate, Nat.ofDigits_append_replicate_zero]

theorem isNumeral_map_toDigits (hb : 1 < base) {f : Char → Char}
    (hf : ∀ d < base, IsDigit base (f (Nat.digitChar d)) d) (n zeros : Nat) :
    IsNumeral base (List.replicate zeros '0' ++ (Nat.toDigits base n).map f) n := by
  refine .plain ?_ ((hasDigits_map_toDigits hb hf n).replicate_zero (by omega) zeros)
  simp [Nat.toDigits_ne_nil]

end Rumble.Text
