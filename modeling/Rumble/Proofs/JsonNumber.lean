import Mathlib.Data.List.TakeWhile
import Rumble.Json.Fields
import Rumble.Proofs.Rounding

namespace Rumble.Json.Number

/-! ### Spelling -/

def IsDigits (ds : List Char) : Prop := ds ≠ [] ∧ ∀ c ∈ ds, c.isDigit

/-- A zero, or digits that do not start with one. -/
def IsWhole (ds : List Char) : Prop := ds = ['0'] ∨ IsDigits ds ∧ ds.head? ≠ some '0'

/-- How the digits of a fraction are spelled: behind a point, which is missing without them. -/
inductive FractionSpelling : List Char → List Char → Prop
  | absent : FractionSpelling [] []
  | digits {ds : List Char} (h : IsDigits ds) : FractionSpelling ds ('.' :: ds)

/-- How an exponent is spelled: behind a letter, and with a plus sign or without. -/
inductive ExponentSpelling : Option (Bool × List Char) → List Char → Prop
  | absent : ExponentSpelling none []
  | bare {e : Char} {ds : List Char} (he : e = 'e' ∨ e = 'E') (h : IsDigits ds) :
    ExponentSpelling (some (false, ds)) (e :: ds)
  | plus {e : Char} {ds : List Char} (he : e = 'e' ∨ e = 'E') (h : IsDigits ds) :
    ExponentSpelling (some (false, ds)) (e :: '+' :: ds)
  | minus {e : Char} {ds : List Char} (he : e = 'e' ∨ e = 'E') (h : IsDigits ds) :
    ExponentSpelling (some (true, ds)) (e :: '-' :: ds)

inductive Spelling : Number → List Char → Prop
  | mk {whole fraction point power : List Char} {exponent : Option (Bool × List Char)}
    (negative : Bool) (hw : IsWhole whole) (hf : FractionSpelling fraction point)
    (he : ExponentSpelling exponent power) :
    Spelling ⟨negative, whole, fraction, exponent⟩
      ((if negative then ['-'] else []) ++ (whole ++ (point ++ power)))

theorem IsWhole.isDigits {ds : List Char} (h : IsWhole ds) : IsDigits ds := by
  rcases h with rfl | ⟨h, -⟩
  · exact ⟨List.cons_ne_nil _ _, List.forall_mem_singleton.mpr rfl⟩
  · exact h

theorem IsDigits.exists_cons {ds : List Char} (h : IsDigits ds) :
    ∃ c cs, ds = c :: cs ∧ c.isDigit := by
  cases ds with
  | nil => exact absurd rfl h.1
  | cons c cs => exact ⟨c, cs, rfl, h.2 c List.mem_cons_self⟩

/-! ### Scanning -/

/-- What can follow a number without being read as a part of it. -/
def Ends (rest : List Char) : Prop :=
  ∀ c ∈ rest.head?, c.isDigit = false ∧ c ≠ '.' ∧ c ≠ 'e' ∧ c ≠ 'E'

theorem takeDigits_append {ds rest : List Char} (h : IsDigits ds)
    (hr : ∀ c ∈ rest.head?, c.isDigit = false) : takeDigits (ds ++ rest) = some (ds, rest) := by
  have ht : rest.takeWhile Char.isDigit = [] ∧ rest.dropWhile Char.isDigit = rest := by
    cases rest with
    | nil => exact ⟨rfl, rfl⟩
    | cons c rest =>
      rw [List.takeWhile_cons, List.dropWhile_cons, hr c rfl]
      exact ⟨rfl, rfl⟩
  rw [takeDigits, List.takeWhile_append_of_pos h.2, List.dropWhile_append_of_pos h.2, ht.1, ht.2,
    List.append_nil]
  obtain ⟨d, ds, rfl, -⟩ := h.exists_cons
  rfl

theorem takeWhole_append {ds rest : List Char} (h : IsWhole ds)
    (hr : ∀ c ∈ rest.head?, c.isDigit = false) : takeWhole (ds ++ rest) = some (ds, rest) := by
  rcases h with rfl | ⟨h, hz⟩
  · rfl
  · have hd := takeDigits_append h hr
    obtain ⟨c, cs, rfl, -⟩ := h.exists_cons
    rw [List.cons_append] at hd ⊢
    rw [takeWhole]
    · exact hd
    · rintro r ⟨⟩
      exact hz rfl

theorem takeFraction_append {ds point rest : List Char} (h : FractionSpelling ds point)
    (hr : ∀ c ∈ rest.head?, c.isDigit = false ∧ c ≠ '.') :
    takeFraction (point ++ rest) = some (ds, rest) := by
  cases h with
  | absent =>
    cases rest with
    | nil => rfl
    | cons c rest =>
      rw [List.nil_append, takeFraction]
      rintro r ⟨⟩
      exact (hr '.' rfl).2 rfl
  | digits h => exact takeDigits_append h fun c hc => (hr c hc).1

theorem takeExponent_append {e : Option (Bool × List Char)} {power rest : List Char}
    (h : ExponentSpelling e power) (hr : Ends rest) :
    takeExponent (power ++ rest) = some (e, rest) := by
  have hd : ∀ c ∈ rest.head?, c.isDigit = false := fun c hc => (hr c hc).1
  cases h with
  | absent =>
    cases rest with
    | nil => rfl
    | cons c rest =>
      obtain ⟨-, -, he, hE⟩ := hr c rfl
      simp only [List.nil_append, takeExponent, he, hE, or_self, if_false]
  | bare he h =>
    have ht := takeDigits_append h hd
    -- The first digit is not read as a sign.
    obtain ⟨c, cs, rfl, hc⟩ := h.exists_cons
    rw [List.cons_append] at ht
    rw [List.cons_append, List.cons_append, takeExponent, if_pos he, ht, Option.map_some]
    all_goals
      rintro r ⟨⟩
      cases hc
  | plus he h | minus he h =>
    have ht := takeDigits_append h hd
    rw [List.cons_append, List.cons_append, takeExponent, if_pos he]
    dsimp only
    rw [ht, Option.map_some]

theorem ExponentSpelling.head? {e : Option (Bool × List Char)} {power rest : List Char}
    (h : ExponentSpelling e power) (hr : Ends rest) :
    ∀ c ∈ (power ++ rest).head?, c.isDigit = false ∧ c ≠ '.' := by
  intro c hc
  cases h with
  | absent => exact ⟨(hr c hc).1, (hr c hc).2.1⟩
  | bare he | plus he | minus he =>
    obtain rfl : _ = c := Option.some.inj hc
    rcases he with rfl | rfl <;> exact ⟨rfl, by decide⟩

theorem FractionSpelling.head? {ds point rest : List Char} (h : FractionSpelling ds point)
    (hr : ∀ c ∈ rest.head?, c.isDigit = false ∧ c ≠ '.') :
    ∀ c ∈ (point ++ rest).head?, c.isDigit = false := by
  intro c hc
  cases h with
  | absent => exact (hr c hc).1
  | digits =>
    obtain rfl : '.' = c := Option.some.inj hc
    rfl

/-- A number is scanned however it is spelled and whatever follows, if that does not go on with
it. -/
theorem scan_append {n : Number} {cs rest : List Char} (h : n.Spelling cs) (hr : Ends rest) :
    scan (cs ++ rest) = some (n, rest) := by
  obtain ⟨negative, hw, hf, he⟩ := h
  have hp := he.head? hr
  have hs := takeWhole_append hw (hf.head? hp)
  cases negative with
  | true =>
    simp only [if_true, List.cons_append, List.nil_append, List.append_assoc, scan, hs,
      takeFraction_append hf hp, takeExponent_append he hr, Option.bind_eq_bind, Option.bind_some,
      Option.pure_def]
  | false =>
    simp only [Bool.false_eq_true, if_false, List.nil_append, List.append_assoc, scan]
    split
    · next heq =>
      obtain ⟨c, cs, rfl, hc⟩ := hw.isDigits.exists_cons
      obtain ⟨rfl, -⟩ := List.cons.inj heq
      cases hc
    · simp only [hs, takeFraction_append hf hp, takeExponent_append he hr, Option.bind_eq_bind,
        Option.bind_some, Option.pure_def]

/-- A number of digits alone, without needless zeros; it may be negative. -/
structure IsInteger (n : Number) : Prop where
  whole : ∃ k, n.whole = Text.decimal k
  fraction : n.fraction = []
  exponent : n.exponent = none

theorem isInteger_ofNat (k : Nat) : (ofNat k).IsInteger := ⟨⟨k, rfl⟩, rfl, rfl⟩

theorem isWhole_decimal (k : Nat) : IsWhole (Text.decimal k) := by
  have hd : IsDigits (Text.decimal k) :=
    ⟨Nat.toDigits_ne_nil, fun _ => Text.isDigit_of_mem_decimal⟩
  obtain ⟨c, cs, hk, -⟩ := hd.exists_cons
  by_cases hc : c = '0'
  · subst hc
    obtain rfl : k = 0 := Text.eq_zero_of_decimal_eq hk
    exact .inl rfl
  · refine .inr ⟨hd, ?_⟩
    rw [hk]
    exact fun h => hc (Option.some.inj h)

theorem IsInteger.spelling {n : Number} (h : n.IsInteger) : n.Spelling n.text := by
  obtain ⟨negative, whole, fraction, exponent⟩ := n
  obtain ⟨⟨k, rfl⟩, rfl, rfl⟩ := h
  have hs := Spelling.mk negative (isWhole_decimal k) .absent .absent
  rw [List.append_nil, List.append_nil] at hs
  rw [text, if_pos rfl, List.append_nil, List.append_nil]
  exact hs

/-! ### Size -/

theorem le_ofDigitChars (ds : List Char) (s : Nat) : s ≤ Nat.ofDigitChars 10 ds s := by
  induction ds generalizing s with
  | nil => exact le_refl s
  | cons d ds ih =>
    rw [Nat.ofDigitChars_cons]
    have h := ih (10 * s + (d.toNat - '0'.toNat))
    omega

theorem absorb_eq {ds : List Char} {s : Nat} (h : Nat.ofDigitChars 10 ds s < UInt64.size) :
    absorb s ds = (Nat.ofDigitChars 10 ds s, ds.length) := by
  induction ds generalizing s with
  | nil => rfl
  | cons d ds ih =>
    rw [Nat.ofDigitChars_cons] at h ⊢
    have hn := (le_ofDigitChars ds (10 * s + (d.toNat - '0'.toNat))).trans_lt h
    simp only [absorb, hn, if_true, ih h, List.length_cons]

theorem scaled_ofNat {k : Nat} (h : k < UInt64.size) : (ofNat k).scaled = (k, 0) := by
  have hk : Nat.ofDigitChars 10 (Text.decimal k) 0 = k :=
    Nat.ofDigitChars_toDigits (by decide) (by decide)
  have ha : absorb 0 (Text.decimal k) = (k, (Text.decimal k).length) := by
    rw [absorb_eq (by rwa [hk]), hk]
  simp [scaled, ofNat, ha, absorb]

/-- Three roundings take a word of 64 bits nowhere near the end of the doubles. -/
theorem isTooLarge_ofNat {k : Nat} (h : k < UInt64.size) : (ofNat k).isTooLarge = false := by
  have hk : (0 : Rat) ≤ (k : Rat) := Nat.cast_nonneg k
  have hr := Double.round_nonneg hk
  have h1 : Double.round 1 ≤ 2 := (Double.round_le_two_mul zero_le_one).trans_eq (mul_one 2)
  have hr1 := Double.round_nonneg (q := 1) zero_le_one
  have hb : Double.round (Double.round k * Double.round 1) < (2 : Rat) ^ (1024 : Int) := by
    calc Double.round (Double.round k * Double.round 1)
        ≤ 2 * (Double.round k * Double.round 1) := Double.round_le_two_mul (mul_nonneg hr hr1)
      _ ≤ 2 * (2 * k * 2) := by
          have hn := Double.round_le_two_mul hk
          gcongr
      _ < 2 * (2 * (2 : Rat) ^ (64 : Int) * 2) := by
          have hs : (k : Rat) < (2 : Rat) ^ (64 : Int) := by exact_mod_cast h
          linarith
      _ = (2 : Rat) ^ (67 : Int) := by norm_num
      _ ≤ (2 : Rat) ^ (1024 : Int) := zpow_le_zpow_right₀ one_le_two (by decide)
  have hz : (10 : Rat) ^ (0 : Int) = 1 := zpow_zero 10
  simp only [isTooLarge, scaled_ofNat h, hz, hb.not_ge, le_refl, decide_true, decide_false,
    Bool.or_false, Bool.and_true]
  simp

theorem natural?_ofNat (k : Nat) : (ofNat k).natural? = some k := by
  rw [natural?, ofNat, if_pos ⟨rfl, rfl, rfl⟩]
  exact Text.digits?_decimal k

end Rumble.Json.Number

namespace Rumble.Json

theorem word?_ofWord (n : UInt32) : (ofWord n).word? = some n := by
  have hn : natural? (ofWord n) = some n.toNat := Number.natural?_ofNat n.toNat
  rw [word?, hn, Option.bind_some, Text.word32?_toNat]

end Rumble.Json
