import Rumble.Calibration.Sheet
import Rumble.Proofs.NumeralGrammar

namespace Rumble.Calibration

/-- The quality factor of an index is computed without a limit and then held against that of a
register: the sum cannot come back below it once the product has left it. -/
theorem qOfIndex?_eq_some_iff {index q : UInt32} :
    qOfIndex? index = some q ↔ index.toNat * 98304 + 131072 = q.toNat := by
  have hs : qStep = 98304 := rfl
  have ho : qOffset = 131072 := rfl
  simp only [qOfIndex?, Option.bind_eq_some_iff, Text.word32?_eq_some_iff, hs, ho]
  constructor
  · rintro ⟨steps, hp, hq⟩
    rw [hp, hq]
  · intro h
    have hlt : index.toNat * 98304 < UInt32.size :=
      (Nat.le_add_right _ 131072).trans_lt (h ▸ q.toNat_lt)
    refine ⟨.ofNatLT (index.toNat * 98304) hlt, ?_, ?_⟩
    · rw [UInt32.toNat_ofNatLT]
    · rw [UInt32.toNat_ofNatLT, h]

theorem qOfIndex?_eq_none {index : UInt32} (h : 2 ^ 32 ≤ index.toNat * 98304 + 131072) :
    qOfIndex? index = none := by
  rw [Option.eq_none_iff_forall_ne_some]
  intro q hq
  exact absurd (qOfIndex?_eq_some_iff.mp hq ▸ q.toNat_lt) (not_lt.mpr h)

namespace Sheet

variable {s : Sheet} {key : String}

/-- The value of a key is a numeral, and its number is below 2^32. -/
def HasNumber (s : Sheet) (key : String) (n : Nat) : Prop :=
  ∃ raw, s.raw? key = some raw ∧ Text.IsDecimalOrHex raw.toList n ∧ n < 2 ^ 32

/-- Where the quality factor comes from: its own key, else a usable index, else the standard. -/
inductive HasQuality (s : Sheet) : Nat → Prop
  | measured {n : Nat} (h : s.HasNumber "q_measured" n) : HasQuality s n
  | indexed {i : Nat} (hm : ∀ n, ¬ s.HasNumber "q_measured" n) (hi : s.HasNumber "q_index" i)
    (hl : i * 98304 + 131072 < 2 ^ 32) : HasQuality s (i * 98304 + 131072)
  | standard (hm : ∀ n, ¬ s.HasNumber "q_measured" n)
    (hi : ∀ i, s.HasNumber "q_index" i → 2 ^ 32 ≤ i * 98304 + 131072) : HasQuality s 1015808

theorem map_number?_eq_some_iff {n : Nat} :
    (s.number? key).map UInt32.toNat = some n ↔ s.HasNumber key n := by
  simp only [number?, HasNumber, Option.map_bind, Option.bind_eq_some_iff, Function.comp_apply,
    Text.map_readWordOrHex?_eq_some_iff]

theorem number?_eq_none_iff : s.number? key = none ↔ ∀ n, ¬ s.HasNumber key n := by
  simp only [← map_number?_eq_some_iff, ← Option.eq_none_iff_forall_ne_some,
    Option.map_eq_none_iff]

/-! ### The quality factor -/

theorem exists_hasQuality (s : Sheet) : ∃ n, s.HasQuality n := by
  by_cases hm : ∃ n, s.HasNumber "q_measured" n
  · obtain ⟨n, hn⟩ := hm
    exact ⟨n, .measured hn⟩
  · rw [not_exists] at hm
    by_cases hi : ∃ i, s.HasNumber "q_index" i ∧ i * 98304 + 131072 < 2 ^ 32
    · obtain ⟨i, hi, hl⟩ := hi
      exact ⟨_, .indexed hm hi hl⟩
    · refine ⟨_, .standard hm ?_⟩
      intro i hn
      exact not_lt.mp fun hl => hi ⟨i, hn, hl⟩

theorem HasQuality.eq_q {n : Nat} (h : s.HasQuality n) : n = s.q.toNat := by
  cases h with
  | measured h =>
    have hq := map_number?_eq_some_iff.mpr h
    obtain ⟨v, hv, rfl⟩ := Option.map_eq_some_iff.mp hq
    have hv' : s.number? qKey = some v := hv
    rw [q, hv']
  | indexed hm h hl =>
    have hm' : s.number? qKey = none := number?_eq_none_iff.mpr hm
    obtain ⟨i, hi, rfl⟩ := Option.map_eq_some_iff.mp (map_number?_eq_some_iff.mpr h)
    have hi' : s.number? qIndexKey = some i := hi
    have hq := qOfIndex?_eq_some_iff.mpr (UInt32.toNat_ofNatLT (h := hl)).symm
    rw [q, hm', hi', Option.bind_some, hq, Option.getD_some, UInt32.toNat_ofNatLT]
  | standard hm h =>
    have hm' : s.number? qKey = none := number?_eq_none_iff.mpr hm
    have hq : (s.number? qIndexKey).bind qOfIndex? = none := by
      rw [Option.bind_eq_none_iff]
      intro i hi
      have hn : (s.number? qIndexKey).map UInt32.toNat = some i.toNat := by rw [hi, Option.map_some]
      exact qOfIndex?_eq_none (h i.toNat (map_number?_eq_some_iff.mp hn))
    rw [q, hm', hq]
    rfl

theorem hasQuality_iff {n : Nat} : s.HasQuality n ↔ n = s.q.toNat := by
  constructor
  · exact HasQuality.eq_q
  · rintro rfl
    obtain ⟨n, hn⟩ := s.exists_hasQuality
    exact hn.eq_q ▸ hn

/-- What is read is the number that is written, below 2^32 and not at all above. Written numbers are
read back, in either base and case and with zeros in front. The values of a sheet are such readings
of their keys, and an index gives a quality factor without overflow or none. -/
theorem numbers_exact :
    (∀ (text : List Char) (n : Nat), (Text.readWordOrHex? text).map UInt32.toNat = some n ↔
      Text.IsDecimalOrHex text n ∧ n < 2 ^ 32) ∧
    (∀ (n : UInt32) (zeros : Nat),
      Text.readWordOrHex? (List.replicate zeros '0' ++ Text.decimal n.toNat) = some n ∧
      ∀ x ∈ ['x', 'X'], ∀ letters ∈ [id, Char.toUpper], Text.readWordOrHex? ('0' :: x ::
        (List.replicate zeros '0' ++ (Nat.toDigits 16 n.toNat).map letters)) = some n) ∧
    ∀ s : Sheet, (∀ n, s.f0?.map UInt32.toNat = some n ↔ s.HasNumber "f0_measured" n) ∧
      (∀ n, s.redc?.map UInt32.toNat = some n ↔ s.HasNumber "redc_measured" n) ∧
      ∀ n, s.q.toNat = n ↔ s.HasQuality n := by
  refine ⟨fun _ _ => Text.map_readWordOrHex?_eq_some_iff, ?_, ?_⟩
  · intro n zeros
    constructor
    · have hd : ∀ d < 10, Text.IsDigit 10 (id (Nat.digitChar d)) d := by decide
      have hn := Text.isNumeral_map_toDigits (by decide) hd n.toNat zeros
      rw [List.map_id] at hn
      exact Text.readWordOrHex?_eq_some_iff.mpr (.decimal hn)
    · intro x hx letters hl
      have hd : ∀ d < 16, Text.IsDigit 16 (letters (Nat.digitChar d)) d := by
        rcases List.mem_pair.mp hl with rfl | rfl <;> decide
      have hn := Text.isNumeral_map_toDigits (by decide) hd n.toNat zeros
      exact Text.readWordOrHex?_eq_some_iff.mpr (.hex (List.mem_pair.mp hx) hn)
  · intro s
    refine ⟨fun n => map_number?_eq_some_iff, fun n => map_number?_eq_some_iff, ?_⟩
    intro n
    rw [hasQuality_iff, eq_comm]

end Sheet

end Rumble.Calibration
