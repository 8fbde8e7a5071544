import Mathlib.Data.List.Induction
import Rumble.Proofs.DescriptorText
import Rumble.Proofs.PlayingTime

namespace Rumble

theorem Entry.withLength_withLength (a b : UInt32) (entry : Entry) :
    (entry.withLength a).withLength b = entry.withLength b := by
  cases entry <;> rfl

def Segment.silence? : Segment → Option UInt32
  | effect _ => none
  | silence ms => some ms

theorem Waveform.samplesToMs_le_iff (samples : UInt32) (k : Nat) :
    (samplesToMs samples).toNat ≤ k ↔ samples.toNat ≤ 48 * k := by
  rw [toNat_samplesToMs]
  omega

namespace Catalog

variable {c : Catalog} {table : VoltageTable} {e : Effect} {s : Strength}

theorem eq_of_get?_eq {c c' : Catalog} (h : c.get? = c'.get?) : c = c' := by
  cases c
  cases c'
  cases h
  rfl

/-! ### Repeated measurements -/

theorem withMeasuredLength_zero (c : Catalog) : c.withMeasuredLength 0 = c := by
  rw [withMeasuredLength, if_pos rfl]

theorem withMeasuredLength_withMeasuredLength (c : Catalog) (a : UInt32) {b : UInt32}
    (hb : b ≠ 0) : (c.withMeasuredLength a).withMeasuredLength b = c.withMeasuredLength b := by
  apply eq_of_get?_eq
  funext e
  rw [get?_withMeasuredLength, get?_withMeasuredLength, get?_withMeasuredLength, if_neg hb,
    if_neg hb]
  split
  · rfl
  · rw [Option.map_map]
    congr 1
    funext entry
    exact Entry.withLength_withLength _ _ entry

/-- The last measurement that found anything. -/
def lastMeasured? (counts : List UInt32) : Option UInt32 := (counts.filter (· ≠ 0)).getLast?

theorem lastMeasured?_concat_zero (counts : List UInt32) :
    lastMeasured? (counts ++ [0]) = lastMeasured? counts := by
  rw [lastMeasured?, List.filter_append, List.filter_cons_of_neg (by decide), List.filter_nil,
    List.append_nil]
  rfl

theorem lastMeasured?_concat_of_ne (counts : List UInt32) {n : UInt32} (hn : n ≠ 0) :
    lastMeasured? (counts ++ [n]) = some n := by
  rw [lastMeasured?, List.filter_append, List.filter_cons_of_pos (by simpa using hn),
    List.filter_nil, List.getLast?_concat]

theorem ne_zero_of_lastMeasured? {counts : List UInt32} {n : UInt32}
    (h : lastMeasured? counts = some n) : n ≠ 0 := by
  have hm := List.mem_filter.mp (List.mem_of_getLast? h)
  simpa using hm.2

theorem foldl_withMeasuredLength (c : Catalog) (counts : List UInt32) :
    counts.foldl withMeasuredLength c = (lastMeasured? counts).elim c c.withMeasuredLength := by
  induction counts using List.reverseRecOn with
  | nil => rfl
  | append_singleton counts n ih =>
    rw [List.foldl_append, List.foldl_cons, List.foldl_nil, ih]
    by_cases hn : n = 0
    · rw [hn, lastMeasured?_concat_zero, withMeasuredLength_zero]
    · rw [lastMeasured?_concat_of_ne counts hn, Option.elim_some]
      cases lastMeasured? counts with
      | none => rfl
      | some m => exact withMeasuredLength_withMeasuredLength c m hn

/-! ### What is kept -/

theorem contains_withMeasuredLength (c : Catalog) (n : UInt32) :
    (c.withMeasuredLength n).contains = c.contains := by
  funext e
  rw [contains, contains, get?_withMeasuredLength]
  split
  · rfl
  · exact Option.isSome_map

/-! ### How long effects play -/

/-- How long an entry plays, without a limit, when all simple waveforms last as long. -/
def measuredMs (lengthMs : Nat) : Entry → Nat
  | .simple .. => lengthMs + 6
  | .compound segments =>
    (segments.filterMap Segment.effect?).length * (lengthMs + 6) +
      ((segments.filterMap Segment.silence?).map fun ms => ms.toNat + 1).sum
  | .ringtone _ durationMs => durationMs.toNat

theorem partMs_withMeasuredLength {n : UInt32} (hn : n ≠ 0) {level : Level}
    {lengthMs : PerStrength UInt32} (h : c.get? e = some (.simple level lengthMs)) (s : Strength) :
    (c.withMeasuredLength n).partMs s (.effect e) = (Waveform.samplesToMs n).toNat + 6 := by
  have hm : (c.withMeasuredLength n).get? e =
      some (.simple level (.const (Waveform.samplesToMs n))) := by
    rw [get?_withMeasuredLength, if_neg hn, h]
    rfl
  rw [partMs_effect hm, PerStrength.get_const]

theorem sum_partMs_withMeasuredLength {n : UInt32} (hn : n ≠ 0) {segments : List Segment}
    (hs : ∀ inner, .effect inner ∈ segments →
      ∃ level lengthMs, c.get? inner = some (.simple level lengthMs)) (s : Strength) :
    (segments.map ((c.withMeasuredLength n).partMs s)).sum =
      measuredMs (Waveform.samplesToMs n).toNat (.compound segments) := by
  rw [measuredMs]
  induction segments with
  | nil => simp
  | cons segment segments ih =>
    rw [List.map_cons, List.sum_cons, ih fun inner hm => hs inner (List.mem_cons_of_mem _ hm)]
    cases segment with
    | silence ms =>
      rw [List.filterMap_cons_none (by rfl), List.filterMap_cons_some (by rfl), List.map_cons,
        List.sum_cons, partMs]
      exact Nat.add_left_comm _ _ _
    | effect inner =>
      obtain ⟨level, lengthMs, h⟩ := hs inner List.mem_cons_self
      rw [List.filterMap_cons_some (by rfl), List.filterMap_cons_none (by rfl), List.length_cons,
        partMs_withMeasuredLength hn h, Nat.succ_mul]
      omega

theorem toNat_durationMs_withMeasuredLength (c : Catalog) {n : UInt32} (hn : n ≠ 0)
    (table : VoltageTable) (s : Strength) {entry : Entry} (h : c.get? e = some entry) :
    ∃ p, (c.withMeasuredLength n).resolve table e s = .ok p ∧
      p.durationMs.toNat =
        min (measuredMs (Waveform.samplesToMs n).toNat entry) (UInt32.size - 1) := by
  have hm : (c.withMeasuredLength n).get? e =
      some (entry.withLength (Waveform.samplesToMs n)) := by
    rw [get?_withMeasuredLength, if_neg hn, h]
    rfl
  obtain ⟨p, hp, hs⟩ := exists_hasPlayback table s hm
  refine ⟨p, hp, (toNat_durationMs hs).trans ?_⟩
  congr 1
  cases entry with
  | simple level lengthMs =>
    rw [Entry.withLength, exactMs, measuredMs, PerStrength.get_const]
  | compound segments =>
    exact sum_partMs_withMeasuredLength hn (fun inner hi => exists_simple_of_mem h hi) s
  | ringtone queue durationMs => rfl

/-- Measuring again and again is measuring once, with the last count that is not zero. It keeps
which effects there are, and changes nothing but the lengths of simple waveforms, so that the
entries make up a catalog as before. With a last count, every effect plays at all strengths equally
long: the fewest milliseconds that hold the samples and those of waking the signal processor for
each simple effect in it, and for each pause its own and one more. -/
theorem measured_lengths (c : Catalog) (counts : List UInt32) :
    let c' := counts.foldl withMeasuredLength c
    let last? := (counts.filter (· ≠ 0)).getLast?
    c' = last?.elim c c.withMeasuredLength ∧
    c'.effects = c.effects ∧
    ofEntries c'.entries = .ok c' ∧
    (∀ e, c'.get? e = c.get? e ∨ ∃ level lengthMs lengthMs',
      c.get? e = some (.simple level lengthMs) ∧ c'.get? e = some (.simple level lengthMs')) ∧
    ∀ n, last? = some n → ∃ m : Nat, n.toNat ≤ 48 * m ∧ (∀ k, n.toNat ≤ 48 * k → m ≤ k) ∧
      ∀ table e s,
        match c.get? e with
        | none => c'.resolve table e s = .error .unsupportedOperation
        | some (.simple ..) =>
          ∃ p, c'.resolve table e s = .ok p ∧ p.durationMs.toNat = m + 6
        | some (.compound segments) =>
          ∃ p, c'.resolve table e s = .ok p ∧ p.durationMs.toNat = min (2 ^ 32 - 1)
            ((segments.filterMap Segment.effect?).length * (m + 6) +
              ((segments.filterMap Segment.silence?).map fun ms => ms.toNat + 1).sum)
        | some (.ringtone _ durationMs) =>
          ∃ p, c'.resolve table e s = .ok p ∧ p.durationMs = durationMs := by
  intro c' last?
  have hf : c' = last?.elim c c.withMeasuredLength := foldl_withMeasuredLength c counts
  refine ⟨hf, ?_, ofEntries_entries c', ?_, ?_⟩
  · rw [hf]
    cases last? with
    | none => rfl
    | some n => rw [Option.elim_some, effects, effects, contains_withMeasuredLength]
  · intro e
    rw [hf]
    cases last? with
    | none => exact .inl rfl
    | some n => exact get?_withMeasuredLength_cases c n e
  · intro n hl
    have hn : n ≠ 0 := ne_zero_of_lastMeasured? hl
    rw [hf, hl, Option.elim_some]
    refine ⟨(Waveform.samplesToMs n).toNat, (Waveform.samplesToMs_le_iff n _).mp le_rfl,
      fun k => (Waveform.samplesToMs_le_iff n k).mpr, ?_⟩
    intro table e s
    cases he : c.get? e with
    | none =>
      apply resolve_of_get?_eq_none
      rw [get?_withMeasuredLength, if_neg hn, he]
      rfl
    | some entry =>
      obtain ⟨p, hp, hd⟩ := toNat_durationMs_withMeasuredLength c hn table s he
      cases entry with
      | simple level lengthMs =>
        refine ⟨p, hp, hd.trans (Nat.min_eq_left ?_)⟩
        -- Even the greatest count is far from the limit.
        have hs : UInt32.size = 4294967296 := rfl
        have hc := n.toNat_lt
        rw [measuredMs, Waveform.toNat_samplesToMs, hs]
        omega
      | compound segments => exact ⟨p, hp, hd.trans (Nat.min_comm _ _)⟩
      | ringtone queue durationMs =>
        refine ⟨p, hp, UInt32.toNat_inj.mp (hd.trans (Nat.min_eq_left ?_))⟩
        exact Nat.le_sub_one_of_lt durationMs.toNat_lt

/-- Of four counts the third one is the last that is not zero; its 600 samples take 13 ms. -/
theorem measured_lengths_of_four_counts :
    let counts : List UInt32 := [577, 0, 600, 0]
    (counts.filter (· ≠ 0)).getLast? = some 600 ∧
      ∃ p, (counts.foldl withMeasuredLength standard).resolve .standard .doubleClick .light =
          .ok p ∧
        p.durationMs.toNat = 139 := by
  intro counts
  have hl : (counts.filter (· ≠ 0)).getLast? = some 600 := by decide
  obtain ⟨-, -, -, -, h⟩ := measured_lengths standard counts
  obtain ⟨m, hm, hk, h⟩ := h 600 hl
  have hn : (600 : UInt32).toNat = 600 := rfl
  rw [hn] at hm hk
  obtain rfl : m = 13 := le_antisymm (hk 13 (by decide)) (by omega)
  obtain ⟨p, hp, hd⟩ := h .standard .doubleClick .light
  exact ⟨hl, p, hp, hd⟩

end Catalog

end Rumble
