import Mathlib.Data.List.TakeWhile
import Rumble.Calibration.Sheet
import Rumble.Proofs.Accesses
import Rumble.Proofs.NumeralGrammar

namespace Rumble

namespace Text

/-- A text and its words, the maximal runs without blanks. -/
inductive HasWords : List Char → List (List Char) → Prop
  | blank {cs : List Char} (h : ∀ c ∈ cs, isBlank c) : HasWords cs []
  | word {front w back : List Char} {ws : List (List Char)} (hf : ∀ c ∈ front, isBlank c)
    (hn : w ≠ []) (hw : ∀ c ∈ w, isBlank c = false) (hb : ∀ c ∈ back.head?, isBlank c)
    (h : HasWords back ws) : HasWords (front ++ w ++ back) (w :: ws)

theorem words_cons_of_blank {c : Char} (h : isBlank c) (cs : List Char) :
    words (c :: cs) = words cs := by
  rw [words, List.splitOnP_cons_eq_if_modifyHead, if_pos h, List.filter_cons_of_neg (by simp)]
  rfl

theorem words_append_of_blank {front : List Char} (h : ∀ c ∈ front, isBlank c) (cs : List Char) :
    words (front ++ cs) = words cs := by
  induction front with
  | nil => rfl
  | cons c front ih =>
    rw [List.cons_append, words_cons_of_blank (h c List.mem_cons_self)]
    exact ih fun d hd => h d (List.mem_cons_of_mem c hd)

theorem words_append_of_head? {w back : List Char} (hn : w ≠ [])
    (hw : ∀ c ∈ w, isBlank c = false) (hb : ∀ c ∈ back.head?, isBlank c) :
    words (w ++ back) = w :: words back := by
  cases back with
  | nil =>
    rw [List.append_nil, words, List.splitOnP_eq_singleton hw,
      List.filter_cons_of_pos (by simpa using hn)]
    rfl
  | cons c back =>
    have hc : isBlank c := hb c rfl
    rw [words_cons_of_blank hc, words, List.splitOnP_append_cons_of_forall_mem hw c hc,
      List.filter_cons_of_pos (by simpa using hn)]
    rfl

theorem HasWords.eq_words {cs : List Char} {ws : List (List Char)} (h : HasWords cs ws) :
    ws = words cs := by
  induction h with
  | @blank cs h =>
    have hw := words_append_of_blank h []
    rw [List.append_nil] at hw
    rw [hw]
    rfl
  | word hf hn hw hb _ ih =>
    rw [List.append_assoc, words_append_of_blank hf, words_append_of_head? hn hw hb, ih]

theorem exists_hasWords (cs : List Char) : ∃ ws, HasWords cs ws := by
  induction hn : cs.length using Nat.strongRecOn generalizing cs with
  | ind n ih =>
    have hs := List.takeWhile_append_dropWhile (p := isBlank) (l := cs)
    cases hr : cs.dropWhile isBlank with
    | nil => exact ⟨[], .blank (List.dropWhile_eq_nil_iff.mp hr)⟩
    | cons c rest =>
      -- Behind the blanks in front there is a word, and what follows it is shorter.
      have hc : isBlank c = false := by
        have hh := List.head?_dropWhile_not isBlank cs
        rwa [hr] at hh
      have ht := List.takeWhile_append_dropWhile (p := (!isBlank ·)) (l := rest)
      have hl : (rest.dropWhile (!isBlank ·)).length < n := by
        have hd := (List.dropWhile_suffix (!isBlank ·) (l := rest)).length_le
        have hs' := congrArg List.length hs
        rw [hr, List.length_append, List.length_cons] at hs'
        omega
      obtain ⟨ws, hws⟩ := ih _ hl (rest.dropWhile (!isBlank ·)) rfl
      rw [hr, ← ht, ← List.cons_append, ← List.append_assoc] at hs
      rw [← hs]
      refine ⟨_, .word (fun d hd => List.mem_takeWhile_imp hd) (List.cons_ne_nil _ _) ?_ ?_ hws⟩
      · intro d hd
        rcases List.mem_cons.mp hd with rfl | hd
        · exact hc
        · simpa using List.mem_takeWhile_imp hd
      · intro d hd
        have hh := List.head?_dropWhile_not (!isBlank ·) rest
        rw [Option.mem_def.mp hd] at hh
        simpa using hh

theorem hasWords_iff {cs : List Char} {ws : List (List Char)} : HasWords cs ws ↔ ws = words cs := by
  constructor
  · exact HasWords.eq_words
  · rintro rfl
    obtain ⟨ws, h⟩ := exists_hasWords cs
    exact h.eq_words ▸ h

end Text

namespace Calibration.Sheet

/-- A token that is a level: a numeral, and its number is on the output scale. -/
def IsLevel (w : List Char) (v : UInt32) : Prop :=
  Text.IsDecimalOrHex w v.toNat ∧ 1 ≤ v ∧ v ≤ 100

/-- What tokens amount to: the first one that is no level, the seventh level, or their number. -/
inductive Verdict : List (List Char) → Except Error VoltageTable → Prop
  | invalidToken {front back : List (List Char)} {vs : List UInt32} {w : List Char}
    (hf : List.Forall₂ IsLevel front vs) (hl : front.length ≤ 6)
    (hw : ∀ v : UInt32, ¬ Text.IsDecimalOrHex w v.toNat) :
    Verdict (front ++ w :: back) (.error .invalidToken)
  | levelOutOfRange {front back : List (List Char)} {vs : List UInt32} {w : List Char} {v : UInt32}
    (hf : List.Forall₂ IsLevel front vs) (hl : front.length ≤ 6)
    (hw : Text.IsDecimalOrHex w v.toNat) (hv : ¬ (1 ≤ v ∧ v ≤ 100)) :
    Verdict (front ++ w :: back) (.error (.levelOutOfRange v))
  | tooMany {front back : List (List Char)} {vs : List UInt32} {w : List Char} {v : UInt32}
    (hf : List.Forall₂ IsLevel front vs) (hl : front.length = 6) (hw : IsLevel w v) :
    Verdict (front ++ w :: back) (.error (.wrongCount 7))
  | tooFew {ws : List (List Char)} {vs : List UInt32} (hf : List.Forall₂ IsLevel ws vs)
    (hl : ws.length < 6) : Verdict ws (.error (.wrongCount ws.length))
  | table {ws : List (List Char)} {t : VoltageTable} (h : List.Forall₂ IsLevel ws t.toList) :
    Verdict ws (.ok t)

variable {done vs : List UInt32} {front ws : List (List Char)} {w : List Char} {v : UInt32}

/-! ### One token -/

theorem readLevels_invalid (hw : ∀ v : UInt32, ¬ Text.IsDecimalOrHex w v.toNat) :
    readLevels done (w :: ws) = .error .invalidToken := by
  have hr : Text.readWordOrHex? w = none := by
    rw [Option.eq_none_iff_forall_ne_some]
    intro v hv
    exact hw v (Text.readWordOrHex?_eq_some_iff.mp hv)
  rw [readLevels, hr]

theorem readLevels_outOfRange (hw : Text.IsDecimalOrHex w v.toNat) (hv : ¬ (1 ≤ v ∧ v ≤ 100)) :
    readLevels done (w :: ws) = .error (.levelOutOfRange v) := by
  rw [readLevels, Text.readWordOrHex?_eq_some_iff.mpr hw]
  exact if_pos (not_not.mp (mt (VoltageTable.on_scale_iff v).mp hv))

theorem readLevels_level (h : IsLevel w v) :
    readLevels done (w :: ws) = if done.length = 6 then .error (.wrongCount 7) else
      readLevels (done ++ [v]) ws := by
  rw [readLevels, Text.readWordOrHex?_eq_some_iff.mpr h.1]
  exact if_neg ((VoltageTable.on_scale_iff v).mpr h.2)

/-! ### All tokens -/

theorem readLevels_append (h : List.Forall₂ IsLevel front vs)
    (hl : done.length + front.length ≤ 6) :
    readLevels done (front ++ ws) = readLevels (done ++ vs) ws := by
  induction h generalizing done with
  | nil => rw [List.append_nil, List.nil_append]
  | @cons w v front vs hw h ih =>
    rw [List.length_cons] at hl
    rw [List.cons_append, readLevels_level hw, if_neg (by omega), ih, List.append_assoc,
      List.singleton_append]
    rw [List.length_append, List.length_singleton]
    omega

theorem readLevels_levels (h : List.Forall₂ IsLevel ws vs) (hl : ws.length ≤ 6) :
    readLevels [] ws = readLevels vs [] := by
  have hl : ([] : List UInt32).length + ws.length ≤ 6 := (Nat.zero_add _).trans_le hl
  have hr : readLevels [] (ws ++ []) = readLevels ([] ++ vs) [] := readLevels_append h hl
  rwa [List.append_nil] at hr

theorem readLevels_nil_of_lt (h : done.length < 6) :
    readLevels done [] = .error (.wrongCount done.length) := by
  rw [readLevels, VoltageTable.ofList, dif_neg h.ne]

theorem Verdict.readLevels_eq {r : Except Error VoltageTable} (h : Verdict ws r) :
    readLevels [] ws = r := by
  cases h with
  | invalidToken hf hl hw =>
    rw [readLevels_append hf (by simpa using hl), readLevels_invalid hw]
  | levelOutOfRange hf hl hw hv =>
    rw [readLevels_append hf (by simpa using hl), readLevels_outOfRange hw hv]
  | tooMany hf hl hw =>
    rw [readLevels_append hf (by simpa using hl.le), readLevels_level hw, List.nil_append,
      ← hf.length_eq, if_pos hl]
  | tooFew hf hl =>
    rw [readLevels_levels hf hl.le, hf.length_eq]
    exact readLevels_nil_of_lt (hf.length_eq ▸ hl)
  | @table _ t h =>
    have hl : ws.length = 6 := by
      rw [h.length_eq, VoltageTable.toList, Vector.length_toList]
    rw [readLevels_levels h hl.le, readLevels, VoltageTable.ofList_toList]

/-! ### There is always a verdict -/

/-- The levels in front are followed by the end or by a token that is none, if they are not six. -/
theorem exists_levels (n : Nat) (ws : List (List Char)) :
    ∃ front vs back, ws = front ++ back ∧ List.Forall₂ IsLevel front vs ∧ front.length ≤ n ∧
      (front.length = n ∨ ∀ w ∈ back.head?, ∀ v, ¬ IsLevel w v) := by
  induction ws generalizing n with
  | nil => exact ⟨[], [], [], rfl, .nil, Nat.zero_le n, .inr (by simp)⟩
  | cons w ws ih =>
    cases n with
    | zero => exact ⟨[], [], w :: ws, rfl, .nil, le_rfl, .inl rfl⟩
    | succ n =>
      by_cases hw : ∃ v, IsLevel w v
      · obtain ⟨v, hw⟩ := hw
        obtain ⟨front, vs, back, rfl, hf, hl, he⟩ := ih n
        refine ⟨w :: front, v :: vs, back, rfl, .cons hw hf, Nat.succ_le_succ hl, ?_⟩
        exact he.imp_left fun he => congrArg (· + 1) he
      · refine ⟨[], [], w :: ws, rfl, .nil, Nat.zero_le _, .inr ?_⟩
        intro u hu
        obtain rfl : w = u := Option.some.inj hu
        exact not_exists.mp hw

theorem exists_verdict (ws : List (List Char)) : ∃ r, Verdict ws r := by
  obtain ⟨front, vs, back, rfl, hf, hl, he⟩ := exists_levels 6 ws
  cases back with
  | nil =>
    rw [List.append_nil]
    rcases hl.lt_or_eq with hl | hl
    · exact ⟨_, .tooFew hf hl⟩
    · have hv : vs.length = 6 := hf.length_eq ▸ hl
      exact ⟨_, .table (t := ⟨⟨vs.toArray, by simpa using hv⟩⟩) hf⟩
  | cons w back =>
    by_cases hw : ∃ v : UInt32, Text.IsDecimalOrHex w v.toNat
    · obtain ⟨v, hw⟩ := hw
      by_cases hv : 1 ≤ v ∧ v ≤ 100
      · refine ⟨_, .tooMany hf ?_ ⟨hw, hv⟩⟩
        exact he.resolve_right fun he => he w rfl v ⟨hw, hv⟩
      · exact ⟨_, .levelOutOfRange hf hl hw hv⟩
    · exact ⟨_, .invalidToken hf hl (not_exists.mp hw)⟩

theorem verdict_iff {r : Except Error VoltageTable} : Verdict ws r ↔ readLevels [] ws = r := by
  constructor
  · exact Verdict.readLevels_eq
  · rintro rfl
    obtain ⟨r, hr⟩ := exists_verdict ws
    exact hr.readLevels_eq ▸ hr

theorem Verdict.ne_missing {r : Except Error VoltageTable} (h : Verdict ws r) :
    r ≠ .error .missing := by
  cases h <;> nofun

theorem Verdict.append {r : Except Error VoltageTable} (h : Verdict ws r)
    (hl : 7 ≤ ws.length) (more : List (List Char)) : Verdict (ws ++ more) r := by
  cases h with
  | invalidToken hf hn hw =>
    rw [List.append_assoc, List.cons_append]
    exact .invalidToken hf hn hw
  | levelOutOfRange hf hn hw hv =>
    rw [List.append_assoc, List.cons_append]
    exact .levelOutOfRange hf hn hw hv
  | tooMany hf hn hw =>
    rw [List.append_assoc, List.cons_append]
    exact .tooMany hf hn hw
  | tooFew _ hn => omega
  | @table _ t hf =>
    have hn : ws.length = 6 := by rw [hf.length_eq, VoltageTable.toList, Vector.length_toList]
    omega

theorem readLevels_take (ws : List (List Char)) :
    readLevels [] (ws.take 7) = readLevels [] ws := by
  by_cases hl : 7 ≤ ws.length
  · obtain ⟨r, hr⟩ := exists_verdict (ws.take 7)
    have ht : 7 ≤ (ws.take 7).length := by rw [List.length_take, min_eq_left hl]
    have ha := hr.append ht (ws.drop 7)
    rw [List.take_append_drop] at ha
    rw [hr.readLevels_eq, ha.readLevels_eq]
  · rw [List.take_of_length_le (by omega)]

theorem levels_of_raw? {s : Sheet} {raw : String} (h : s.raw? levelsKey = some raw) :
    s.levels = readLevels [] (Text.words raw.toList) := by
  rw [levels, h]

/-- The verdict on the tokens of the level list is its table or the reason why there is none; no
token behind the seventh has a part in it, and a table is used only as a whole. -/
theorem levels_judged (s : Sheet) :
    (s.levels = .error .missing ↔ s.raw? "v_levels" = none) ∧
    (∀ raw, s.raw? "v_levels" = some raw → ∃ ws, (∀ ws', Text.HasWords raw.toList ws' ↔ ws' = ws) ∧
      ∀ r, (s.levels = r ↔ Verdict ws r) ∧ (s.levels = r ↔ Verdict (ws.take 7) r)) ∧
    ∀ table, s.levels? = some table ↔ s.levels = .ok table := by
  refine ⟨?_, ?_, ?_⟩
  · constructor
    · intro h
      rw [Option.eq_none_iff_forall_ne_some]
      intro raw hr
      rw [levels_of_raw? hr] at h
      exact (verdict_iff.mpr h).ne_missing rfl
    · intro h
      rw [levels, levelsKey, h]
  · intro raw hr
    refine ⟨Text.words raw.toList, fun _ => Text.hasWords_iff, ?_⟩
    intro r
    rw [verdict_iff, verdict_iff, readLevels_take, levels_of_raw? hr]
    exact ⟨Iff.rfl, Iff.rfl⟩
  · intro table
    rw [levels?]
    cases s.levels with
    | error e => simp [Except.toOption]
    | ok t => simp [Except.toOption]

theorem levels_judged_standard : ∃ ws, Text.HasWords "60 70 80 90 100 76".toList ws ∧
    Verdict ws (.ok VoltageTable.standard) := by
  have hr : (parse "v_levels: 60 70 80 90 100 76").raw? "v_levels" =
      some "60 70 80 90 100 76" := by decide +kernel
  have hl : (parse "v_levels: 60 70 80 90 100 76").levels = .ok VoltageTable.standard := by
    decide +kernel
  obtain ⟨ws, hw, hv⟩ := (levels_judged (parse "v_levels: 60 70 80 90 100 76")).2.1 _ hr
  exact ⟨ws, (hw ws).mpr rfl, (hv _).1.mp hl⟩

/-- A seventh token is read before it is counted. -/
example : (parse "v_levels: 0x3c +70\t080 90\u2003100 76 6x 0").levels = .error .invalidToken := by
  decide +kernel

end Calibration.Sheet

end Rumble
