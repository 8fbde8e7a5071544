import Mathlib.Data.List.DropRight
import Rumble.Proofs.Lookup
import Rumble.Proofs.SheetLines

namespace Rumble

namespace Text

/-- A text and its lines, by what ends each of them. -/
inductive HasLines : List Char → List (List Char) → Prop
  | nil : HasLines [] []
  | unterminated {line : List Char} (he : line ≠ []) (hn : '\n' ∉ line) : HasLines line [line]
  | lineFeed {line rest : List Char} {ls : List (List Char)} (hn : '\n' ∉ line)
    (hc : line.getLast? ≠ some '\r') (h : HasLines rest ls) :
    HasLines (line ++ '\n' :: rest) (line :: ls)
  | carriageReturn {line rest : List Char} {ls : List (List Char)} (hn : '\n' ∉ line)
    (h : HasLines rest ls) : HasLines (line ++ '\r' :: '\n' :: rest) (line :: ls)

theorem lines_of_not_mem {line : List Char} (h : '\n' ∉ line) :
    lines line = [line].filter (· ≠ []) := by
  rw [lines, splitOn_of_not_mem h]
  rfl

theorem hasLines_lines (cs : List Char) : HasLines cs (lines cs) := by
  induction hn : cs.length using Nat.strongRecOn generalizing cs with
  | ind n ih =>
    by_cases hm : '\n' ∈ cs
    · -- The first line feed ends the first line, with a carriage return or without.
      obtain ⟨line, rest, rfl, hl⟩ := List.eq_append_cons_of_mem hm
      have hlt : rest.length < n := by
        rw [← hn, List.length_append, List.length_cons]
        omega
      have hr := ih rest.length hlt rest rfl
      rw [lines_cons_line hl]
      by_cases hc : line.getLast? = some '\r'
      · obtain ⟨front, rfl⟩ := List.getLast?_eq_some_iff.mp hc
        rw [dropCarriage_concat, List.append_assoc, List.singleton_append]
        exact .carriageReturn (fun h => hl (List.mem_append_left _ h)) hr
      · rw [dropCarriage, if_neg hc]
        exact .lineFeed hl hc hr
    · rw [lines_of_not_mem hm]
      by_cases he : cs = []
      · subst he
        exact .nil
      · rw [List.filter_cons_of_pos (by simpa using he)]
        exact .unterminated he hm

theorem HasLines.eq_lines {cs : List Char} {ls : List (List Char)} (h : HasLines cs ls) :
    ls = lines cs := by
  induction h with
  | nil => rfl
  | unterminated he hn =>
    rw [lines_of_not_mem hn, List.filter_cons_of_pos (by simpa using he), List.filter_nil]
  | lineFeed hn hc _ ih => rw [lines_cons_line hn, dropCarriage, if_neg hc, ih]
  | @carriageReturn line rest _ hn _ ih =>
    have hn' : '\n' ∉ line ++ ['\r'] := by simp [hn]
    have hl := lines_cons_line hn' rest
    rw [List.append_assoc, List.singleton_append, dropCarriage_concat] at hl
    rw [hl, ih]

theorem hasLines_iff {cs : List Char} {ls : List (List Char)} : HasLines cs ls ↔ ls = lines cs :=
  ⟨HasLines.eq_lines, fun h => h ▸ hasLines_lines cs⟩

/-- What is left of a text without the characters that `p` picks at its ends. -/
structure IsCore (p : Char → Bool) (cs core : List Char) : Prop where
  padded : ∃ front back, cs = front ++ core ++ back ∧ (∀ c ∈ front, p c) ∧ ∀ c ∈ back, p c
  first : ∀ h : core ≠ [], ¬ p (core.head h)
  last : ∀ h : core ≠ [], ¬ p (core.getLast h)

variable {p : Char → Bool} {cs core : List Char}

theorem isCore_strip (p : Char → Bool) (cs : List Char) : IsCore p cs (strip p cs) := by
  have hs : strip p cs = (cs.dropWhile p).rdropWhile p := rfl
  rw [hs]
  refine ⟨⟨cs.takeWhile p, (cs.dropWhile p).rtakeWhile p, ?_, ?_, ?_⟩, ?_, ?_⟩
  · rw [List.append_assoc, List.rdropWhile_append_rtakeWhile, List.takeWhile_append_dropWhile]
  · intro c hc
    exact List.mem_takeWhile_imp hc
  · intro c hc
    exact List.mem_rtakeWhile_imp hc
  · intro h
    -- What is dropped behind leaves the first character as it is.
    rw [(List.rdropWhile_prefix p (cs.dropWhile p)).head h]
    exact Bool.not_eq_true _ ▸ List.head_dropWhile_not p _
  · exact List.rdropWhile_last_not p _

theorem IsCore.eq_strip (h : IsCore p cs core) : core = strip p cs := by
  obtain ⟨⟨front, back, rfl, hf, hb⟩, first, last⟩ := h
  have hr : ∀ c ∈ back.reverse, p c := fun c hc => hb c (List.mem_reverse.mp hc)
  have hl : core.rdropWhile p = core := List.rdropWhile_eq_self_iff.mpr last
  rw [strip, List.append_assoc, List.dropWhile_append_of_pos hf]
  cases core with
  | nil =>
    rw [List.nil_append, List.dropWhile_eq_nil_iff.mpr hb]
    rfl
  | cons c cs =>
    have hc : ¬ p c := first (List.cons_ne_nil c cs)
    rw [List.cons_append, List.dropWhile_cons_of_neg hc, ← List.cons_append, List.reverse_append,
      List.dropWhile_append_of_pos hr]
    exact hl.symm

end Text

namespace Calibration.Sheet

/-- A line that is no comment assigns to the key before its first colon the value behind that, both
without the spaces and tabs around them. -/
def Assigns (line : List Char) (key value : String) : Prop :=
  line.head? ≠ some '#' ∧ ∃ front back, line = front ++ ':' :: back ∧ ':' ∉ front ∧
    Text.IsCore isPadding front key.toList ∧ Text.IsCore isPadding back value.toList

variable {line : List Char} {key value : String}

theorem assignment?_eq_some_iff :
    assignment? line = some (key, value) ↔ Assigns line key value := by
  constructor
  · intro h
    have hc : line.head? ≠ some '#' := by
      intro hc
      rw [assignment?, if_pos hc] at h
      cases h
    have hm : ':' ∈ line := by
      by_contra hm
      rw [assignment?_of_colon_not_mem hm] at h
      cases h
    obtain ⟨front, back, rfl, hf⟩ := List.eq_append_cons_of_mem hm
    rw [assignment?_of_key hf hc] at h
    cases h
    refine ⟨hc, front, back, rfl, hf, ?_, ?_⟩
    · rw [String.toList_ofList]
      exact Text.isCore_strip isPadding front
    · rw [String.toList_ofList]
      exact Text.isCore_strip isPadding back
  · rintro ⟨hc, front, back, rfl, hf, hk, hv⟩
    rw [assignment?_of_key hf hc, ← hk.eq_strip, ← hv.eq_strip, String.ofList_toList,
      String.ofList_toList]

/-- A key has the value of the last line that assigns it, and none if no line does. -/
theorem keeps_last_assignment (text : String) :
    ∃ ls, (∀ ls', Text.HasLines text.toList ls' ↔ ls' = ls) ∧ ∀ key : String,
      (∀ value, (parse text).raw? key = some value ↔
        ∃ before line after, ls = before ++ line :: after ∧ Assigns line key value ∧
          ∀ l ∈ after, ∀ v, ¬ Assigns l key v) ∧
      ((parse text).raw? key = none ↔ ∀ line ∈ ls, ∀ value, ¬ Assigns line key value) := by
  refine ⟨Text.lines text.toList, fun ls => Text.hasLines_iff, ?_⟩
  intro key
  constructor
  · intro value
    rw [raw?, parse, lookup_reverse_eq_some_iff, isLast_filterMap_iff]
    simp only [assignment?_eq_some_iff, Ne]
  · rw [raw?, parse, lookup_reverse_eq_none_iff]
    constructor
    · intro h line hl value ha
      exact h value (List.mem_filterMap.mpr ⟨line, hl, assignment?_eq_some_iff.mpr ha⟩)
    · intro h value hm
      obtain ⟨line, hl, ha⟩ := List.mem_filterMap.mp hm
      exact h line hl value (assignment?_eq_some_iff.mp ha)

/-- The last line is not terminated, so its carriage return is part of the value. -/
example : (parse "f0: 1\r\n f0\t: 2: 3 \n#f0: 4\nf0 5\n #f0: 6\nf0:\u00a07\r").raw? "f0" =
    some "\u00a07\r" := by
  decide +kernel

end Calibration.Sheet

end Rumble
