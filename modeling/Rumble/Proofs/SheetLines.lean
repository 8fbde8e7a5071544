import Mathlib.Data.List.Basic
import Mathlib.Data.List.TakeWhile
import Rumble.Calibration.Sheet
import Rumble.Proofs.Lookup

namespace Rumble

namespace Text

theorem lines_append_lineFeed (cs ds : List Char) :
    lines (cs ++ '\n' :: ds) = (cs.splitOn '\n').map dropCarriage ++ lines ds := by
  have hs : (cs ++ '\n' :: ds).splitOn '\n' = cs.splitOn '\n' ++ ds.splitOn '\n' :=
    List.splitOnP_append_cons _ _ (beq_self_eq_true '\n')
  have hn : ds.splitOn '\n' ≠ [] := List.splitOn_ne_nil '\n' ds
  simp only [lines, hs, List.dropLast_append_of_ne_nil hn, List.getLast?_append_of_ne_nil _ hn,
    List.map_append, List.append_assoc]

/-- At the start of a line, what follows does not change the lines before it. -/
theorem exists_lines_append {front : List Char}
    (h : front = [] ∨ front.getLast? = some '\n') :
    ∃ before, ∀ back, lines (front ++ back) = before ++ lines back := by
  rcases h with rfl | h
  · exact ⟨[], fun _ => rfl⟩
  · obtain ⟨cs, rfl⟩ := List.getLast?_eq_some_iff.mp h
    refine ⟨(cs.splitOn '\n').map dropCarriage, ?_⟩
    intro back
    rw [List.append_assoc, List.singleton_append, lines_append_lineFeed]

theorem lines_cons_line {line : List Char} (h : '\n' ∉ line) (back : List Char) :
    lines (line ++ '\n' :: back) = dropCarriage line :: lines back := by
  rw [lines_append_lineFeed, splitOn_of_not_mem h, List.map_singleton, List.singleton_append]

theorem dropCarriage_concat (line : List Char) : dropCarriage (line ++ ['\r']) = line := by
  rw [dropCarriage, if_pos List.getLast?_concat, List.dropLast_concat]

theorem eq_dropCarriage_or (line : List Char) :
    line = dropCarriage line ∨ line = dropCarriage line ++ ['\r'] := by
  by_cases h : line.getLast? = some '\r'
  · obtain ⟨cs, rfl⟩ := List.getLast?_eq_some_iff.mp h
    exact .inr (by rw [dropCarriage_concat])
  · exact .inl (if_neg h).symm

end Text

namespace Calibration.Sheet

def keys : List String := [f0Key, redcKey, qKey, qIndexKey, levelsKey]

/-- A line without a value that is looked up. -/
inductive IsIdle (line : List Char) : Prop where
  | blank (h : ∀ c ∈ line, Text.isBlank c)
  | comment (h : line.head? = some '#')
  | noColon (h : ':' ∉ line)
  | otherKey {key value : List Char} (h : line = key ++ ':' :: value) (hk : ':' ∉ key)
    (hn : .ofList (Text.strip isPadding key) ∉ keys)

variable {line key value : List Char}

theorem assignment?_of_colon_not_mem (h : ':' ∉ line) : assignment? line = none := by
  have hd : line.dropWhile (· ≠ ':') = [] := by
    rw [List.dropWhile_eq_nil_iff]
    intro c hc
    rw [decide_eq_true_iff]
    rintro rfl
    exact h hc
  rw [assignment?]
  split
  · rfl
  · rw [hd]

theorem assignment?_of_key (hk : ':' ∉ key) (hc : (key ++ ':' :: value).head? ≠ some '#') :
    assignment? (key ++ ':' :: value) =
      some (.ofList (Text.strip isPadding key), .ofList (Text.strip isPadding value)) := by
  have hp : ∀ c ∈ key, decide (c ≠ ':') = true := by
    intro c hm
    rw [decide_eq_true_iff]
    rintro rfl
    exact hk hm
  rw [assignment?, if_neg hc, List.dropWhile_append_of_pos hp, List.takeWhile_append_of_pos hp,
    List.dropWhile_cons_of_neg (by decide), List.takeWhile_cons_of_neg (by decide),
    List.append_nil]

namespace IsIdle

theorem key_not_mem (h : IsIdle line) {p : String × String} (hp : assignment? line = some p) :
    p.1 ∉ keys := by
  cases h with
  | blank h =>
    have hn : ':' ∉ line := fun hm => absurd (h ':' hm) (by decide)
    rw [assignment?_of_colon_not_mem hn] at hp
    cases hp
  | comment h =>
    rw [assignment?, if_pos h] at hp
    cases hp
  | noColon h =>
    rw [assignment?_of_colon_not_mem h] at hp
    cases hp
  | @otherKey key value h hk hn =>
    subst h
    by_cases hc : (key ++ ':' :: value).head? = some '#'
    · rw [assignment?, if_pos hc] at hp
      cases hp
    · rw [assignment?_of_key hk hc] at hp
      cases hp
      exact hn

/-- A carriage return at the end of a line is no part of its key. -/
theorem of_carriage (h : IsIdle (line ++ ['\r'])) : IsIdle line := by
  cases h with
  | blank h => exact .blank fun c hc => h c (List.mem_append_left _ hc)
  | comment h =>
    cases line with
    | nil => exact .noColon List.not_mem_nil
    | cons c cs => exact .comment h
  | noColon h => exact .noColon fun hc => h (List.mem_append_left _ hc)
  | @otherKey key value h hk hn =>
    -- The carriage return is not the colon, so it is the end of the value.
    rcases List.eq_nil_or_concat value with rfl | ⟨cs, c, rfl⟩
    · exact absurd (List.append_inj' h rfl).2 (by decide)
    · rw [List.concat_eq_append, ← List.cons_append, ← List.append_assoc] at h
      exact .otherKey (List.append_inj' h rfl).1 hk hn

theorem dropCarriage (h : IsIdle line) : IsIdle (Text.dropCarriage line) := by
  rcases Text.eq_dropCarriage_or line with he | he
  · rwa [← he]
  · rw [he] at h
    exact h.of_carriage

end IsIdle

/-- An idle line can stand at the start of any line. -/
theorem raw?_parse_insert {front line : String} (back : String)
    (hf : front = "" ∨ front.toList.getLast? = some '\n') (hl : '\n' ∉ line.toList)
    (hi : IsIdle line.toList) {key : String} (hk : key ∈ keys) :
    (parse (front ++ line ++ "\n" ++ back)).raw? key = (parse (front ++ back)).raw? key := by
  have hf' : front.toList = [] ∨ front.toList.getLast? = some '\n' := by
    rcases hf with rfl | hf
    · exact .inl rfl
    · exact .inr hf
  obtain ⟨before, hb⟩ := Text.exists_lines_append hf'
  have hn : "\n".toList = ['\n'] := rfl
  have ht : (front ++ line ++ "\n" ++ back).toList =
      front.toList ++ (line.toList ++ '\n' :: back.toList) := by
    simp only [String.toList_append, hn, List.append_assoc, List.singleton_append]
  have ho : (assignment? (Text.dropCarriage line.toList)).toList.reverse.lookup key = none := by
    apply lookup_reverse_of_forall_ne
    intro p hp hpk
    exact hi.dropCarriage.key_not_mem (Option.mem_toList.mp hp) (hpk ▸ hk)
  have hc : (Text.dropCarriage line.toList :: Text.lines back.toList).filterMap assignment? =
      (assignment? (Text.dropCarriage line.toList)).toList ++
        (Text.lines back.toList).filterMap assignment? := by
    cases ha : assignment? (Text.dropCarriage line.toList) <;> simp [ha]
  simp only [parse, raw?, ht, String.toList_append, hb, Text.lines_cons_line hl,
    List.filterMap_append, hc, List.reverse_append, List.lookup_append, ho, Option.or_none]

end Calibration.Sheet

end Rumble
