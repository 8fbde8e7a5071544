import Rumble.Proofs.LastAssignment

namespace Rumble

namespace Text

variable {cs ds : List Char} {ls ms : List (List Char)}

theorem getLast?_ne_of_append {front rest : List Char} {c d : Char}
    (h : (front ++ c :: rest).getLast? ≠ some d) : rest.getLast? ≠ some d := by
  intro hr
  apply h
  rw [List.getLast?_append_cons, List.getLast?_cons, hr]
  rfl

/-- A line feed behind a text begins the lines of the next one. It ends an empty line if the text
before it was empty or had ended its last line already. -/
theorem HasLines.append (h : HasLines cs ls) (hc : cs.getLast? ≠ some '\r') (hd : HasLines ds ms) :
    HasLines (cs ++ '\n' :: ds) (ls ++ ms) ∨ HasLines (cs ++ '\n' :: ds) (ls ++ [] :: ms) := by
  induction h with
  | nil => exact .inr (.lineFeed List.not_mem_nil hc hd)
  | unterminated _ hn => exact .inl (.lineFeed hn hc hd)
  | lineFeed hn hl _ ih =>
    simp only [List.append_assoc, List.cons_append]
    exact (ih (getLast?_ne_of_append hc)).imp (.lineFeed hn hl) (.lineFeed hn hl)
  | carriageReturn hn _ ih =>
    rw [List.append_cons] at hc
    simp only [List.append_assoc, List.cons_append]
    exact (ih (getLast?_ne_of_append hc)).imp (.carriageReturn hn) (.carriageReturn hn)

theorem lines_append_line (hc : cs.getLast? ≠ some '\r') (ds : List Char) :
    lines (cs ++ '\n' :: ds) = lines cs ++ lines ds ∨
      lines (cs ++ '\n' :: ds) = lines cs ++ [] :: lines ds :=
  ((hasLines_lines cs).append hc (hasLines_lines ds)).imp
    (fun h => h.eq_lines.symm) fun h => h.eq_lines.symm

def withCarriages (cs : List Char) : List Char :=
  cs.flatMap fun c => if c = '\n' then ['\r', '\n'] else [c]

theorem withCarriages_append (cs ds : List Char) :
    withCarriages (cs ++ ds) = withCarriages cs ++ withCarriages ds := List.flatMap_append

theorem withCarriages_lineFeed (cs : List Char) :
    withCarriages ('\n' :: cs) = '\r' :: '\n' :: withCarriages cs := rfl

theorem withCarriages_of_not_mem (h : '\n' ∉ cs) : withCarriages cs = cs := by
  induction cs with
  | nil => rfl
  | cons c cs ih =>
    rw [List.mem_cons, not_or] at h
    rw [withCarriages, List.flatMap_cons, if_neg (Ne.symm h.1), List.singleton_append,
      ← withCarriages, ih h.2]

/-- Each line ends with a carriage return then, and it is no part of the line. -/
theorem HasLines.withCarriages (h : HasLines cs ls) (hc : '\r' ∉ cs) :
    HasLines (withCarriages cs) ls := by
  induction h with
  | nil => exact .nil
  | unterminated he hn =>
    rw [withCarriages_of_not_mem hn]
    exact .unterminated he hn
  | lineFeed hn _ _ ih =>
    rw [withCarriages_append, withCarriages_of_not_mem hn, withCarriages_lineFeed]
    exact .carriageReturn hn (ih fun hr => hc (by simp [hr]))
  | carriageReturn _ _ _ => exact absurd (by simp) hc

theorem lines_withCarriages (hc : '\r' ∉ cs) : lines (withCarriages cs) = lines cs :=
  ((hasLines_lines cs).withCarriages hc).eq_lines.symm

end Text

namespace Calibration.Sheet

theorem assignments_parse_append (a b : String) (h : a.toList.getLast? ≠ some '\r') :
    (parse (a ++ "\n" ++ b)).assignments = (parse a).assignments ++ (parse b).assignments := by
  have ht : (a ++ "\n" ++ b).toList = a.toList ++ '\n' :: b.toList := by
    rw [String.toList_append, String.toList_append, List.append_assoc]
    rfl
  -- An empty line assigns nothing.
  have he : assignment? [] = none := rfl
  simp only [parse, ht]
  rcases Text.lines_append_line h b.toList with hl | hl
  · rw [hl, List.filterMap_append]
  · rw [hl, List.filterMap_append, List.filterMap_cons_none he]

theorem parse_withCarriages (text : String) (h : '\r' ∉ text.toList) :
    parse (.ofList (Text.withCarriages text.toList)) = parse text := by
  rw [parse, parse, String.toList_ofList, Text.lines_withCarriages h]

/-- A text behind another, on lines of its own, decides about the keys that it assigns; the others
keep their values. Carriage returns at the ends of the lines change no value. -/
theorem texts_compose :
    (∀ a b : String, a.toList.getLast? ≠ some '\r' → ∀ key,
      (parse (a ++ "\n" ++ b)).raw? key = ((parse b).raw? key).or ((parse a).raw? key)) ∧
    ∀ text : String, '\r' ∉ text.toList → ∀ key,
      (parse (.ofList (Text.withCarriages text.toList))).raw? key = (parse text).raw? key := by
  constructor
  · intro a b h key
    rw [raw?, assignments_parse_append a b h, List.reverse_append, List.lookup_append]
    rfl
  · intro text h key
    rw [parse_withCarriages text h]

/-- The override has no line end of its own, and the text before it has one too many. -/
theorem texts_compose_override :
    (parse "f0_measured: 1\nredc_measured: 2\n\nf0_measured: 3").raw? "f0_measured" = some "3" ∧
      (parse "f0_measured: 1\nredc_measured: 2\n\nf0_measured: 3").raw? "redc_measured" =
        some "2" ∧
      (parse "f0_measured: 1\r\nredc_measured: 2\r\n").raw? "redc_measured" = some "2" := by
  have h := texts_compose.1 "f0_measured: 1\nredc_measured: 2\n" "f0_measured: 3" (by decide)
  have hc := texts_compose.2 "f0_measured: 1\nredc_measured: 2\n" (by decide) "redc_measured"
  refine ⟨(h _).trans ?_, (h _).trans ?_, hc.trans ?_⟩
  · decide +kernel
  · decide +kernel
  · decide +kernel

end Calibration.Sheet

end Rumble
