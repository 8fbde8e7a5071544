namespace Rumble.Text

def dropCarriage (line : List Char) : List Char :=
  if line.getLast? = some '\r' then line.dropLast else line

/-- The lines of a text; a text that ends in a line feed has no further, empty line. A carriage
return before a line feed belongs to the line end, and one that ends the text to its last line. -/
def lines (cs : List Char) : List (List Char) :=
  let pieces := cs.splitOn '\n'
  pieces.dropLast.map dropCarriage ++ pieces.getLast?.toList.filter (· ≠ [])

theorem splitOn_of_not_mem {c : Char} {cs : List Char} (h : c ∉ cs) : cs.splitOn c = [cs] := by
  apply List.splitOnP_eq_singleton
  intro d hd
  rw [beq_eq_false_iff_ne]
  rintro rfl
  exact h hd

end Rumble.Text
