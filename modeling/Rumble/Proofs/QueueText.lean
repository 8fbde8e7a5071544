import Rumble.Proofs.Resolution
import Rumble.Text.Lines

namespace Rumble.Queue

def pieces (q : Queue) : List (List Char) := q.text.toList.splitOn ','

theorem not_mem_showWord {c : Char} (h : c.isDigit = false) (n : UInt32) :
    c ∉ (Text.showWord n).toList := by
  intro hc
  rw [Text.showWord, String.toList_ofList] at hc
  have hd := Text.isDigit_of_mem_decimal hc
  rw [h] at hd
  cases hd

theorem Token.toList_text_segment (slot volume : UInt32) :
    (segment slot volume).text.toList =
      (Text.showWord slot).toList ++ '.' :: (Text.showWord volume).toList := by
  have hp : ".".toList = ['.'] := rfl
  rw [text, String.toList_append, String.toList_append, hp, List.append_assoc,
    List.singleton_append]

theorem Token.comma_not_mem_text (t : Token) : ',' ∉ t.text.toList := by
  have hn : ∀ n, ',' ∉ (Text.showWord n).toList := not_mem_showWord (by decide)
  cases t with
  | silence ms => exact hn ms
  | segment slot volume =>
    rw [toList_text_segment]
    simp [hn slot, hn volume]

theorem Token.exists_of_dot_mem_text {t : Token} (h : '.' ∈ t.text.toList) :
    ∃ slot volume, t = segment slot volume := by
  cases t with
  | silence ms => exact absurd h (not_mem_showWord (by decide) ms)
  | segment slot volume => exact ⟨slot, volume, rfl⟩

theorem splitOn_text (t : Token) : t.text.toList.splitOn ',' = [t.text.toList] :=
  Text.splitOn_of_not_mem t.comma_not_mem_text

/-- A token that is pushed to a queue with some text is a further piece of it. -/
theorem pieces_push {q : Queue} (h : q.text ≠ "") (t : Token) :
    (q.push t).pieces = q.pieces ++ [t.text.toList] := by
  have he : q.isEmpty = false := by simpa [isEmpty] using h
  have hc : ",".toList = [','] := rfl
  have ht : (q.push t).text.toList = q.text.toList ++ ',' :: t.text.toList := by
    simp only [push, he, Bool.false_eq_true, if_false, String.toList_append, hc,
      List.append_assoc, List.singleton_append]
  rw [pieces, ht, ← splitOn_text t]
  exact List.splitOnP_append_cons _ _ (beq_self_eq_true ',')

theorem pieces_foldl_push (ts : List Token) {q : Queue} (h : q.text ≠ "") :
    (ts.foldl push q).pieces = q.pieces ++ ts.map fun t => t.text.toList := by
  induction ts generalizing q with
  | nil => rw [List.foldl_nil, List.map_nil, List.append_nil]
  | cons t ts ih =>
    rw [List.foldl_cons, ih (text_push_ne_empty q t), pieces_push h, List.map_cons,
      List.append_assoc, List.singleton_append]

/-- The pieces of a composed queue are the texts of its tokens. -/
theorem pieces_ofTokens {ts : List Token} (h : ts ≠ []) :
    (ofTokens ts).pieces = ts.map fun t => t.text.toList := by
  cases ts with
  | nil => exact absurd rfl h
  | cons t ts =>
    have hp : (ofTokens (t :: ts)).pieces = (⟨t.text⟩ : Queue).pieces ++ _ :=
      pieces_foldl_push ts t.text_ne_empty
    rw [hp, pieces, splitOn_text, List.map_cons, List.singleton_append]

end Rumble.Queue
