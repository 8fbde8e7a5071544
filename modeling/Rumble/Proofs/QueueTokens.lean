import Rumble.Proofs.QueueText
import Rumble.Proofs.WrittenText

namespace Rumble

namespace Queue

/-- The texts between the commas; an empty queue has none. -/
def tokenTexts (q : Queue) : List (List Char) := if q.isEmpty then [] else q.pieces

/-- Reads a token. Two numerals with a point between them are a segment, and one is a silence. -/
def Token.ofText? (cs : List Char) : Option Token :=
  match cs.splitOn '.' with
  | [ms] => (Text.readWord? ms).map silence
  | [slot, volume] => do return segment (← Text.readWord? slot) (← Text.readWord? volume)
  | _ => none

def tokens? (q : Queue) : Option (List Token) := q.tokenTexts.mapM Token.ofText?

/-- How a token is written: in canonical numerals, with a point in a segment alone. -/
inductive Token.IsWritten : Token → List Char → Prop
  | segment {slot volume : UInt32} {cs slotText volumeText : List Char}
    (pointed : '.' ∈ cs) (split : cs.splitOn '.' = [slotText, volumeText])
    (hs : Text.IsCanonical slotText slot.toNat) (hv : Text.IsCanonical volumeText volume.toNat) :
    IsWritten (.segment slot volume) cs
  | silence {ms : UInt32} {cs : List Char} (plain : '.' ∉ cs) (h : Text.IsCanonical cs ms.toNat) :
    IsWritten (.silence ms) cs

/-! ### Tokens -/

theorem dot_not_mem_showWord (n : UInt32) : '.' ∉ (Text.showWord n).toList :=
  not_mem_showWord (by decide) n

theorem Token.splitOn_dot_segment (slot volume : UInt32) :
    (segment slot volume).text.toList.splitOn '.' =
      [(Text.showWord slot).toList, (Text.showWord volume).toList] := by
  have ha : ((Text.showWord slot).toList ++ '.' :: (Text.showWord volume).toList).splitOn '.' =
      (Text.showWord slot).toList.splitOn '.' ++ (Text.showWord volume).toList.splitOn '.' :=
    List.splitOnP_append_cons _ _ (beq_self_eq_true '.')
  rw [toList_text_segment, ha, Text.splitOn_of_not_mem (dot_not_mem_showWord slot),
    Text.splitOn_of_not_mem (dot_not_mem_showWord volume), List.singleton_append]

theorem Token.isWritten_text (t : Token) : t.IsWritten t.text.toList := by
  cases t with
  | silence ms => exact .silence (dot_not_mem_showWord ms) (Text.isCanonical_showWord ms)
  | segment slot volume =>
    have hp : '.' ∈ (segment slot volume).text.toList := by
      rw [toList_text_segment]
      simp
    exact .segment hp (splitOn_dot_segment slot volume) (Text.isCanonical_showWord slot)
      (Text.isCanonical_showWord volume)

theorem Token.ofText?_text (t : Token) : ofText? t.text.toList = some t := by
  cases t with
  | silence ms =>
    have hs : (silence ms).text.toList.splitOn '.' = [(Text.showWord ms).toList] :=
      Text.splitOn_of_not_mem (dot_not_mem_showWord ms)
    rw [ofText?, hs]
    simp [Text.readWord?_showWord]
  | segment slot volume =>
    rw [ofText?, splitOn_dot_segment]
    simp [Text.readWord?_showWord]

/-! ### Lists of tokens -/

theorem tokenTexts_ofTokens (ts : List Token) :
    (ofTokens ts).tokenTexts = ts.map fun t => t.text.toList := by
  by_cases h : ts = []
  · subst h
    rfl
  · have he : (ofTokens ts).isEmpty = false := by simpa [isEmpty] using text_ofTokens_ne_empty h
    rw [tokenTexts, he, if_neg Bool.false_ne_true, pieces_ofTokens h]

theorem tokens?_ofTokens (ts : List Token) : (ofTokens ts).tokens? = some ts := by
  have hs : (Token.ofText? ∘ fun t : Token => t.text.toList) = fun t => pure (id t) :=
    funext Token.ofText?_text
  rw [tokens?, tokenTexts_ofTokens, List.mapM_map, hs, List.mapM_pure, List.map_id]
  rfl

theorem ofTokens_injective : Function.Injective ofTokens := by
  intro ts ts' h
  have ht := congrArg tokens? h
  rw [tokens?_ofTokens, tokens?_ofTokens] at ht
  exact Option.some.inj ht

end Queue

namespace Catalog

variable {c : Catalog} {table : VoltageTable} {e : Effect} {s : Strength}

/-- The token of a part of a compound effect. A simple effect plays the waveform that all share, at
a level of the table, and a pause is a silence of its length. -/
inductive HasToken (c : Catalog) (table : VoltageTable) (s : Strength) :
    Segment → Queue.Token → Prop
  | effect {inner : Effect} {level : Level} {lengthMs : PerStrength UInt32} (i : Fin 6)
    (simple : c.get? inner = some (.simple level lengthMs))
    (shifted : (i : Int) = level.index + s.offset) :
    HasToken c table s (.effect inner) (.segment 2 (table.levels.get i))
  | silence (ms : UInt32) : HasToken c table s (.silence ms) (.silence ms)

theorem exists_get_of_at? {level : Level} {volume : UInt32} (h : table.at? level s = some volume) :
    ∃ i : Fin 6, (i : Int) = level.index + s.offset ∧ volume = table.levels.get i := by
  obtain ⟨n, hn, hv⟩ := Option.bind_eq_some_iff.mp h
  obtain ⟨hi, hg⟩ := Vector.getElem?_eq_some_iff.mp hv
  exact ⟨⟨n, hi⟩, (Int.mem_toNat?.mp hn).symm, hg.symm⟩

theorem hasToken_of_hasPart {segment : Segment} {part : UInt32 × Queue.Token}
    (h : c.HasPart table s segment part) : c.HasToken table s segment part.2 := by
  cases h with
  | silence ms => exact .silence ms
  | effect simple found =>
    obtain ⟨i, hi, rfl⟩ := exists_get_of_at? found
    exact .effect i simple hi

theorem tokens?_of_resolve_compound (table : VoltageTable) (s : Strength) {segments : List Segment}
    (h : c.get? e = some (.compound segments)) :
    ∃ p q tokens, c.resolve table e s = .ok p ∧ p.queue = some q ∧ q.tokens? = some tokens ∧
      List.Forall₂ (c.HasToken table s) segments tokens := by
  obtain ⟨p, hp, hs⟩ := exists_hasPlayback table s h
  cases hs with
  | @compound _ parts played =>
    refine ⟨_, _, parts.map Prod.snd, hp, rfl, Queue.tokens?_ofTokens _, ?_⟩
    rw [List.forall₂_map_right_iff]
    exact played.imp fun _ _ => hasToken_of_hasPart

end Catalog

/-- Composed queues can be read. For every list of tokens, pushed one by one to an empty queue, the
texts between the commas are those of the tokens, and reading them gives back the list; different
lists have different texts. The queue of a compound effect is read as the tokens of its parts. -/
theorem Queue.decodes :
    (∀ ts : List Token, List.Forall₂ Token.IsWritten ts (ofTokens ts).tokenTexts ∧
      (ofTokens ts).tokens? = some ts) ∧
    (∀ ts ts' : List Token, ts ≠ ts' → (ofTokens ts).text ≠ (ofTokens ts').text) ∧
    ∀ (c : Catalog) (table : VoltageTable) (e : Effect) (s : Strength) (segments : List Segment),
      c.get? e = some (.compound segments) →
      ∃ p q tokens, c.resolve table e s = .ok p ∧ p.queue = some q ∧ q.tokens? = some tokens ∧
        List.Forall₂ (c.HasToken table s) segments tokens := by
  refine ⟨?_, ?_, ?_⟩
  · intro ts
    refine ⟨?_, tokens?_ofTokens ts⟩
    rw [tokenTexts_ofTokens, List.forall₂_map_right_iff, List.forall₂_same]
    exact fun t _ => t.isWritten_text
  · intro ts ts' hn ht
    exact hn (ofTokens_injective (congrArg Queue.mk ht))
  · intro c table e s segments h
    exact Catalog.tokens?_of_resolve_compound table s h

/-- Digits on the other side of a point make another queue, and a double click has three tokens. -/
theorem Queue.decodes_doubleClick :
    [Token.segment 12 3] ≠ [Token.segment 1 23] ∧
      (ofTokens [.segment 12 3]).text ≠ (ofTokens [.segment 1 23]).text ∧
      let segments : List Segment := [.effect .tick, .silence 100, .effect .click]
      Catalog.standard.get? .doubleClick = some (.compound segments) ∧
        ∃ p q tokens, Catalog.standard.resolve .standard .doubleClick .strong = .ok p ∧
          p.queue = some q ∧ q.tokens? = some tokens ∧
          List.Forall₂ (Catalog.standard.HasToken .standard .strong) segments tokens := by
  have hn : [Token.segment 12 3] ≠ [Token.segment 1 23] := by decide
  obtain ⟨-, ht, hc⟩ := decodes
  exact ⟨hn, ht _ _ hn, rfl, hc .standard .standard .doubleClick .strong _ rfl⟩

example : (Queue.ofTokens [.segment 2 80, .silence 100, .segment 2 90]).text = "2.80,100,2.90" := by
  decide

end Rumble
