import Rumble.Proofs.JsonNumber

namespace Rumble.Json

/-! ### Strings -/

namespace Quoted

/-- How the pieces of a string are spelled between its quotes. -/
inductive Spelling : List Piece → List Char → Prop
  | nil : Spelling [] []
  | plain {c : Char} {ps : List Piece} {cs : List Char} (hq : c ≠ '"') (hb : c ≠ '\\')
    (hc : ¬c.toNat < 0x20) (h : Spelling ps cs) : Spelling (.char c :: ps) (c :: cs)
  | letter {e c : Char} {ps : List Piece} {cs : List Char} (he : unescape? e = some c)
    (h : Spelling ps cs) : Spelling (.char c :: ps) ('\\' :: e :: cs)
  | unit {p : Piece} {a b c d : Char} {ps : List Piece} {cs : List Char}
    (hu : unit? a b c d = some p) (h : Spelling ps cs) :
    Spelling (p :: ps) ('\\' :: 'u' :: a :: b :: c :: d :: cs)

theorem scan_letter {e c : Char} (h : unescape? e = some c) (cs : List Char) :
    scan ('\\' :: e :: cs) = (scan cs).map fun x => (.char c :: x.1, x.2) := by
  rw [scan, h]
  · cases scan cs <;> rfl
  · rintro a b c' d cs' rfl
    cases h

theorem scan_plain {c : Char} (hq : c ≠ '"') (hb : c ≠ '\\') (hc : ¬c.toNat < 0x20)
    (cs : List Char) : scan (c :: cs) = (scan cs).map fun x => (.char c :: x.1, x.2) := by
  rw [scan, if_neg (not_or.mpr ⟨hc, hb⟩)]
  · cases scan cs <;> rfl
  · exact hq
  · rintro a b c' d cs' rfl
    exact absurd rfl hb
  · rintro e cs' rfl
    exact absurd rfl hb

theorem scan_append {ps : List Piece} {cs : List Char} (h : Spelling ps cs) (rest : List Char) :
    scan (cs ++ '"' :: rest) = some (ps, rest) := by
  induction h with
  | nil => rfl
  | plain hq hb hc _ ih => rw [List.cons_append, scan_plain hq hb hc, ih, Option.map_some]
  | letter he _ ih =>
    rw [List.cons_append, List.cons_append, scan_letter he, ih, Option.map_some]
  | unit hu _ ih =>
    simp only [List.cons_append, scan, hu, ih, Option.bind_eq_bind, Option.bind_some,
      Option.pure_def]

/-- The control characters that have no letter of their own. -/
theorem unit?_of_lt : ∀ n < 0x20, unit? '0' '0' (Nat.digitChar (n / 16)) (Nat.digitChar (n % 16)) =
    some (.char (.ofNat n)) := by
  decide

theorem spelling_escape (c : Char) {ps : List Piece} {cs : List Char} (h : Spelling ps cs) :
    Spelling (.char c :: ps) (escape c ++ cs) := by
  unfold escape
  split
  -- All cases but the last have a letter that stands for the character.
  case h_8 hq hb _ _ _ _ _ =>
    split
    · next hc =>
      have hu := unit?_of_lt c.toNat hc
      rw [Char.ofNat_toNat] at hu
      exact .unit hu h
    · next hc => exact .plain hq hb hc h
  all_goals exact .letter rfl h

theorem spelling_flatMap_escape (cs : List Char) : Spelling (cs.map .char) (cs.flatMap escape) := by
  induction cs with
  | nil => exact .nil
  | cons c cs ih => exact spelling_escape c ih

theorem not_control_of_all {cs : List Char} (h : cs.all fun c => !decide (c.toNat < 0x20)) {c : Char}
    (hc : c ∈ cs) : ¬c.toNat < 0x20 := by
  simpa using List.all_eq_true.mp h c hc

theorem not_control_of_mem_escape {c d : Char} (h : c ∈ escape d) : ¬c.toNat < 0x20 := by
  have hd : ∀ n < 0x20, ¬(Nat.digitChar (n / 16)).toNat < 0x20 ∧
      ¬(Nat.digitChar (n % 16)).toNat < 0x20 := by decide
  unfold escape at h
  split at h
  case h_8 =>
    split at h
    · next hn =>
      obtain ⟨h₁, h₂⟩ := hd d.toNat hn
      simp only [List.mem_cons, List.not_mem_nil, or_false] at h
      rcases h with rfl | rfl | rfl | rfl | rfl | rfl
      · decide
      · decide
      · decide
      · decide
      · exact h₁
      · exact h₂
    · next hn => rwa [List.mem_singleton.mp h]
  all_goals exact not_control_of_all (by decide) h

/-- A control character in a text is escaped. -/
theorem not_control_of_mem_encode {cs : List Char} {c : Char} (h : c ∈ encode cs) :
    ¬c.toNat < 0x20 := by
  rw [encode, List.cons_append, List.mem_cons, List.mem_append, List.mem_singleton] at h
  rcases h with rfl | h | rfl
  · decide
  · obtain ⟨d, -, h⟩ := List.mem_flatMap.mp h
    exact not_control_of_mem_escape h
  · decide

theorem join_map_char (cs : List Char) : join (cs.map .char) = some cs := by
  induction cs with
  | nil => rfl
  | cons c cs ih => rw [List.map_cons, join, ih]; rfl

end Quoted

/-! ### Tokens -/

namespace Token

/-- How a token is spelled. -/
inductive Spelling : Token → List Char → Prop
  | openBrace : Spelling openBrace ['{']
  | closeBrace : Spelling closeBrace ['}']
  | openBracket : Spelling openBracket ['[']
  | closeBracket : Spelling closeBracket [']']
  | colon : Spelling colon [':']
  | comma : Spelling comma [',']
  | null : Spelling null ['n', 'u', 'l', 'l']
  | boolTrue : Spelling (bool true) ['t', 'r', 'u', 'e']
  | boolFalse : Spelling (bool false) ['f', 'a', 'l', 's', 'e']
  | number {n : Number} {cs : List Char} (h : n.Spelling cs) : Spelling (number n) cs
  | string {ps : List Piece} {cs : List Char} (h : Quoted.Spelling ps cs) :
    Spelling (string ((Quoted.join ps).map String.ofList)) ('"' :: cs ++ ['"'])

def isNumber : Token → Bool
  | number _ => true
  | _ => false

theorem exists_cons_of_number {n : Number} {cs : List Char} (h : n.Spelling cs) :
    ∃ c cs', cs = c :: cs' ∧ (c = '-' ∨ c.isDigit) := by
  obtain ⟨negative, hw, _, _⟩ := h
  cases negative with
  | true => exact ⟨'-', _, rfl, .inl rfl⟩
  | false =>
    obtain ⟨c, cs', rfl, hc⟩ := hw.isDigits.exists_cons
    exact ⟨c, _, rfl, .inr hc⟩

theorem Spelling.ends {t : Token} {cs : List Char} (h : t.Spelling cs)
    (hn : t.isNumber = false) (rest : List Char) : Number.Ends (cs ++ rest) := by
  intro c hc
  cases h with
  | number => cases hn
  | _ => cases hc; decide

theorem scan_number {n : Number} {c : Char} {cs rest : List Char} (h : n.Spelling (c :: cs))
    (hc : c = '-' ∨ c.isDigit) (hr : Number.Ends rest) :
    scan c (cs ++ rest) = some (number n, rest) := by
  unfold scan
  split
  case h_11 =>
    rw [if_pos hc, ← List.cons_append, Number.scan_append h hr]
    rfl
  all_goals exact absurd hc (by decide)

/-- A token is cut off the text before what follows, unless that goes on with a number. -/
theorem Spelling.exists_scan {t : Token} {text rest : List Char} (h : t.Spelling text)
    (hr : t.isNumber → Number.Ends rest) :
    ∃ c cs, text ++ rest = c :: cs ∧ isSpace c = false ∧ scan c cs = some (t, rest) := by
  cases h with
  | number h =>
    obtain ⟨c, cs, rfl, hc⟩ := exists_cons_of_number h
    refine ⟨c, cs ++ rest, rfl, ?_, scan_number h hc (hr rfl)⟩
    rcases hc with rfl | hc
    · decide
    · simp only [isSpace, Bool.or_eq_false_iff, decide_eq_false_iff_not]
      refine ⟨⟨⟨?_, ?_⟩, ?_⟩, ?_⟩ <;> rintro rfl <;> cases hc
  | @string ps cs h =>
    refine ⟨'"', cs ++ '"' :: rest, by simp, by decide, ?_⟩
    simp only [scan, Quoted.scan_append h, Option.map_some]
  | _ => exact ⟨_, _, rfl, by decide, rfl⟩

theorem lex_append {t : Token} {text rest : List Char} (h : t.Spelling text)
    (hr : t.isNumber → Number.Ends rest) : lex (text ++ rest) = (lex rest).map (t :: ·) := by
  obtain ⟨c, cs, ht, hs, hc⟩ := h.exists_scan hr
  rw [ht, lex, if_neg (by simp [hs])]
  split
  · next hn => cases hc.symm.trans hn
  · next t' r' hn =>
    obtain ⟨rfl, rfl⟩ := Prod.mk.inj (Option.some.inj (hc.symm.trans hn))
    rfl

/-- Tokens spelled one after the other, with white space anywhere between them. -/
inductive IsLayout : List Token → List Char → Prop
  | nil : IsLayout [] []
  | space {c : Char} {ts : List Token} {cs : List Char} (hc : isSpace c) (h : IsLayout ts cs) :
    IsLayout ts (c :: cs)
  | token {t : Token} {text : List Char} {ts : List Token} {cs : List Char} (ht : t.Spelling text)
    (h : IsLayout ts cs) : IsLayout (t :: ts) (text ++ cs)

theorem IsLayout.append {ts us : List Token} {cs ds : List Char} (h : IsLayout ts cs)
    (hu : IsLayout us ds) : IsLayout (ts ++ us) (cs ++ ds) := by
  induction h with
  | nil => exact hu
  | space hc _ ih => exact .space hc ih
  | token ht _ ih =>
    rw [List.cons_append, List.append_assoc]
    exact .token ht ih

theorem IsLayout.spaces {ts : List Token} {gap cs : List Char} (hg : ∀ c ∈ gap, isSpace c)
    (h : IsLayout ts cs) : IsLayout ts (gap ++ cs) := by
  induction gap with
  | nil => exact h
  | cons c gap ih =>
    obtain ⟨hc, hg⟩ := List.forall_mem_cons.mp hg
    exact .space hc (ih hg)

/-- The text of tokens does not go on with a number, unless the first of them is one. -/
theorem IsLayout.ends {ts : List Token} {cs : List Char} (h : IsLayout ts cs)
    (hn : ∀ t ∈ ts.head?, t.isNumber = false) : Number.Ends cs := by
  cases h with
  | nil => exact fun c hc => nomatch hc
  | space hc =>
    rintro c ⟨⟩
    simp only [isSpace, Bool.or_eq_true, decide_eq_true_eq] at hc
    rcases hc with ((rfl | rfl) | rfl) | rfl <;> decide
  | token ht => exact ht.ends (hn _ rfl) _

/-! ### Writing -/

/-- What is written: texts, and integers within the range of doubles. -/
def IsWritten : Token → Prop
  | string text => text.isSome
  | number n => n.IsInteger ∧ n.isTooLarge = false
  | _ => True

theorem IsWritten.isSound {t : Token} (h : t.IsWritten) : t.isSound := by
  cases t with
  | string text => exact h
  | number n => rw [Token.isSound, h.2, Bool.not_false]
  | _ => rfl

theorem IsWritten.spelling {t : Token} (h : t.IsWritten) : t.Spelling t.text := by
  cases t with
  | number n => exact .number h.1.spelling
  | string text =>
    obtain ⟨s, rfl⟩ := Option.isSome_iff_exists.mp h
    have hs := Spelling.string (Quoted.spelling_flatMap_escape s.toList)
    rw [Quoted.join_map_char, Option.map_some, String.ofList_toList] at hs
    exact hs
  | bool b => cases b <;> constructor
  | _ => constructor

theorem not_control_of_mem_text {t : Token} (h : t.IsWritten) {c : Char} (hc : c ∈ t.text) :
    ¬c.toNat < 0x20 := by
  cases t with
  | number n =>
    have hd {c : Char} (hc : c.isDigit) : ¬c.toNat < 0x20 := by
      have hn := Text.toNat_of_isDigit hc
      omega
    obtain ⟨⟨⟨k, hw⟩, hf, he⟩, -⟩ := h
    simp only [Token.text, Number.text, hw, hf, he, if_true, List.append_nil, List.mem_append] at hc
    rcases hc with hc | hc
    · split at hc
      · rw [List.mem_singleton.mp hc]
        decide
      · cases hc
    · exact hd (Text.isDigit_of_mem_decimal hc)
  | string text =>
    obtain ⟨s, rfl⟩ := Option.isSome_iff_exists.mp h
    exact Quoted.not_control_of_mem_encode hc
  | bool b => cases b <;> exact Quoted.not_control_of_all (by decide) hc
  | _ => exact Quoted.not_control_of_all (by decide) hc

theorem isLayout_of_spelling {ts : List Token} (h : ∀ t ∈ ts, t.Spelling t.text) :
    IsLayout ts (ts.flatMap text) := by
  induction ts with
  | nil => exact .nil
  | cons t ts ih =>
    obtain ⟨ht, h⟩ := List.forall_mem_cons.mp h
    exact .token ht (ih h)

theorem isLayout_flatMap_text {ts : List Token} (h : ∀ t ∈ ts, t.IsWritten) :
    IsLayout ts (ts.flatMap text) := isLayout_of_spelling fun t ht => (h t ht).spelling

end Token

end Rumble.Json
