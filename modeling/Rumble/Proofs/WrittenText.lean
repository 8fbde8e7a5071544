import Rumble.Proofs.NumeralGrammar
import Rumble.Proofs.Ownership
import Rumble.Proofs.QueueText
import Rumble.Text.Lines

namespace Rumble

namespace Text

/-- It has characters, and none of them is blank. -/
structure IsSolid (cs : List Char) : Prop where
  ne_nil : cs ≠ []
  isBlank_eq_false : ∀ c ∈ cs, isBlank c = false

/-- The canonical numeral of a number: digits alone, and no zero in front of another digit. -/
structure IsCanonical (cs : List Char) (n : Nat) : Prop where
  ne_nil : cs ≠ []
  isDigit : ∀ c ∈ cs, c.isDigit
  eq_zero : cs.head? = some '0' → cs = ['0']
  value : Nat.ofDigitChars 10 cs 0 = n

theorem isCanonical_decimal (n : Nat) : IsCanonical (decimal n) n where
  ne_nil := Nat.toDigits_ne_nil
  isDigit _ := isDigit_of_mem_decimal
  eq_zero h := by
    obtain ⟨cs, hcs⟩ := List.head?_eq_some_iff.mp h
    rw [eq_zero_of_decimal_eq hcs]
    rfl
  value := Nat.ofDigitChars_toDigits (by decide) (by decide)

theorem isCanonical_showWord (n : UInt32) : IsCanonical (showWord n).toList n.toNat := by
  rw [showWord, String.toList_ofList]
  exact isCanonical_decimal n.toNat

theorem IsCanonical.isSolid {cs : List Char} {n : Nat} (h : IsCanonical cs n) : IsSolid cs :=
  ⟨h.ne_nil, fun c hc => isBlank_eq_false_of_isDigit (h.isDigit c hc)⟩

namespace IsSolid

variable {cs : List Char}

theorem not_mem (h : IsSolid cs) {c : Char} (hc : isBlank c) : c ∉ cs := by
  intro hm
  rw [h.isBlank_eq_false c hm] at hc
  cases hc

theorem trim_eq (h : IsSolid cs) : trim cs = cs := by
  have hd {ds : List Char} (hs : ∀ c ∈ ds, isBlank c = false) : ds.dropWhile isBlank = ds := by
    cases ds with
    | nil => rfl
    | cons d ds => exact List.dropWhile_cons_of_neg (by simp [hs d List.mem_cons_self])
  have hr : ∀ c ∈ cs.reverse, isBlank c = false := by
    intro c hc
    exact h.isBlank_eq_false c (List.mem_reverse.mp hc)
  rw [trim, strip, hd h.isBlank_eq_false, hd hr, List.reverse_reverse]

/-- With a line feed behind it, a solid text is read back by trimming. -/
theorem trim_lineFeed (h : IsSolid cs) : trim (cs ++ ['\n']) = cs := by
  rw [trim, strip_concat (by decide)]
  exact h.trim_eq

theorem lines_lineFeed (h : IsSolid cs) : lines (cs ++ ['\n']) = [cs] := by
  have hs : (cs ++ ['\n']).splitOn '\n' = [cs, []] := by
    have ha := List.splitOnP_append_cons (p := (· == '\n')) cs [] (beq_self_eq_true '\n')
    have hc : cs.splitOnP (· == '\n') = [cs] := splitOn_of_not_mem (h.not_mem (by decide))
    rw [hc] at ha
    exact ha
  -- There is no carriage return at the end that could belong to the line feed.
  have hl : cs.getLast? ≠ some '\r' := fun hl => h.not_mem (by decide) (List.mem_of_getLast? hl)
  simp only [lines, hs, dropCarriage, List.dropLast, List.map_cons, List.map_nil, if_neg hl]
  rfl

end IsSolid

end Text

/-! ### Queues -/

namespace Queue

def Token.isSegment : Token → Bool
  | segment .. => true
  | silence _ => false

theorem Token.isSolid_text (t : Token) : Text.IsSolid t.text.toList := by
  have hn (n : UInt32) : Text.IsSolid (Text.showWord n).toList :=
    (Text.isCanonical_showWord n).isSolid
  cases t with
  | silence ms => exact hn ms
  | segment slot volume =>
    have hp : Text.isBlank '.' = false := by decide
    rw [Token.toList_text_segment]
    refine ⟨by simp, ?_⟩
    intro c hc
    rcases List.mem_append.mp hc with hc | hc
    · exact (hn slot).isBlank_eq_false c hc
    · rcases List.mem_cons.mp hc with rfl | hc
      · exact hp
      · exact (hn volume).isBlank_eq_false c hc

/-- Commas are as solid as what stands between them. -/
theorem isSolid_push {q : Queue} (h : ∀ c ∈ q.text.toList, Text.isBlank c = false) (t : Token) :
    Text.IsSolid (q.push t).text.toList := by
  have hc : ",".toList = [','] := rfl
  have hb : Text.isBlank ',' = false := by decide
  have ht := t.isSolid_text
  rw [push]
  split
  · exact ht
  · rw [String.toList_append, String.toList_append, hc]
    refine ⟨by simp, ?_⟩
    intro c hm
    rcases List.mem_append.mp hm with hm | hm
    · rcases List.mem_append.mp hm with hm | hm
      · exact h c hm
      · rw [List.mem_singleton.mp hm]
        exact hb
    · exact ht.isBlank_eq_false c hm

theorem isSolid_ofTokens {ts : List Token} (h : ts ≠ []) :
    Text.IsSolid (ofTokens ts).text.toList := by
  -- Tokens are pushed at the end, so the induction takes them off there.
  induction ts using List.reverseRecOn with
  | nil => exact absurd rfl h
  | append_singleton ts t ih =>
    have hf : ofTokens (ts ++ [t]) = (ofTokens ts).push t := List.foldl_append
    rw [hf]
    apply isSolid_push
    by_cases hts : ts = []
    · subst hts
      exact List.forall_mem_nil _
    · exact (ih hts).isBlank_eq_false

end Queue

namespace Catalog

variable {c : Catalog} {table : VoltageTable} {e : Effect} {s : Strength} {p : Playback} {q : Queue}

/-- The texts of queues that effects of a catalog are played with. -/
inductive HasQueue (c : Catalog) (text : String) : Prop
  | stored {e : Effect} {durationMs : UInt32} (h : c.get? e = some (.ringtone text durationMs))
  /-- A list of tokens, at least two of which play something. -/
  | composed {ts : List Queue.Token} (ht : text = (Queue.ofTokens ts).text)
    (h : 2 ≤ ts.countP Queue.Token.isSegment)

theorem countP_isSegment {segments : List Segment} {parts : List (UInt32 × Queue.Token)}
    (h : List.Forall₂ (c.HasPart table s) segments parts) :
    (parts.map Prod.snd).countP Queue.Token.isSegment =
      (segments.filterMap Segment.effect?).length := by
  induction h with
  | nil => rfl
  | cons hp _ ih =>
    cases hp with
    | silence ms =>
      rw [List.map_cons, List.countP_cons_of_neg (by simp [Queue.Token.isSegment]), ih]
      rfl
    | effect =>
      rw [List.map_cons, List.countP_cons_of_pos rfl, ih]
      rfl

theorem hasQueue_of_resolve (h : c.resolve table e s = .ok p) (hq : p.queue = some q) :
    c.HasQueue q.text := by
  obtain ⟨entry, he, h⟩ := hasPlayback_of_resolve h
  cases h with
  | simple => cases hq
  | compound played =>
    cases hq
    apply HasQueue.composed rfl
    rw [countP_isSegment played]
    exact two_le_of_get?_compound he
  | ringtone =>
    cases hq
    exact .stored he

theorem HasQueue.isSolid {text : String} (h : c.HasQueue text) : Text.IsSolid text.toList := by
  cases h with
  | stored he =>
    obtain ⟨hn, hb, -⟩ := ringtone_of_get? he
    exact ⟨by simpa using hn, hb⟩
  | @composed ts ht hs =>
    rw [ht]
    apply Queue.isSolid_ofTokens
    rintro rfl
    exact absurd hs (by decide)

theorem hasQueue_of_measured {answer : Except ChannelError String} {text : String}
    (h : (c.measured answer).HasQueue text) : c.HasQueue text := by
  cases h with
  | composed ht hs => exact .composed ht hs
  | @stored e durationMs he =>
    rw [measured] at he
    split at he
    · next samples _ =>
      rcases c.get?_withMeasuredLength_cases samples e with hs | ⟨_, _, _, -, hs⟩
      · exact .stored (hs ▸ he)
      · rw [hs] at he
        cases he
    · exact .stored he

end Catalog

/-! ### Writes -/

/-- What a register may be given: the register of the queue takes queues, the others take
numerals. -/
def Register.Takes (r : Register) (catalog : Catalog) (value : String) : Prop :=
  if r = .effectQueue then catalog.HasQueue value
  else ∃ n : UInt32, Text.IsCanonical value.toList n.toNat

theorem Register.Takes.isSolid {r : Register} {catalog : Catalog} {value : String}
    (h : r.Takes catalog value) : Text.IsSolid value.toList := by
  rw [Takes] at h
  split at h
  · exact h.isSolid
  · obtain ⟨n, hn⟩ := h
    exact hn.isSolid

theorem Register.takes_showWord {r : Register} (h : r ≠ .effectQueue) (catalog : Catalog)
    (n : UInt32) : r.Takes catalog (Text.showWord n) := by
  rw [Takes, if_neg h]
  exact ⟨n, Text.isCanonical_showWord n⟩

theorem Register.takes_of_measured {r : Register} {catalog : Catalog}
    {answer : Except ChannelError String} {value : String}
    (h : r.Takes (catalog.measured answer) value) : r.Takes catalog value := by
  rw [Takes] at h ⊢
  split
  · next hr =>
    rw [if_pos hr] at h
    exact Catalog.hasQueue_of_measured h
  · next hr => rwa [if_neg hr] at h

/-- If it writes, it writes a number, and not to the register of the queue. -/
def Access.IsNumeric : Access → Prop
  | write r value => r ≠ .effectQueue ∧ ∃ n, value = Text.showWord n
  | _ => True

namespace Access

theorem isNumeric_flag {r : Register} (h : r ≠ .effectQueue) (b : Bool) :
    (write r (if b then "1" else "0")).IsNumeric := by
  refine ⟨h, if b then 1 else 0, ?_⟩
  cases b <;> rfl

theorem isNumeric_of_mem_optional {r : Register} (h : r ≠ .effectQueue) {n : Option UInt32}
    {a : Access} (ha : a ∈ optional r n) : a.IsNumeric := by
  obtain ⟨m, rfl⟩ := eq_word_of_mem_optional ha
  exact ⟨h, m, rfl⟩

theorem isNumeric_of_mem_level {r : Register} (h : r ≠ .effectQueue) {l : UInt32} {a : Access}
    (ha : a ∈ level r l) : a.IsNumeric := by
  obtain ⟨m, rfl⟩ := eq_word_of_mem_level ha
  exact ⟨h, m, rfl⟩

theorem isNumeric_of_mem_triggering {slot durationMs : UInt32} {a : Access}
    (ha : a ∈ triggering slot durationMs) : a.IsNumeric := by
  simp only [triggering, List.mem_cons, List.not_mem_nil, or_false] at ha
  rcases ha with rfl | rfl | rfl
  · exact ⟨by decide, slot, rfl⟩
  · exact ⟨by decide, durationMs, rfl⟩
  · exact isNumeric_flag (by decide) true

end Access

namespace Controller

open Program

variable {ι σ : Type} {c : Controller} {op : Operation} {as : List Access} {a : Access}

theorem isNumeric_of_mem_startAccesses {cal : Calibration} (ha : a ∈ cal.startAccesses) :
    a.IsNumeric := by
  rw [startAccesses_eq, List.mem_append, List.mem_cons] at ha
  rcases ha with ha | rfl | ha
  · simp only [prepareAccesses, List.mem_cons, List.mem_append, List.not_mem_nil, or_false] at ha
    rcases ha with rfl | ha | ha | rfl | rfl
    · exact Access.isNumeric_flag (by decide) true
    · exact Access.isNumeric_of_mem_optional (by decide) ha
    · exact Access.isNumeric_of_mem_optional (by decide) ha
    · exact ⟨by decide, cal.q, rfl⟩
    · exact ⟨by decide, 2, rfl⟩
  · trivial
  · simp only [edgeAccesses, List.mem_cons, List.mem_append] at ha
    rcases ha with rfl | ha | rfl | ha
    · exact ⟨by decide, 2, rfl⟩
    · exact Access.isNumeric_of_mem_level (by decide) ha
    · exact ⟨by decide, 2, rfl⟩
    · exact Access.isNumeric_of_mem_level (by decide) ha

/-- An operation writes numbers, and the queue of the effect that it performs. -/
theorem isNumeric_or_queue_of_attempts (h : Attempts c op as) (ha : a ∈ as) :
    a.IsNumeric ∨ ∃ e s p q, op = .performEffect e s ∧
      c.catalog.resolve c.levels e s = .ok p ∧ p.queue = some q ∧
      a = .write .effectQueue q.text := by
  cases h with
  | activate ms =>
    rcases List.mem_append.mp ha with ha | ha
    · exact .inl (Access.isNumeric_of_mem_level (by decide) ha)
    · exact .inl (Access.isNumeric_of_mem_triggering ha)
  | deactivate =>
    rcases List.mem_append.mp ha with ha | ha
    · exact .inl (Access.isNumeric_of_mem_level (by decide) ha)
    · rw [List.mem_singleton.mp ha]
      exact .inl (Access.isNumeric_flag (by decide) false)
  | setExternalControl enabled =>
    rcases List.mem_append.mp ha with ha | ha
    · exact .inl (Access.isNumeric_of_mem_level (by decide) ha)
    · rw [List.mem_singleton.mp ha]
      exact .inl (Access.isNumeric_flag (by decide) enabled)
  | @refused e s entry p q _ resolved _ queued =>
    exact .inr ⟨e, s, p, q, rfl, resolved, queued, List.mem_singleton.mp ha⟩
  | @played e s entry p _ resolved _ =>
    rw [p.accesses_eq, Playback.preparation, List.append_assoc, List.mem_append,
      List.mem_append] at ha
    rcases ha with ha | ha | ha
    · obtain ⟨q, hq, rfl⟩ := List.mem_map.mp ha
      exact .inr ⟨e, s, p, q, rfl, resolved, Option.mem_toList.mp hq, rfl⟩
    · exact .inl (Access.isNumeric_of_mem_level (by decide) ha)
    · exact .inl (Access.isNumeric_of_mem_triggering ha)
  | setAmplitude a n =>
    simp only [List.mem_cons, List.not_mem_nil, or_false] at ha
    rcases ha with rfl | rfl
    · exact .inl trivial
    · exact .inl ⟨by decide, n, rfl⟩
  | queryCapabilities amplitude =>
    cases amplitude <;> simp at ha
    · rcases ha with rfl | rfl <;> exact .inl trivial
    · rcases ha with rfl | rfl | rfl <;> exact .inl trivial
  | unknown | zeroAmplitude => cases ha
  | amplitudeRefused | lacksAmplitude | supportsExternalControl | isUnderExternalControl =>
    rw [List.mem_singleton.mp ha]
    exact .inl trivial
  | supportsAmplitudeControl =>
    simp only [List.mem_cons, List.not_mem_nil, or_false] at ha
    rcases ha with rfl | rfl <;> exact .inl trivial

theorem takes_of_attempts {r : Register} {value : String} (h : Attempts c op as)
    (hw : .write r value ∈ as) : r.Takes c.catalog value := by
  rcases isNumeric_or_queue_of_attempts h hw with ⟨hr, n, rfl⟩ | ⟨e, s, p, q, -, hp, hq, ha⟩
  · exact Register.takes_showWord hr _ n
  · cases ha
    exact Catalog.hasQueue_of_resolve hp hq

/-- Every text that is ever written is solid: with a line feed behind it, it is one line, and
trimming gives it back. The register of the queue is given stored queues of ringtones and lists of
tokens that play something twice at least; every other register is given canonical numerals of 32
bits. So it is for all calibrated values, on every device, and for everything that callers ask. -/
theorem written_texts (cal : Calibration) (remarks : Calibration.Remarks) (catalog : Catalog)
    (device : Device σ) (outside : ι → σ → σ) (events : List (Event ι)) (st : σ) :
    let startup := (start cal remarks catalog).run device st
    let moments := sessionFrom cal remarks catalog device outside events st
    ∀ r value, (.write r value ∈ startup.accesses ∨ ∃ m ∈ moments, .write r value ∈ m.accesses) →
      value ≠ "" ∧ (∀ x ∈ value.toList, Text.isBlank x = false) ∧
      Text.lines (value ++ "\n").toList = [value.toList] ∧
      Text.trim (value ++ "\n").toList = value.toList ∧
      (r ≠ .effectQueue → ∃ n : UInt32, Text.IsCanonical value.toList n.toNat) ∧
      (r = .effectQueue →
        (∃ e durationMs, catalog.get? e = some (.ringtone value durationMs)) ∨
          ∃ ts : List Queue.Token, value.toList.splitOn ',' = ts.map (fun t => t.text.toList) ∧
            2 ≤ ts.countP Queue.Token.isSegment) := by
  intro startup moments r value hw
  have ht : r.Takes catalog value := by
    rcases hw with hw | ⟨m, hm, hw⟩
    · rw [Run.accesses, (makes_start cal remarks catalog).calls_run, Device.map_access_calls] at hw
      obtain ⟨hr, n, rfl⟩ := isNumeric_of_mem_startAccesses hw
      exact Register.takes_showWord hr catalog n
    · obtain ⟨op, -, h⟩ := exists_attempts_of_mem_accesses hm hw
      have ht := takes_of_attempts h hw
      rw [value_start] at ht
      exact Register.takes_of_measured ht
  have hs := ht.isSolid
  have hl : "\n".toList = ['\n'] := rfl
  rw [String.toList_append, hl]
  refine ⟨?_, hs.isBlank_eq_false, hs.lines_lineFeed, hs.trim_lineFeed, ?_, ?_⟩
  · rintro rfl
    exact hs.ne_nil rfl
  · intro hr
    rwa [Register.Takes, if_neg hr] at ht
  · intro hr
    rw [Register.Takes, if_pos hr] at ht
    cases ht with
    | stored he => exact .inl ⟨_, _, he⟩
    | @composed ts hv hc =>
      refine .inr ⟨ts, ?_, hc⟩
      rw [hv]
      apply Queue.pieces_ofTokens
      rintro rfl
      exact absurd hc (by decide)

/-- A double click whose parts are silent still has a queue of one line. -/
theorem written_texts_doubleClick :
    let cal : Calibration := ⟨none, none, 0, some ⟨#v[0, 0, 0, 0, 0, 0]⟩⟩
    let startup := (start cal {} .standard).run Bank.device (.without [.state])
    let moments := sessionFrom cal {} .standard Bank.device (fun (_ : Unit) b => b)
      [.ask (.perform .doubleClick .light)] (.without [.state])
    .write .effectIndex "2" ∈ startup.accesses ∧
      (∃ n : UInt32, Text.IsCanonical "2".toList n.toNat) ∧
      ∃ m ∈ moments, .write .effectQueue "2.0,100,2.0" ∈ m.accesses ∧
        Text.lines "2.0,100,2.0\n".toList = ["2.0,100,2.0".toList] ∧
        Text.trim "2.0,100,2.0\n".toList = "2.0,100,2.0".toList := by
  intro cal startup moments
  have h := written_texts cal {} .standard Bank.device (fun (_ : Unit) b => b)
    [.ask (.perform .doubleClick .light)] (.without [.state])
  have h1 : moments[0] ∈ moments := List.getElem_mem _
  have hi : .write .effectIndex "2" ∈ startup.accesses := by decide
  have hq : .write .effectQueue "2.0,100,2.0" ∈ moments[0].accesses := by decide +kernel
  obtain ⟨-, -, -, -, hn, -⟩ := h .effectIndex "2" (.inl hi)
  obtain ⟨-, -, hl, ht, -⟩ := h .effectQueue "2.0,100,2.0" (.inr ⟨_, h1, hq⟩)
  exact ⟨hi, hn (by decide), _, h1, hq, hl, ht⟩

end Controller

end Rumble
