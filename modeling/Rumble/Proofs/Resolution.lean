import Mathlib.Algebra.Ring.Nat
import Mathlib.Data.List.Forall2
import Mathlib.Tactic.SplitIfs
import Rumble.Playback

namespace Rumble

/-! ### Durations -/

namespace Waveform

/-- Sums that stop at the largest register value can be put together in any way. -/
theorem addMs_assoc (a b c : UInt32) : addMs (addMs a b) c = addMs a (addMs b c) := by
  apply UInt32.toNat_inj.mp
  rw [toNat_addMs, toNat_addMs, toNat_addMs, toNat_addMs]
  omega

/-- Adding durations one by one is one addition that stops at the largest register value. -/
theorem toNat_foldl_addMs (xs : List UInt32) (a : UInt32) :
    (xs.foldl addMs a).toNat = min (a.toNat + (xs.map UInt32.toNat).sum) (UInt32.size - 1) := by
  induction xs generalizing a with
  | nil =>
    have ha : a.toNat ≤ UInt32.size - 1 := Nat.le_sub_one_of_lt a.toNat_lt
    rw [List.foldl_nil, List.map_nil, List.sum_nil, Nat.add_zero, Nat.min_eq_left ha]
  | cons x xs ih =>
    rw [List.foldl_cons, ih, toNat_addMs, List.map_cons, List.sum_cons]
    -- A sum that has stopped once stays where it is.
    omega

theorem le_toNat_addMs_coldStart (ms : UInt32) : 6 ≤ (addMs ms coldStartMs).toNat := by
  have hc : coldStartMs.toNat = 6 := rfl
  have hs : UInt32.size = 4294967296 := rfl
  rw [toNat_addMs, hc, hs]
  omega

end Waveform

/-! ### Queues -/

namespace Queue

theorem showWord_ne_empty (n : UInt32) : Text.showWord n ≠ "" := by
  intro h
  have hl : (Text.showWord n).toList = [] := by rw [h]; rfl
  rw [Text.showWord, String.toList_ofList] at hl
  exact Nat.toDigits_ne_nil hl

theorem Token.text_ne_empty (t : Token) : t.text ≠ "" := by
  cases t with
  | silence ms => exact showWord_ne_empty ms
  | segment slot volume =>
    intro h
    have hp := (String.append_eq_empty_iff.mp h).1
    exact showWord_ne_empty slot (String.append_eq_empty_iff.mp hp).1

theorem text_push_ne_empty (q : Queue) (t : Token) : (q.push t).text ≠ "" := by
  rw [push]
  split
  · exact t.text_ne_empty
  · intro h
    exact t.text_ne_empty (String.append_eq_empty_iff.mp h).2

theorem text_ofTokens_ne_empty {ts : List Token} (h : ts ≠ []) : (ofTokens ts).text ≠ "" := by
  rw [← List.dropLast_concat_getLast h, ofTokens, List.foldl_append]
  exact text_push_ne_empty _ _

end Queue

/-! ### Validity -/

theorem Segment.mem_effects_iff {segments : List Segment} {inner : Effect} :
    inner ∈ segments.filterMap Segment.effect? ↔ .effect inner ∈ segments := by
  rw [List.mem_filterMap]
  constructor
  · rintro ⟨segment, hm, hs⟩
    cases segment with
    | silence ms => cases hs
    | effect e =>
      cases hs
      exact hm
  · exact fun hm => ⟨_, hm, rfl⟩

/-- What an entry has to be like, given which effects are simple. -/
def Entry.IsSound (simple : Effect → Prop) : Entry → Prop
  | .simple .. => True
  | .compound segments =>
    2 ≤ (segments.filterMap Segment.effect?).length ∧
      ∀ inner, .effect inner ∈ segments → simple inner
  | .ringtone queue durationMs =>
    queue ≠ "" ∧ (∀ x ∈ queue.toList, Text.isBlank x = false) ∧ 6 < durationMs.toNat

def Entry.leastMs : Entry → Nat
  | .simple .. => 6
  | .compound _ => 12
  | .ringtone .. => 7

theorem Entry.leastMs_pos (entry : Entry) : 0 < entry.leastMs := by
  cases entry <;> exact Nat.succ_pos _

/-- What a playback of an entry is like, at every strength and for every voltage table. -/
structure Playback.Serves (p : Playback) (entry : Entry) : Prop where
  leastMs_le : entry.leastMs ≤ p.durationMs.toNat
  queue_eq_none_iff : p.queue = none ↔ entry.isSimple
  text_ne_empty : ∀ q, p.queue = some q → q.text ≠ ""

/-- No strength shifts a level to the last place, or in front of the first one. -/
theorem Level.exists_indexAt? (l : Level) (s : Strength) : ∃ i < 5, l.indexAt? s = some i := by
  cases l <;> cases s <;> exact ⟨_, by decide, rfl⟩

namespace Catalog

variable {c : Catalog} {table : VoltageTable} {e : Effect} {s : Strength}

theorem isSimpleIn_iff {entries : Effect → Option Entry} :
    isSimpleIn entries e ↔ ∃ level lengthMs, entries e = some (.simple level lengthMs) := by
  rw [isSimpleIn]
  cases entries e with
  | none => simp
  | some entry => cases entry <;> simp [Entry.isSimple]

theorem levelFits_eq_true (l : Level) : levelFits l = true := by cases l <;> rfl

theorem coldStart_lt_iff {ms : UInt32} : ¬ms ≤ Waveform.coldStartMs ↔ 6 < ms.toNat := by
  rw [UInt32.le_iff_toNat_le, Nat.not_le]
  rfl

theorem entryDefect?_eq_none_iff {isSimple : Effect → Bool} {entry : Entry} :
    entryDefect? isSimple e entry = none ↔ entry.IsSound (isSimple · = true) := by
  cases entry with
  | simple level lengthMs => simp [entryDefect?, Entry.IsSound, levelFits_eq_true]
  | compound segments =>
    rw [entryDefect?, Entry.IsSound]
    split
    · next h => exact iff_of_false (by simp) fun hs => absurd hs.1 (by omega)
    · next h =>
      rw [Option.map_eq_none_iff, List.find?_eq_none]
      simp only [Segment.mem_effects_iff, Bool.not_eq_true, Bool.not_eq_false']
      exact ⟨fun hs => ⟨by omega, hs⟩, fun hs => hs.2⟩
  | ringtone queue durationMs =>
    rw [entryDefect?, Entry.IsSound, ← coldStart_lt_iff]
    split_ifs with hq hd
    · refine iff_of_false (by simp) fun hs => ?_
      rcases hq with hq | hq
      · exact hs.1 hq
      · obtain ⟨x, hx, hb⟩ := List.any_eq_true.mp hq
        exact absurd hb (by simp [hs.2.1 x hx])
    · exact iff_of_false (by simp) fun hs => hs.2.2 hd
    · obtain ⟨hne, hb⟩ := not_or.mp hq
      exact iff_of_true rfl ⟨hne, by simpa using hb, hd⟩

theorem defect?_eq_none_iff {entries : Effect → Option Entry} :
    defect? entries e = none ↔
      ∀ entry, entries e = some entry → entry.IsSound (isSimpleIn entries · = true) := by
  rw [defect?, Option.bind_eq_none_iff]
  simp only [entryDefect?_eq_none_iff]

/-- Entries make up a catalog exactly if all of them are sound. -/
theorem firstDefect?_eq_none_iff {entries : Effect → Option Entry} :
    firstDefect? entries = none ↔
      ∀ e entry, entries e = some entry → entry.IsSound (isSimpleIn entries · = true) := by
  rw [firstDefect?, List.findSome?_eq_none_iff]
  constructor
  · intro h e
    exact defect?_eq_none_iff.mp (h e e.mem_all)
  · intro h e _
    exact defect?_eq_none_iff.mpr (h e)

theorem isSound_of_get? {entry : Entry} (h : c.get? e = some entry) :
    entry.IsSound (isSimpleIn c.get? · = true) :=
  firstDefect?_eq_none_iff.mp c.isValid e entry h

theorem two_le_of_get?_compound {segments : List Segment}
    (h : c.get? e = some (.compound segments)) :
    2 ≤ (segments.filterMap Segment.effect?).length :=
  (isSound_of_get? h).1

theorem exists_simple_of_mem {segments : List Segment} {inner : Effect}
    (h : c.get? e = some (.compound segments)) (hm : .effect inner ∈ segments) :
    ∃ level lengthMs, c.get? inner = some (.simple level lengthMs) :=
  isSimpleIn_iff.mp ((isSound_of_get? h).2 inner hm)

theorem ringtone_of_get? {queue : String} {durationMs : UInt32}
    (h : c.get? e = some (.ringtone queue durationMs)) :
    queue ≠ "" ∧ (∀ x ∈ queue.toList, Text.isBlank x = false) ∧ 6 < durationMs.toNat :=
  isSound_of_get? h

/-! ### Playbacks -/

theorem exists_at? (table : VoltageTable) (l : Level) (s : Strength) :
    ∃ volume, table.at? l s = some volume := by
  cases l <;> cases s <;> exact ⟨_, rfl⟩

/-- What a part of a compound effect adds to its playback: a time and a token. -/
inductive HasPart (c : Catalog) (table : VoltageTable) (s : Strength) :
    Segment → UInt32 × Queue.Token → Prop
  | effect {inner : Effect} {level : Level} {lengthMs : PerStrength UInt32} {volume : UInt32}
    (simple : c.get? inner = some (.simple level lengthMs))
    (found : table.at? level s = some volume) :
    HasPart c table s (.effect inner)
      (Waveform.addMs (lengthMs.get s) Waveform.coldStartMs, .segment Waveform.simpleSlot volume)
  | silence (ms : UInt32) :
    HasPart c table s (.silence ms) (Waveform.addMs ms Waveform.pauseErrorMs, .silence ms)

inductive HasPlayback (c : Catalog) (table : VoltageTable) (s : Strength) :
    Entry → Playback → Prop
  | simple {level : Level} {lengthMs : PerStrength UInt32} {volume : UInt32}
    (found : table.at? level s = some volume) :
    HasPlayback c table s (.simple level lengthMs)
      ⟨Waveform.addMs (lengthMs.get s) Waveform.coldStartMs, volume, none⟩
  | compound {segments : List Segment} {parts : List (UInt32 × Queue.Token)}
    (played : List.Forall₂ (c.HasPart table s) segments parts) :
    HasPlayback c table s (.compound segments)
      ⟨(parts.map Prod.fst).foldl Waveform.addMs 0, Waveform.queueVolume,
        some (.ofTokens (parts.map Prod.snd))⟩
  | ringtone (queue : String) (durationMs : UInt32) :
    HasPlayback c table s (.ringtone queue durationMs) ⟨durationMs, ringtoneVolume s, some ⟨queue⟩⟩

theorem resolveSimple_of_get? {level : Level} {lengthMs : PerStrength UInt32} {volume : UInt32}
    (h : c.get? e = some (.simple level lengthMs)) (hv : table.at? level s = some volume) :
    c.resolveSimple table e s =
      .ok (Waveform.addMs (lengthMs.get s) Waveform.coldStartMs, volume) := by
  rw [resolveSimple, h]
  simp only [hv]

theorem exists_hasPart (table : VoltageTable) (s : Strength) {segments : List Segment}
    (h : c.get? e = some (.compound segments)) {segment : Segment} (hm : segment ∈ segments) :
    ∃ part, c.HasPart table s segment part := by
  cases segment with
  | silence ms => exact ⟨_, .silence ms⟩
  | effect inner =>
    obtain ⟨level, lengthMs, hi⟩ := exists_simple_of_mem h hm
    obtain ⟨volume, hv⟩ := exists_at? table level s
    exact ⟨_, .effect hi hv⟩

/-- A part adds its time and its token to what is before it. A pause and its error can be added
together, because a sum that has stopped stays where it is. -/
theorem appendSegment_of_hasPart {segment : Segment} {part : UInt32 × Queue.Token}
    (h : c.HasPart table s segment part) (before : UInt32 × Queue) :
    c.appendSegment table s before segment =
      .ok (Waveform.addMs before.1 part.1, before.2.push part.2) := by
  cases h with
  | silence ms => rw [appendSegment, Waveform.addMs_assoc]
  | effect simple found => simp only [appendSegment, resolveSimple_of_get? simple found]

theorem foldlM_appendSegment {segments : List Segment} {parts : List (UInt32 × Queue.Token)}
    (h : List.Forall₂ (c.HasPart table s) segments parts) (before : UInt32 × Queue) :
    segments.foldlM (c.appendSegment table s) before =
      .ok ((parts.map Prod.fst).foldl Waveform.addMs before.1,
        (parts.map Prod.snd).foldl Queue.push before.2) := by
  induction h generalizing before with
  | nil => rfl
  | cons hp _ ih =>
    rw [List.foldlM_cons, appendSegment_of_hasPart hp]
    exact ih _

theorem exists_forall₂ {α β : Type} {R : α → β → Prop} {xs : List α}
    (h : ∀ x ∈ xs, ∃ y, R x y) : ∃ ys, List.Forall₂ R xs ys := by
  induction xs with
  | nil => exact ⟨[], .nil⟩
  | cons x xs ih =>
    obtain ⟨y, hr⟩ := h x List.mem_cons_self
    obtain ⟨ys, hrs⟩ := ih fun z hz => h z (List.mem_cons_of_mem x hz)
    exact ⟨y :: ys, .cons hr hrs⟩

theorem exists_hasPlayback (table : VoltageTable) (s : Strength) {entry : Entry}
    (h : c.get? e = some entry) :
    ∃ p, c.resolve table e s = .ok p ∧ c.HasPlayback table s entry p := by
  cases entry with
  | simple level lengthMs =>
    obtain ⟨volume, hv⟩ := exists_at? table level s
    exact ⟨_, by simp only [resolve, h, resolveSimple_of_get? h hv], .simple hv⟩
  | compound segments =>
    obtain ⟨parts, hr⟩ := exists_forall₂ fun _ => exists_hasPart table s h
    exact ⟨_, by simp only [resolve, h, foldlM_appendSegment hr]; rfl, .compound hr⟩
  | ringtone queue durationMs => exact ⟨_, by simp only [resolve, h], .ringtone queue durationMs⟩

theorem resolve_of_get?_eq_none (table : VoltageTable) (s : Strength) (h : c.get? e = none) :
    c.resolve table e s = .error .unsupportedOperation := by
  rw [resolve, h]

theorem hasPlayback_of_resolve {p : Playback} (h : c.resolve table e s = .ok p) :
    ∃ entry, c.get? e = some entry ∧ c.HasPlayback table s entry p := by
  cases he : c.get? e with
  | none =>
    rw [resolve_of_get?_eq_none table s he] at h
    cases h
  | some entry =>
    obtain ⟨p', hp, hs⟩ := exists_hasPlayback table s he
    rw [hp] at h
    cases h
    exact ⟨entry, rfl, hs⟩

/-! ### Durations and queues of playbacks -/

/-- Each part that is an effect takes at least the time of waking the signal processor. -/
theorem le_sum_of_parts {segments : List Segment} {parts : List (UInt32 × Queue.Token)}
    (h : List.Forall₂ (c.HasPart table s) segments parts) :
    6 * (segments.filterMap Segment.effect?).length ≤
      ((parts.map Prod.fst).map UInt32.toNat).sum := by
  induction h with
  | nil => exact Nat.zero_le _
  | @cons segment part segments parts hp _ ih =>
    rw [List.map_cons, List.map_cons, List.sum_cons]
    cases hp with
    | silence ms =>
      rw [List.filterMap_cons_none (by rfl)]
      omega
    | @effect inner level lengthMs volume simple found =>
      have hms := Waveform.le_toNat_addMs_coldStart (lengthMs.get s)
      rw [List.filterMap_cons_some (by rfl), List.length_cons]
      dsimp only
      omega

theorem tokens_ne_nil {segments : List Segment} {parts : List (UInt32 × Queue.Token)}
    (h : c.get? e = some (.compound segments))
    (played : List.Forall₂ (c.HasPart table s) segments parts) : parts.map Prod.snd ≠ [] := by
  have hl := two_le_of_get?_compound h
  intro hn
  rw [List.map_eq_nil_iff] at hn
  subst hn
  cases played
  exact absurd hl (by decide)

theorem HasPlayback.serves {entry : Entry} {p : Playback} (h : c.HasPlayback table s entry p)
    (he : c.get? e = some entry) : p.Serves entry := by
  cases h with
  | simple found =>
    refine ⟨Waveform.le_toNat_addMs_coldStart _, by simp [Entry.isSimple], ?_⟩
    intro q hq
    cases hq
  | @compound segments parts played =>
    have hl := two_le_of_get?_compound he
    have hs := le_sum_of_parts played
    refine ⟨?_, by simp [Entry.isSimple], ?_⟩
    · -- The two effects that validity asks for last; silences can only add to them.
      have hz : (0 : UInt32).toNat = 0 := rfl
      have hu : UInt32.size = 4294967296 := rfl
      rw [Waveform.toNat_foldl_addMs, hz, hu, Entry.leastMs]
      omega
    · intro q hq
      cases hq
      exact Queue.text_ofTokens_ne_empty (tokens_ne_nil he played)
  | ringtone queue durationMs =>
    obtain ⟨hq, -, hms⟩ := ringtone_of_get? he
    refine ⟨hms, by simp [Entry.isSimple], ?_⟩
    rintro q ⟨⟩
    exact hq

theorem exists_resolve (table : VoltageTable) (s : Strength) {entry : Entry}
    (h : c.get? e = some entry) : ∃ p, c.resolve table e s = .ok p ∧ p.Serves entry := by
  obtain ⟨p, hp, hs⟩ := exists_hasPlayback table s h
  exact ⟨p, hp, hs.serves h⟩

end Catalog

end Rumble
