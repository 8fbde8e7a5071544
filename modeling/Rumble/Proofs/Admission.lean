import Rumble.Proofs.DescriptorText
import Rumble.Proofs.Resolution

namespace Rumble

/-- What is wrong with an entry of the effect `e`, given which effects are simple. -/
inductive Entry.HasDefect (simple : Effect → Prop) (e : Effect) : Entry → Catalog.Error → Prop
  | tooShort {segments : List Segment}
    (few : (segments.filterMap Segment.effect?).length < 2) :
    HasDefect simple e (.compound segments) (.compoundTooShort e)
  | notSimple {front back : List Segment} {inner : Effect}
    (enough : 2 ≤ ((front ++ .effect inner :: back).filterMap Segment.effect?).length)
    (before : ∀ other, .effect other ∈ front → simple other) (here : ¬simple inner) :
    HasDefect simple e (.compound (front ++ .effect inner :: back))
      (.compoundSegmentNotSimple e inner)
  | invalidQueue {queue : String} {durationMs : UInt32}
    (invalid : queue = "" ∨ ∃ x ∈ queue.toList, Text.isBlank x) :
    HasDefect simple e (.ringtone queue durationMs) (.invalidQueue e)
  | tooBrief {queue : String} {durationMs : UInt32} (written : queue ≠ "")
    (solid : ∀ x ∈ queue.toList, Text.isBlank x = false) (brief : durationMs.toNat ≤ 6) :
    HasDefect simple e (.ringtone queue durationMs) (.durationTooShort e)

theorem Entry.HasDefect.ne_malformed {simple : Effect → Prop} {e : Effect} {entry : Entry}
    {d : Catalog.Error} (h : entry.HasDefect simple e d) :
    d ≠ .malformed ∧ ∀ e', d ≠ .levelOutOfRange e' := by
  cases h <;> exact ⟨by simp, by simp⟩

theorem Segment.exists_first {segments : List Segment} {found : Effect → Bool} {inner : Effect}
    (h : (segments.filterMap Segment.effect?).find? found = some inner) :
    found inner ∧ ∃ front back, segments = front ++ .effect inner :: back ∧
      ∀ other, .effect other ∈ front → found other = false := by
  induction segments with
  | nil => cases h
  | cons segment segments ih =>
    cases segment with
    | silence ms =>
      obtain ⟨hf, front, back, rfl, hb⟩ := ih h
      refine ⟨hf, .silence ms :: front, back, rfl, ?_⟩
      intro other hm
      exact hb other (by simpa using hm)
    | effect e =>
      rw [List.filterMap_cons_some (by rfl), List.find?_cons] at h
      split at h
      · next hf =>
        cases h
        exact ⟨hf, [], segments, rfl, fun _ hm => by cases hm⟩
      · next hf =>
        obtain ⟨hi, front, back, rfl, hb⟩ := ih h
        refine ⟨hi, .effect e :: front, back, rfl, ?_⟩
        intro other hm
        rcases List.mem_cons.mp hm with ho | hm
        · cases ho
          exact hf
        · exact hb other hm

/-! ### Entries -/

namespace Catalog

variable {isSimple : Effect → Bool} {e : Effect} {entry : Entry} {d : Error}

theorem hasDefect_of_entryDefect? (h : entryDefect? isSimple e entry = some d) :
    entry.HasDefect (isSimple · = true) e d := by
  cases entry with
  | simple level lengthMs => simp [entryDefect?, levelFits_eq_true] at h
  | compound segments =>
    rw [entryDefect?] at h
    split at h
    · next hl =>
      cases h
      exact .tooShort hl
    · next hl =>
      obtain ⟨inner, hf, rfl⟩ := Option.map_eq_some_iff.mp h
      obtain ⟨hi, front, back, rfl, hb⟩ := Segment.exists_first hf
      refine .notSimple (by omega) ?_ (by simpa using hi)
      intro other hm
      simpa using hb other hm
  | ringtone queue durationMs =>
    rw [entryDefect?] at h
    split_ifs at h with hq hd
    · cases h
      exact .invalidQueue (by simpa using hq)
    · cases h
      obtain ⟨hne, hb⟩ := not_or.mp hq
      exact .tooBrief hne (by simpa using hb) (by rwa [← not_lt, ← coldStart_lt_iff, not_not])

/-- The relation leaves no choice, so that it holds of no other defect. -/
theorem entryDefect?_of_hasDefect (h : entry.HasDefect (isSimple · = true) e d) :
    entryDefect? isSimple e entry = some d := by
  cases h with
  | tooShort few => rw [entryDefect?, if_pos few]
  | @notSimple front back inner enough before here =>
    rw [entryDefect?, if_neg (by omega), Option.map_eq_some_iff]
    refine ⟨inner, ?_, rfl⟩
    have hn : (front.filterMap Segment.effect?).find? (! isSimple ·) = none := by
      rw [List.find?_eq_none]
      intro other hm
      simpa using before other (Segment.mem_effects_iff.mp hm)
    rw [List.filterMap_append, List.find?_append, hn, Option.none_or,
      List.filterMap_cons_some (by rfl)]
    exact List.find?_cons_of_pos (by simpa using here)
  | invalidQueue invalid => rw [entryDefect?, if_pos (by simpa using invalid)]
  | @tooBrief queue durationMs written solid brief =>
    have hq : ¬(queue = "" ∨ queue.toList.any Text.isBlank) :=
      not_or.mpr ⟨written, by simpa using solid⟩
    rw [entryDefect?, if_neg hq, if_pos]
    rwa [← not_not (a := _ ≤ Waveform.coldStartMs), coldStart_lt_iff, not_lt]

theorem entryDefect?_eq_some_iff :
    entryDefect? isSimple e entry = some d ↔ entry.HasDefect (isSimple · = true) e d :=
  ⟨hasDefect_of_entryDefect?, entryDefect?_of_hasDefect⟩

end Catalog

/-! ### The smallest id -/

theorem Effect.mem_iff_id_lt {front back : List Effect} {e e' : Effect}
    (h : all = front ++ e :: back) : e' ∈ front ↔ e'.id < e.id := by
  have hn : all.Nodup := by decide
  rw [h, List.nodup_middle, List.nodup_cons] at hn
  have hf : e ∉ front := fun hm => hn.1 (List.mem_append_left _ hm)
  have he : e.id = front.length := by
    rw [id, h, List.idxOf_append_of_notMem hf, List.idxOf_cons_self, Nat.add_zero]
  rw [he, id, h]
  constructor
  · intro hm
    rw [List.idxOf_append_of_mem hm]
    exact List.idxOf_lt_length_of_mem hm
  · intro hl
    by_contra hm
    rw [List.idxOf_append_of_notMem hm] at hl
    omega

namespace Catalog

variable {entries : List (Effect × Entry)} {d : Error}

theorem firstDefect?_eq_some_iff {get? : Effect → Option Entry} :
    firstDefect? get? = some d ↔ ∃ e entry, get? e = some entry ∧
      entry.HasDefect (isSimpleIn get? · = true) e d ∧
      ∀ e' entry', e'.id < e.id → get? e' = some entry' →
        entry'.IsSound (isSimpleIn get? · = true) := by
  rw [firstDefect?]
  constructor
  · intro h
    obtain ⟨front, e, back, ha, hd, hf⟩ := List.findSome?_eq_some_iff.mp h
    obtain ⟨entry, he, hd⟩ := Option.bind_eq_some_iff.mp hd
    refine ⟨e, entry, he, entryDefect?_eq_some_iff.mp hd, ?_⟩
    intro e' entry' hl
    exact defect?_eq_none_iff.mp (hf e' ((Effect.mem_iff_id_lt ha).mpr hl)) entry'
  · rintro ⟨e, entry, he, hd, hs⟩
    obtain ⟨front, back, ha⟩ := List.append_of_mem e.mem_all
    refine List.findSome?_eq_some_iff.mpr ⟨front, e, back, ha, ?_, ?_⟩
    · rw [defect?, he]
      exact entryDefect?_eq_some_iff.mpr hd
    · intro e' hm
      exact defect?_eq_none_iff.mpr fun entry' =>
        hs e' entry' ((Effect.mem_iff_id_lt ha).mp hm)

/-! ### Lists of entries -/

def lastFor? (entries : List (Effect × Entry)) (e : Effect) : Option Entry :=
  entries.reverse.lookup e

theorem lastFor?_eq_some_iff {e : Effect} {entry : Entry} :
    lastFor? entries e = some entry ↔ IsLast entries e entry :=
  lookup_reverse_eq_some_iff

theorem isSimpleIn_lastFor?_iff {inner : Effect} :
    isSimpleIn (lastFor? entries) inner ↔
      ∃ level lengthMs, IsLast entries inner (.simple level lengthMs) := by
  simp only [isSimpleIn_iff, lastFor?_eq_some_iff]

theorem get?_of_ofEntries {c : Catalog} (h : ofEntries entries = .ok c) :
    c.get? = lastFor? entries := by
  unfold ofEntries at h
  dsimp only at h
  split at h
  · cases h
    rfl
  · cases h

theorem ofEntries_eq_error_iff :
    ofEntries entries = .error d ↔ firstDefect? (lastFor? entries) = some d := by
  unfold ofEntries
  dsimp only
  split
  · next h =>
    have hn : firstDefect? (lastFor? entries) = none := h
    exact iff_of_false (by simp) (by simp [hn])
  · next d' h =>
    have hs : firstDefect? (lastFor? entries) = some d' := h
    rw [hs, Except.error.injEq, Option.some.injEq]

theorem exists_ofEntries_eq_ok_iff :
    (∃ c, ofEntries entries = .ok c) ↔ firstDefect? (lastFor? entries) = none := by
  cases h : ofEntries entries with
  | ok c =>
    have hv := c.isValid
    rw [get?_of_ofEntries h] at hv
    exact iff_of_true ⟨c, rfl⟩ hv
  | error d =>
    rw [ofEntries_eq_error_iff.mp h]
    simp

theorem ofEntries_of_lastFor? {entries' : List (Effect × Entry)}
    (h : ∀ e, lastFor? entries' e = lastFor? entries e) :
    ofEntries entries' = ofEntries entries := by
  cases ho : ofEntries entries with
  | ok c =>
    apply ofEntries_eq_ok
    rw [get?_of_ofEntries ho]
    exact h
  | error d =>
    rw [ofEntries_eq_error_iff, funext h]
    exact ofEntries_eq_error_iff.mp ho

/-- Pairs that come in another order make up the same, if those of each effect keep theirs. -/
theorem ofEntries_congr {entries' : List (Effect × Entry)}
    (h : ∀ e, entries'.filter (·.1 = e) = entries.filter (·.1 = e)) :
    ofEntries entries' = ofEntries entries :=
  ofEntries_of_lastFor? fun e => lookup_reverse_congr (h e)

/-- Entries make up a catalog or have a first defect. Of the pairs for an effect the last one
counts. A catalog holds exactly these entries, and it comes about if each of them is sound; if not,
the answer is what is wrong with the unsound one whose effect has the smallest id, which is neither
a malformed text nor a level out of range. In what order different effects come makes no difference,
neither to the catalog nor to the defect. -/
theorem entries_judged (entries : List (Effect × Entry)) :
    let simple (inner : Effect) : Prop :=
      ∃ level lengthMs, IsLast entries inner (.simple level lengthMs)
    (∀ c, ofEntries entries = .ok c ↔ ∀ e entry, c.get? e = some entry ↔ IsLast entries e entry) ∧
    ((∃ c, ofEntries entries = .ok c) ↔
      ∀ e entry, IsLast entries e entry → entry.IsSound simple) ∧
    (∀ d, ofEntries entries = .error d ↔
      ∃ e entry, IsLast entries e entry ∧ entry.HasDefect simple e d ∧
        ∀ e' entry', e'.id < e.id → IsLast entries e' entry' → entry'.IsSound simple) ∧
    (∀ d, ofEntries entries = .error d → d ≠ .malformed ∧ ∀ e, d ≠ .levelOutOfRange e) ∧
    (∀ entries', (∀ e, entries'.filter (·.1 = e) = entries.filter (·.1 = e)) →
      ofEntries entries' = ofEntries entries) ∧
    (∀ entries', entries'.Perm entries → (entries.map Prod.fst).Nodup →
      ofEntries entries' = ofEntries entries) := by
  intro simple
  have hs : (isSimpleIn (lastFor? entries) · = true) = simple :=
    funext fun inner => propext isSimpleIn_lastFor?_iff
  have hd (d : Error) : ofEntries entries = .error d ↔
      ∃ e entry, IsLast entries e entry ∧ entry.HasDefect simple e d ∧
        ∀ e' entry', e'.id < e.id → IsLast entries e' entry' → entry'.IsSound simple := by
    rw [ofEntries_eq_error_iff, firstDefect?_eq_some_iff, hs]
    simp only [lastFor?_eq_some_iff]
  refine ⟨?_, ?_, hd, ?_, fun _ => ofEntries_congr, ?_⟩
  · intro c
    constructor
    · intro h e entry
      rw [get?_of_ofEntries h, lastFor?_eq_some_iff]
    · intro h
      apply ofEntries_eq_ok
      intro e
      apply Option.ext
      intro entry
      exact lastFor?_eq_some_iff.trans (h e entry).symm
  · rw [exists_ofEntries_eq_ok_iff, firstDefect?_eq_none_iff, hs]
    simp only [lastFor?_eq_some_iff]
  · intro d h
    obtain ⟨e, entry, -, h, -⟩ := (hd d).mp h
    exact h.ne_malformed
  · intro entries' hp hn
    exact ofEntries_congr (filter_eq_of_perm hp hn)

/-- Of an empty queue and a part that is missing, the latter is reported, in either order: double
clicks have the smaller id. -/
theorem entries_judged_of_two_faults :
    let entries : List (Effect × Entry) :=
      [(.ringtone1, .ringtone "" 5), (.tick, .simple .tick (.const 12)),
        (.doubleClick, .compound [.effect .tick, .silence 3, .effect .pop, .effect .doubleClick])]
    ofEntries entries = .error (.compoundSegmentNotSimple .doubleClick .pop) ∧
      entries.reverse.Perm entries ∧ (entries.map Prod.fst).Nodup ∧
      ofEntries entries.reverse = ofEntries entries := by
  intro entries
  obtain ⟨-, -, hd, -, -, hp⟩ := entries_judged entries
  have hn : (entries.map Prod.fst).Nodup := by decide
  refine ⟨(hd _).mpr ⟨.doubleClick, _, ⟨[_, _], [], rfl, List.forall_mem_nil _⟩, ?_, ?_⟩,
    List.reverse_perm _, hn, hp _ (List.reverse_perm _) hn⟩
  · refine @Entry.HasDefect.notSimple _ _ [.effect .tick, .silence 3] [.effect .doubleClick] .pop
      (by decide) ?_ ?_
    · intro other hm
      obtain rfl : other = .tick := by simpa using hm
      exact ⟨.tick, .const 12, [_], [_], rfl, by simp⟩
    · rintro ⟨level, lengthMs, h⟩
      rw [← lookup_reverse_eq_some_iff] at h
      cases h
  · intro e' entry' hl h
    -- Clicks alone have a smaller id, and they have no entry.
    obtain rfl : e' = .click := by
      revert hl
      cases e' <;> decide
    rw [← lookup_reverse_eq_some_iff] at h
    cases h

end Catalog

end Rumble
