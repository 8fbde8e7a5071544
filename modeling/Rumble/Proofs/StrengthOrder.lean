import Rumble.Proofs.QueueTokens

namespace Rumble

/-- The levels of effects do not fall from one place to the next. -/
def VoltageTable.Rises (table : VoltageTable) : Prop :=
  ∀ i j : Fin 6, i.val ≤ j.val → j.val < 5 → table.levels.get i ≤ table.levels.get j

instance (table : VoltageTable) : Decidable table.Rises :=
  inferInstanceAs (Decidable (∀ i j : Fin 6, i.val ≤ j.val → j.val < 5 → _))

/-- The second token plays what the first one plays, and at no smaller volume. -/
inductive Queue.Token.NotSofter : Token → Token → Prop
  | segment (slot : UInt32) {volume volume' : UInt32} (h : volume ≤ volume') :
    NotSofter (.segment slot volume) (.segment slot volume')
  | silence (ms : UInt32) : NotSofter (.silence ms) (.silence ms)

namespace Catalog

variable {c : Catalog} {table : VoltageTable} {e : Effect} {s s' : Strength}

theorem offset_le_of_index_le (h : s.index ≤ s'.index) : s.offset ≤ s'.offset := by
  revert h
  cases s <;> cases s' <;> decide

theorem ringtoneVolume_le (h : s.index ≤ s'.index) : ringtoneVolume s ≤ ringtoneVolume s' := by
  revert h
  cases s <;> cases s' <;> decide

theorem le_of_at? (hr : table.Rises) (h : s.index ≤ s'.index) {l : Level} {volume volume' : UInt32}
    (hv : table.at? l s = some volume) (hv' : table.at? l s' = some volume') :
    volume ≤ volume' := by
  obtain ⟨i, hi, rfl⟩ := exists_get_of_at? hv
  obtain ⟨j, hj, rfl⟩ := exists_get_of_at? hv'
  obtain ⟨k, hk, hl⟩ := l.exists_indexAt? s'
  rw [Level.indexAt?, Int.mem_toNat?] at hl
  have ho := offset_le_of_index_le h
  -- The shift of the stronger request is the larger one, and it stays in front of the last place.
  apply hr <;> omega

theorem notSofter_of_hasPart (hr : table.Rises) (h : s.index ≤ s'.index) {segment : Segment}
    {part part' : UInt32 × Queue.Token} (hp : c.HasPart table s segment part)
    (hp' : c.HasPart table s' segment part') : part.2.NotSofter part'.2 := by
  cases hp with
  | silence ms =>
    cases hp'
    exact .silence ms
  | effect simple found =>
    cases hp' with
    | effect simple' found' =>
      cases simple.symm.trans simple'
      exact .segment _ (le_of_at? hr h found found')

theorem notSofter_of_parts (hr : table.Rises) (h : s.index ≤ s'.index) {segments : List Segment}
    {parts parts' : List (UInt32 × Queue.Token)}
    (hp : List.Forall₂ (c.HasPart table s) segments parts)
    (hp' : List.Forall₂ (c.HasPart table s') segments parts') :
    List.Forall₂ Queue.Token.NotSofter (parts.map Prod.snd) (parts'.map Prod.snd) := by
  induction hp generalizing parts' with
  | nil =>
    cases hp'
    exact .nil
  | cons part _ ih =>
    cases hp' with
    | cons part' rest' => exact .cons (notSofter_of_hasPart hr h part part') (ih rest')

/-- A stronger request never plays softer. Of two strengths the stronger one has the same kind of
queue, the same slot and no smaller volume. The queues of a compound effect are read as equally many
tokens, of which those at the same place are the same silence, or play the same slot at no smaller
volume; the queue and the time of a ringtone are the stored ones at either strength. -/
theorem strength_order (c : Catalog) {table : VoltageTable} (hr : table.Rises) {e : Effect}
    {entry : Entry} (he : c.get? e = some entry) {s s' : Strength} (h : s.index ≤ s'.index) :
    ∃ p p', c.resolve table e s = .ok p ∧ c.resolve table e s' = .ok p' ∧
      (p.queue = none ↔ p'.queue = none) ∧ p.slot = p'.slot ∧ p.volume ≤ p'.volume ∧
      match entry with
      | .simple .. => p.queue = none
      | .compound _ =>
        ∃ q q' tokens tokens', p.queue = some q ∧ p'.queue = some q' ∧
          q.tokens? = some tokens ∧ q'.tokens? = some tokens' ∧
          List.Forall₂ Queue.Token.NotSofter tokens tokens'
      | .ringtone queue durationMs =>
        p.queue = some ⟨queue⟩ ∧ p'.queue = some ⟨queue⟩ ∧
          p.durationMs = durationMs ∧ p'.durationMs = durationMs := by
  obtain ⟨p, hp, hs⟩ := exists_hasPlayback table s he
  obtain ⟨p', hp', hs'⟩ := exists_hasPlayback table s' he
  refine ⟨p, p', hp, hp', ?_⟩
  cases hs with
  | simple found =>
    cases hs' with
    | simple found' => exact ⟨Iff.rfl, rfl, le_of_at? hr h found found', rfl⟩
  | compound played =>
    cases hs' with
    | compound played' =>
      exact ⟨by simp, rfl, UInt32.le_refl _, _, _, _, _, rfl, rfl, Queue.tokens?_ofTokens _,
        Queue.tokens?_ofTokens _, notSofter_of_parts hr h played played'⟩
  | ringtone queue durationMs =>
    cases hs'
    exact ⟨Iff.rfl, rfl, ringtoneVolume_le h, rfl, rfl, rfl, rfl⟩

/-- A strong double click is no softer than a light one. -/
theorem strength_order_doubleClick :
    VoltageTable.standard.Rises ∧ Strength.light.index ≤ Strength.strong.index ∧
      standard.get? .doubleClick =
        some (.compound [.effect .tick, .silence 100, .effect .click]) ∧
      ∃ p p', standard.resolve .standard .doubleClick .light = .ok p ∧
        standard.resolve .standard .doubleClick .strong = .ok p' ∧ p.volume ≤ p'.volume ∧
        ∃ q q' tokens tokens', p.queue = some q ∧ p'.queue = some q' ∧
          q.tokens? = some tokens ∧ q'.tokens? = some tokens' ∧
          List.Forall₂ Queue.Token.NotSofter tokens tokens' := by
  have hr : VoltageTable.standard.Rises := by decide
  have hs : Strength.light.index ≤ Strength.strong.index := by decide
  obtain ⟨p, p', hp, hp', -, -, hv, hq⟩ := strength_order standard hr (e := .doubleClick) rfl hs
  exact ⟨hr, hs, rfl, p, p', hp, hp', hv, hq⟩

end Catalog

end Rumble
