import Rumble.Proofs.Storage
import Rumble.Proofs.WrittenText

namespace Rumble

theorem exists_last_of_exists {α : Type} {P : α → Prop} {xs : List α} (h : ∃ x ∈ xs, P x) :
    ∃ front x back, xs = front ++ x :: back ∧ P x ∧ ∀ y ∈ back, ¬P y := by
  induction xs with
  | nil =>
    obtain ⟨x, hx, -⟩ := h
    cases hx
  | cons x xs ih =>
    -- The last one stands in the tail, if any does.
    by_cases hs : ∃ y ∈ xs, P y
    · obtain ⟨front, y, back, rfl, hy⟩ := ih hs
      exact ⟨x :: front, y, back, rfl, hy⟩
    · obtain ⟨y, hy, hp⟩ := h
      rcases List.mem_cons.mp hy with rfl | hy
      · exact ⟨[], y, xs, rfl, hp, fun z hz hz' => hs ⟨z, hz, hz'⟩⟩
      · exact absurd ⟨y, hy, hp⟩ hs

theorem Access.mem_triggering_slot {slot slot' durationMs : UInt32}
    (h : .word .effectIndex slot ∈ triggering slot' durationMs) :
    Text.showWord slot = Text.showWord slot' := by
  simp only [triggering, word, List.mem_cons, List.not_mem_nil, or_false, write.injEq, reduceCtorEq,
    false_and, true_and] at h
  exact h

namespace Controller

open Program

variable {ι σ : Type} {c : Controller} {op : Operation} {as : List Access}

theorem showWord_queueSlot : Text.showWord 65534 = "65534" := by decide

/-- Only the playback of an effect with a queue selects the slot that plays it. -/
theorem queued_of_attempts (h : Attempts c op as) (hw : .word .effectIndex 65534 ∈ as) :
    ∃ e s p q, op = .performEffect e s ∧ c.catalog.resolve c.levels e s = .ok p ∧
      p.queue = some q := by
  rcases writtenBy_of_attempts h hw with ⟨ms, rfl⟩ | ⟨e, s, rfl⟩
  · cases h
    rcases List.mem_append.mp hw with hw | hw
    · cases Access.register_of_mem_level hw
    · exact absurd (Access.mem_triggering_slot hw) (by decide)
  · cases h with
    | unknown => cases hw
    | refused => simp [Access.word] at hw
    | @played _ _ entry p _ resolved =>
      rw [p.accesses_eq, List.mem_append] at hw
      rcases hw with hw | hw
      · rcases Playback.write_of_mem_preparation hw with ⟨hr, -⟩ | hr <;> cases hr
      · cases hq : p.queue with
        | some q => exact ⟨e, s, p, q, rfl, resolved, hq⟩
        | none =>
          rw [hq] at hw
          exact absurd (Access.mem_triggering_slot hw) (by decide)

/-- The queue is stored before its slot is selected, by the same operation. -/
theorem stored_before_slot (c : Controller) (op : Operation) (device : Device σ) (st : σ)
    {front back : List Call} {answer : Except ChannelError Unit}
    (h : ((c.operate op).run device st).calls =
      front ++ .write .effectIndex "65534" answer :: back) :
    ∃ value, .write .effectQueue value (.ok ()) ∈ front := by
  have hm : .word .effectIndex 65534 ∈ ((c.operate op).run device st).accesses := by
    rw [Run.accesses, h, List.map_append, List.map_cons, Access.word, showWord_queueSlot]
    exact List.mem_append_right _ List.mem_cons_self
  obtain ⟨e, s, p, q, hd, hp, hq⟩ := queued_of_attempts (attempts_operate c op device st) hm
  have hc := (run_direct c op device st).1
  rw [hd, operate, run_map, h] at hc
  rcases performEffect_cases c e s device st with ⟨-, hn, -⟩ | ⟨entry, p', -, hp', -, hr⟩
  · rw [hn] at hc
    cases front <;> cases hc
  · obtain rfl : p = p' := Except.ok.inj (hp.symm.trans hp')
    rcases hr with ⟨q', fault, -, -, hn, -⟩ | ⟨ha, hn, -⟩
    · rw [hn] at hc
      cases front <;> simp at hc
    · -- The write of the queue is the first call, so it stands in front of the one of the slot.
      have hf : device.calls p.accesses st =
          .write .effectQueue q.text (.ok ()) :: (device.calls p.accesses st).tail := by
        rw [Playback.accesses, hq, Option.toList_some, List.map_singleton, List.singleton_append,
          Device.calls, Device.make, ha q hq]
        rfl
      rw [hn, hf] at hc
      cases front with
      | nil => cases hc
      | cons call front =>
        rw [List.cons_append] at hc
        rw [(List.cons.inj hc).1]
        exact ⟨q.text, List.mem_cons_self⟩

theorem stored_before_slot_of_moment {device : Device σ} {outside : ι → σ → σ}
    {events : List (Event ι)} {st : σ} {m : Moment ι σ}
    (hm : m ∈ c.session device outside events st)
    {front back : List Call} {answer : Except ChannelError Unit}
    (h : m.calls = front ++ .write .effectIndex "65534" answer :: back) :
    ∃ value, .write .effectQueue value (.ok ()) ∈ front := by
  have ha : .write .effectIndex "65534" ∈ m.accesses := by
    rw [Moment.accesses, h, List.map_append, List.map_cons]
    exact List.mem_append_right _ List.mem_cons_self
  obtain ⟨op, he, -⟩ := exists_attempts_of_mem_accesses hm ha
  rw [(ask_of_mem_session hm he).1] at h
  exact stored_before_slot c op device m.before h

theorem queue_of_stored {device : Device σ} {outside : ι → σ → σ} {events : List (Event ι)}
    {st : σ} {m : Moment ι σ} {value : String} (hm : m ∈ c.session device outside events st)
    (hv : .write .effectQueue value (.ok ()) ∈ m.calls) :
    ∃ op e s p q, m.event = .ask op ∧ op.direct = .performEffect e s ∧
      c.catalog.resolve c.levels e s = .ok p ∧ p.queue = some q ∧ value = q.text := by
  have ha : .write .effectQueue value ∈ m.accesses := List.mem_map_of_mem (f := Call.access) hv
  obtain ⟨op, he, h⟩ := exists_attempts_of_mem_accesses hm ha
  rcases isNumeric_or_queue_of_attempts h ha with ⟨hr, -⟩ | ⟨e, s, p, q, ho, hp, hq, hw⟩
  · exact absurd rfl hr
  · exact ⟨op, e, s, p, q, he, ho, hp, hq, (Access.write.inj hw).2⟩

theorem lastStored?_queue {device : Device σ} {outside : ι → σ → σ} {events : List (Event ι)}
    {st : σ} {m : Moment ι σ} {e : Effect} {s : Strength} {p : Playback} {q : Queue}
    (hm : m ∈ c.session device outside events st) (he : m.event = .ask op)
    (hd : op.direct = .performEffect e s) (hp : c.catalog.resolve c.levels e s = .ok p)
    (hq : p.queue = some q) (hv : .write .effectQueue q.text (.ok ()) ∈ m.calls) :
    lastStored? .effectQueue m.calls = some q.text := by
  cases hl : lastStored? .effectQueue m.calls with
  | none => exact absurd hv (lastStored?_eq_none_iff.mp hl q.text)
  | some value =>
    obtain ⟨op', e', s', p', q', he', hd', hp', hq', rfl⟩ :=
      queue_of_stored hm (mem_of_lastStored? hl)
    obtain rfl : op = op' := Event.ask.inj (he.symm.trans he')
    cases hd.symm.trans hd'
    cases hp.symm.trans hp'
    cases hq.symm.trans hq'
    rfl

theorem eq_two_of_mem_startAccesses {cal : Calibration} {value : String}
    (h : .write .effectIndex value ∈ cal.startAccesses) : value = "2" := by
  have ho {r : Register} (hr : r ≠ .effectIndex) (n : Option UInt32) :
      .write .effectIndex value ∉ Access.optional r n := by
    intro hm
    obtain ⟨m, hm⟩ := Access.eq_word_of_mem_optional hm
    exact hr (Access.write.inj hm).1.symm
  have hl {r : Register} (hr : r ≠ .effectIndex) (l : UInt32) :
      .write .effectIndex value ∉ Access.level r l :=
    fun hm => hr (Access.register_of_mem_level hm).symm
  simp only [startAccesses_eq, prepareAccesses, edgeAccesses, List.mem_append, List.mem_cons,
    Access.word, Access.write.injEq, reduceCtorEq, false_and, true_and, false_or, or_false,
    List.not_mem_nil] at h
  rcases h with (h | h | h) | h | h
  · exact absurd h (ho (by decide) _)
  · exact absurd h (ho (by decide) _)
  · exact h
  · exact absurd h (hl (by decide) _)
  · exact absurd h (hl (by decide) _)

/-- If the slot that plays the queue is selected, some operation has stored a queue. -/
theorem exists_stored_of_slot {device : Device σ} {held : σ → Register → String}
    (hk : device.Keeps held) {ops : List Operation} {st : σ} (hs : held st .effectIndex ≠ "65534")
    (h : held (c.reached device ops st) .effectIndex = "65534") :
    ∃ m ∈ c.asked device ops st, ∃ value, .write .effectQueue value (.ok ()) ∈ m.calls := by
  rw [held_reached hk] at h
  cases hl : lastStored? .effectIndex ((c.asked device ops st).flatMap Moment.calls) with
  | none =>
    rw [hl, Option.getD_none] at h
    exact absurd h hs
  | some value =>
    rw [hl, Option.getD_some] at h
    subst h
    obtain ⟨m, hm, hc⟩ := List.mem_flatMap.mp (mem_of_lastStored? hl)
    obtain ⟨front, back, hf⟩ := List.append_of_mem hc
    obtain ⟨value, hv⟩ := stored_before_slot_of_moment hm hf
    refine ⟨m, hm, value, ?_⟩
    rw [hf]
    exact List.mem_append_left _ hv

/-- Whenever the slot that plays the queue is selected, the register of the queue holds, character
for character, the queue of the effect that was performed last with its queue stored; that is a
solid text. And whenever the slot is about to be selected, the same operation has stored a queue
before. So it is on every device that keeps what it accepts and holds zeros at first, for every
schedule of refused writes. -/
theorem queue_slot (cal : Calibration) (remarks : Calibration.Remarks) (catalog : Catalog)
    (device : Device σ) (held : σ → Register → String) (hk : device.Keeps held)
    (ops : List Operation) (st : σ) (hz : ∀ r, held st r = "0") :
    let startup := (start cal remarks catalog).run device st
    let c := startup.value
    let moments := c.asked device ops startup.state
    let last := c.reached device ops startup.state
    (held last .effectIndex = "65534" →
      ∃ front m back op e s p q, moments = front ++ m :: back ∧
        m.event = .ask op ∧ op.direct = .performEffect e s ∧
        c.catalog.resolve c.levels e s = .ok p ∧ p.queue = some q ∧
        .write .effectQueue q.text (.ok ()) ∈ m.calls ∧
        (∀ m' ∈ back, ∀ value, .write .effectQueue value (.ok ()) ∉ m'.calls) ∧
        held last .effectQueue = q.text ∧
        q.text ≠ "" ∧ ∀ x ∈ q.text.toList, Text.isBlank x = false) ∧
    (∀ answer, .write .effectIndex "65534" answer ∉ startup.calls) ∧
    (∀ m ∈ moments, ∀ front answer back,
      m.calls = front ++ .write .effectIndex "65534" answer :: back →
      ∃ value, .write .effectQueue value (.ok ()) ∈ front) := by
  intro startup c moments last
  have hn : ∀ answer, .write .effectIndex "65534" answer ∉ startup.calls := by
    intro answer hm
    have ha := List.mem_map_of_mem (f := Call.access) hm
    rw [(makes_start cal remarks catalog).calls_run, Device.map_access_calls] at ha
    exact absurd (eq_two_of_mem_startAccesses ha) (by decide)
  refine ⟨?_, hn, ?_⟩
  · intro hi
    have hs : held startup.state .effectIndex ≠ "65534" := by
      rw [hk.held_run, hz]
      cases hl : lastStored? .effectIndex startup.calls with
      | none => exact (by decide : "0" ≠ "65534")
      | some value =>
        rintro rfl
        exact hn _ (mem_of_lastStored? hl)
    obtain ⟨front, m, back, hm, ⟨value, hv⟩, hb⟩ :=
      exists_last_of_exists (exists_stored_of_slot hk hs hi)
    have hmem : m ∈ c.asked device ops startup.state := by
      rw [hm]
      exact List.mem_append_right _ List.mem_cons_self
    obtain ⟨op, e, s, p, q, he, ho, hp, hq, rfl⟩ := queue_of_stored hmem hv
    -- Whatever failed since, no later operation stored a queue.
    have hb' : ∀ value, .write .effectQueue value (.ok ()) ∉ back.flatMap Moment.calls := by
      intro value hv
      obtain ⟨m', hm', hv⟩ := List.mem_flatMap.mp hv
      exact hb m' hm' ⟨value, hv⟩
    have hl : held last .effectQueue = q.text := by
      rw [held_reached hk, hm, List.flatMap_append, List.flatMap_cons, lastStored?_append,
        lastStored?_append, lastStored?_eq_none_iff.mpr hb', Option.none_or,
        lastStored?_queue hmem he ho hp hq hv]
      rfl
    have ht := (Catalog.hasQueue_of_resolve hp hq).isSolid
    refine ⟨front, m, back, op, e, s, p, q, hm, he, ho, hp, hq, hv,
      fun m' hm' value hv => hb m' hm' ⟨value, hv⟩, hl, ?_, ht.isBlank_eq_false⟩
    intro hn
    exact ht.ne_nil (by rw [hn]; rfl)
  · intro m hm front answer back hf
    exact stored_before_slot_of_moment hm hf

/-- The slot stays selected when the ringtone and the tick after a double click cannot select
theirs, and the queue that it plays is the one of the ringtone. -/
theorem queue_slot_of_refused_writes :
    let cal : Calibration := ⟨none, none, 0, some ⟨#v[0, 0, 0, 0, 0, 0]⟩⟩
    let schedule := List.replicate 12 none ++ [some .resourceBusy, none, none, some .resourceBusy]
    let startup := (start cal {} .standard).run Bank.device.scheduled (schedule, .without [])
    let last := startup.value.reached Bank.device.scheduled
      [.performEffect .doubleClick .light, .performEffect .ringtone1 .strong,
        .performEffect .tick .light] startup.state
    last.2.held .effectIndex = "65534" ∧
      last.2.held .effectQueue = "!!2.100,100,2.100,800!!4!" ∧
      ∃ e s p q, startup.value.catalog.resolve startup.value.levels e s = .ok p ∧
        p.queue = some q ∧ last.2.held .effectQueue = q.text ∧
        ∀ x ∈ q.text.toList, Text.isBlank x = false := by
  intro cal schedule startup last
  obtain ⟨h, -⟩ := queue_slot cal {} .standard Bank.device.scheduled _ Bank.keeps.scheduled
    [.performEffect .doubleClick .light, .performEffect .ringtone1 .strong,
      .performEffect .tick .light] (schedule, .without []) fun _ => rfl
  have hi : last.2.held .effectIndex = "65534" := by decide +kernel
  have hq : last.2.held .effectQueue = "!!2.100,100,2.100,800!!4!" := by decide +kernel
  obtain ⟨_, _, _, _, e, s, p, q, -, -, -, hp, hs, -, -, hl, -, hb⟩ := h hi
  exact ⟨hi, hq, e, s, p, q, hp, hs, hl, hb⟩

end Controller

end Rumble
