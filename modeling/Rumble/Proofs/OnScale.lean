import Rumble.Calibration.Sheet
import Rumble.Proofs.Operations
import Rumble.Proofs.QueueText
import Rumble.Proofs.Startup

namespace Rumble

def VoltageTable.OnScale (t : VoltageTable) : Prop := ∀ l ∈ t.toList, 1 ≤ l ∧ l ≤ 100

namespace VoltageTable

theorem onScale_standard : standard.OnScale := by
  have h : standard.toList = [60, 70, 80, 90, 100, 76] := rfl
  simp [OnScale, h]

theorem mem_toList_of_at? {t : VoltageTable} {l : Level} {s : Strength} {volume : UInt32}
    (h : t.at? l s = some volume) : volume ∈ t.toList := by
  obtain ⟨i, -, hi⟩ := Option.bind_eq_some_iff.mp h
  rw [toList, Vector.mem_toList_iff]
  exact Vector.mem_of_getElem? hi

theorem getElem_mem_toList (t : VoltageTable) (i : Nat) (hi : i < 6) : t.levels[i] ∈ t.toList := by
  rw [toList, Vector.mem_toList_iff]
  exact Vector.getElem_mem hi

end VoltageTable

/-! ### Sheets -/

namespace Calibration.Sheet

theorem onScale_of_readLevels {done : List UInt32} {ws : List (List Char)} {table : VoltageTable}
    (hd : ∀ l ∈ done, 1 ≤ l ∧ l ≤ 100) (h : readLevels done ws = .ok table) : table.OnScale := by
  induction ws generalizing done with
  | nil =>
    rw [readLevels] at h
    cases ho : VoltageTable.ofList done with
    | error n =>
      rw [ho] at h
      cases h
    | ok t =>
      rw [ho] at h
      cases h
      rw [VoltageTable.OnScale, VoltageTable.toList_of_ofList ho]
      exact hd
  | cons w ws ih =>
    rw [readLevels] at h
    cases hw : Text.readWordOrHex? w with
    | none =>
      rw [hw] at h
      cases h
    | some v =>
      rw [hw] at h
      dsimp only at h
      split_ifs at h with hv hl
      apply ih _ h
      intro l hm
      rcases List.mem_append.mp hm with hm | hm
      · exact hd l hm
      · rw [List.mem_singleton.mp hm]
        exact (VoltageTable.on_scale_iff v).mp hv

/-- A sheet yields a table on the output scale, or none and the standard one is used. -/
theorem onScale_levels (s : Sheet) : (s.values.levels.getD .standard).OnScale := by
  have hv : s.values.levels = s.levels.toOption := rfl
  rw [hv]
  cases hl : s.levels with
  | error e => exact VoltageTable.onScale_standard
  | ok table =>
    rw [levels] at hl
    cases hr : s.raw? levelsKey with
    | none =>
      rw [hr] at hl
      cases hl
    | some raw =>
      rw [hr] at hl
      exact onScale_of_readLevels (List.forall_mem_nil _) hl

end Calibration.Sheet

theorem Access.exists_word_mem_level {l : UInt32} (h : 1 ≤ l ∧ l ≤ 100) (r : Register) :
    ∃ n, Attenuation.scale l VoltageTable.maximum = .ok n ∧ .word r n ∈ level r l := by
  have hn : Attenuation.scale l VoltageTable.maximum = .ok _ :=
    (Attenuation.scale_maximum l).trans (if_pos h)
  refine ⟨_, hn, ?_⟩
  rw [level, hn]
  exact List.mem_singleton_self _

/-! ### Effects -/

namespace Catalog

variable {c : Catalog} {table : VoltageTable} {e : Effect} {s : Strength}

theorem ringtoneVolume_onScale (s : Strength) : 1 ≤ ringtoneVolume s ∧ ringtoneVolume s ≤ 100 := by
  cases s <;> decide

theorem volume_of_resolve (ht : table.OnScale) {p : Playback} (h : c.resolve table e s = .ok p) :
    1 ≤ p.volume ∧ p.volume ≤ 100 := by
  obtain ⟨entry, -, h⟩ := hasPlayback_of_resolve h
  cases h with
  | simple found => exact ht _ (VoltageTable.mem_toList_of_at? found)
  | compound =>
    have hq : 1 ≤ Waveform.queueVolume ∧ Waveform.queueVolume ≤ 100 := by decide
    exact hq
  | ringtone => exact ringtoneVolume_onScale s

theorem volume_of_hasPart (ht : table.OnScale) {segment : Segment} {ms slot volume : UInt32}
    (h : c.HasPart table s segment (ms, .segment slot volume)) : 1 ≤ volume ∧ volume ≤ 100 := by
  cases h with
  | effect _ found => exact ht volume (VoltageTable.mem_toList_of_at? found)

/-- Each piece of the queue of a compound effect that plays something does so at a volume on the
output scale. -/
theorem volumes_of_resolve_compound (ht : table.OnScale) (s : Strength) {segments : List Segment}
    (h : c.get? e = some (.compound segments)) :
    ∃ p q, c.resolve table e s = .ok p ∧ p.queue = some q ∧ ∀ piece ∈ q.pieces, '.' ∈ piece →
      ∃ slot volume, piece = (Queue.Token.segment slot volume).text.toList ∧
        1 ≤ volume ∧ volume ≤ 100 := by
  obtain ⟨p, hp, hs⟩ := exists_hasPlayback table s h
  cases hs with
  | @compound _ parts played =>
    refine ⟨_, _, hp, rfl, ?_⟩
    intro piece hm hd
    rw [Queue.pieces_ofTokens (tokens_ne_nil h played), List.mem_map] at hm
    obtain ⟨t, ht', rfl⟩ := hm
    obtain ⟨slot, volume, rfl⟩ := Queue.Token.exists_of_dot_mem_text hd
    obtain ⟨⟨ms, t⟩, hm, rfl⟩ := List.mem_map.mp ht'
    obtain ⟨i, hi, he⟩ := List.getElem_of_mem hm
    have hs := played.get (played.length_eq ▸ hi) hi
    rw [List.get_eq_getElem, List.get_eq_getElem, he] at hs
    exact ⟨slot, volume, rfl, volume_of_hasPart ht hs⟩

end Catalog

def Operation.overallLevel? (table : VoltageTable) : Operation → Option UInt32
  | .activate _ | .setExternalControl true => some table.overall
  | .deactivate | .setExternalControl false => some VoltageTable.maximum
  | _ => none

namespace Controller

open Program

variable {ι σ : Type} {c : Controller}

theorem scales_mem_edgeAccesses {levels : VoltageTable} (ht : levels.OnScale) :
    ∃ fall rise, Attenuation.scale (levels.base .click) VoltageTable.maximum = .ok fall ∧
      Attenuation.scale (levels.base .heavyClick) VoltageTable.maximum = .ok rise ∧
      .word .gpioFallScale fall ∈ edgeAccesses levels ∧
      .word .gpioRiseScale rise ∈ edgeAccesses levels := by
  have hc := ht _ (levels.getElem_mem_toList 2 (by decide))
  have hh := ht _ (levels.getElem_mem_toList 3 (by decide))
  obtain ⟨fall, hf, hf'⟩ := Access.exists_word_mem_level hc .gpioFallScale
  obtain ⟨rise, hr, hr'⟩ := Access.exists_word_mem_level hh .gpioRiseScale
  refine ⟨fall, rise, hf, hr, ?_, ?_⟩
  · exact List.mem_cons_of_mem _ (List.mem_append_left _ hf')
  · exact List.mem_cons_of_mem _ (List.mem_append_right _ (List.mem_cons_of_mem _ hr'))

theorem overallLevel?_onScale {table : VoltageTable} (ht : table.OnScale) {op : Operation}
    {l : UInt32} (hl : op.overallLevel? table = some l) : 1 ≤ l ∧ l ≤ 100 := by
  have ho : 1 ≤ table.overall ∧ table.overall ≤ 100 :=
    ht _ (table.getElem_mem_toList 5 (by decide))
  have hm : 1 ≤ VoltageTable.maximum ∧ VoltageTable.maximum ≤ 100 := by decide
  cases op with
  | activate ms =>
    cases hl
    exact ho
  | deactivate =>
    cases hl
    exact hm
  | setExternalControl enabled =>
    cases enabled with
    | true =>
      cases hl
      exact ho
    | false =>
      cases hl
      exact hm
  | _ => cases hl

theorem overall_of_attempts (ht : c.levels.OnScale) {op : Operation} {as : List Access}
    (h : Attempts c op as) {l : UInt32} (hl : op.overallLevel? c.levels = some l) :
    ∃ n, Attenuation.scale l VoltageTable.maximum = .ok n ∧ .word .globalScale n ∈ as := by
  obtain ⟨n, hn, hm⟩ := Access.exists_word_mem_level (overallLevel?_onScale ht hl) .globalScale
  refine ⟨n, hn, ?_⟩
  cases h with
  | activate | deactivate =>
    cases hl
    exact List.mem_append_left _ hm
  | setExternalControl enabled =>
    cases enabled <;> cases hl <;> exact List.mem_append_left _ hm
  | _ => cases hl

theorem volume_of_performEffect (ht : c.levels.OnScale) (e : Effect) (s : Strength)
    (device : Device σ) (st : σ) (he : c.catalog.get? e ≠ none)
    (hq : ∀ queue fault, Call.write .effectQueue queue (.error fault) ∉
      ((c.performEffect e s).run device st).calls) :
    ∃ p n, c.catalog.resolve c.levels e s = .ok p ∧
      Attenuation.scale p.volume VoltageTable.maximum = .ok n ∧
      .word .effectScale n ∈ ((c.performEffect e s).run device st).accesses := by
  rcases performEffect_cases c e s device st with ⟨hn, -⟩ | ⟨entry, p, -, hp, -, h⟩
  · exact absurd hn he
  · rcases h with ⟨q, fault, -, -, hc, -⟩ | ⟨-, hc, -⟩
    · refine absurd ?_ (hq q.text fault)
      rw [hc]
      exact List.mem_cons_self
    · have hv := Catalog.volume_of_resolve ht hp
      obtain ⟨n, hn, hm⟩ := Access.exists_word_mem_level hv .effectScale
      refine ⟨p, n, hp, hn, ?_⟩
      rw [Run.accesses, hc, Device.map_access_calls, Playback.accesses]
      exact List.mem_append_right _ (List.mem_append_left _ hm)

/-! ### Values that are refused -/

theorem failure?_refused (x : Except ChannelError Unit) :
    (Answer.result (x.mapError fun _ => .unknownError)).failure? ≠ some .badValue := by
  cases x <;> simp [Except.mapError, Answer.failure?]

theorem badValue_setAmplitude_iff (a : UInt8) (device : Device σ) (st : σ) :
    (Answer.result ((setAmplitude a).run device st).value).failure? = some .badValue ↔ a = 0 := by
  by_cases ha : a = 0
  · subst ha
    exact iff_of_true rfl rfl
  · refine iff_of_false ?_ ha
    obtain ⟨n, hn⟩ := exists_scale_amplitude ha
    obtain ⟨hu, hw⟩ := run_setAmplitude ha hn device st
    cases hf : (isUnderExternalControl.run device st).value with
    | true =>
      rw [(hu hf).1]
      simp [Answer.failure?]
    | false =>
      rw [(hw hf).1]
      exact failure?_refused _

theorem badValue_ne_performEffect (e : Effect) (s : Strength) (device : Device σ) (st : σ) :
    (Answer.duration ((c.performEffect e s).run device st).value).failure? ≠ some .badValue := by
  rcases performEffect_cases c e s device st with ⟨-, -, hv⟩ | ⟨_, _, -, -, -, h⟩
  · simp [hv, Answer.failure?]
  · rcases h with ⟨_, _, -, -, -, hv⟩ | ⟨-, -, hv⟩ <;> simp [hv, Answer.failure?]

/-- The only value that is refused is an amplitude of zero. -/
theorem badValue_iff_of_direct_eq {op : Operation} (hd : op.direct = op) (device : Device σ)
    (st : σ) : ((c.operate op).run device st).value.failure? = some .badValue ↔
      op = .setAmplitude 0 := by
  cases op with
  | activate ms =>
    simp [operate, run_map, activate, run_bind, Answer.failure?]
  | deactivate =>
    simp only [operate, run_map, deactivate, run_bind, writeFlag, run_writeText, value_require]
    exact iff_of_false (failure?_refused _) (by simp)
  | setAmplitude a =>
    rw [operate, run_map, Operation.setAmplitude.injEq]
    exact badValue_setAmplitude_iff a device st
  | setExternalControl enabled =>
    simp only [operate, run_map, setExternalControl, run_bind, writeFlag, run_writeText,
      value_require]
    exact iff_of_false (failure?_refused _) (by simp)
  | performEffect e s =>
    rw [operate, run_map]
    exact iff_of_false (badValue_ne_performEffect e s device st) (by simp)
  | perform e s => cases hd
  | supportsAmplitudeControl | supportsExternalControl | isUnderExternalControl =>
    simp [operate, run_map, Answer.failure?]
  | handle command =>
    cases command with
    | queryCapabilities => simp [operate, handle, run_map, run_bind, Answer.failure?]
    | _ => cases hd

theorem badValue_iff (c : Controller) (op : Operation) (device : Device σ) (st : σ) :
    ((c.operate op).run device st).value.failure? = some .badValue ↔
      op.direct = .setAmplitude 0 := by
  rw [(run_direct c op device st).2.2]
  exact badValue_iff_of_direct_eq op.direct_direct device st

/-! ### Sessions -/

/-- Whatever the text of a calibration sheet is, the controller that starts with it has its levels
on the output scale, for good. So nothing is left out because a level is not: the startup writes the
scales of both edges, an operation that puts an overall level in force writes it, an effect that
gets past its queue has its volume written, and a compound effect plays each of its parts at a
volume on the scale. The only value that is ever refused is an amplitude of zero. -/
theorem levels_on_scale (text : String) (catalog : Catalog) (device : Device σ)
    (outside : ι → σ → σ) (events : List (Event ι)) (st : σ) :
    let sheet := Calibration.Sheet.parse text
    let startup := (start sheet.values sheet.remarks catalog).run device st
    let c := startup.value
    let moments := sessionFrom sheet.values sheet.remarks catalog device outside events st
    (c.levels.toList.length = 6 ∧ ∀ l ∈ c.levels.toList, 1 ≤ l ∧ l ≤ 100) ∧
    (∀ m ∈ moments, m = c.moment device outside m.event m.before) ∧
    (∃ fall rise,
      Attenuation.scale (c.levels.base .click) VoltageTable.maximum = .ok fall ∧
      Attenuation.scale (c.levels.base .heavyClick) VoltageTable.maximum = .ok rise ∧
      .word .gpioFallScale fall ∈ startup.accesses ∧
      .word .gpioRiseScale rise ∈ startup.accesses) ∧
    (∀ m ∈ moments, ∀ op, m.event = .ask op →
      (∀ l, op.direct.overallLevel? c.levels = some l →
        ∃ n, Attenuation.scale l VoltageTable.maximum = .ok n ∧
          .word .globalScale n ∈ m.accesses) ∧
      (∀ e s, op.direct = .performEffect e s → c.catalog.get? e ≠ none →
        (∀ queue fault, Call.write .effectQueue queue (.error fault) ∉ m.calls) →
        ∃ p n, c.catalog.resolve c.levels e s = .ok p ∧
          Attenuation.scale p.volume VoltageTable.maximum = .ok n ∧
          .word .effectScale n ∈ m.accesses) ∧
      (m.answer.bind Answer.failure? = some .badValue ↔ op.direct = .setAmplitude 0)) ∧
    (∀ e s segments, c.catalog.get? e = some (.compound segments) →
      ∃ p q, c.catalog.resolve c.levels e s = .ok p ∧ p.queue = some q ∧
        ∀ piece ∈ q.pieces, '.' ∈ piece →
          ∃ slot volume, piece = (Queue.Token.segment slot volume).text.toList ∧
            1 ≤ volume ∧ volume ≤ 100) := by
  intro sheet startup c moments
  have hl : c.levels = sheet.values.levels.getD .standard := by
    have hv := value_start sheet.values sheet.remarks catalog device st
    exact congrArg Controller.levels hv
  have ht : c.levels.OnScale := by
    rw [hl]
    exact sheet.onScale_levels
  refine ⟨⟨by simp [VoltageTable.toList], ht⟩, fun m hm => eq_moment_of_mem_session hm, ?_, ?_, ?_⟩
  · have ha : startup.accesses = prepareAccesses sheet.values ++
        .read .effectDuration :: edgeAccesses c.levels := by
      rw [Run.accesses, (makes_start sheet.values sheet.remarks catalog).calls_run,
        Device.map_access_calls, startAccesses_eq, hl]
    obtain ⟨fall, rise, hf, hr, hf', hr'⟩ := scales_mem_edgeAccesses ht
    refine ⟨fall, rise, hf, hr, ?_, ?_⟩
    · rw [ha]
      exact List.mem_append_right _ (List.mem_cons_of_mem _ hf')
    · rw [ha]
      exact List.mem_append_right _ (List.mem_cons_of_mem _ hr')
  · intro m hm op ho
    obtain ⟨hc, ha⟩ := ask_of_mem_session hm ho
    refine ⟨fun l => overall_of_attempts ht (attempts_of_mem_session hm ho), ?_, ?_⟩
    · intro e s hd he hq
      have hr := (run_direct c op device m.before).1
      rw [hd, operate, run_map] at hr
      have hm' : m.accesses = ((c.performEffect e s).run device m.before).accesses := by
        rw [Moment.accesses, hc, hr, Run.accesses]
      rw [hm']
      apply volume_of_performEffect ht e s device m.before he
      rwa [hc, hr] at hq
    · rw [ha]
      exact badValue_iff c op device m.before
  · intro e s segments he
    exact Catalog.volumes_of_resolve_compound ht s he

/-- A sheet with a level off the scale counts for nothing, and stopping resets the overall level. -/
theorem levels_on_scale_of_bad_sheet :
    let sheet := Calibration.Sheet.parse "v_levels: 0 0x10 20 30 40 50\n"
    let events := [.ask (.handle .off), .ask (.setAmplitude 0)]
    let moments := sessionFrom sheet.values sheet.remarks .standard Bank.device
      (fun (_ : Unit) b => b) events (Bank.without [.globalScale])
    sheet.levels = .error (.levelOutOfRange 0) ∧ ∃ m₁ m₂, moments = [m₁, m₂] ∧
      (∃ n, Attenuation.scale 100 100 = .ok n ∧ .word .globalScale n ∈ m₁.accesses) ∧
      m₂.answer.bind Answer.failure? = some .badValue := by
  intro sheet events moments
  obtain ⟨-, -, -, h, -⟩ := levels_on_scale "v_levels: 0 0x10 20 30 40 50\n" .standard Bank.device
    (fun (_ : Unit) b => b) events (Bank.without [.globalScale])
  have h1 : moments[0] ∈ moments := List.getElem_mem _
  have h2 : moments[1] ∈ moments := List.getElem_mem _
  obtain ⟨hl, -, -⟩ := h _ h1 _ rfl
  obtain ⟨-, -, hb⟩ := h _ h2 _ rfl
  exact ⟨by decide +kernel, moments[0], moments[1], rfl, hl 100 rfl, hb.mpr rfl⟩

end Controller

end Rumble
