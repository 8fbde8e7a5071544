import Mathlib.Data.Rat.Floor
import Rumble.Bank
import Rumble.Proofs.WriteOrder

namespace Rumble

theorem Waveform.samplesToMs_eq_ceil (samples : UInt32) :
    samplesToMs samples = .ofNat ⌈(samples.toNat / 48 : ℚ)⌉₊ := by
  have hc : ⌈(samples.toNat / 48 : ℚ)⌉₊ = (samples.toNat + 47) / 48 := by
    apply le_antisymm
    · rw [Nat.ceil_le, div_le_iff₀ (by norm_num)]
      have h : samples.toNat ≤ (samples.toNat + 47) / 48 * 48 := by omega
      exact_mod_cast h
    · apply Nat.le_of_lt_succ
      rw [Nat.div_lt_iff_lt_mul (by norm_num)]
      have h := Nat.le_ceil (samples.toNat / 48 : ℚ)
      rw [div_le_iff₀ (by norm_num)] at h
      have hn : samples.toNat ≤ ⌈(samples.toNat / 48 : ℚ)⌉₊ * 48 := by exact_mod_cast h
      omega
  rw [hc]
  rfl

namespace Catalog

/-- What a catalog becomes when the register of the waveform length is read. -/
def measured (c : Catalog) (answer : Except ChannelError String) : Catalog :=
  match Program.wordOf .effectDuration answer with
  | .ok samples => c.withMeasuredLength samples
  | .error _ => c

theorem get?_measured {c : Catalog} {raw : String} {samples : UInt32}
    (hr : Text.readWord? (Text.trim raw.toList) = some samples) (hs : 0 < samples) (e : Effect) :
    (c.measured (.ok raw)).get? e =
      (c.get? e).map (Entry.withLength (.ofNat ⌈(samples.toNat / 48 : ℚ)⌉₊)) := by
  have hz : samples ≠ 0 := by
    rintro rfl
    exact absurd hs (by decide)
  simp only [measured, Program.wordOf, hr]
  rw [get?_withMeasuredLength, if_neg hz, Waveform.samplesToMs_eq_ceil]

theorem measured_eq_self {c : Catalog} {answer : Except ChannelError String}
    (h : ∀ raw samples, answer = .ok raw →
      Text.readWord? (Text.trim raw.toList) = some samples → samples = 0) :
    c.measured answer = c := by
  cases answer with
  | error e => rfl
  | ok raw =>
    cases hs : Text.readWord? (Text.trim raw.toList) with
    | none => simp only [measured, Program.wordOf, hs]
    | some samples =>
      simp only [measured, Program.wordOf, hs]
      rw [h raw samples rfl hs, withMeasuredLength, if_pos rfl]

end Catalog

def Calibration.startAccesses (cal : Calibration) : List Access :=
  let levels := (cal.levels.getD .standard).levels
  [.write .state "1"] ++ Access.optional .f0 cal.f0 ++ Access.optional .redc cal.redc ++
    [.word .q cal.q, .word .effectIndex 2, .read .effectDuration, .word .gpioFallIndex 2] ++
    Access.level .gpioFallScale (levels.get 2) ++ [.word .gpioRiseIndex 2] ++
    Access.level .gpioRiseScale (levels.get 3)

namespace Controller

open Program

variable {σ : Type}

/-! ### Parts of the startup -/

theorem makes_pushOptional (r : Register) (remarks : List Log.Record) (v : Option UInt32) :
    (pushOptional r remarks v).Makes (Access.optional r v) := by
  cases v with
  | none => exact makes_sayAll remarks
  | some n => exact (makes_sayAll remarks).silent_bind fun _ => makes_report_writeWord _ r n

theorem makes_pushCalibration (cal : Calibration) (remarks : Calibration.Remarks) :
    (pushCalibration cal remarks).Makes
      (Access.optional .f0 cal.f0 ++ (Access.optional .redc cal.redc ++ [.word .q cal.q])) := by
  apply (makes_pushOptional .f0 remarks.f0 cal.f0).bind
  intro _
  apply (makes_pushOptional .redc remarks.redc cal.redc).bind
  intro _
  exact makes_pushOptional .q remarks.q (some cal.q)

theorem makes_setEdge (index scale : Register) (edge levelName : String) (level : UInt32) :
    (setEdge index scale edge levelName level).Makes
      (.word index 2 :: Access.level scale level) := by
  apply (makes_writeWord index Waveform.simpleSlot).bind
  intro x
  apply (makes_report _ x).silent_bind
  intro _
  cases Attenuation.scale level VoltageTable.maximum with
  | ok a => exact makes_report_writeWord _ scale a
  | error f => exact makes_say _ _

theorem makes_chooseLevels (levels : Option VoltageTable) : (chooseLevels levels).Makes [] := by
  cases levels with
  | none => exact (makes_say _ _).silent_bind fun _ => .pure _
  | some table => exact .pure table

theorem yields_chooseLevels (levels : Option VoltageTable) :
    (chooseLevels levels).Yields (· = levels.getD .standard) := by
  cases levels with
  | none => exact .of_forall fun _ => rfl
  | some table => exact rfl

/-- The accesses before the waveform length is read. -/
def prepareAccesses (cal : Calibration) : List Access :=
  .write .state "1" :: (Access.optional .f0 cal.f0 ++
    (Access.optional .redc cal.redc ++ [.word .q cal.q, .word .effectIndex 2]))

def edgeAccesses (levels : VoltageTable) : List Access :=
  .word .gpioFallIndex 2 :: (Access.level .gpioFallScale (levels.levels.get 2) ++
    .word .gpioRiseIndex 2 :: Access.level .gpioRiseScale (levels.levels.get 3))

theorem isWrite_of_mem_prepareAccesses {cal : Calibration} {a : Access}
    (h : a ∈ prepareAccesses cal) : a.isWrite := by
  simp only [prepareAccesses, List.mem_cons, List.mem_append, List.not_mem_nil, or_false] at h
  rcases h with rfl | h | h | rfl | rfl
  · rfl
  · obtain ⟨n, rfl⟩ := Access.eq_word_of_mem_optional h
    rfl
  · obtain ⟨n, rfl⟩ := Access.eq_word_of_mem_optional h
    rfl
  · rfl
  · rfl

theorem isWrite_of_mem_edgeAccesses {levels : VoltageTable} {a : Access}
    (h : a ∈ edgeAccesses levels) : a.isWrite := by
  simp only [edgeAccesses, List.mem_cons, List.mem_append] at h
  rcases h with rfl | h | rfl | h
  · rfl
  · obtain ⟨n, rfl⟩ := Access.eq_word_of_mem_level h
    rfl
  · rfl
  · obtain ⟨n, rfl⟩ := Access.eq_word_of_mem_level h
    rfl

theorem makes_prepare (cal : Calibration) (remarks : Calibration.Remarks) :
    (prepare cal remarks).Makes (prepareAccesses cal) := by
  have h : (prepare cal remarks).Makes ([.write .state "1"] ++
      ((Access.optional .f0 cal.f0 ++ (Access.optional .redc cal.redc ++ [.word .q cal.q])) ++
        [.word .effectIndex 2])) := by
    apply Makes.bind (makes_writeFlag .state true)
    intro x
    apply (makes_report _ x).silent_bind
    intro _
    apply Makes.bind (makes_pushCalibration cal remarks)
    intro _
    apply (makes_sayAll _).silent_bind
    intro _
    apply (makes_chooseLevels _).silent_bind
    intro levels
    apply (makes_writeWord _ Waveform.simpleSlot).bind_silent
    intro x
    exact (makes_report _ x).silent_bind fun _ => .pure levels
  simpa only [prepareAccesses, List.append_assoc, List.cons_append, List.nil_append] using h

theorem yields_prepare (cal : Calibration) (remarks : Calibration.Remarks) :
    (prepare cal remarks).Yields (· = cal.levels.getD .standard) := by
  apply Yields.of_forall
  intro x
  apply Yields.of_forall
  intro _
  apply Yields.of_forall
  intro _
  apply Yields.of_forall
  intro _
  apply (yields_chooseLevels cal.levels).bind
  rintro levels rfl
  exact .of_forall fun _ => .of_forall fun _ => rfl

theorem makes_setEdges (levels : VoltageTable) :
    (setEdges levels).Makes (edgeAccesses levels) :=
  (makes_setEdge ..).bind fun _ => makes_setEdge ..

theorem makes_measure (catalog : Catalog) (x : Except ChannelError UInt32) :
    (measure catalog x).Makes [] := by
  cases x with
  | ok samples => exact (makes_sayAll _).silent_bind fun _ => .pure _
  | error e => exact (makes_say _ _).silent_bind fun _ => .pure _

theorem value_measure (catalog : Catalog) (x : Except ChannelError UInt32) (device : Device σ)
    (st : σ) : ((measure catalog x).run device st).value =
      match x with
      | .ok samples => catalog.withMeasuredLength samples
      | .error _ => catalog := by
  cases x with
  | ok samples => simp only [measure, run_bind, run_pure]
  | error e => simp only [measure, run_bind, run_pure]

/-! ### The startup -/

theorem startAccesses_eq (cal : Calibration) :
    cal.startAccesses = prepareAccesses cal ++
      .read .effectDuration :: edgeAccesses (cal.levels.getD .standard) := by
  simp only [Calibration.startAccesses, prepareAccesses, edgeAccesses, List.append_assoc,
    List.cons_append, List.nil_append]

theorem makes_start (cal : Calibration) (remarks : Calibration.Remarks) (catalog : Catalog) :
    (start cal remarks catalog).Makes cal.startAccesses := by
  rw [startAccesses_eq]
  apply Makes.bind_of_yields (makes_prepare cal remarks) (yields_prepare cal remarks)
  rintro levels rfl
  apply Makes.bind (makes_readWord .effectDuration)
  intro x
  apply (makes_measure catalog x).silent_bind
  intro catalog
  apply Makes.bind_silent (makes_setEdges _)
  intro _
  exact (makes_say _ _).silent_bind fun _ => .pure _

theorem value_start (cal : Calibration) (remarks : Calibration.Remarks) (catalog : Catalog)
    (device : Device σ) (st : σ) :
    ((start cal remarks catalog).run device st).value =
      { catalog := catalog.measured
          (device.read .effectDuration (device.after (prepareAccesses cal) st)).answer
        levels := cal.levels.getD .standard } := by
  have hs := (makes_prepare cal remarks).state_run device st
  have hv := (yields_prepare cal remarks).value_run device st
  simp only [start, run_bind, run_pure, value_measure, hs, hv]
  rfl

theorem readings_start (cal : Calibration) (remarks : Calibration.Remarks) (catalog : Catalog)
    (device : Device σ) (st : σ) :
    ((start cal remarks catalog).run device st).calls.filterMap (Call.reading? .effectDuration) =
      [(device.read .effectDuration (device.after (prepareAccesses cal) st)).answer] := by
  -- Only writes stand before and behind the one read.
  have hp : .read .effectDuration ∉ prepareAccesses cal := by
    intro h
    have hw := isWrite_of_mem_prepareAccesses h
    cases hw
  have he : .read .effectDuration ∉ edgeAccesses (cal.levels.getD .standard) := by
    intro h
    have hw := isWrite_of_mem_edgeAccesses h
    cases hw
  rw [(makes_start cal remarks catalog).calls_run, startAccesses_eq, Device.calls_append,
    List.filterMap_append, Device.filterMap_reading?_calls device hp, Device.calls,
    List.filterMap_cons_some (by rfl), Device.filterMap_reading?_calls device he]
  rfl

theorem exists_reading_start (cal : Calibration) (remarks : Calibration.Remarks)
    (catalog : Catalog) (device : Device σ) (st : σ) :
    let run := (start cal remarks catalog).run device st
    ∃ answer, run.calls.filterMap (Call.reading? .effectDuration) = [answer] ∧
      run.value = ⟨catalog.measured answer, cal.levels.getD .standard⟩ :=
  ⟨_, readings_start cal remarks catalog device st, value_start cal remarks catalog device st⟩

/-- The startup, call by call, on every device: the accesses depend on the calibration alone, the
levels are the calibrated or the standard ones, and a positive number read from the register of the
waveform length sets the length of simple effects. Nothing else of a device matters. -/
theorem start_calls {σ τ : Type} (cal : Calibration) (remarks : Calibration.Remarks)
    (catalog : Catalog) (device : Device σ) (st : σ) (device' : Device τ) (st' : τ) :
    let run := (start cal remarks catalog).run device st
    let run' := (start cal remarks catalog).run device' st'
    let readings (calls : List Call) := calls.filterMap (Call.reading? .effectDuration)
    run.calls.map Call.access = cal.startAccesses ∧
      run.calls = device.calls cal.startAccesses st ∧
      (∀ r l, Access.level r l = [] ↔ ¬(1 ≤ l ∧ l ≤ 100)) ∧
      run.value.levels = cal.levels.getD .standard ∧
      (∃ answer, readings run.calls = [answer] ∧
        (∀ raw samples, answer = .ok raw →
          Text.readWord? (Text.trim raw.toList) = some samples → 0 < samples →
          ∀ e, run.value.catalog.get? e =
            (catalog.get? e).map (Entry.withLength (.ofNat ⌈(samples.toNat / 48 : ℚ)⌉₊))) ∧
        ((∀ raw samples, answer = .ok raw →
          Text.readWord? (Text.trim raw.toList) = some samples → samples = 0) →
          run.value.catalog = catalog)) ∧
      (readings run.calls = readings run'.calls →
        run.value = run'.value ∧ run.calls.map Call.access = run'.calls.map Call.access) := by
  intro run run' readings
  have hc : run.calls = device.calls cal.startAccesses st :=
    (makes_start cal remarks catalog).calls_run device st
  have hc' : run'.calls = device'.calls cal.startAccesses st' :=
    (makes_start cal remarks catalog).calls_run device' st'
  obtain ⟨answer, hr, hv⟩ := exists_reading_start cal remarks catalog device st
  obtain ⟨answer', hr', hv'⟩ := exists_reading_start cal remarks catalog device' st'
  refine ⟨by rw [hc, Device.map_access_calls], hc, Access.level_eq_nil_iff, by rw [hv],
    ⟨answer, hr, ?_, ?_⟩, ?_⟩
  · rintro raw samples rfl hs hpos e
    rw [hv]
    exact Catalog.get?_measured hs hpos e
  · intro h
    rw [hv]
    exact Catalog.measured_eq_self h
  · intro h
    have ha : [answer] = [answer'] := hr.symm.trans (h.trans hr')
    obtain rfl := List.singleton_inj.mp ha
    refine ⟨hv.trans hv'.symm, ?_⟩
    rw [hc, hc', Device.map_access_calls, Device.map_access_calls]

/-- A missing register changes no other access and nothing that is read. -/
theorem start_calls_without_state :
    let cal : Calibration := ⟨some 1, none, 2, some ⟨#v[0, 0, 0, 0, 0, 0]⟩⟩
    let full := (start cal {} .standard).run Bank.device
      ((Bank.without []).set .effectDuration " 577\n")
    let lame := (start cal {} .standard).run Bank.device
      ((Bank.without [.state]).set .effectDuration " 577\n")
    full.calls.filterMap (Call.reading? .effectDuration) = [.ok " 577\n"] ∧
      lame.calls.filterMap (Call.reading? .effectDuration) = [.ok " 577\n"] ∧
      full.value = lame.value ∧ full.calls.map Call.access = lame.calls.map Call.access ∧
      full.value.catalog.get? .click = some (.simple .click (.const 13)) := by
  intro cal full lame
  have hf : full.calls.filterMap (Call.reading? .effectDuration) = [.ok " 577\n"] := by rfl
  have hl : lame.calls.filterMap (Call.reading? .effectDuration) = [.ok " 577\n"] := by rfl
  obtain ⟨-, -, -, -, ⟨answer, ha, hm, -⟩, hs⟩ := start_calls cal {} .standard Bank.device
    ((Bank.without []).set .effectDuration " 577\n") Bank.device
    ((Bank.without [.state]).set .effectDuration " 577\n")
  obtain ⟨hv, hc⟩ := hs (hf.trans hl.symm)
  obtain rfl := List.singleton_inj.mp (hf.symm.trans ha)
  have hr : Text.readWord? (Text.trim " 577\n".toList) = some 577 := by decide
  refine ⟨hf, hl, hv, hc, ?_⟩
  rw [hm _ 577 rfl hr (by decide), ← Waveform.samplesToMs_eq_ceil]
  rfl

end Controller

end Rumble
