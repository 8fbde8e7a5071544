import Rumble.Proofs.Alike
import Rumble.Proofs.BankHistory
import Rumble.Proofs.SheetLines

namespace Rumble

/-- The keys of a sheet that decide what the startup does to a register. -/
def Register.sheetKeys : Register → List String
  | .f0 => [Calibration.Sheet.f0Key]
  | .redc => [Calibration.Sheet.redcKey]
  | .q => [Calibration.Sheet.qKey, Calibration.Sheet.qIndexKey]
  | .gpioFallScale | .gpioRiseScale => [Calibration.Sheet.levelsKey]
  | _ => []

/-- The registers that are accessed once the driver is up. -/
def Register.inUse : List Register :=
  [.activate, .duration, .effectIndex, .effectQueue, .effectScale, .globalScale, .aspEnable]

/-! ### Values of a sheet -/

namespace Calibration.Sheet

variable {s s' : Sheet} {key : String}

theorem number?_congr (h : s.raw? key = s'.raw? key) : s.number? key = s'.number? key := by
  rw [number?, number?, h]

theorem q_congr (hq : s.raw? qKey = s'.raw? qKey) (hi : s.raw? qIndexKey = s'.raw? qIndexKey) :
    s.q = s'.q := by
  rw [q, q, number?_congr hq, number?_congr hi]

theorem levels_congr (h : s.raw? levelsKey = s'.raw? levelsKey) : s.levels = s'.levels := by
  rw [levels, levels, h]

theorem levels?_congr (h : s.raw? levelsKey = s'.raw? levelsKey) : s.levels? = s'.levels? :=
  congrArg Except.toOption (levels_congr h)

theorem levels_values_congr (h : s.raw? levelsKey = s'.raw? levelsKey) :
    s.values.levels = s'.values.levels := levels?_congr h

theorem numberRemarks_congr (h : s.raw? key = s'.raw? key) :
    s.numberRemarks key = s'.numberRemarks key := by
  rw [numberRemarks, numberRemarks, number?_congr h, h]

theorem qRemarks_congr (hq : s.raw? qKey = s'.raw? qKey)
    (hi : s.raw? qIndexKey = s'.raw? qIndexKey) : s.qRemarks = s'.qRemarks := by
  rw [qRemarks, qRemarks, numberRemarks_congr hq, numberRemarks_congr hi, number?_congr hq,
    number?_congr hi, hi]

variable (h : ∀ key ∈ keys, s.raw? key = s'.raw? key)
include h

theorem values_congr : s.values = s'.values := by
  have hf : s.f0? = s'.f0? := number?_congr (h f0Key (by simp [keys]))
  have hr : s.redc? = s'.redc? := number?_congr (h redcKey (by simp [keys]))
  have hq : s.q = s'.q := q_congr (h qKey (by simp [keys])) (h qIndexKey (by simp [keys]))
  have hl : s.levels? = s'.levels? := levels?_congr (h levelsKey (by simp [keys]))
  rw [values, values, hf, hr, hq, hl]

theorem remarks_congr : s.remarks = s'.remarks := by
  have hl : s.levelsRemarks = s'.levelsRemarks := by
    rw [levelsRemarks, levelsRemarks, levels_congr (h levelsKey (by simp [keys]))]
  rw [remarks, remarks, numberRemarks_congr (h f0Key (by simp [keys])),
    numberRemarks_congr (h redcKey (by simp [keys])),
    qRemarks_congr (h qKey (by simp [keys])) (h qIndexKey (by simp [keys])), hl]

end Calibration.Sheet

/-! ### Accesses by register -/

theorem Access.register_eq_of_mem_optional {r : Register} {n : Option UInt32} {a : Access}
    (h : a ∈ optional r n) : a.register = r := by
  obtain ⟨m, rfl⟩ := eq_word_of_mem_optional h
  rfl

theorem Access.register_eq_of_mem_level {r : Register} {l : UInt32} {a : Access}
    (h : a ∈ level r l) : a.register = r := by
  obtain ⟨n, rfl⟩ := eq_word_of_mem_level h
  rfl

theorem Access.register_eq_of_mem_word {r : Register} {n : UInt32} {a : Access}
    (h : a ∈ [word r n]) : a.register = r := by
  rw [List.mem_singleton.mp h]
  rfl

theorem Access.has_not_mem_level (r r' : Register) (l : UInt32) : .has r ∉ level r' l := by
  intro h
  obtain ⟨n, hn⟩ := eq_word_of_mem_level h
  cases hn

theorem Access.filter_register_congr {r : Register} {rs : List Register} {as as' : List Access}
    (h : ∀ a ∈ as, a.register = r) (h' : ∀ a ∈ as', a.register = r) (hr : r ∈ rs → as = as') :
    as.filter (·.register ∈ rs) = as'.filter (·.register ∈ rs) := by
  by_cases hm : r ∈ rs
  · rw [hr hm]
  · have hn {bs : List Access} (hb : ∀ a ∈ bs, a.register = r) :
        bs.filter (·.register ∈ rs) = [] := by
      rw [List.filter_eq_nil_iff]
      intro a ha
      rw [hb a ha, decide_eq_true_iff]
      exact hm
    rw [hn h, hn h']

theorem Access.lastText?_filter {r : Register} {rs : List Register} (h : r ∈ rs)
    (as : List Access) : lastText? r (as.filter (·.register ∈ rs)) = lastText? r as := by
  have ht (a : Access) : (if decide (a.register ∈ rs) then a.text? r else none) = a.text? r := by
    cases a with
    | write r' value =>
      by_cases hr : r' = r
      · subst hr
        exact if_pos (decide_eq_true h)
      · have hn : (write r' value).text? r = none := if_neg hr
        rw [hn, ite_self]
    | _ => exact ite_self _
  rw [lastText?, List.filterMap_filter, funext ht, lastText?]

/-- What the startup does to some registers depends on their values alone. -/
theorem Calibration.filter_startAccesses_congr {cal cal' : Calibration} {rs : List Register}
    (hf : .f0 ∈ rs → cal.f0 = cal'.f0) (hr : .redc ∈ rs → cal.redc = cal'.redc)
    (hq : .q ∈ rs → cal.q = cal'.q) (hfall : .gpioFallScale ∈ rs → cal.levels = cal'.levels)
    (hrise : .gpioRiseScale ∈ rs → cal.levels = cal'.levels) :
    cal.startAccesses.filter (·.register ∈ rs) = cal'.startAccesses.filter (·.register ∈ rs) := by
  have ho {r : Register} {n n' : Option UInt32} (h : r ∈ rs → n = n') :
      (Access.optional r n).filter (·.register ∈ rs) =
        (Access.optional r n').filter (·.register ∈ rs) :=
    Access.filter_register_congr (fun _ => Access.register_eq_of_mem_optional)
      (fun _ => Access.register_eq_of_mem_optional) fun hm => by rw [h hm]
  have hq' (as : List Access) : (Access.word .q cal.q :: as).filter (·.register ∈ rs) =
      (Access.word .q cal'.q :: as).filter (·.register ∈ rs) := by
    have hs : [Access.word .q cal.q].filter (·.register ∈ rs) =
        [Access.word .q cal'.q].filter (·.register ∈ rs) :=
      Access.filter_register_congr (fun _ => Access.register_eq_of_mem_word)
        (fun _ => Access.register_eq_of_mem_word) fun h => by rw [hq h]
    have ha (n : UInt32) : (Access.word .q n :: as).filter (·.register ∈ rs) =
        [Access.word .q n].filter (·.register ∈ rs) ++ as.filter (·.register ∈ rs) :=
      List.filter_append [Access.word .q n] as
    rw [ha, ha, hs]
  have hl' {r : Register} (i : Fin 6) (hr : r ∈ rs → cal.levels = cal'.levels) :
      (Access.level r ((cal.levels.getD .standard).levels.get i)).filter (·.register ∈ rs) =
        (Access.level r ((cal'.levels.getD .standard).levels.get i)).filter
          (·.register ∈ rs) :=
    Access.filter_register_congr (fun _ => Access.register_eq_of_mem_level)
      (fun _ => Access.register_eq_of_mem_level) fun h => by rw [hr h]
  simp only [startAccesses, List.filter_append, ho hf, ho hr, hq', hl' 2 hfall, hl' 3 hrise]

namespace Controller

open Program Calibration

variable {ι σ τ : Type} {c : Controller}

theorem eq_effectScale_or_aspEnable_of_attempts {op : Operation} {as : List Access}
    (h : c.Attempts op as) {r : Register} (hr : .has r ∈ as) :
    r = .effectScale ∨ r = .aspEnable := by
  cases h with
  | activate | deactivate | setExternalControl =>
    simp [Access.has_not_mem_level, Access.word] at hr
  | played => cases Playback.isWrite_of_mem_accesses hr
  | unknown | refused | zeroAmplitude | amplitudeRefused | isUnderExternalControl => simp at hr
  | setAmplitude => simp [Access.word] at hr
  | lacksAmplitude | supportsAmplitudeControl => exact .inl (by simpa using hr)
  | supportsExternalControl => exact .inr (by simpa using hr)
  | queryCapabilities amplitude =>
    cases amplitude with
    | lacksAmplitude | supportsAmplitudeControl => simpa using hr

theorem register_mem_inUse {op : Operation} {as : List Access} (h : c.Attempts op as) {a : Access}
    (ha : a ∈ as) : a.register ∈ Register.inUse := by
  cases a with
  | write r value =>
    have hw := writtenBy_of_attempts h ha
    -- A register that is not in use has no writers.
    by_contra hr
    cases r with
    | state | f0 | redc | q | gpioFallIndex | gpioFallScale | gpioRiseIndex | gpioRiseScale
    | effectDuration => exact hw
    | _ => simp [Access.register, Register.inUse] at hr
  | read r =>
    rw [eq_aspEnable_of_attempts h ha]
    simp [Access.register, Register.inUse]
  | has r =>
    rcases eq_effectScale_or_aspEnable_of_attempts h ha with rfl | rfl <;>
      simp [Access.register, Register.inUse]

/-- However a bank is calibrated, the startup leaves the registers in use alike. -/
theorem alike_startups (b : Bank) (cal cal' : Calibration) (remarks remarks' : Remarks)
    (catalog catalog' : Catalog) :
    Bank.device.Alike (·.register ∈ Register.inUse)
      ((start cal remarks catalog).run Bank.device b).state Bank.device
      ((start cal' remarks' catalog').run Bank.device b).state := by
  rw [(makes_start cal remarks catalog).state_run, (makes_start cal' remarks' catalog').state_run]
  apply Bank.alike_of_agree
  · intro r
    rw [Bank.has_after, Bank.has_after]
  · intro r (hr : r ∈ Register.inUse)
    have hf : cal.startAccesses.filter (·.register ∈ Register.inUse) =
        cal'.startAccesses.filter (·.register ∈ Register.inUse) := by
      -- None of the calibrated registers is in use.
      apply filter_startAccesses_congr <;> intro hm <;> simp [Register.inUse] at hm
    apply Bank.value?_after_congr
    rw [← Access.lastText?_filter hr, hf, Access.lastText?_filter hr]

theorem accesses_start (cal : Calibration) (remarks : Remarks) (catalog : Catalog)
    (device : Device σ) (st : σ) :
    ((start cal remarks catalog).run device st).accesses = cal.startAccesses := by
  rw [Run.accesses, (makes_start cal remarks catalog).calls_run, Device.map_access_calls]

/-- What the startup does to some registers depends on their keys alone. -/
theorem filter_accesses_of_sheets {sheet sheet' : Sheet} {rs : List Register}
    (h : ∀ r ∈ rs, ∀ key ∈ r.sheetKeys, sheet.raw? key = sheet'.raw? key) :
    sheet.values.startAccesses.filter (·.register ∈ rs) =
      sheet'.values.startAccesses.filter (·.register ∈ rs) := by
  have hn {r : Register} {key : String} (hr : r ∈ rs) (hk : r.sheetKeys = [key]) :
      sheet.raw? key = sheet'.raw? key :=
    h r hr key (by rw [hk]; exact List.mem_singleton_self key)
  apply filter_startAccesses_congr
  · intro hr
    exact Sheet.number?_congr (hn hr rfl)
  · intro hr
    exact Sheet.number?_congr (hn hr rfl)
  · intro hr
    exact Sheet.q_congr (h _ hr _ List.mem_cons_self)
      (h _ hr _ (List.mem_cons_of_mem _ List.mem_cons_self))
  · intro hr
    exact Sheet.levels?_congr (hn hr rfl)
  · intro hr
    exact Sheet.levels?_congr (hn hr rfl)

theorem readings_start_bank (cal : Calibration) (remarks : Remarks) (catalog : Catalog)
    (b : Bank) :
    ((start cal remarks catalog).run Bank.device b).calls.filterMap
      (Call.reading? .effectDuration) = [(Bank.device.read .effectDuration b).answer] := by
  have hv : (Bank.device.after (prepareAccesses cal) b).value? .effectDuration =
      b.value? .effectDuration := by
    apply Bank.value?_after
    intro value hm
    have hs : .write .effectDuration value ∈ cal.startAccesses := by
      rw [startAccesses_eq]
      exact List.mem_append_left _ hm
    simpa using register_of_mem_startAccesses hs
  rw [readings_start, Bank.answer_read_congr hv]

theorem value_start_congr {cal cal' : Calibration} (remarks remarks' : Remarks) (catalog : Catalog)
    (device : Device σ) (st : σ) (device' : Device τ) (st' : τ) (hl : cal.levels = cal'.levels)
    (hr : ((start cal remarks catalog).run device st).calls.filterMap
        (Call.reading? .effectDuration) =
      ((start cal' remarks' catalog).run device' st').calls.filterMap
        (Call.reading? .effectDuration)) :
    ((start cal remarks catalog).run device st).value =
      ((start cal' remarks' catalog).run device' st').value := by
  obtain ⟨answer, ha, hv⟩ := exists_reading_start cal remarks catalog device st
  obtain ⟨answer', ha', hv'⟩ := exists_reading_start cal' remarks' catalog device' st'
  obtain rfl := List.singleton_inj.mp (ha.symm.trans (hr.trans ha'))
  rw [hv, hv', hl]

/-- The values of a sheet do not affect each other, on any devices. What the startup does to some
registers depends on the keys of these registers alone. The same levels and the same length read at
startup make the same controller, whose operations are called and answered alike on devices that
cannot be told apart by the registers in use. And a line without a value that is looked up changes
nothing at all, wherever it is inserted. -/
theorem fields_independent (text text' : String) (catalog : Catalog) (device : Device σ) (st : σ)
    (device' : Device τ) (st' : τ) (outside : ι → σ → σ) :
    let sheet := Sheet.parse text
    let sheet' := Sheet.parse text'
    let startup := (start sheet.values sheet.remarks catalog).run device st
    let startup' := (start sheet'.values sheet'.remarks catalog).run device' st'
    let readings (calls : List Call) := calls.filterMap (Call.reading? .effectDuration)
    (∀ rs : List Register, (∀ r ∈ rs, ∀ key ∈ r.sheetKeys, sheet.raw? key = sheet'.raw? key) →
      startup.accesses.filter (·.register ∈ rs) = startup'.accesses.filter (·.register ∈ rs)) ∧
    (sheet.raw? Sheet.levelsKey = sheet'.raw? Sheet.levelsKey →
      startup.value.levels = startup'.value.levels ∧
      (readings startup.calls = readings startup'.calls →
        startup.value = startup'.value ∧
        (device.Alike (·.register ∈ Register.inUse) startup.state device' startup'.state →
          ∀ ops, (startup.value.asked device ops startup.state).map (fun m => (m.calls, m.answer)) =
            (startup'.value.asked device' ops startup'.state).map
              fun m => (m.calls, m.answer)))) ∧
    (∀ front line back : String, (front = "" ∨ front.toList.getLast? = some '\n') →
      '\n' ∉ line.toList → Sheet.IsIdle line.toList →
      let plain := Sheet.parse (front ++ back)
      let longer := Sheet.parse (front ++ line ++ "\n" ++ back)
      (start longer.values longer.remarks catalog).run device st =
          (start plain.values plain.remarks catalog).run device st ∧
        ∀ events, sessionFrom longer.values longer.remarks catalog device outside events st =
          sessionFrom plain.values plain.remarks catalog device outside events st) := by
  refine ⟨?_, ?_, ?_⟩
  · intro rs h
    rw [accesses_start, accesses_start]
    exact filter_accesses_of_sheets h
  · intro hs
    have hl := Sheet.levels_values_congr hs
    refine ⟨?_, ?_⟩
    · rw [value_start, value_start]
      exact congrArg (Option.getD · .standard) hl
    · intro hr
      have hc := value_start_congr _ _ catalog device st device' st' hl hr
      refine ⟨hc, ?_⟩
      intro halike ops
      rw [← hc]
      exact halike.asked (fun _ _ h _ => register_mem_inUse h) ops
  · intro front line back hf hn hi plain longer
    have hk : ∀ key ∈ Sheet.keys, longer.raw? key = plain.raw? key :=
      fun _ => Sheet.raw?_parse_insert back hf hn hi
    rw [Sheet.values_congr hk, Sheet.remarks_congr hk]
    exact ⟨rfl, fun _ => rfl⟩

/-- Two sheets of one unit, one of them without a resonance and with a quality index, agree on
everything but those two registers; and a comment changes nothing. -/
theorem fields_independent_of_bad_resonance :
    let sheet := Sheet.parse "f0_measured: 0x10\nv_levels: 1 2 3 4 5 6\n"
    let sheet' := Sheet.parse "f0_measured: fast\nq_index: 10\nv_levels: 1 2 3 4 5 6\n"
    let startup := (start sheet.values sheet.remarks .standard).run Bank.device (.without [])
    let startup' := (start sheet'.values sheet'.remarks .standard).run Bank.device (.without [])
    let rs := [Register.redc, .gpioFallIndex, .gpioFallScale, .gpioRiseIndex, .gpioRiseScale]
    sheet.f0? = some 16 ∧ sheet'.f0? = none ∧ sheet.q ≠ sheet'.q ∧
      startup.accesses.filter (·.register ∈ rs) = startup'.accesses.filter (·.register ∈ rs) ∧
      startup.value = startup'.value ∧
      (∀ ops, (startup.value.asked Bank.device ops startup.state).map
          (fun m => (m.calls, m.answer)) =
        (startup'.value.asked Bank.device ops startup'.state).map fun m => (m.calls, m.answer)) ∧
      let commented := Sheet.parse "redc_measured: 5\n# f0_measured: 7\nq_index: 10\n"
      let plain := Sheet.parse "redc_measured: 5\nq_index: 10\n"
      (start commented.values commented.remarks .standard).run Bank.device (.without []) =
        (start plain.values plain.remarks .standard).run Bank.device (.without []) := by
  intro sheet sheet' startup startup' rs
  obtain ⟨ha, hs, hi⟩ := fields_independent "f0_measured: 0x10\nv_levels: 1 2 3 4 5 6\n"
    "f0_measured: fast\nq_index: 10\nv_levels: 1 2 3 4 5 6\n"
    .standard Bank.device (.without []) Bank.device (.without []) (fun (_ : Unit) b => b)
  have hk : ∀ r ∈ rs, ∀ key ∈ r.sheetKeys, sheet.raw? key = sheet'.raw? key := by decide +kernel
  have hr : startup.calls.filterMap (Call.reading? .effectDuration) =
      startup'.calls.filterMap (Call.reading? .effectDuration) := by
    rw [readings_start_bank, readings_start_bank]
  obtain ⟨-, hv⟩ := hs (hk .gpioFallScale (by decide) _ List.mem_cons_self)
  obtain ⟨hv, ho⟩ := hv hr
  obtain ⟨hc, -⟩ := hi "redc_measured: 5\n" "# f0_measured: 7" "q_index: 10\n" (.inr rfl)
    (by decide) (.comment rfl)
  exact ⟨by decide +kernel, by decide +kernel, by decide +kernel, ha rs hk, hv,
    ho (alike_startups _ _ _ _ _ _ _), hc⟩

end Controller

end Rumble
