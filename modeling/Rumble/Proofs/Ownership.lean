import Rumble.Proofs.Operations
import Rumble.Proofs.PerformStatus

namespace Rumble

/-- The operations that may write a value to a register once the driver is up, for the catalog that
it came up with. -/
def Register.WrittenBy (r : Register) (catalog : Catalog) (op : Operation) (value : String) :
    Prop :=
  match r with
  | .aspEnable =>
    ∃ enabled, op = .setExternalControl enabled ∧ value = if enabled then "1" else "0"
  | .effectQueue =>
    ∃ e s, op = .performEffect e s ∧
      ∃ entry, catalog.get? e = some entry ∧ entry.isSimple = false
  | .effectScale => (∃ e s, op = .performEffect e s) ∨ ∃ a, op = .setAmplitude a
  | .globalScale =>
    (∃ ms, op = .activate ms) ∨ op = .deactivate ∨ ∃ enabled, op = .setExternalControl enabled
  | .effectIndex | .duration => (∃ ms, op = .activate ms) ∨ ∃ e s, op = .performEffect e s
  | .activate =>
    value = "1" ∧ ((∃ ms, op = .activate ms) ∨ ∃ e s, op = .performEffect e s) ∨
      value = "0" ∧ op = .deactivate
  | .state | .f0 | .redc | .q | .gpioFallIndex | .gpioFallScale | .gpioRiseIndex
  | .gpioRiseScale | .effectDuration => False

def Operation.isQuery : Operation → Bool
  | .supportsAmplitudeControl | .supportsExternalControl | .isUnderExternalControl => true
  | .handle .queryCapabilities => true
  | _ => false

theorem Operation.isQuery_direct (op : Operation) : op.direct.isQuery = op.isQuery := by
  cases op with
  | handle command => cases command <;> rfl
  | _ => rfl

def Access.triggering (slot durationMs : UInt32) : List Access :=
  [.word .effectIndex slot, .word .duration durationMs, .write .activate "1"]

theorem Access.register_of_mem_level {r r' : Register} {l : UInt32} {value : String}
    (h : .write r' value ∈ level r l) : r' = r := by
  obtain ⟨n, hn⟩ := eq_word_of_mem_level h
  exact (Access.write.inj hn).1

theorem Access.write_of_mem_triggering {r : Register} {slot durationMs : UInt32} {value : String}
    (h : .write r value ∈ triggering slot durationMs) :
    r = .effectIndex ∨ r = .duration ∨ r = .activate ∧ value = "1" := by
  simp only [triggering, word, List.mem_cons, List.not_mem_nil, or_false, write.injEq] at h
  rcases h with ⟨h, -⟩ | ⟨h, -⟩ | h
  · exact .inl h
  · exact .inr (.inl h)
  · exact .inr (.inr h)

theorem Access.read_not_mem_level (r r' : Register) (l : UInt32) : .read r ∉ level r' l := by
  intro h
  obtain ⟨n, hn⟩ := eq_word_of_mem_level h
  cases hn

theorem Access.write_activate_not_mem_level {r : Register} (h : r ≠ .activate) (l : UInt32)
    (value : String) : .write .activate value ∉ level r l :=
  fun hm => h (register_of_mem_level hm).symm

namespace Playback

/-- The accesses of a playback before it is triggered. -/
def preparation (p : Playback) : List Access :=
  p.queue.toList.map (fun q => .write .effectQueue q.text) ++ Access.level .effectScale p.volume

theorem accesses_eq (p : Playback) :
    p.accesses = p.preparation ++
      Access.triggering (if p.queue.isSome then 65534 else 2) p.durationMs := by
  rw [accesses, preparation, Access.triggering, List.append_assoc]

theorem write_of_mem_preparation {p : Playback} {r : Register} {value : String}
    (h : .write r value ∈ p.preparation) :
    r = .effectQueue ∧ p.queue ≠ none ∨ r = .effectScale := by
  rw [preparation, List.mem_append] at h
  rcases h with h | h
  · obtain ⟨q, hq, he⟩ := List.mem_map.mp h
    rw [Option.mem_toList] at hq
    exact .inl ⟨(Access.write.inj he).1.symm, by simp [hq]⟩
  · exact .inr (Access.register_of_mem_level h)

end Playback

namespace Controller

open Program

variable {ι σ : Type} {c : Controller} {op : Operation} {as : List Access}

theorem isSimple_eq_false_of_queued {entry : Entry} {p : Playback} (hs : p.Serves entry)
    (hq : p.queue ≠ none) : entry.isSimple = false := by
  have hn := mt hs.queue_eq_none_iff.mpr hq
  rwa [Bool.not_eq_true] at hn

/-- Every way in which an operation can go keeps to the table of owners. -/
theorem writtenBy_of_attempts {r : Register} {value : String} (h : Attempts c op as)
    (hw : .write r value ∈ as) : r.WrittenBy c.catalog op value := by
  cases h with
  | activate ms =>
    rcases List.mem_append.mp hw with hw | hw
    · obtain rfl := Access.register_of_mem_level hw
      exact .inl ⟨ms, rfl⟩
    · rcases Access.write_of_mem_triggering hw with rfl | rfl | ⟨rfl, rfl⟩
      · exact .inl ⟨ms, rfl⟩
      · exact .inl ⟨ms, rfl⟩
      · exact .inl ⟨rfl, .inl ⟨ms, rfl⟩⟩
  | deactivate =>
    rcases List.mem_append.mp hw with hw | hw
    · obtain rfl := Access.register_of_mem_level hw
      exact .inr (.inl rfl)
    · cases List.mem_singleton.mp hw
      exact .inr ⟨rfl, rfl⟩
  | setExternalControl enabled =>
    rcases List.mem_append.mp hw with hw | hw
    · obtain rfl := Access.register_of_mem_level hw
      exact .inr (.inr ⟨enabled, rfl⟩)
    · cases List.mem_singleton.mp hw
      exact ⟨enabled, rfl, rfl⟩
  | @refused e s entry p q found _ serves queued =>
    cases List.mem_singleton.mp hw
    exact ⟨e, s, rfl, entry, found, isSimple_eq_false_of_queued serves (by simp [queued])⟩
  | @played e s entry p found _ serves =>
    rw [p.accesses_eq, List.mem_append] at hw
    rcases hw with hw | hw
    · rcases Playback.write_of_mem_preparation hw with ⟨rfl, hq⟩ | rfl
      · exact ⟨e, s, rfl, entry, found, isSimple_eq_false_of_queued serves hq⟩
      · exact .inl ⟨e, s, rfl⟩
    · rcases Access.write_of_mem_triggering hw with rfl | rfl | ⟨rfl, rfl⟩
      · exact .inr ⟨e, s, rfl⟩
      · exact .inr ⟨e, s, rfl⟩
      · exact .inl ⟨rfl, .inr ⟨e, s, rfl⟩⟩
  | setAmplitude a n =>
    simp only [List.mem_cons, List.not_mem_nil, or_false, reduceCtorEq, false_or] at hw
    cases hw
    exact .inr ⟨a, rfl⟩
  | queryCapabilities amplitude =>
    -- What is asked of the device on the way has no writes.
    cases amplitude <;> simp at hw
  | _ => simp at hw

theorem triggering_of_attempts (h : Attempts c op as) (hw : .write .activate "1" ∈ as) :
    ∃ front slot ms, as = front ++ Access.triggering slot ms ∧
      ∀ value, .write .activate value ∉ front := by
  cases h with
  | activate ms =>
    exact ⟨_, _, _, rfl, Access.write_activate_not_mem_level (by decide) _⟩
  | deactivate | setExternalControl =>
    rcases List.mem_append.mp hw with hw | hw
    · exact absurd hw (Access.write_activate_not_mem_level (by decide) _ _)
    · simp at hw
  | @played e s entry p =>
    refine ⟨_, _, _, p.accesses_eq, ?_⟩
    intro value hm
    rcases Playback.write_of_mem_preparation hm with ⟨hr, -⟩ | hr <;> cases hr
  | setAmplitude a n => simp [Access.word] at hw
  | queryCapabilities amplitude => cases amplitude <;> simp at hw
  | _ => simp at hw

/-- Of all registers an operation reads the flag of external control only. -/
theorem eq_aspEnable_of_attempts {r : Register} (h : Attempts c op as) (hr : .read r ∈ as) :
    r = .aspEnable := by
  cases h with
  | activate | deactivate | setExternalControl =>
    simp [Access.read_not_mem_level, Access.word] at hr
  | played => cases Playback.isWrite_of_mem_accesses hr
  | unknown | refused | zeroAmplitude | lacksAmplitude | supportsExternalControl => simp at hr
  | amplitudeRefused | supportsAmplitudeControl | isUnderExternalControl => simpa using hr
  | setAmplitude => simpa [Access.word] using hr
  | queryCapabilities amplitude =>
    cases amplitude with
    | lacksAmplitude => simp at hr
    | supportsAmplitudeControl => simpa using hr

theorem isWrite_eq_false_of_query (h : Attempts c op as) (hq : op.isQuery) :
    ∀ a ∈ as, a.isWrite = false := by
  cases h with
  | queryCapabilities amplitude => cases amplitude <;> simp [Access.isWrite]
  | lacksAmplitude | supportsAmplitudeControl | supportsExternalControl
  | isUnderExternalControl => simp [Access.isWrite]
  | _ => cases hq

/-! ### Sessions -/

/-- Measuring changes no owner: an effect has a queue after it if and only if it had one before. -/
theorem writtenBy_of_measured {r : Register} {catalog : Catalog}
    {answer : Except ChannelError String} {value : String}
    (h : r.WrittenBy (catalog.measured answer) op value) : r.WrittenBy catalog op value := by
  cases r with
  | effectQueue =>
    obtain ⟨e, s, ho, hq⟩ := h
    exact ⟨e, s, ho, Catalog.exists_queued_measured_iff.mp hq⟩
  | _ => exact h

theorem register_of_mem_startAccesses {cal : Calibration} {r : Register} {value : String}
    (h : .write r value ∈ cal.startAccesses) :
    r ∈ [Register.state, .f0, .redc, .q, .effectIndex, .gpioFallIndex, .gpioFallScale,
      .gpioRiseIndex, .gpioRiseScale] := by
  have ho {r' : Register} {n : Option UInt32} (hm : .write r value ∈ Access.optional r' n) :
      r = r' := by
    obtain ⟨m, hm⟩ := Access.eq_word_of_mem_optional hm
    exact (Access.write.inj hm).1
  simp only [startAccesses_eq, prepareAccesses, edgeAccesses, List.mem_append, List.mem_cons,
    Access.word, Access.write.injEq, reduceCtorEq, false_or, List.not_mem_nil, or_false] at h
  rcases h with (⟨rfl, -⟩ | h | h | ⟨rfl, -⟩ | ⟨rfl, -⟩) | ⟨rfl, -⟩ | h | ⟨rfl, -⟩ | h
  · simp
  · simp [ho h]
  · simp [ho h]
  · simp
  · simp
  · simp
  · simp [Access.register_of_mem_level h]
  · simp
  · simp [Access.register_of_mem_level h]

/-- After the startup a register is written by its owners alone, on every device and at every moment
of a session: the table leaves eight of the registers that the startup writes to it alone, and
nothing ever writes the register of the waveform length. An operation starts playing with its last
access, after the slot and the duration, nothing but the flag of external control is read, and
queries write nothing. -/
theorem register_ownership (cal : Calibration) (remarks : Calibration.Remarks)
    (catalog : Catalog) (device : Device σ) (outside : ι → σ → σ) (events : List (Event ι))
    (st : σ) :
    let startup := (start cal remarks catalog).run device st
    (∀ value, .write .effectDuration value ∉ startup.accesses) ∧
      ∀ m ∈ sessionFrom cal remarks catalog device outside events st,
        ∀ op, m.event = .ask op →
          (∀ r value, .write r value ∈ m.accesses → r.WrittenBy catalog op.direct value) ∧
          (.write .activate "1" ∈ m.accesses →
            ∃ front slot ms, m.accesses = front ++
              [.word .effectIndex slot, .word .duration ms, .write .activate "1"] ∧
              ∀ value, .write .activate value ∉ front) ∧
          (∀ r, .read r ∈ m.accesses → r = .aspEnable) ∧
          (op.isQuery → ∀ a ∈ m.accesses, a.isWrite = false) := by
  intro startup
  constructor
  · intro value
    rw [Run.accesses, (makes_start cal remarks catalog).calls_run, Device.map_access_calls]
    intro h
    simpa using register_of_mem_startAccesses h
  · intro m hm op ho
    have h := attempts_of_mem_session hm ho
    refine ⟨?_, triggering_of_attempts h, fun r => eq_aspEnable_of_attempts h, ?_⟩
    · intro r value hw
      have hr := writtenBy_of_attempts h hw
      rw [value_start] at hr
      exact writtenBy_of_measured hr
    · intro hq
      rw [← op.isQuery_direct] at hq
      exact isWrite_eq_false_of_query h hq

/-- A tick that is asked for by request triggers last. -/
theorem register_ownership_tick :
    let moments := sessionFrom ⟨none, none, 0, some ⟨#v[0, 0, 0, 0, 0, 0]⟩⟩ {} .standard
      Bank.device (fun (_ : Unit) b => b)
      [.ask (.handle (.perform .tick .light)), .ask .isUnderExternalControl]
      (Bank.without [.state])
    ∃ m₁ m₂, moments = [m₁, m₂] ∧
      (∃ front slot ms, m₁.accesses = front ++
        [.word .effectIndex slot, .word .duration ms, .write .activate "1"]) ∧
      .read .aspEnable ∈ m₂.accesses ∧ ∀ a ∈ m₂.accesses, a.isWrite = false := by
  intro moments
  obtain ⟨-, h⟩ := register_ownership ⟨none, none, 0, some ⟨#v[0, 0, 0, 0, 0, 0]⟩⟩ {} .standard
    Bank.device (fun (_ : Unit) b => b)
    [.ask (.handle (.perform .tick .light)), .ask .isUnderExternalControl] (Bank.without [.state])
  have h1 : moments[0] ∈ moments := List.getElem_mem _
  have h2 : moments[1] ∈ moments := List.getElem_mem _
  obtain ⟨-, ht, -, -⟩ := h _ h1 _ rfl
  obtain ⟨-, -, -, hq⟩ := h _ h2 _ rfl
  have hw : .write .activate "1" ∈ moments[0].accesses := by decide
  obtain ⟨front, slot, ms, hf, -⟩ := ht hw
  exact ⟨moments[0], moments[1], rfl, ⟨front, slot, ms, hf⟩, List.mem_singleton_self _, hq rfl⟩

end Controller

end Rumble
