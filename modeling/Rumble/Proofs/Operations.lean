import Rumble.Proofs.Performance
import Rumble.Proofs.Session

namespace Rumble

def Run.accesses {σ α : Type} (run : Run σ α) : List Access := run.calls.map Call.access

def Moment.accesses {ι σ : Type} (m : Moment ι σ) : List Access := m.calls.map Call.access

/-- The operation behind a request; a query of all capabilities stands for itself. -/
def Command.operation : Command → Operation
  | .on ms => .activate ms
  | .off => .deactivate
  | .setAmplitude a => .setAmplitude a
  | .setExternalControl b => .setExternalControl b
  | .perform e s => .performEffect e s
  | .queryCapabilities => .handle .queryCapabilities

/-- The operation whose calls an operation makes. -/
def Operation.direct : Operation → Operation
  | .perform e s => .performEffect e s
  | .handle command => command.operation
  | op => op

theorem Operation.direct_direct (op : Operation) : op.direct.direct = op.direct := by
  cases op with
  | handle command => cases command <;> rfl
  | _ => rfl

theorem Run.accesses_map {σ α β : Type} (device : Device σ) (f : α → β) (p : Program α) (st : σ) :
    ((f <$> p).run device st).accesses = (p.run device st).accesses := by
  rw [accesses, Program.run_map]
  rfl

def Answer.failure? : Answer → Option Failure
  | .result (.error f) | .duration (.error f) | .performed (.failed f) _ => some f
  | .outcome (.status (.failed f)) | .outcome (.performed (.failed f) _) => some f
  | _ => none

theorem Answer.failure?_status (x : Except Failure Unit) :
    (Answer.outcome (.status (.ofResult x))).failure? = (Answer.result x).failure? := by
  cases x <;> rfl

theorem Answer.failure?_outcome (status : Status) (ms : UInt32) :
    (Answer.outcome (.performed status ms)).failure? = (Answer.performed status ms).failure? := by
  cases status <;> rfl

theorem Answer.failure?_performance (x : Except Failure UInt32) :
    (Answer.performed (Controller.performance x).1 (Controller.performance x).2).failure? =
      (Answer.duration x).failure? := by
  cases x <;> rfl

theorem Attenuation.exists_scale {amplitude maximum : UInt32} (h : amplitude ≠ 0)
    (hm : amplitude ≤ maximum) : ∃ n, scale amplitude maximum = .ok n := by
  have hn : ¬(amplitude = 0 ∨ maximum < amplitude) := by
    rw [not_or, UInt32.not_lt]
    exact ⟨h, hm⟩
  exact ⟨_, if_neg hn⟩

namespace Controller

open Program

variable {ι σ : Type} {c : Controller}

/-- What an operation can ask of a device, and in which order. -/
inductive Attempts (c : Controller) : Operation → List Access → Prop where
  | activate (ms : UInt32) :
    Attempts c (.activate ms) (Access.level .globalScale c.levels.overall ++
      [.word .effectIndex Waveform.longSlot,
        .word .duration (Waveform.addMs ms Waveform.coldStartMs), .write .activate "1"])
  | deactivate :
    Attempts c .deactivate
      (Access.level .globalScale VoltageTable.maximum ++ [.write .activate "0"])
  | setExternalControl (enabled : Bool) :
    Attempts c (.setExternalControl enabled)
      (Access.level .globalScale (if enabled then c.levels.overall else VoltageTable.maximum) ++
        [.write .aspEnable (if enabled then "1" else "0")])
  | unknown {e : Effect} {s : Strength} (absent : c.catalog.get? e = none) :
    Attempts c (.performEffect e s) []
  | refused {e : Effect} {s : Strength} {entry : Entry} {p : Playback} {q : Queue}
    (found : c.catalog.get? e = some entry) (resolved : c.catalog.resolve c.levels e s = .ok p)
    (serves : p.Serves entry) (queued : p.queue = some q) :
    Attempts c (.performEffect e s) [.write .effectQueue q.text]
  | played {e : Effect} {s : Strength} {entry : Entry} {p : Playback}
    (found : c.catalog.get? e = some entry) (resolved : c.catalog.resolve c.levels e s = .ok p)
    (serves : p.Serves entry) : Attempts c (.performEffect e s) p.accesses
  | zeroAmplitude : Attempts c (.setAmplitude 0) []
  | amplitudeRefused (a : UInt8) : Attempts c (.setAmplitude a) [.read .aspEnable]
  | setAmplitude (a : UInt8) (n : UInt32) :
    Attempts c (.setAmplitude a) [.read .aspEnable, .word .effectScale n]
  | lacksAmplitude : Attempts c .supportsAmplitudeControl [.has .effectScale]
  | supportsAmplitudeControl :
    Attempts c .supportsAmplitudeControl [.has .effectScale, .read .aspEnable]
  | supportsExternalControl : Attempts c .supportsExternalControl [.has .aspEnable]
  | isUnderExternalControl : Attempts c .isUnderExternalControl [.read .aspEnable]
  | queryCapabilities {as : List Access} (amplitude : Attempts c .supportsAmplitudeControl as) :
    Attempts c (.handle .queryCapabilities) (as ++ [.has .aspEnable])

/-! ### Amplitude -/

theorem exists_scale_amplitude {a : UInt8} (h : a ≠ 0) :
    ∃ n, Attenuation.scale a.toUInt32 amplitudeMaximum = .ok n := by
  apply Attenuation.exists_scale
  · intro hz
    have hn : a.toUInt32.toNat = 0 := congrArg UInt32.toNat hz
    rw [UInt8.toNat_toUInt32] at hn
    exact h (UInt8.toNat_inj.mp hn)
  · have hm : amplitudeMaximum.toNat = 255 := rfl
    rw [UInt32.le_iff_toNat_le, UInt8.toNat_toUInt32, hm]
    exact Nat.le_of_lt_succ a.toNat_lt

/-- An amplitude other than zero is on the scale of callers, so only the external control and the
write can refuse it. -/
theorem run_setAmplitude {a : UInt8} {n : UInt32} (h : a ≠ 0)
    (hn : Attenuation.scale a.toUInt32 amplitudeMaximum = .ok n) (device : Device σ) (st : σ) :
    let flag := isUnderExternalControl.run device st
    let reply := device.write .effectScale (Text.showWord n) flag.state
    let run := (setAmplitude a).run device st
    (flag.value = true → run.value = .error .unsupportedOperation ∧ run.state = flag.state ∧
      run.calls = flag.calls) ∧
    (flag.value = false → run.value = reply.answer.mapError (fun _ => .unknownError) ∧
      run.state = reply.state ∧
      run.calls = flag.calls ++ [.write .effectScale (Text.showWord n) reply.answer]) := by
  intro flag reply run
  have hr : run = (isUnderExternalControl >>= fun external =>
      if external then pure (.error .unsupportedOperation)
      else setEffectAmplitude a.toUInt32 amplitudeMaximum).run device st := by
    simp only [run, setAmplitude, if_neg h]
  constructor
  · intro hf
    simp only [hr, run_bind, flag] at hf ⊢
    simp only [hf, if_true, run_pure, List.append_nil, and_self]
  · intro hf
    simp only [hr, run_bind, flag, reply] at hf ⊢
    simp only [hf, Bool.false_eq_true, if_false, setEffectAmplitude, hn, run_bind, writeWord,
      run_writeText, value_require, state_require, calls_require, List.append_nil, and_self]

theorem attempts_setAmplitude (c : Controller) (a : UInt8) (device : Device σ) (st : σ) :
    Attempts c (.setAmplitude a) ((c.operate (.setAmplitude a)).run device st).accesses := by
  rw [operate, Run.accesses_map]
  by_cases h : a = 0
  · subst h
    exact .zeroAmplitude
  · obtain ⟨n, hn⟩ := exists_scale_amplitude h
    obtain ⟨he, hf⟩ := run_setAmplitude h hn device st
    have hr := makes_isUnderExternalControl.calls_run device st
    rw [Run.accesses]
    cases hv : (Controller.isUnderExternalControl.run device st).value with
    | true =>
      rw [(he hv).2.2, hr, Device.map_access_calls]
      exact .amplitudeRefused a
    | false =>
      rw [(hf hv).2.2, List.map_append, hr, Device.map_access_calls]
      exact .setAmplitude a n

theorem run_supportsAmplitudeControl (device : Device σ) (st : σ) :
    let flag := isUnderExternalControl.run device st
    let run := supportsAmplitudeControl.run device st
    run.value = (device.has .effectScale st && !flag.value) ∧
      run.calls = .has .effectScale (device.has .effectScale st) ::
        if device.has .effectScale st then flag.calls else [] := by
  intro flag run
  simp only [run, supportsAmplitudeControl, run_bind, hasRegister, Program.run,
    List.singleton_append]
  by_cases h : device.has .effectScale st = true
  · simp only [h, if_true, run_bind, run_pure, flag, Bool.true_and, List.append_nil, and_self]
  · rw [Bool.not_eq_true] at h
    simp only [h, Bool.false_eq_true, if_false, run_pure, Bool.false_and, and_self]

theorem attempts_supportsAmplitudeControl (c : Controller) (device : Device σ) (st : σ) :
    Attempts c .supportsAmplitudeControl
      ((c.operate .supportsAmplitudeControl).run device st).accesses := by
  have hr := makes_isUnderExternalControl.calls_run device st
  rw [operate, Run.accesses_map, Run.accesses, (run_supportsAmplitudeControl device st).2,
    List.map_cons]
  cases device.has .effectScale st with
  | true =>
    rw [if_pos rfl, hr, Device.map_access_calls]
    exact .supportsAmplitudeControl
  | false => exact .lacksAmplitude

/-! ### Effects -/

theorem attempts_performEffect (c : Controller) (e : Effect) (s : Strength) (device : Device σ)
    (st : σ) :
    Attempts c (.performEffect e s) ((c.operate (.performEffect e s)).run device st).accesses := by
  rw [operate, Run.accesses_map, Run.accesses]
  rcases performEffect_cases c e s device st with ⟨he, hc, -⟩ | ⟨entry, p, he, hp, hs, h⟩
  · rw [hc]
    exact .unknown he
  · rcases h with ⟨q, fault, hq, -, hc, -⟩ | ⟨-, hc, -⟩
    · rw [hc]
      exact .refused he hp hs hq
    · rw [hc, Device.map_access_calls]
      exact .played he hp hs

/-! ### Operations -/

/-- An operation makes the calls of the direct one, leaves the device as that leaves it, and fails
for the same reason. -/
theorem run_direct (c : Controller) (op : Operation) (device : Device σ) (st : σ) :
    let run := (c.operate op).run device st
    let run' := (c.operate op.direct).run device st
    run.calls = run'.calls ∧ run.state = run'.state ∧
      run.value.failure? = run'.value.failure? := by
  dsimp only
  cases op with
  | perform e s =>
    simp only [operate, Operation.direct, perform_eq_map, run_map, Answer.failure?_performance,
      and_self]
  | handle command =>
    cases command with
    | on | off | setAmplitude | setExternalControl =>
      simp only [operate, Operation.direct, Command.operation, handle, run_map, run_bind, run_pure,
        List.append_nil, Answer.failure?_status, and_self]
    | perform e s =>
      simp only [operate, Operation.direct, Command.operation, handle_perform_eq_map,
        perform_eq_map, run_map, Answer.failure?_outcome, Answer.failure?_performance, and_self]
    | queryCapabilities => exact ⟨rfl, rfl, rfl⟩
  | _ => exact ⟨rfl, rfl, rfl⟩

theorem attempts_of_makes {α : Type} {p : Program α} {as : List Access} {op : Operation}
    (hp : p.Makes as) (h : Attempts c op as) (device : Device σ) (st : σ) :
    Attempts c op (p.run device st).accesses := by
  rw [Run.accesses, hp.calls_run, Device.map_access_calls]
  exact h

theorem attempts_of_direct_eq {op : Operation} (hd : op.direct = op) (device : Device σ) (st : σ) :
    Attempts c op ((c.operate op).run device st).accesses := by
  cases op with
  | activate ms => exact attempts_of_makes ((c.makes_activate ms).map _) (.activate ms) device st
  | deactivate => exact attempts_of_makes (c.makes_deactivate.map _) .deactivate device st
  | setAmplitude a => exact attempts_setAmplitude c a device st
  | setExternalControl b =>
    exact attempts_of_makes ((c.makes_setExternalControl b).map _) (.setExternalControl b) device st
  | performEffect e s => exact attempts_performEffect c e s device st
  | perform e s => cases hd
  | supportsAmplitudeControl => exact attempts_supportsAmplitudeControl c device st
  | supportsExternalControl =>
    exact attempts_of_makes (makes_supportsExternalControl.map _) .supportsExternalControl device st
  | isUnderExternalControl =>
    exact attempts_of_makes (makes_isUnderExternalControl.map _) .isUnderExternalControl device st
  | handle command =>
    cases command with
    | queryCapabilities =>
      have ha := attempts_supportsAmplitudeControl c device st
      rw [operate, Run.accesses_map] at ha
      have hs := makes_supportsExternalControl.calls_run device
        (Controller.supportsAmplitudeControl.run device st).state
      simp only [Run.accesses, operate, handle, run_map, run_bind, run_pure, List.append_nil,
        List.map_append, hs, Device.map_access_calls]
      exact .queryCapabilities ha
    | _ => cases hd

/-- Every operation on every device goes in one of the ways that `Attempts` lists. -/
theorem attempts_operate (c : Controller) (op : Operation) (device : Device σ) (st : σ) :
    Attempts c op.direct ((c.operate op).run device st).accesses := by
  rw [Run.accesses, (run_direct c op device st).1]
  exact attempts_of_direct_eq op.direct_direct device st

theorem attempts_of_mem_session {device : Device σ} {outside : ι → σ → σ}
    {events : List (Event ι)} {st : σ} {m : Moment ι σ} {op : Operation}
    (hm : m ∈ c.session device outside events st) (ho : m.event = .ask op) :
    Attempts c op.direct m.accesses := by
  rw [Moment.accesses, (ask_of_mem_session hm ho).1]
  exact attempts_operate c op device m.before

theorem exists_attempts_of_mem_accesses {device : Device σ} {outside : ι → σ → σ}
    {events : List (Event ι)} {st : σ} {m : Moment ι σ} {a : Access}
    (hm : m ∈ c.session device outside events st) (ha : a ∈ m.accesses) :
    ∃ op, m.event = .ask op ∧ Attempts c op.direct m.accesses := by
  cases he : m.event with
  | ask op => exact ⟨op, rfl, attempts_of_mem_session hm he⟩
  | outside i =>
    have hc : m.calls = [] := by
      rw [eq_moment_of_mem_session hm, he]
      rfl
    rw [Moment.accesses, hc] at ha
    cases ha

end Controller

end Rumble
