import Rumble.Bank
import Rumble.Proofs.Performance
import Rumble.Proofs.Session
import Rumble.Proofs.Startup

namespace Rumble

def Operation.performs? : Operation → Option (Effect × Strength)
  | .perform e s => some (e, s)
  | .handle (.perform e s) => some (e, s)
  | _ => none

def Answer.performance? : Answer → Option (Status × UInt32)
  | .performed status ms => some (status, ms)
  | .outcome (.performed status ms) => some (status, ms)
  | _ => none

namespace Moment

variable {ι σ : Type}

def performs? (m : Moment ι σ) : Option (Effect × Strength) :=
  match m.event with
  | .ask op => op.performs?
  | .outside _ => none

def performance? (m : Moment ι σ) : Option (Status × UInt32) := m.answer.bind Answer.performance?

end Moment

namespace Catalog

theorem map_isSimple_get?_measured (c : Catalog) (answer : Except ChannelError String)
    (e : Effect) :
    ((c.measured answer).get? e).map Entry.isSimple = (c.get? e).map Entry.isSimple := by
  rw [measured]
  split
  · rw [get?_withMeasuredLength]
    split
    · rfl
    · rw [Option.map_map]
      exact congrFun (congrArg Option.map (funext (Entry.isSimple_withLength _))) (c.get? e)
  · rfl

theorem get?_measured_eq_none_iff {c : Catalog} {answer : Except ChannelError String}
    {e : Effect} : (c.measured answer).get? e = none ↔ c.get? e = none := by
  rw [← Option.map_eq_none_iff (f := Entry.isSimple), map_isSimple_get?_measured,
    Option.map_eq_none_iff]

theorem exists_queued_measured_iff {c : Catalog} {answer : Except ChannelError String}
    {e : Effect} :
    (∃ entry, (c.measured answer).get? e = some entry ∧ entry.isSimple = false) ↔
      ∃ entry, c.get? e = some entry ∧ entry.isSimple = false := by
  rw [← Option.map_eq_some_iff, map_isSimple_get?_measured, Option.map_eq_some_iff]

end Catalog

namespace Controller

open Program

variable {σ : Type} {c : Controller} {e : Effect} {s : Strength}

theorem run_perform (device : Device σ) (st : σ) :
    let run := (c.perform e s).run device st
    let run' := (c.performEffect e s).run device st
    run.calls = run'.calls ∧ run.value = performance run'.value := by
  rw [perform_eq_map, run_map]
  exact ⟨rfl, rfl⟩

theorem run_operate_performs {op : Operation} (h : op.performs? = some (e, s))
    (device : Device σ) (st : σ) :
    let run := (c.operate op).run device st
    let run' := (c.perform e s).run device st
    run.calls = run'.calls ∧ run.value.performance? = some run'.value := by
  intro run run'
  have hd : op = .perform e s ∨ op = .handle (.perform e s) := by
    unfold Operation.performs? at h
    split at h
    · cases h
      exact .inl rfl
    · cases h
      exact .inr rfl
    · cases h
  rcases hd with rfl | rfl
  · simp only [run, run', operate, run_map, Answer.performance?, and_self]
  · simp only [run, run', operate, handle_perform_eq_map, run_map, Answer.performance?, and_self]

theorem not_refused_of_accepted {p : Playback} {device : Device σ} {st : σ}
    (ha : ∀ q, p.queue = some q → (device.write .effectQueue q.text st).answer = .ok ())
    (queue : String) (fault : ChannelError) :
    Call.write .effectQueue queue (.error fault) ∉ device.calls p.accesses st := by
  intro h
  rw [Playback.accesses, Device.calls_append, List.mem_append] at h
  rcases h with h | h
  · cases hq : p.queue with
    | none =>
      rw [hq] at h
      cases h
    | some q =>
      rw [hq] at h
      have he := List.mem_singleton.mp h
      rw [Device.make, ha q hq] at he
      cases he
  · have hm := device.access_mem_of_mem_calls h
    rw [List.mem_append] at hm
    rcases hm with hm | hm
    · obtain ⟨n, hn⟩ := Access.eq_word_of_mem_level hm
      cases hn
    · simp [Call.access, Access.word] at hm

/-- Which of the three statuses a performance has, and when. -/
theorem perform_status (c : Controller) (e : Effect) (s : Strength) (device : Device σ) (st : σ) :
    let run := (c.perform e s).run device st
    ∃ status ms, run.value = (status, ms) ∧
      (status = .ok ∧ 0 < ms ∧ (∃ p, c.catalog.resolve c.levels e s = .ok p ∧ ms = p.durationMs) ∨
        status = .failed .unsupportedOperation ∧ ms = 0 ∨
        status = .failed .unknownError ∧ ms = 0) ∧
      (status = .failed .unsupportedOperation ↔ c.catalog.get? e = none) ∧
      (status = .failed .unknownError ↔
        (∃ entry, c.catalog.get? e = some entry ∧ entry.isSimple = false) ∧
          ∃ queue fault, Call.write .effectQueue queue (.error fault) ∈ run.calls) := by
  intro run
  obtain ⟨hc, hv⟩ := run_perform (c := c) (e := e) (s := s) device st
  rcases performEffect_cases c e s device st with ⟨he, hc', hv'⟩ | ⟨entry, p, he, hp, hs, h⟩
  · rw [hv'] at hv
    refine ⟨_, _, hv, .inr (.inl ⟨rfl, rfl⟩), by simp [he], ?_⟩
    simp [he]
  · rcases h with ⟨q, fault, hq, -, hc', hv'⟩ | ⟨ha, hc', hv'⟩
    · rw [hv'] at hv
      refine ⟨_, _, hv, .inr (.inr ⟨rfl, rfl⟩), by simp [he], ?_⟩
      have hn : entry.isSimple = false := by
        have hn := mt hs.queue_eq_none_iff.mpr (by simp [hq])
        simpa using hn
      have hm : Call.write .effectQueue q.text (.error fault) ∈ run.calls := by
        rw [hc, hc']
        exact List.mem_singleton_self _
      constructor
      · intro _
        exact ⟨⟨entry, he, hn⟩, _, _, hm⟩
      · intro _
        rfl
    · rw [hv'] at hv
      have hpos : 0 < p.durationMs := by
        rw [UInt32.lt_iff_toNat_lt]
        exact entry.leastMs_pos.trans_le hs.leastMs_le
      refine ⟨_, _, hv, .inl ⟨rfl, hpos, p, hp, rfl⟩, by simp [he], ?_⟩
      -- The queue was accepted, and no other access is to its register.
      have hn : ∀ queue fault, Call.write .effectQueue queue (.error fault) ∉ run.calls := by
        intro queue fault
        rw [hc, hc']
        exact not_refused_of_accepted ha queue fault
      constructor
      · intro hf
        cases hf
      · rintro ⟨-, queue, fault, hm⟩
        exact absurd hm (hn queue fault)

theorem performance_of_mem_session {ι : Type} {device : Device σ} {outside : ι → σ → σ}
    {events : List (Event ι)} {st : σ} {m : Moment ι σ}
    (hm : m ∈ c.session device outside events st) (hp : m.performs? = some (e, s)) :
    let run := (c.perform e s).run device m.before
    m.calls = run.calls ∧ m.performance? = some run.value := by
  intro run
  cases he : m.event with
  | outside i =>
    rw [Moment.performs?, he] at hp
    cases hp
  | ask op =>
    rw [Moment.performs?, he] at hp
    obtain ⟨hc, ha⟩ := ask_of_mem_session hm he
    obtain ⟨hc', hv'⟩ := run_operate_performs hp device m.before
    exact ⟨hc.trans hc', by rw [Moment.performance?, ha]; exact hv'⟩

theorem resolve_of_performance {ι : Type} {device : Device σ} {outside : ι → σ → σ}
    {events : List (Event ι)} {st : σ} {m : Moment ι σ} {ms : UInt32}
    (hm : m ∈ c.session device outside events st) (hp : m.performs? = some (e, s))
    (ha : m.performance? = some (.ok, ms)) :
    ∃ p, c.catalog.resolve c.levels e s = .ok p ∧ ms = p.durationMs := by
  obtain ⟨-, ha'⟩ := performance_of_mem_session hm hp
  obtain ⟨status, ms', hv, hs, -⟩ := perform_status c e s device m.before
  rw [ha, hv] at ha'
  cases ha'
  rcases hs with ⟨-, -, h⟩ | ⟨h, -⟩ | ⟨h, -⟩
  · exact h
  · cases h
  · cases h

/-- Every valid catalog resolves what it contains, and so a performance, at any time of a session
that began with the catalog, is played unless its effect is not in the catalog or its queue cannot
be written. How long it plays is always the same. -/
theorem performance_answers {ι : Type} (device : Device σ) (outside : ι → σ → σ)
    (cal : Calibration) (remarks : Calibration.Remarks) (catalog : Catalog)
    (events : List (Event ι)) (st : σ) :
    let moments := sessionFrom cal remarks catalog device outside events st
    (∀ (c : Catalog) (table : VoltageTable) (e : Effect) (s : Strength),
      match c.get? e with
      | none => c.resolve table e s = .error .unsupportedOperation
      | some entry =>
        ∃ p, c.resolve table e s = .ok p ∧ entry.leastMs ≤ p.durationMs.toNat ∧
          (p.queue = none ↔ entry.isSimple) ∧ ∀ q, p.queue = some q → q.text ≠ "") ∧
    (∀ m ∈ moments, ∀ e s, m.performs? = some (e, s) →
      ∃ status ms, m.performance? = some (status, ms) ∧
        (status = .ok ∧ 0 < ms ∨ status = .failed .unsupportedOperation ∧ ms = 0 ∨
          status = .failed .unknownError ∧ ms = 0) ∧
        (status = .failed .unsupportedOperation ↔ catalog.get? e = none) ∧
        (status = .failed .unknownError ↔
          (∃ entry, catalog.get? e = some entry ∧ entry.isSimple = false) ∧
            ∃ queue fault, Call.write .effectQueue queue (.error fault) ∈ m.calls)) ∧
    (∀ m ∈ moments, ∀ m' ∈ moments, ∀ e s ms ms',
      m.performs? = some (e, s) → m'.performs? = some (e, s) →
      m.performance? = some (.ok, ms) → m'.performance? = some (.ok, ms') → ms = ms') := by
  intro moments
  refine ⟨?_, ?_, ?_⟩
  · intro c table e s
    cases he : c.get? e with
    | none => exact Catalog.resolve_of_get?_eq_none table s he
    | some entry =>
      obtain ⟨p, hp, hs⟩ := Catalog.exists_resolve table s he
      exact ⟨p, hp, hs.leastMs_le, hs.queue_eq_none_iff, hs.text_ne_empty⟩
  · intro m hm e s hp
    obtain ⟨hc, ha⟩ := performance_of_mem_session hm hp
    have hb := congrArg Controller.catalog (value_start cal remarks catalog device st)
    obtain ⟨status, ms, hv, hs, hu, hf⟩ :=
      perform_status ((start cal remarks catalog).run device st).value e s device m.before
    rw [hb, Catalog.get?_measured_eq_none_iff] at hu
    rw [hb, Catalog.exists_queued_measured_iff, ← hc] at hf
    refine ⟨status, ms, ha.trans (congrArg some hv), ?_, hu, hf⟩
    rcases hs with ⟨h, hpos, -⟩ | h
    · exact .inl ⟨h, hpos⟩
    · exact .inr h
  · intro m hm m' hm' e s ms ms' hp hp' ha ha'
    obtain ⟨p, hr, rfl⟩ := resolve_of_performance hm hp ha
    obtain ⟨p', hr', rfl⟩ := resolve_of_performance hm' hp' ha'
    rw [hr] at hr'
    cases hr'
    rfl

/-- Without a register for queues a compound effect fails, and a simple one is played alike
twice. -/
theorem performance_answers_without_queue :
    let moments := sessionFrom ⟨none, none, 0, some ⟨#v[0, 0, 0, 0, 0, 0]⟩⟩ {} .standard
      Bank.device (fun (_ : Unit) b => b) [.ask (.perform .doubleClick .light),
        .ask (.perform .tick .strong), .ask (.handle (.perform .tick .strong))]
      (Bank.without [.effectQueue])
    ∃ m₁ m₂ m₃, moments = [m₁, m₂, m₃] ∧
      m₁.performance? = some (.failed .unknownError, 0) ∧
      ∃ ms, 0 < ms ∧ m₂.performance? = some (.ok, ms) ∧ m₃.performance? = some (.ok, ms) := by
  intro moments
  obtain ⟨-, hs, hd⟩ := performance_answers Bank.device (fun (_ : Unit) b => b)
    ⟨none, none, 0, some ⟨#v[0, 0, 0, 0, 0, 0]⟩⟩ {} .standard
    [.ask (.perform .doubleClick .light), .ask (.perform .tick .strong),
      .ask (.handle (.perform .tick .strong))] (Bank.without [.effectQueue])
  have h1 : moments[0] ∈ moments := List.getElem_mem _
  have h2 : moments[1] ∈ moments := List.getElem_mem _
  have h3 : moments[2] ∈ moments := List.getElem_mem _
  refine ⟨moments[0], moments[1], moments[2], rfl, ?_, ?_⟩
  · obtain ⟨status, ms, hp, h, -, hu⟩ := hs _ h1 .doubleClick .light rfl
    obtain rfl := hu.mpr ⟨⟨_, rfl, rfl⟩, _, _, List.mem_singleton_self _⟩
    have hms : ms = 0 := by simpa using h
    rw [hp, hms]
  · have hok : ∀ m ∈ moments, m.performs? = some (.tick, .strong) →
        ∃ ms, 0 < ms ∧ m.performance? = some (.ok, ms) := by
      intro m hm hp
      obtain ⟨status, ms, ha, h, hn, hu⟩ := hs m hm .tick .strong hp
      rcases h with ⟨rfl, hpos⟩ | ⟨rfl, -⟩ | ⟨rfl, -⟩
      · exact ⟨ms, hpos, ha⟩
      · cases hn.mp rfl
      · obtain ⟨⟨entry, he, hf⟩, -⟩ := hu.mp rfl
        cases he
        cases hf
    obtain ⟨ms, hpos, ha⟩ := hok _ h2 rfl
    obtain ⟨ms', -, ha'⟩ := hok _ h3 rfl
    obtain rfl := hd _ h2 _ h3 .tick .strong ms ms' rfl rfl ha ha'
    exact ⟨ms, hpos, ha, ha'⟩

end Controller

end Rumble
