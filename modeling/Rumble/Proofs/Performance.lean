import Rumble.Proofs.Resolution
import Rumble.Proofs.WriteOrder

namespace Rumble

/-- What playing takes once the queue, if there is one, is accepted. -/
def Playback.accesses (p : Playback) : List Access :=
  p.queue.toList.map (fun q => .write .effectQueue q.text) ++
    (Access.level .effectScale p.volume ++
      [.word .effectIndex (if p.queue.isSome then 65534 else 2), .word .duration p.durationMs,
        .write .activate "1"])

theorem Playback.slot_eq (p : Playback) : p.slot = if p.queue.isSome then 65534 else 2 := by
  rw [slot]
  cases p.queue <;> rfl

theorem Playback.isWrite_of_mem_accesses {p : Playback} {a : Access} (h : a ∈ p.accesses) :
    a.isWrite := by
  rw [accesses, List.mem_append, List.mem_append] at h
  rcases h with h | h | h
  · obtain ⟨q, -, rfl⟩ := List.mem_map.mp h
    rfl
  · obtain ⟨n, rfl⟩ := Access.eq_word_of_mem_level h
    rfl
  · simp only [List.mem_cons, List.not_mem_nil, or_false] at h
    rcases h with rfl | rfl | rfl <;> rfl

namespace Controller

open Program

variable {σ : Type} {c : Controller} {e : Effect} {s : Strength} {p : Playback} {f : Failure}

theorem makes_storeQueue (p : Playback) :
    (storeQueue p).Makes (p.queue.toList.map fun q => .write .effectQueue q.text) := by
  rw [storeQueue]
  cases p.queue with
  | none => exact .pure _
  | some q => exact (makes_writeText _ q.text).bind_silent (makes_require _)

theorem value_storeQueue (p : Playback) (device : Device σ) (st : σ) :
    ((storeQueue p).run device st).value =
      match p.queue with
      | none => .ok ()
      | some q => (device.write .effectQueue q.text st).answer.mapError fun _ => .unknownError := by
  rw [storeQueue]
  cases p.queue with
  | none => rfl
  | some q => rw [run_bind, run_writeText, value_require]

theorem makes_play (e : Effect) (s : Strength) (p : Playback) :
    (play e s p).Makes (Access.level .effectScale p.volume ++
      [.word .effectIndex p.slot, .word .duration p.durationMs, .write .activate "1"]) := by
  apply (makes_setEffectAmplitude p.volume).bind
  intro x
  apply (makes_tolerate _ _ x).silent_bind
  intro _
  apply (makes_trigger p.durationMs p.slot).bind_silent
  intro _
  exact (makes_say _ _).silent_bind fun _ => .pure _

theorem value_play (e : Effect) (s : Strength) (p : Playback) (device : Device σ) (st : σ) :
    ((play e s p).run device st).value = .ok p.durationMs := by
  simp only [play, run_bind, run_pure]

theorem run_performEffect_error (h : c.catalog.resolve c.levels e s = .error f)
    (device : Device σ) (st : σ) :
    ((c.performEffect e s).run device st).calls = [] ∧
      ((c.performEffect e s).run device st).value = .error f := by
  simp only [performEffect, h]
  exact ⟨rfl, rfl⟩

theorem run_performEffect_refused {fault : ChannelError} {q : Queue}
    (h : c.catalog.resolve c.levels e s = .ok p) (device : Device σ) (st : σ)
    (hq : p.queue = some q) (ha : (device.write .effectQueue q.text st).answer = .error fault) :
    ((c.performEffect e s).run device st).calls = [.write .effectQueue q.text (.error fault)] ∧
      ((c.performEffect e s).run device st).value = .error .unknownError := by
  have hv : ((storeQueue p).run device st).value = .error .unknownError := by
    rw [value_storeQueue, hq]
    simp only [ha]
    rfl
  have hc : ((storeQueue p).run device st).calls =
      [.write .effectQueue q.text (.error fault)] := by
    rw [(makes_storeQueue p).calls_run, hq, ← ha]
    rfl
  simp only [performEffect, h, run_bind, hv, hc, run_pure, List.append_nil, and_self]

theorem run_performEffect_accepted (h : c.catalog.resolve c.levels e s = .ok p)
    (device : Device σ) (st : σ)
    (ha : ∀ q, p.queue = some q → (device.write .effectQueue q.text st).answer = .ok ()) :
    ((c.performEffect e s).run device st).calls = device.calls p.accesses st ∧
      ((c.performEffect e s).run device st).value = .ok p.durationMs := by
  have hv : ((storeQueue p).run device st).value = .ok () := by
    rw [value_storeQueue]
    cases hq : p.queue with
    | none => rfl
    | some q =>
      simp only [ha q hq]
      rfl
  simp only [performEffect, h, run_bind, hv, value_play, and_true]
  rw [(makes_storeQueue p).calls_run, (makes_storeQueue p).state_run, (makes_play e s p).calls_run,
    ← Device.calls_append, p.slot_eq, Playback.accesses]

/-- The status and the duration that a performance answers. -/
def performance : Except Failure UInt32 → Status × UInt32
  | .ok ms => (.ok, ms)
  | .error f => (.failed f, 0)

theorem perform_eq_map (c : Controller) (e : Effect) (s : Strength) :
    c.perform e s = performance <$> c.performEffect e s := by
  rw [map_eq_pure_bind, perform]
  congr
  funext x
  cases x <;> rfl

theorem handle_perform_eq_map (c : Controller) (e : Effect) (s : Strength) :
    c.handle (.perform e s) = (fun x => .performed x.1 x.2) <$> c.perform e s :=
  (map_eq_pure_bind ..).symm

theorem performEffect_cases (c : Controller) (e : Effect) (s : Strength) (device : Device σ)
    (st : σ) :
    let run := (c.performEffect e s).run device st
    (c.catalog.get? e = none ∧ run.calls = [] ∧ run.value = .error .unsupportedOperation) ∨
      ∃ entry p, c.catalog.get? e = some entry ∧ c.catalog.resolve c.levels e s = .ok p ∧
        p.Serves entry ∧
        ((∃ q fault, p.queue = some q ∧
            (device.write .effectQueue q.text st).answer = .error fault ∧
            run.calls = [.write .effectQueue q.text (.error fault)] ∧
            run.value = .error .unknownError) ∨
          ((∀ q, p.queue = some q → (device.write .effectQueue q.text st).answer = .ok ()) ∧
            run.calls = device.calls p.accesses st ∧ run.value = .ok p.durationMs)) := by
  intro run
  cases he : c.catalog.get? e with
  | none =>
    have hr := Catalog.resolve_of_get?_eq_none c.levels s he
    exact .inl ⟨rfl, run_performEffect_error hr device st⟩
  | some entry =>
    obtain ⟨p, hp, hs⟩ := Catalog.exists_resolve c.levels s he
    refine .inr ⟨entry, p, rfl, hp, hs, ?_⟩
    -- A simple entry has no queue, and nothing that could be refused before it plays.
    by_cases ha : ∀ q, p.queue = some q → (device.write .effectQueue q.text st).answer = .ok ()
    · exact .inr ⟨ha, run_performEffect_accepted hp device st ha⟩
    · obtain ⟨q, hq, hf⟩ : ∃ q, p.queue = some q ∧
          (device.write .effectQueue q.text st).answer ≠ .ok () := by simpa using ha
      cases ha : (device.write .effectQueue q.text st).answer with
      | ok _ => exact absurd ha hf
      | error fault =>
        exact .inl ⟨q, fault, hq, ha, run_performEffect_refused hp device st hq ha⟩

/-- The calls of playing an effect, for every catalog and table, on every device: none without an
entry, the write of the queue alone if that fails, and else all accesses of the playback, whichever
of them fail. -/
theorem performEffect_calls (c : Controller) (e : Effect) (s : Strength) (device : Device σ)
    (st : σ) :
    let run := (c.performEffect e s).run device st
    (∀ r answer, Call.read r answer ∉ run.calls) ∧
      match c.catalog.get? e with
      | none => run.calls = [] ∧ run.value = .error .unsupportedOperation
      | some entry =>
        ∃ p, c.catalog.resolve c.levels e s = .ok p ∧ (p.queue = none ↔ entry.isSimple) ∧
          (Access.level .effectScale p.volume = [] ↔ ¬(1 ≤ p.volume ∧ p.volume ≤ 100)) ∧
          ((∃ q fault, p.queue = some q ∧
              (device.write .effectQueue q.text st).answer = .error fault ∧
              run.calls = [.write .effectQueue q.text (.error fault)] ∧
              run.value = .error .unknownError) ∨
            ((∀ q, p.queue = some q → (device.write .effectQueue q.text st).answer = .ok ()) ∧
              run.calls = device.calls p.accesses st ∧ run.calls.map Call.access = p.accesses ∧
              run.value = .ok p.durationMs)) := by
  intro run
  rcases performEffect_cases c e s device st with ⟨he, hc, hv⟩ | ⟨entry, p, he, hp, hs, h⟩
  · rw [he]
    refine ⟨?_, hc, hv⟩
    intro r answer hm
    rw [hc] at hm
    cases hm
  · rw [he]
    rcases h with ⟨q, fault, hq, ha, hc, hv⟩ | ⟨ha, hc, hv⟩
    · refine ⟨?_, p, hp, hs.queue_eq_none_iff, Access.level_eq_nil_iff _ _,
        .inl ⟨q, fault, hq, ha, hc, hv⟩⟩
      intro r answer hm
      rw [hc] at hm
      simp at hm
    · refine ⟨?_, p, hp, hs.queue_eq_none_iff, Access.level_eq_nil_iff _ _,
        .inr ⟨ha, hc, by rw [hc, Device.map_access_calls], hv⟩⟩
      intro r answer hm
      rw [hc] at hm
      have hw := Playback.isWrite_of_mem_accesses (device.access_mem_of_mem_calls hm)
      cases hw

end Controller

end Rumble
