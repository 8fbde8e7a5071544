import Rumble.Proofs.Operations
import Rumble.Proofs.Startup

namespace Rumble

namespace VoltageTable

/-- The tables agree on the levels of effects. -/
def SameEffects (t t' : VoltageTable) : Prop := ∀ i < 5, t.get? i = t'.get? i

/-- The tables agree on the level of long vibrations and external control. -/
def SameOverall (t t' : VoltageTable) : Prop := t.get? 5 = t'.get? 5

variable {t t' : VoltageTable}

instance : Decidable (t.SameEffects t') :=
  inferInstanceAs (Decidable (∀ i < 5, t.get? i = t'.get? i))

instance : Decidable (t.SameOverall t') := inferInstanceAs (Decidable (_ = _))

theorem getElem_congr {i : Nat} (hi : i < 6) (h : t.get? i = t'.get? i) :
    t.levels[i] = t'.levels[i] := by
  rw [get?, get?, Vector.getElem?_eq_getElem hi, Vector.getElem?_eq_getElem hi] at h
  exact Option.some.inj h

theorem SameOverall.overall_eq (h : t.SameOverall t') : t.overall = t'.overall :=
  getElem_congr (by decide) h

end VoltageTable

namespace VoltageTable.SameEffects

variable {t t' : VoltageTable} (h : t.SameEffects t')
include h

theorem at?_eq (l : Level) (s : Strength) : t.at? l s = t'.at? l s := by
  obtain ⟨i, hi, hl⟩ := l.exists_indexAt? s
  rw [at?, at?, hl, Option.bind_some, Option.bind_some, h i hi]

theorem base_eq (l : Level) : t.base l = t'.base l := by
  cases l <;> exact getElem_congr (by decide) (h _ (by decide))

end VoltageTable.SameEffects

/-! ### Resolution -/

namespace Catalog

variable {t t' : VoltageTable} (c : Catalog)

theorem resolve_congr (h : t.SameEffects t') (e : Effect) (s : Strength) :
    c.resolve t e s = c.resolve t' e s := by
  have he (e : Effect) : c.resolveSimple t e s = c.resolveSimple t' e s := by
    simp only [resolveSimple, h.at?_eq]
  have hs : c.appendSegment t s = c.appendSegment t' s := by
    funext before segment
    cases segment with
    | effect inner => simp only [appendSegment, he]
    | silence ms => rfl
  simp only [resolve, he, hs]

theorem resolve_ringtone {e : Effect} {queue : String} {durationMs : UInt32}
    (h : c.get? e = some (.ringtone queue durationMs)) (t : VoltageTable) (s : Strength) :
    c.resolve t e s = .ok ⟨durationMs, ringtoneVolume s, some ⟨queue⟩⟩ := by
  rw [resolve, h]

end Catalog

/-! ### Operations -/

def Operation.playsEffect (op : Operation) : Bool :=
  match op.direct with
  | .performEffect .. => true
  | _ => false

/-- Whether an operation can put the overall level in force. -/
def Operation.usesOverall (op : Operation) : Bool :=
  match op.direct with
  | .activate _ | .setExternalControl _ => true
  | _ => false

namespace Controller

open Program

variable {ι σ : Type} {catalog : Catalog} {t t' : VoltageTable}

theorem performEffect_congr {e : Effect} {s : Strength}
    (h : catalog.resolve t e s = catalog.resolve t' e s) :
    performEffect ⟨catalog, t⟩ e s = performEffect ⟨catalog, t'⟩ e s := by
  rw [performEffect, performEffect, h]

theorem setOverallAmplitude_congr (h : t.overall = t'.overall) (catalog : Catalog)
    (inForce : Bool) :
    setOverallAmplitude ⟨catalog, t⟩ inForce = setOverallAmplitude ⟨catalog, t'⟩ inForce := by
  rw [setOverallAmplitude, setOverallAmplitude, h]

theorem operate_congr_of_sameEffects (h : t.SameEffects t') {op : Operation}
    (ho : op.usesOverall = false) :
    operate ⟨catalog, t⟩ op = operate ⟨catalog, t'⟩ op := by
  have hp (e : Effect) (s : Strength) :
      performEffect ⟨catalog, t⟩ e s = performEffect ⟨catalog, t'⟩ e s :=
    performEffect_congr (catalog.resolve_congr h e s)
  cases op with
  | performEffect e s => simp only [operate, hp]
  | perform e s => simp only [operate, perform, hp]
  | handle command =>
    cases command with
    | perform e s => simp only [operate, handle, perform, hp]
    | on | setExternalControl => cases ho
    | _ => rfl
  | activate | setExternalControl => cases ho
  | _ => rfl

theorem operate_congr_of_sameOverall (h : t.SameOverall t') {op : Operation}
    (ho : op.playsEffect = false) :
    operate ⟨catalog, t⟩ op = operate ⟨catalog, t'⟩ op := by
  have hl := setOverallAmplitude_congr h.overall_eq catalog
  cases op with
  | activate ms => simp only [operate, activate, hl]
  | setExternalControl enabled => simp only [operate, setExternalControl, hl]
  | handle command =>
    cases command with
    | on ms => simp only [operate, handle, activate, hl]
    | setExternalControl enabled => simp only [operate, handle, setExternalControl, hl]
    | perform e s => cases ho
    | _ => rfl
  | performEffect | perform => cases ho
  | _ => rfl

/-- Controllers that do the same on each operation that is asked for go through the same session. -/
theorem session_congr {c c' : Controller} {events : List (Event ι)}
    (h : ∀ op, .ask op ∈ events → c.operate op = c'.operate op) (device : Device σ)
    (outside : ι → σ → σ) (st : σ) :
    c.session device outside events st = c'.session device outside events st := by
  induction events generalizing st with
  | nil => rfl
  | cons event events ih =>
    have hm : c.moment device outside event st = c'.moment device outside event st := by
      cases event with
      | ask op => rw [moment, moment, h op List.mem_cons_self]
      | outside i => rfl
    rw [session, session, hm, ih fun op ho => h op (List.mem_cons_of_mem event ho)]

/-! ### The startup -/

theorem setEdges_congr (h : t.SameEffects t') : setEdges t = setEdges t' := by
  rw [setEdges, setEdges, h.base_eq, h.base_eq]

theorem startAccesses_congr (h : t.SameEffects t') (cal : Calibration) :
    Calibration.startAccesses { cal with levels := some t } =
      Calibration.startAccesses { cal with levels := some t' } := by
  have h2 : t.levels.get 2 = t'.levels.get 2 := h.base_eq .click
  have h3 : t.levels.get 3 = t'.levels.get 3 := h.base_eq .heavyClick
  simp only [Calibration.startAccesses, Option.getD_some, h2, h3]

/-- The startup asks for the same whatever the overall level is, and the catalog that it yields does
not depend on any level. -/
theorem start_congr (h : t.SameEffects t') (cal : Calibration)
    (remarks remarks' : Calibration.Remarks) (catalog : Catalog) (device : Device σ) (st : σ) :
    let run := (start { cal with levels := some t } remarks catalog).run device st
    let run' := (start { cal with levels := some t' } remarks' catalog).run device st
    run.calls = run'.calls ∧ run.state = run'.state ∧
      ∃ measured, run.value = ⟨measured, t⟩ ∧ run'.value = ⟨measured, t'⟩ := by
  have hs := makes_start { cal with levels := some t } remarks catalog
  have hs' := makes_start { cal with levels := some t' } remarks' catalog
  rw [← startAccesses_congr h] at hs'
  refine ⟨?_, ?_, _, value_start .., value_start ..⟩
  · rw [hs.calls_run, hs'.calls_run]
  · rw [hs.state_run, hs'.state_run]

theorem sessionFrom_congr (h : t.SameEffects t') {events : List (Event ι)}
    (hu : ∀ op, .ask op ∈ events → op.usesOverall = false) (cal : Calibration)
    (remarks remarks' : Calibration.Remarks) (catalog : Catalog) (device : Device σ)
    (outside : ι → σ → σ) (st : σ) :
    sessionFrom { cal with levels := some t } remarks catalog device outside events st =
      sessionFrom { cal with levels := some t' } remarks' catalog device outside events st := by
  obtain ⟨-, hs, measured, hv, hv'⟩ := start_congr h cal remarks remarks' catalog device st
  rw [sessionFrom, sessionFrom, hv, hv', hs]
  exact session_congr (fun op ho => operate_congr_of_sameEffects h (hu op ho)) device outside _

/-- The levels of effects and the overall level are kept apart, for every catalog and all tables, on
every device. Tables that agree on the first five levels cannot be told apart by playing effects, by
setting the amplitude or by the startup; tables that agree on the last one cannot be told apart by
timed vibrations, by stopping or by external control. This goes for each operation and for whole
sessions, with all calls, answers and states of the device. Ringtones do not depend on the table. -/
theorem levels_separate (catalog : Catalog) (t t' : VoltageTable) (device : Device σ)
    (outside : ι → σ → σ) :
    let c : Controller := ⟨catalog, t⟩
    let c' : Controller := ⟨catalog, t'⟩
    let alike (op : Operation) : Prop :=
      ∀ st, (c.operate op).run device st = (c'.operate op).run device st
    (t.SameEffects t' →
      (∀ e s, alike (.performEffect e s)) ∧ (∀ a, alike (.setAmplitude a)) ∧
      (∀ st, (setEdges t).run device st = (setEdges t').run device st) ∧
      (∀ (cal : Calibration) remarks remarks' st,
        ((start { cal with levels := some t } remarks catalog).run device st).calls =
          ((start { cal with levels := some t' } remarks' catalog).run device st).calls) ∧
      ∀ events, (∀ op, .ask op ∈ events → op.usesOverall = false) →
        (∀ st, c.session device outside events st = c'.session device outside events st) ∧
        ∀ (cal : Calibration) remarks remarks' st,
          sessionFrom { cal with levels := some t } remarks catalog device outside events st =
            sessionFrom { cal with levels := some t' } remarks' catalog device outside events st) ∧
    (t.SameOverall t' →
      (∀ ms, alike (.activate ms)) ∧ alike .deactivate ∧
      (∀ enabled, alike (.setExternalControl enabled)) ∧
      ∀ events, (∀ op, .ask op ∈ events → op.playsEffect = false) → ∀ st,
        c.session device outside events st = c'.session device outside events st) ∧
    ∀ e queue durationMs, catalog.get? e = some (.ringtone queue durationMs) → ∀ s,
      alike (.performEffect e s) := by
  intro c c' alike
  refine ⟨?_, ?_, ?_⟩
  · intro h
    have ha {op : Operation} (ho : op.usesOverall = false) : alike op := fun st => by
      rw [operate_congr_of_sameEffects h ho]
    refine ⟨fun _ _ => ha rfl, fun _ => ha rfl, ?_, ?_, ?_⟩
    · intro st
      rw [setEdges_congr h]
    · intro cal remarks remarks' st
      exact (start_congr h cal remarks remarks' catalog device st).1
    · intro events hu
      refine ⟨?_, fun cal remarks remarks' =>
        sessionFrom_congr h hu cal remarks remarks' catalog device outside⟩
      exact session_congr (fun op ho => operate_congr_of_sameEffects h (hu op ho)) device outside
  · intro h
    have ha {op : Operation} (ho : op.playsEffect = false) : alike op := fun st => by
      rw [operate_congr_of_sameOverall h ho]
    refine ⟨fun _ => ha rfl, ha rfl, fun _ => ha rfl, ?_⟩
    intro events hp
    exact session_congr (fun op ho => operate_congr_of_sameOverall h (hp op ho)) device outside
  · intro e queue durationMs he s st
    have hr : catalog.resolve t e s = catalog.resolve t' e s := by
      rw [catalog.resolve_ringtone he, catalog.resolve_ringtone he]
    rw [operate, operate, performEffect_congr hr]

/-- An overall level that would be too loud for the output scale does not show when a double click
is played, nor do silent effects when a vibration is timed. -/
theorem levels_separate_of_odd_tables :
    let loud : VoltageTable := ⟨#v[60, 70, 80, 90, 100, 4294967295]⟩
    let silent : VoltageTable := ⟨#v[0, 0, 0, 0, 0, 76]⟩
    let effects : List (Event Empty) :=
      [.ask (.setAmplitude 3), .ask (.performEffect .doubleClick .strong),
        .ask (.perform .pop .light)]
    let vibrations : List (Event Empty) :=
      [.ask (.setExternalControl true), .ask (.activate 20), .ask .deactivate]
    VoltageTable.standard.SameEffects loud ∧ VoltageTable.standard.SameOverall silent ∧
      (∀ op, .ask op ∈ effects → op.usesOverall = false) ∧
      (∀ op, .ask op ∈ vibrations → op.playsEffect = false) ∧
      session ⟨.standard, .standard⟩ Bank.device (fun i => nomatch i) effects (Bank.without []) =
        session ⟨.standard, loud⟩ Bank.device (fun i => nomatch i) effects (Bank.without []) ∧
      session ⟨.standard, .standard⟩ Bank.device (fun i => nomatch i) vibrations (Bank.without []) =
        session ⟨.standard, silent⟩ Bank.device (fun i => nomatch i) vibrations (Bank.without []) ∧
      (operate ⟨.standard, loud⟩ (.performEffect .ringtone1 .light)).run Bank.device
          (Bank.without [.effectQueue]) =
        (operate ⟨.standard, silent⟩ (.performEffect .ringtone1 .light)).run Bank.device
          (Bank.without [.effectQueue]) := by
  intro loud silent effects vibrations
  have he : VoltageTable.standard.SameEffects loud := by decide
  have ho : VoltageTable.standard.SameOverall silent := by decide
  have hu : ∀ op, .ask op ∈ effects → op.usesOverall = false := by
    intro op hm
    simp only [effects, List.mem_cons, Event.ask.injEq, List.not_mem_nil, or_false] at hm
    rcases hm with rfl | rfl | rfl <;> rfl
  have hp : ∀ op, .ask op ∈ vibrations → op.playsEffect = false := by
    intro op hm
    simp only [vibrations, List.mem_cons, Event.ask.injEq, List.not_mem_nil, or_false] at hm
    rcases hm with rfl | rfl | rfl <;> rfl
  obtain ⟨hs, -, -⟩ := levels_separate .standard .standard loud Bank.device
    (fun i : Empty => nomatch i)
  obtain ⟨-, hv, -⟩ := levels_separate .standard .standard silent Bank.device
    (fun i : Empty => nomatch i)
  obtain ⟨-, -, hr⟩ := levels_separate .standard loud silent Bank.device
    (fun i : Empty => nomatch i)
  exact ⟨he, ho, hu, hp, ((hs he).2.2.2.2 effects hu).1 _, (hv ho).2.2.2 vibrations hp _,
    hr .ringtone1 _ _ rfl .light _⟩

end Controller

end Rumble
