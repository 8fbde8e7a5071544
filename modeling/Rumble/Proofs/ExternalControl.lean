import Mathlib.Data.List.Induction
import Rumble.Proofs.BankAccess
import Rumble.Proofs.Ownership

namespace Rumble

/-! ### The flag -/

def Operation.externalControl? (op : Operation) : Option Bool :=
  match op.direct with
  | .setExternalControl enabled => some enabled
  | _ => none

theorem Operation.direct_of_externalControl? {op : Operation} {enabled : Bool}
    (h : op.externalControl? = some enabled) : op.direct = .setExternalControl enabled := by
  rw [externalControl?] at h
  split at h
  · next he =>
    cases h
    exact he
  · cases h

/-- A bank that lacks some registers and whose flag of external control, if it is not among them,
is as given. -/
structure Bank.Flagged (absent : List Register) (external : Bool) (b : Bank) : Prop where
  sound : b.Sound
  has_eq : ∀ r, b.has r = decide (r ∉ absent)
  flag_eq : .aspEnable ∉ absent → b.value? .aspEnable = some (if external then "1" else "0")

namespace Bank.Flagged

variable {absent : List Register} {external : Bool} {b : Bank}

theorem without (absent : List Register) : (Bank.without absent).Flagged absent false where
  sound := sound_without absent
  has_eq := has_without absent
  flag_eq h := (value?_without absent .aspEnable).trans (if_neg h)

theorem after (h : b.Flagged absent external) {as : List Access}
    (ha : ∀ value, .write .aspEnable value ∉ as) :
    (device.after as b).Flagged absent external where
  sound := h.sound.after as
  has_eq r := (has_after as b r).trans (h.has_eq r)
  flag_eq hr := (value?_after ha b).trans (h.flag_eq hr)

theorem write (h : b.Flagged absent external) (enabled : Bool) :
    (device.write .aspEnable (if enabled then "1" else "0") b).state.Flagged absent enabled where
  sound := h.sound.make (.write .aspEnable _)
  has_eq r := (has_write .aspEnable r _ b).trans (h.has_eq r)
  flag_eq hr := by
    have hb : b.has .aspEnable := by rw [h.has_eq, decide_eq_true_iff]; exact hr
    rw [value?_write, if_pos ⟨rfl, hb⟩]

end Bank.Flagged

namespace Controller

open Program

variable {absent : List Register} {external : Bool} {b : Bank} {c : Controller}

def reached {σ : Type} (c : Controller) (device : Device σ) (ops : List Operation) (st : σ) : σ :=
  ops.foldl (fun st op => ((c.operate op).run device st).state) st

theorem reached_concat {σ : Type} (c : Controller) (device : Device σ) (ops : List Operation)
    (op : Operation) (st : σ) :
    c.reached device (ops ++ [op]) st =
      ((c.operate op).run device (c.reached device ops st)).state := by
  rw [reached, List.foldl_append]
  rfl

theorem accesses_setExternalControl {σ : Type} {op : Operation} {enabled : Bool}
    (h : op.externalControl? = some enabled) (device : Device σ) (st : σ) :
    ((c.operate op).run device st).accesses =
      Access.level .globalScale (if enabled then c.levels.overall else VoltageTable.maximum) ++
        [.write .aspEnable (if enabled then "1" else "0")] := by
  have ha := attempts_operate c op device st
  rw [Operation.direct_of_externalControl? h] at ha
  generalize ((c.operate op).run device st).accesses = as at ha
  cases ha
  rfl

theorem flagged_operate (h : b.Flagged absent external) (op : Operation) :
    ((c.operate op).run Bank.device b).state.Flagged absent
      (op.externalControl?.getD external) := by
  have hs : ((c.operate op).run Bank.device b).state =
      Bank.device.after ((c.operate op).run Bank.device b).accesses b :=
    (run_eq_of_accesses (c.operate op) Bank.device b).2
  rw [hs]
  cases he : op.externalControl? with
  | some enabled =>
    rw [accesses_setExternalControl he, Device.after_append]
    have hl : ∀ value, .write .aspEnable value ∉ Access.level .globalScale
        (if enabled then c.levels.overall else VoltageTable.maximum) := by
      intro value hm
      cases Access.register_of_mem_level hm
    exact (h.after hl).write enabled
  | none =>
    apply h.after
    intro value hm
    obtain ⟨enabled, ho, -⟩ := writtenBy_of_attempts (attempts_operate c op Bank.device b) hm
    rw [Operation.externalControl?, ho] at he
    cases he

/-- After some operations the flag is what it was last set to. -/
theorem flagged_reached (h : b.Flagged absent false) (ops : List Operation) :
    (c.reached Bank.device ops b).Flagged absent
      (decide ((ops.filterMap Operation.externalControl?).getLast? = some true)) := by
  -- The last operation is the one that matters, so the induction takes them from behind.
  induction ops using List.reverseRecOn with
  | nil => exact h
  | append_singleton ops op ih =>
    have hs := flagged_operate (c := c) ih op
    rw [reached_concat, List.filterMap_append, List.getLast?_append]
    cases he : op.externalControl? with
    | none => simpa [he] using hs
    | some enabled => simpa [he] using hs

theorem flagged_start (cal : Calibration) (remarks : Calibration.Remarks) (catalog : Catalog) :
    ((start cal remarks catalog).run Bank.device (.without absent)).state.Flagged absent false := by
  rw [(makes_start cal remarks catalog).state_run]
  apply (Bank.Flagged.without absent).after
  intro value hm
  simpa using register_of_mem_startAccesses hm

/-! ### What is said and what is done -/

theorem value_isUnderExternalControl {σ : Type} (device : Device σ) (st : σ) :
    (isUnderExternalControl.run device st).value =
      match wordOf .aspEnable (device.read .aspEnable st).answer with
      | .ok n => decide (n ≠ 0)
      | .error _ => false := by
  have hf : ((readFlag .aspEnable).run device st).value =
      (wordOf .aspEnable (device.read .aspEnable st).answer).map fun n => decide (n ≠ 0) := rfl
  simp only [isUnderExternalControl, run_bind, hf]
  cases wordOf .aspEnable (device.read .aspEnable st).answer <;> rfl

theorem run_isUnderExternalControl (h : b.Flagged absent external) :
    (isUnderExternalControl.run Bank.device b).value =
        (decide (.aspEnable ∉ absent) && external) ∧
      (isUnderExternalControl.run Bank.device b).state = b := by
  constructor
  · have hz : wordOf .aspEnable (.ok "0") = .ok 0 := by rfl
    have ho : wordOf .aspEnable (.ok "1") = .ok 1 := by rfl
    rw [value_isUnderExternalControl]
    by_cases hr : .aspEnable ∈ absent
    · have hb : b.value? .aspEnable = none := h.sound.value?_eq_none (by simp [h.has_eq, hr])
      simp [Bank.device, hb, hr, wordOf]
    · have hb := h.flag_eq hr
      cases external with
      | false => simp [Bank.device, hb, hz]
      | true => simp [Bank.device, hb, ho, hr]
  · exact (makes_isUnderExternalControl.state_run Bank.device b).trans (Bank.state_read _ b)

/-- A flag that is written after the overall amplitude needs no register but its own. -/
theorem value_overall_then_flag (c : Controller) (severity : Log.Severity)
    (complaint refusal : String) (applied : Bool) (r : Register) (set : Bool) (b : Bank) :
    (run Bank.device (do
      tolerate severity complaint (← c.setOverallAmplitude applied)
      require refusal (← writeFlag r set)) b).value =
      if b.has r then .ok () else .error .unknownError := by
  have hs := (c.makes_setOverallAmplitude applied).state_run Bank.device b
  simp only [run_bind, state_tolerate, writeFlag, run_writeText, value_require, hs,
    Bank.answer_write, Bank.has_after]
  split <;> rfl

variable (h : b.Flagged absent external)
include h

/-- An amplitude is refused for the first of three reasons, and if it is, nothing changes. -/
theorem run_setAmplitude_flagged (a : UInt8) :
    let run := (setAmplitude a).run Bank.device b
    (run.value =
      if a = 0 then .error .badValue
      else if decide (.aspEnable ∉ absent) && external then .error .unsupportedOperation
      else if .effectScale ∉ absent then .ok () else .error .unknownError) ∧
    (run.value ≠ .ok () → run.state = b) := by
  intro run
  by_cases ha : a = 0
  · subst ha
    exact ⟨rfl, fun _ => rfl⟩
  · obtain ⟨n, hn⟩ := exists_scale_amplitude ha
    obtain ⟨hv, hs⟩ := run_isUnderExternalControl h
    obtain ⟨hu, hw⟩ := run_setAmplitude ha hn Bank.device b
    rw [hv, hs] at hu hw
    rw [if_neg ha]
    by_cases he : (decide (.aspEnable ∉ absent) && external) = true
    · obtain ⟨hr, ht, -⟩ := hu he
      rw [if_pos he]
      exact ⟨hr, fun _ => ht⟩
    · obtain ⟨hr, ht, -⟩ := hw (Bool.eq_false_iff.mpr he)
      rw [if_neg he]
      rw [Bank.answer_write, h.has_eq] at hr
      by_cases hp : .effectScale ∈ absent
      · have hb : b.has .effectScale = false := by simp [h.has_eq, hp]
        rw [Bank.write_of_not_has hb] at ht
        refine ⟨by simpa [hp, Except.mapError] using hr, fun _ => ht⟩
      · have hr : run.value = .ok () := by simpa [hp, Except.mapError] using hr
        rw [hr, if_pos hp]
        exact ⟨rfl, fun hn => absurd rfl hn⟩

theorem value_supportsAmplitudeControl :
    (supportsAmplitudeControl.run Bank.device b).value =
      (decide (.effectScale ∉ absent) && !(decide (.aspEnable ∉ absent) && external)) := by
  rw [(run_supportsAmplitudeControl Bank.device b).1, (run_isUnderExternalControl h).1]
  exact congrArg (· && _) (h.has_eq .effectScale)

theorem value_setExternalControl (enabled : Bool) :
    ((c.setExternalControl enabled).run Bank.device b).value =
      if .aspEnable ∉ absent then .ok () else .error .unknownError := by
  rw [setExternalControl, value_overall_then_flag, h.has_eq]
  simp only [decide_eq_true_eq]

omit h

theorem value_supportsExternalControl (b : Bank) :
    (supportsExternalControl.run Bank.device b).value = b.has .aspEnable := rfl

/-- External control over registers in memory, after any operations: it is on if and only if it was
last switched on and has a register; an amplitude is refused for the first of three reasons, without
any change; and the driver says that it can control the amplitude, or hand the control over, exactly
if it then does. -/
theorem external_control (absent : List Register) (cal : Calibration)
    (remarks : Calibration.Remarks) (catalog : Catalog) (ops : List Operation) :
    let startup := (start cal remarks catalog).run Bank.device (.without absent)
    let b := startup.value.reached Bank.device ops startup.state
    let external := (isUnderExternalControl.run Bank.device b).value
    let amplitude (a : UInt8) := (setAmplitude a).run Bank.device b
    (external = true ↔ .aspEnable ∉ absent ∧
      (ops.filterMap Operation.externalControl?).getLast? = some true) ∧
    (∀ a, (amplitude a).value =
      if a = 0 then .error .badValue
      else if external then .error .unsupportedOperation
      else if .effectScale ∉ absent then .ok () else .error .unknownError) ∧
    (∀ a, (amplitude a).value ≠ .ok () → (amplitude a).state = b) ∧
    ((supportsAmplitudeControl.run Bank.device b).value = true ↔
      ∀ a, a ≠ 0 → (amplitude a).value = .ok ()) ∧
    ((supportsAmplitudeControl.run Bank.device b).value = true ↔
      ∃ a, (amplitude a).value = .ok ()) ∧
    (∀ enabled, (supportsExternalControl.run Bank.device b).value = true ↔
      ((startup.value.setExternalControl enabled).run Bank.device b).value = .ok ()) := by
  intro startup b external amplitude
  have h : b.Flagged absent _ := flagged_reached (flagged_start cal remarks catalog) ops
  have he : external = _ := (run_isUnderExternalControl h).1
  have hv : ∀ a, (amplitude a).value = _ := fun a => (run_setAmplitude_flagged h a).1
  have hs := value_supportsAmplitudeControl h
  rw [← he] at hs
  simp only [← he] at hv
  have hok : ∀ a, (amplitude a).value = .ok () ↔
      a ≠ 0 ∧ (supportsAmplitudeControl.run Bank.device b).value = true := by
    intro a
    rw [hv, hs]
    by_cases ha : a = 0 <;> cases external <;> by_cases hr : .effectScale ∈ absent <;>
      simp [ha, hr]
  refine ⟨by simp [he], hv, fun a => (run_setAmplitude_flagged h a).2, ?_, ?_, ?_⟩
  · constructor
    · intro ht a ha
      exact (hok a).mpr ⟨ha, ht⟩
    · intro hall
      exact ((hok 1).mp (hall 1 (by decide))).2
  · constructor
    · intro ht
      exact ⟨1, (hok 1).mpr ⟨by decide, ht⟩⟩
    · rintro ⟨a, ha⟩
      exact ((hok a).mp ha).2
  · intro enabled
    rw [value_supportsExternalControl, h.has_eq, value_setExternalControl h]
    by_cases hr : .aspEnable ∈ absent <;> simp [hr]

/-- External control that was switched on and off again leaves the amplitude to callers; without its
register the overall level is in force neither way. -/
theorem external_control_handed_back :
    let ops := [.setExternalControl true, .activate 30, .handle (.setExternalControl false)]
    let startup := (start ⟨none, none, 0, some ⟨#v[0, 0, 0, 0, 0, 0]⟩⟩ {} .standard).run Bank.device
      (.without [.globalScale])
    let b := startup.value.reached Bank.device ops startup.state
    (isUnderExternalControl.run Bank.device b).value = false ∧
      ((setAmplitude 0).run Bank.device b).value = .error .badValue ∧
      ((setAmplitude 0).run Bank.device b).state = b ∧
      ((setAmplitude 255).run Bank.device b).value = .ok () ∧
      (supportsAmplitudeControl.run Bank.device b).value = true := by
  intro ops startup b
  obtain ⟨he, hv, hs, -, ha, -⟩ := external_control [.globalScale]
    ⟨none, none, 0, some ⟨#v[0, 0, 0, 0, 0, 0]⟩⟩ {} .standard ops
  have hf : (isUnderExternalControl.run Bank.device b).value = false := by
    rw [Bool.eq_false_iff]
    intro ht
    obtain ⟨-, hl⟩ := he.mp ht
    cases hl
  have hz := hv 0
  have ho := hv 255
  rw [if_pos rfl] at hz
  rw [if_neg (by decide), hf, if_neg (by decide), if_pos (by decide)] at ho
  refine ⟨hf, hz, hs 0 ?_, ho, ha.mpr ⟨255, ho⟩⟩
  rw [hz]
  exact fun hn => nomatch hn

end Controller

end Rumble
