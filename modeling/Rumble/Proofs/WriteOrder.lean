import Rumble.Controller
import Rumble.Proofs.Accesses

namespace Rumble.Controller

open Program

variable {σ : Type}

theorem makes_report (what : String) (x : Except ChannelError Unit) :
    (report what x).Makes [] := by
  cases x with
  | ok _ => exact .pure ()
  | error e => exact makes_say _ _

theorem makes_require (complaint : String) (x : Except ChannelError Unit) :
    (require complaint x).Makes [] := by
  cases x with
  | ok _ => exact .pure _
  | error e => exact (makes_say _ _).silent_bind fun _ => .pure _

theorem makes_tolerate (severity : Log.Severity) (complaint : String) (x : Except Failure Unit) :
    (tolerate severity complaint x).Makes [] := by
  cases x with
  | ok _ => exact .pure ()
  | error f => exact makes_say _ _

theorem makes_report_writeWord (what : String) (r : Register) (n : UInt32) :
    (writeWord r n >>= report what).Makes [.word r n] :=
  (makes_writeWord r n).bind_silent (makes_report what)

theorem makes_report_writeFlag (what : String) (r : Register) (b : Bool) :
    (writeFlag r b >>= report what).Makes [.write r (if b then "1" else "0")] :=
  (makes_writeFlag r b).bind_silent (makes_report what)

theorem makes_trigger (durationMs slot : UInt32) :
    (trigger durationMs slot).Makes
      [.word .effectIndex slot, .word .duration durationMs, .write .activate "1"] :=
  (makes_writeWord _ slot).bind fun _ => (makes_report ..).silent_bind fun _ =>
    (makes_writeWord _ durationMs).bind fun _ => (makes_report ..).silent_bind fun _ =>
      makes_report_writeFlag _ .activate true

theorem makes_setEffectAmplitude (volume : UInt32) :
    (setEffectAmplitude volume VoltageTable.maximum).Makes (Access.level .effectScale volume) := by
  rw [setEffectAmplitude, Access.level]
  cases Attenuation.scale volume VoltageTable.maximum with
  | ok a => exact (makes_writeWord _ a).bind_silent (makes_require _)
  | error f => exact .pure _

variable (c : Controller)

theorem makes_setOverallAmplitude (inForce : Bool) :
    (c.setOverallAmplitude inForce).Makes
      (Access.level .globalScale (if inForce then c.levels.overall else VoltageTable.maximum)) := by
  unfold setOverallAmplitude Access.level
  dsimp only
  cases Attenuation.scale (if inForce then c.levels.overall else VoltageTable.maximum)
      VoltageTable.maximum with
  | ok a => exact (makes_writeWord _ a).bind_silent (makes_require _)
  | error f => exact .pure _

theorem makes_activate (durationMs : UInt32) :
    (c.activate durationMs).Makes (Access.level .globalScale c.levels.overall ++
      [.word .effectIndex Waveform.longSlot,
        .word .duration (Waveform.addMs durationMs Waveform.coldStartMs),
        .write .activate "1"]) := by
  apply (c.makes_setOverallAmplitude true).bind
  intro x
  apply (makes_tolerate _ _ x).silent_bind
  intro _
  exact (makes_trigger _ _).bind_silent fun _ => .pure _

theorem makes_deactivate :
    c.deactivate.Makes
      (Access.level .globalScale VoltageTable.maximum ++ [.write .activate "0"]) := by
  apply (c.makes_setOverallAmplitude false).bind
  intro x
  apply (makes_tolerate _ _ x).silent_bind
  intro _
  exact (makes_writeFlag .activate false).bind_silent (makes_require _)

theorem makes_setExternalControl (enabled : Bool) :
    (c.setExternalControl enabled).Makes
      (Access.level .globalScale (if enabled then c.levels.overall else VoltageTable.maximum) ++
        [.write .aspEnable (if enabled then "1" else "0")]) := by
  apply (c.makes_setOverallAmplitude enabled).bind
  intro x
  apply (makes_tolerate _ _ x).silent_bind
  intro _
  exact (makes_writeFlag .aspEnable enabled).bind_silent (makes_require _)

theorem makes_isUnderExternalControl : isUnderExternalControl.Makes [.read .aspEnable] := by
  have hf : (readFlag .aspEnable).Makes [.read .aspEnable] :=
    (makes_readWord .aspEnable).bind_silent fun _ => .done _
  apply hf.bind_silent
  intro flag
  cases flag with
  | ok b => exact .pure b
  | error e => exact .pure false

theorem makes_supportsExternalControl : supportsExternalControl.Makes [.has .aspEnable] :=
  .has fun b => .done b

end Rumble.Controller
