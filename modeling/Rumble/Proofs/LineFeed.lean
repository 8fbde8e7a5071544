import Rumble.Proofs.Performance
import Rumble.Proofs.Session
import Rumble.Proofs.Startup

namespace Rumble

namespace Program

/-- The program goes on in the same way whether a text that it reads ends with one line feed more
or not. -/
inductive IgnoresLineFeed {α : Type} : Program α → Prop where
  | done (a : α) : (done a).IgnoresLineFeed
  | has {r : Register} {next : Bool → Program α} (h : ∀ b, (next b).IgnoresLineFeed) :
    (has r next).IgnoresLineFeed
  | write {r : Register} {value : String} {next : Except ChannelError Unit → Program α}
    (h : ∀ x, (next x).IgnoresLineFeed) : (write r value next).IgnoresLineFeed
  | read {r : Register} {next : Except ChannelError String → Program α}
    (same : ∀ raw, next (.ok (raw ++ "\n")) = next (.ok raw))
    (h : ∀ x, (next x).IgnoresLineFeed) : (read r next).IgnoresLineFeed
  | note {record : Log.Record} {next : Program α} (h : next.IgnoresLineFeed) :
    (note record next).IgnoresLineFeed

namespace IgnoresLineFeed

variable {α β : Type} {p : Program α} {f : α → Program β} {as : List Access}

theorem bind (hp : p.IgnoresLineFeed) (hf : ∀ a, (f a).IgnoresLineFeed) :
    (p >>= f).IgnoresLineFeed := by
  show (p.bind f).IgnoresLineFeed
  induction hp with
  | done a => exact hf a
  | has _ ih => exact .has ih
  | write _ ih => exact .write ih
  | read same _ ih =>
    refine .read ?_ ih
    intro raw
    rw [same raw]
  | note _ ih => exact .note ih

theorem pure (a : α) : (Pure.pure a : Program α).IgnoresLineFeed := .done a

theorem map (hp : p.IgnoresLineFeed) (g : α → β) : (g <$> p).IgnoresLineFeed := by
  rw [map_eq_pure_bind]
  exact hp.bind fun a => pure (g a)

/-- What only writes reads no line feed. -/
theorem of_makes (h : p.Makes as) (hw : ∀ a ∈ as, a.isWrite) : p.IgnoresLineFeed := by
  induction h with
  | done a => exact .done a
  | has _ ih => exact .has fun b => ih b fun a ha => hw a (List.mem_cons_of_mem _ ha)
  | write _ ih => exact .write fun x => ih x fun a ha => hw a (List.mem_cons_of_mem _ ha)
  | read _ _ =>
    have hr := hw _ List.mem_cons_self
    cases hr
  | note _ ih => exact .note (ih hw)

theorem of_silent (h : p.Makes []) : p.IgnoresLineFeed := of_makes h (List.forall_mem_nil _)

theorem of_write {r : Register} {value : String} (h : p.Makes [.write r value]) :
    p.IgnoresLineFeed := of_makes h (List.forall_mem_singleton.mpr rfl)

end IgnoresLineFeed

theorem wordOf_lineFeed (r : Register) (raw : String) :
    wordOf r (.ok (raw ++ "\n")) = wordOf r (.ok raw) := by
  have h : Text.trim (raw ++ "\n").toList = Text.trim raw.toList := by
    rw [String.toList_append]
    exact Text.strip_concat (by decide) raw.toList
  simp only [wordOf, h]

theorem ignoresLineFeed_hasRegister (r : Register) : (hasRegister r).IgnoresLineFeed := .has .done

theorem ignoresLineFeed_readWord (r : Register) : (readWord r).IgnoresLineFeed := by
  refine .read ?_ fun _ => .done _
  intro raw
  rw [wordOf_lineFeed]

theorem ignoresLineFeed_readFlag (r : Register) : (readFlag r).IgnoresLineFeed :=
  (ignoresLineFeed_readWord r).bind fun _ => .done _

end Program

namespace Controller

open Program

theorem ignoresLineFeed_start (cal : Calibration) (remarks : Calibration.Remarks)
    (catalog : Catalog) : (start cal remarks catalog).IgnoresLineFeed := by
  have hp : (prepare cal remarks).IgnoresLineFeed :=
    .of_makes (makes_prepare cal remarks) fun _ => isWrite_of_mem_prepareAccesses
  have he : ∀ levels, (setEdges levels).IgnoresLineFeed :=
    fun levels => .of_makes (makes_setEdges levels) fun _ => isWrite_of_mem_edgeAccesses
  apply hp.bind
  intro levels
  apply (ignoresLineFeed_readWord .effectDuration).bind
  intro answer
  apply (IgnoresLineFeed.of_silent (makes_measure catalog answer)).bind
  intro catalog
  apply (he levels).bind
  intro _
  exact .of_silent ((makes_say _ _).silent_bind fun _ => .pure _)

theorem ignoresLineFeed_tolerate (severity : Log.Severity) (complaint : String)
    (x : Except Failure Unit) : (tolerate severity complaint x).IgnoresLineFeed :=
  .of_silent (makes_tolerate severity complaint x)

theorem ignoresLineFeed_require_write (complaint : String) (r : Register) (value : String) :
    (writeText r value >>= require complaint).IgnoresLineFeed :=
  .of_write ((makes_writeText r value).bind_silent (makes_require complaint))

theorem ignoresLineFeed_trigger (durationMs slot : UInt32) :
    (trigger durationMs slot).IgnoresLineFeed :=
  .of_makes (makes_trigger durationMs slot) (by simp [Access.word, Access.isWrite])

theorem ignoresLineFeed_setEffectAmplitude (amplitude maximum : UInt32) :
    (setEffectAmplitude amplitude maximum).IgnoresLineFeed := by
  rw [setEffectAmplitude]
  cases Attenuation.scale amplitude maximum with
  | ok a => exact ignoresLineFeed_require_write _ .effectScale _
  | error f => exact .pure _

variable (c : Controller)

theorem ignoresLineFeed_setOverallAmplitude (inForce : Bool) :
    (c.setOverallAmplitude inForce).IgnoresLineFeed := by
  unfold setOverallAmplitude
  dsimp only
  cases Attenuation.scale (if inForce then c.levels.overall else VoltageTable.maximum)
      VoltageTable.maximum with
  | ok a => exact ignoresLineFeed_require_write _ .globalScale _
  | error f => exact .pure _

theorem ignoresLineFeed_activate (durationMs : UInt32) :
    (c.activate durationMs).IgnoresLineFeed := by
  apply (c.ignoresLineFeed_setOverallAmplitude true).bind
  intro x
  apply (ignoresLineFeed_tolerate _ _ x).bind
  intro _
  exact (ignoresLineFeed_trigger _ _).bind fun _ => .pure _

theorem ignoresLineFeed_deactivate : c.deactivate.IgnoresLineFeed := by
  apply (c.ignoresLineFeed_setOverallAmplitude false).bind
  intro x
  apply (ignoresLineFeed_tolerate _ _ x).bind
  intro _
  exact ignoresLineFeed_require_write _ .activate _

theorem ignoresLineFeed_performEffect (e : Effect) (s : Strength) :
    (c.performEffect e s).IgnoresLineFeed := by
  rw [performEffect]
  cases c.catalog.resolve c.levels e s with
  | error f => exact .of_silent ((makes_say _ _).silent_bind fun _ => .pure _)
  | ok p =>
    -- Storing and playing together make the accesses of the playback, all of them writes.
    have hs : (storeQueue p).IgnoresLineFeed := .of_makes (makes_storeQueue p)
      fun _ ha => Playback.isWrite_of_mem_accesses (List.mem_append_left _ ha)
    have hp : (play e s p).IgnoresLineFeed := by
      have hm := makes_play e s p
      rw [p.slot_eq] at hm
      exact .of_makes hm
        fun _ ha => Playback.isWrite_of_mem_accesses (List.mem_append_right _ ha)
    apply hs.bind
    intro stored
    cases stored with
    | error f => exact .pure _
    | ok _ => exact hp

theorem ignoresLineFeed_perform (e : Effect) (s : Strength) :
    (c.perform e s).IgnoresLineFeed := by
  apply (c.ignoresLineFeed_performEffect e s).bind
  intro played
  cases played with
  | ok ms => exact .pure _
  | error f => exact .pure _

theorem ignoresLineFeed_isUnderExternalControl : isUnderExternalControl.IgnoresLineFeed := by
  apply (ignoresLineFeed_readFlag .aspEnable).bind
  intro flag
  cases flag with
  | ok b => exact .pure b
  | error e => exact .pure false

theorem ignoresLineFeed_setExternalControl (enabled : Bool) :
    (c.setExternalControl enabled).IgnoresLineFeed := by
  apply (c.ignoresLineFeed_setOverallAmplitude enabled).bind
  intro x
  apply (ignoresLineFeed_tolerate _ _ x).bind
  intro _
  exact ignoresLineFeed_require_write _ .aspEnable _

theorem ignoresLineFeed_supportsAmplitudeControl : supportsAmplitudeControl.IgnoresLineFeed := by
  apply (ignoresLineFeed_hasRegister .effectScale).bind
  intro present
  cases present with
  | false => exact .pure false
  | true => exact ignoresLineFeed_isUnderExternalControl.bind fun _ => .pure _

theorem ignoresLineFeed_setAmplitude (amplitude : UInt8) :
    (setAmplitude amplitude).IgnoresLineFeed := by
  rw [setAmplitude]
  by_cases h : amplitude = 0
  · rw [if_pos h]
    exact .pure _
  · rw [if_neg h]
    apply ignoresLineFeed_isUnderExternalControl.bind
    intro external
    cases external with
    | true => exact .pure _
    | false => exact ignoresLineFeed_setEffectAmplitude _ _

theorem ignoresLineFeed_handle (command : Command) : (c.handle command).IgnoresLineFeed := by
  cases command with
  | on ms => exact (c.ignoresLineFeed_activate ms).bind fun _ => .pure _
  | off => exact c.ignoresLineFeed_deactivate.bind fun _ => .pure _
  | setAmplitude a => exact (ignoresLineFeed_setAmplitude a).bind fun _ => .pure _
  | setExternalControl b => exact (c.ignoresLineFeed_setExternalControl b).bind fun _ => .pure _
  | perform e s => exact (c.ignoresLineFeed_perform e s).bind fun _ => .pure _
  | queryCapabilities =>
    apply ignoresLineFeed_supportsAmplitudeControl.bind
    intro amplitude
    exact (ignoresLineFeed_hasRegister .aspEnable).bind fun _ => .pure _

theorem ignoresLineFeed_operate (op : Operation) : (c.operate op).IgnoresLineFeed := by
  cases op with
  | activate ms => exact (c.ignoresLineFeed_activate ms).map _
  | deactivate => exact c.ignoresLineFeed_deactivate.map _
  | setAmplitude a => exact (ignoresLineFeed_setAmplitude a).map _
  | setExternalControl b => exact (c.ignoresLineFeed_setExternalControl b).map _
  | performEffect e s => exact (c.ignoresLineFeed_performEffect e s).map _
  | perform e s => exact (c.ignoresLineFeed_perform e s).map _
  | supportsAmplitudeControl => exact ignoresLineFeed_supportsAmplitudeControl.map _
  | supportsExternalControl => exact (ignoresLineFeed_hasRegister .aspEnable).map _
  | isUnderExternalControl => exact ignoresLineFeed_isUnderExternalControl.map _
  | handle command => exact (c.ignoresLineFeed_handle command).map _

end Controller

end Rumble
