import Rumble.Attenuation
import Rumble.Calibration.Basic
import Rumble.Command
import Rumble.Playback
import Rumble.Program

namespace Rumble

/-- What a controller works with; the rest of its state is in the registers. -/
structure Controller where
  catalog : Catalog
  levels : VoltageTable

namespace Controller

open Program

/-- Logs a failed write and goes on. -/
def report (what : String) : Except ChannelError Unit → Program Unit
  | .ok _ => pure ()
  | .error e => say .error ("Failed to set " ++ what ++ ": " ++ e.message)

/-- Logs a failed write and makes it the failure of the request. -/
def require (complaint : String) : Except ChannelError Unit → Program (Except Failure Unit)
  | .ok _ => pure (.ok ())
  | .error e => do
    say .error (complaint ++ ": " ++ e.message)
    return .error .unknownError

/-- Logs a failed request and goes on. -/
def tolerate (severity : Log.Severity) (complaint : String) : Except Failure Unit → Program Unit
  | .ok _ => pure ()
  | .error f => say severity (complaint ++ " (" ++ f.message ++ ")")

section

variable {σ : Type} (device : Device σ) (s : σ)

@[simp] theorem calls_report (what : String) (x : Except ChannelError Unit) :
    ((report what x).run device s).calls = [] := by
  cases x <;> rfl

@[simp] theorem state_report (what : String) (x : Except ChannelError Unit) :
    ((report what x).run device s).state = s := by
  cases x <;> rfl

@[simp] theorem calls_require (complaint : String) (x : Except ChannelError Unit) :
    ((require complaint x).run device s).calls = [] := by
  cases x <;> rfl

@[simp] theorem state_require (complaint : String) (x : Except ChannelError Unit) :
    ((require complaint x).run device s).state = s := by
  cases x <;> rfl

@[simp] theorem value_require (complaint : String) (x : Except ChannelError Unit) :
    ((require complaint x).run device s).value = x.mapError fun _ => .unknownError := by
  cases x <;> rfl

@[simp] theorem calls_tolerate (severity : Log.Severity) (complaint : String)
    (x : Except Failure Unit) : ((tolerate severity complaint x).run device s).calls = [] := by
  cases x <;> rfl

@[simp] theorem state_tolerate (severity : Log.Severity) (complaint : String)
    (x : Except Failure Unit) : ((tolerate severity complaint x).run device s).state = s := by
  cases x <;> rfl

end

/-! ### Startup -/

def pushOptional (r : Register) (remarks : List Log.Record) : Option UInt32 → Program Unit
  | none => sayAll remarks
  | some n => do
    sayAll remarks
    report r.name (← writeWord r n)

def pushCalibration (cal : Calibration) (remarks : Calibration.Remarks) : Program Unit := do
  pushOptional .f0 remarks.f0 cal.f0
  pushOptional .redc remarks.redc cal.redc
  pushOptional .q remarks.q (some cal.q)

/-- Lets an edge play the simple waveform, at a level that is left alone if it is out of range. -/
def setEdge (index scale : Register) (edge levelName : String) (level : UInt32) :
    Program Unit := do
  report (edge ++ " index") (← writeWord index Waveform.simpleSlot)
  match Attenuation.scale level VoltageTable.maximum with
  | .ok a => report (edge ++ " scale") (← writeWord scale a)
  | .error _ =>
    say .warn ("controller: " ++ levelName ++ " level out of range, " ++ edge ++ " scale not set")

/-- A falling edge plays at the level of clicks and a rising one at that of heavy clicks. -/
def setEdges (levels : VoltageTable) : Program Unit := do
  setEdge .gpioFallIndex .gpioFallScale "gpio fall" "click" (levels.base .click)
  setEdge .gpioRiseIndex .gpioRiseScale "gpio rise" "heavy-click" (levels.base .heavyClick)

def chooseLevels : Option VoltageTable → Program VoltageTable
  | some table => pure table
  | none => do
    say .info "controller: using default voltage levels"
    return .standard

/-- Takes the length of the simple waveform from its register, if that holds a positive number. -/
def measure (catalog : Catalog) : Except ChannelError UInt32 → Program Catalog
  | .ok samples => do
    sayAll (Catalog.measuredRecords samples)
    return catalog.withMeasuredLength samples
  | .error e => do
    say .debug ("controller: effect duration unavailable (" ++ e.message ++
      "), keeping catalog lengths")
    return catalog

def showLevels (levels : VoltageTable) : String :=
  "[" ++ ", ".intercalate (levels.toList.map Text.showWord) ++ "]"

def prepare (cal : Calibration) (remarks : Calibration.Remarks) : Program VoltageTable := do
  report "state" (← writeFlag .state true)
  pushCalibration cal remarks
  sayAll remarks.levels
  let levels ← chooseLevels cal.levels
  report "effect index" (← writeWord .effectIndex Waveform.simpleSlot)
  return levels

/-- Brings the driver up. It never fails: what is missing is logged. -/
def start (cal : Calibration) (remarks : Calibration.Remarks) (catalog : Catalog) :
    Program Controller := do
  let levels ← prepare cal remarks
  let catalog ← measure catalog (← readWord .effectDuration)
  setEdges levels
  say .info ("controller: ready, levels=" ++ showLevels levels ++ ", " ++
    toString catalog.size ++ " effects")
  return { catalog, levels }

/-! ### Playing -/

/-- Selects a slot and a duration and starts playing; failed writes are logged. -/
def trigger (durationMs slot : UInt32) : Program Unit := do
  report "effect index" (← writeWord .effectIndex slot)
  report "duration" (← writeWord .duration durationMs)
  report "activate" (← writeFlag .activate true)

def setEffectAmplitude (amplitude maximum : UInt32) : Program (Except Failure Unit) :=
  match Attenuation.scale amplitude maximum with
  | .error f => pure (.error f)
  | .ok a => do require "Failed to set effect amplitude" (← writeWord .effectScale a)

/-- Puts the calibrated overall level in force, or lifts it. -/
def setOverallAmplitude (c : Controller) (inForce : Bool) : Program (Except Failure Unit) :=
  let level := if inForce then c.levels.overall else VoltageTable.maximum
  match Attenuation.scale level VoltageTable.maximum with
  | .error f => pure (.error f)
  | .ok a => do require "Failed to set global amplitude" (← writeWord .globalScale a)

def activate (c : Controller) (durationMs : UInt32) : Program (Except Failure Unit) := do
  tolerate .debug "activate: global amplitude not applied" (← c.setOverallAmplitude true)
  trigger (Waveform.addMs durationMs Waveform.coldStartMs) Waveform.longSlot
  return .ok ()

def deactivate (c : Controller) : Program (Except Failure Unit) := do
  tolerate .debug "deactivate: global amplitude not reset" (← c.setOverallAmplitude false)
  require "Failed to turn vibrator off" (← writeFlag .activate false)

def storeQueue (p : Playback) : Program (Except Failure Unit) :=
  match p.queue with
  | none => pure (.ok ())
  | some q => do
    require ("Failed to write \"" ++ q.text ++ "\" to effect queue")
      (← writeText .effectQueue q.text)

def play (e : Effect) (s : Strength) (p : Playback) : Program (Except Failure UInt32) := do
  tolerate .warn ("perform: " ++ e.name ++ " scale not applied")
    (← setEffectAmplitude p.volume VoltageTable.maximum)
  trigger p.durationMs p.slot
  say .debug ("perform: " ++ e.name ++ " at " ++ s.name ++ " -> " ++ Text.showWord p.durationMs ++
    " ms, slot " ++ Text.showWord p.slot)
  return .ok p.durationMs

/-- Plays an effect and answers its duration. An effect that is not supported touches no
register. -/
def performEffect (c : Controller) (e : Effect) (s : Strength) :
    Program (Except Failure UInt32) := do
  match c.catalog.resolve c.levels e s with
  | .error f =>
    say .debug ("perform: " ++ e.name ++ " at " ++ s.name ++ " unsupported")
    return .error f
  | .ok p =>
    match ← storeQueue p with
    | .error f => return .error f
    | .ok _ => play e s p

/-- Plays an effect and answers a status; a failure has a zero duration. -/
def perform (c : Controller) (e : Effect) (s : Strength) : Program (Status × UInt32) := do
  match ← c.performEffect e s with
  | .ok ms => return (.ok, ms)
  | .error f => return (.failed f, 0)

/-! ### External control and amplitude -/

/-- The flag of external control; one that cannot be read is not set. -/
def isUnderExternalControl : Program Bool := do
  match ← readFlag .aspEnable with
  | .ok b => return b
  | .error _ => return false

def supportsExternalControl : Program Bool := hasRegister .aspEnable

def setExternalControl (c : Controller) (enabled : Bool) : Program (Except Failure Unit) := do
  tolerate .debug "external control: global amplitude not applied"
    (← c.setOverallAmplitude enabled)
  require "Failed to set external control" (← writeFlag .aspEnable enabled)

def supportsAmplitudeControl : Program Bool := do
  if ← hasRegister .effectScale then return !(← isUnderExternalControl) else return false

def amplitudeMaximum : UInt32 := 255

/-- Sets the amplitude of effects, unless the audio path has the actuator. -/
def setAmplitude (amplitude : UInt8) : Program (Except Failure Unit) := do
  if amplitude = 0 then return .error .badValue
  else if ← isUnderExternalControl then return .error .unsupportedOperation
  else setEffectAmplitude amplitude.toUInt32 amplitudeMaximum

/-! ### Requests -/

def handle (c : Controller) : Command → Program Outcome
  | .on ms => return .status (.ofResult (← c.activate ms))
  | .off => return .status (.ofResult (← c.deactivate))
  | .setAmplitude a => return .status (.ofResult (← Controller.setAmplitude a))
  | .setExternalControl b => return .status (.ofResult (← c.setExternalControl b))
  | .perform e s => do
    let (status, ms) ← c.perform e s
    return .performed status ms
  | .queryCapabilities =>
    return .capabilities (← supportsAmplitudeControl) (← supportsExternalControl)

end Controller

end Rumble
