import Rumble.Effect
import Rumble.Json.Fields
import Rumble.Status

namespace Rumble

inductive Command where
  | on (durationMs : UInt32)
  | off
  | setAmplitude (amplitude : UInt8)
  /-- Hand the actuator to the audio path, or take it back. -/
  | setExternalControl (enabled : Bool)
  | perform (e : Effect) (s : Strength)
  | queryCapabilities
  deriving DecidableEq, Repr

namespace Command

def toJson : Command → Json
  | on ms => .record [("command", .ofString "on"), ("duration_ms", .ofWord ms)]
  | off => .record [("command", .ofString "off")]
  | setAmplitude a =>
    .record [("command", .ofString "set_amplitude"), ("amplitude", .ofNat a.toNat)]
  | setExternalControl b =>
    .record [("command", .ofString "set_external_control"), ("enabled", .bool b)]
  | perform e s =>
    .record [("command", .ofString "perform"), ("effect", .ofString e.name),
      ("strength", .ofString s.name)]
  | queryCapabilities => .record [("command", .ofString "query_capabilities")]

def byte? (v : Json) : Option UInt8 := do
  let n ← v.natural?
  if h : n < UInt8.size then return UInt8.ofNatLT n h else none

/-- The rest of a request without fields: an object, whatever it holds, or an empty array. -/
def isBare : Json → Bool
  | .object _ => true
  | .array [] => true
  | _ => false

def ofJson? (v : Json) : Option Command := do
  let (tag, v) ← v.tagged? "command"
  match tag with
  | "on" => do
    let [ms] ← v.fields? ["duration_ms"] | none
    return on (← ms.word?)
  | "off" => if isBare v then return off else none
  | "set_amplitude" => do
    let [a] ← v.fields? ["amplitude"] | none
    return setAmplitude (← byte? a)
  | "set_external_control" => do
    let [b] ← v.fields? ["enabled"] | none
    return setExternalControl (← b.bool?)
  | "perform" => do
    let [e, s] ← v.fields? ["effect", "strength"] | none
    return perform (← Effect.ofName? (← e.name?)) (← Strength.ofName? (← s.name?))
  | "query_capabilities" => if isBare v then return queryCapabilities else none
  | _ => none

def ofText? (s : String) : Option Command := (Json.parse? s).bind ofJson?

def text (c : Command) : String := c.toJson.render

end Command

inductive Outcome where
  | status (s : Status)
  /-- An effect was asked for; it lasts zero milliseconds if it is not played. -/
  | performed (s : Status) (durationMs : UInt32)
  | capabilities (amplitudeControl externalControl : Bool)
  deriving DecidableEq, Repr

namespace Outcome

/-- Asking for capabilities cannot fail. -/
def code : Outcome → Status
  | status s => s
  | performed s _ => s
  | capabilities .. => .ok

def toJson : Outcome → Json
  | status s => .record [("outcome", .ofString "status"), ("status", .ofString s.code)]
  | performed s ms =>
    .record [("outcome", .ofString "performed"), ("status", .ofString s.code),
      ("duration_ms", .ofWord ms)]
  | capabilities amplitude external =>
    .record [("outcome", .ofString "capabilities"), ("amplitude_control", .bool amplitude),
      ("external_control", .bool external)]

end Outcome

end Rumble
