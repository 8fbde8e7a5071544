import Rumble.Catalog.Basic
import Rumble.Queue
import Rumble.Status

namespace Rumble

structure Playback where
  durationMs : UInt32
  volume : UInt32
  /-- Without a queue the simple waveform is played. -/
  queue : Option Queue
  deriving DecidableEq, Repr

def Playback.slot (p : Playback) : UInt32 :=
  match p.queue with
  | some _ => Waveform.queueSlot
  | none => Waveform.simpleSlot

namespace Catalog

def resolveSimple (c : Catalog) (table : VoltageTable) (e : Effect) (s : Strength) :
    Except Failure (UInt32 × UInt32) :=
  match c.get? e with
  | some (.simple level lengthMs) =>
    match table.at? level s with
    | some volume => .ok (Waveform.addMs (lengthMs.get s) Waveform.coldStartMs, volume)
    | none => .error .unsupportedOperation
  | _ => .error .unsupportedOperation

/-- Adds a part of a compound effect to the duration and the queue of those before it. -/
def appendSegment (c : Catalog) (table : VoltageTable) (s : Strength)
    (before : UInt32 × Queue) : Segment → Except Failure (UInt32 × Queue)
  | .effect e =>
    match c.resolveSimple table e s with
    | .ok (ms, volume) =>
      .ok (Waveform.addMs before.1 ms, before.2.push (.segment Waveform.simpleSlot volume))
    | .error f => .error f
  | .silence ms =>
    .ok (Waveform.addMs (Waveform.addMs before.1 ms) Waveform.pauseErrorMs,
      before.2.push (.silence ms))

/-- The volume of a ringtone depends on the strength alone. -/
def ringtoneVolume : Strength → UInt32
  | .light => VoltageTable.maximum / 3
  | .medium => VoltageTable.maximum / 2
  | .strong => VoltageTable.maximum

def resolve (c : Catalog) (table : VoltageTable) (e : Effect) (s : Strength) :
    Except Failure Playback :=
  match c.get? e with
  | none => .error .unsupportedOperation
  | some (.simple ..) =>
    match c.resolveSimple table e s with
    | .ok (ms, volume) => .ok ⟨ms, volume, none⟩
    | .error f => .error f
  | some (.compound segments) =>
    match segments.foldlM (c.appendSegment table s) (0, .empty) with
    | .ok (ms, queue) => .ok ⟨ms, Waveform.queueVolume, some queue⟩
    | .error f => .error f
  | some (.ringtone queue ms) => .ok ⟨ms, ringtoneVolume s, some ⟨queue⟩⟩

end Catalog

end Rumble
