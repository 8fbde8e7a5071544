import Rumble.Catalog.Basic
import Rumble.Json.Fields

namespace Rumble

namespace Segment

def toJson : Segment → Json
  | effect e => .record [("effect", .ofString e.name)]
  | silence ms => .record [("silence", .ofWord ms)]

def ofJson? (v : Json) : Option Segment := do
  match ← v.alternative? with
  | ("effect", v) => return effect (← Effect.ofName? (← v.name?))
  | ("silence", v) => return silence (← v.word?)
  | _ => none

end Segment

namespace Entry

def lengths? (v : Json) : Option (PerStrength UInt32) := do
  match ← v.items? with
  | [l, m, s] => return ⟨← l.word?, ← m.word?, ← s.word?⟩
  | _ => none

def toJson : Entry → Json
  | simple level lengthMs => .record
    [("kind", .ofString "simple"), ("level", .ofString level.name),
      ("base_duration_ms", .array (lengthMs.toList.map Json.ofWord))]
  | compound segments => .record
    [("kind", .ofString "compound"), ("segments", .array (segments.map Segment.toJson))]
  | ringtone queue durationMs => .record
    [("kind", .ofString "ringtone"), ("queue", .ofString queue),
      ("duration_ms", .ofWord durationMs)]

def simpleOfJson? (v : Json) : Option Entry := do
  match ← v.fields? ["level", "base_duration_ms"] with
  | [level, lengths] => return simple (← Level.ofName? (← level.name?)) (← lengths? lengths)
  | _ => none

def compoundOfJson? (v : Json) : Option Entry := do
  match ← v.fields? ["segments"] with
  | [segments] => return compound (← (← segments.items?).mapM Segment.ofJson?)
  | _ => none

def ringtoneOfJson? (v : Json) : Option Entry := do
  match ← v.fields? ["queue", "duration_ms"] with
  | [queue, ms] => return ringtone (← queue.text?) (← ms.word?)
  | _ => none

def ofJson? (v : Json) : Option Entry := do
  match ← v.tagged? "kind" with
  | ("simple", v) => simpleOfJson? v
  | ("compound", v) => compoundOfJson? v
  | ("ringtone", v) => ringtoneOfJson? v
  | _ => none

end Entry

namespace Catalog

def entryOfMember? : Option String × Json → Option (Effect × Entry)
  | (key, v) => do return (← Effect.ofName? (← key), ← Entry.ofJson? v)

def entriesOfJson? : Json → Option (List (Effect × Entry))
  | .object ms => ms.mapM entryOfMember?
  | _ => none

/-- Reads a descriptor; every entry has to be well formed, also one that a later entry for the
same effect replaces. -/
def ofDescriptor (s : String) : Except Error Catalog :=
  match (Json.parse? s).bind entriesOfJson? with
  | none => .error .malformed
  | some entries => ofEntries entries

def toJson (c : Catalog) : Json :=
  .record (c.effects.filterMap fun e => (c.get? e).map fun entry => (e.name, entry.toJson))

def descriptor (c : Catalog) : String := c.toJson.render

end Catalog

end Rumble
