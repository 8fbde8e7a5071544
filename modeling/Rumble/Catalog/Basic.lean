import Rumble.Log
import Rumble.Voltage
import Rumble.Waveform

namespace Rumble

inductive Segment where
  | effect (e : Effect)
  | silence (ms : UInt32)
  deriving DecidableEq, Repr

def Segment.effect? : Segment → Option Effect
  | effect e => some e
  | silence _ => none

inductive Entry where
  | simple (level : Level) (lengthMs : PerStrength UInt32)
  | compound (segments : List Segment)
  /-- A stored queue. -/
  | ringtone (queue : String) (durationMs : UInt32)
  deriving DecidableEq, Repr

namespace Entry

def isSimple : Entry → Bool
  | simple .. => true
  | _ => false

def withLength (ms : UInt32) : Entry → Entry
  | simple level _ => simple level (.const ms)
  | entry => entry

@[simp] theorem isSimple_withLength (ms : UInt32) (entry : Entry) :
    (entry.withLength ms).isSimple = entry.isSimple := by
  cases entry <;> rfl

end Entry

inductive Catalog.Error where
  /-- The descriptor does not describe a catalog. -/
  | malformed
  | levelOutOfRange (e : Effect)
  | compoundTooShort (e : Effect)
  | compoundSegmentNotSimple (e inner : Effect)
  | invalidQueue (e : Effect)
  | durationTooShort (e : Effect)
  deriving DecidableEq, Repr

def Catalog.Error.message : Catalog.Error → String
  | malformed => "malformed catalog descriptor"
  | levelOutOfRange e => e.name ++ ": voltage level out of range"
  | compoundTooShort e => e.name ++ ": compound needs at least two effect segments"
  | compoundSegmentNotSimple e inner =>
    e.name ++ ": segment " ++ inner.name ++ " is not a simple effect"
  | invalidQueue e => e.name ++ ": invalid ringtone queue"
  | durationTooShort e =>
    e.name ++ ": ringtone duration must exceed " ++ Text.showWord Waveform.coldStartMs ++ " ms"

namespace Catalog

def levelFits (l : Level) : Bool :=
  Strength.all.all fun s => (l.indexAt? s).any (· < VoltageTable.size)

def isSimpleIn (entries : Effect → Option Entry) (e : Effect) : Bool :=
  (entries e).any Entry.isSimple

/-- What is wrong with the entry of `e`, given which effects are simple. -/
def entryDefect? (isSimple : Effect → Bool) (e : Effect) : Entry → Option Error
  | .simple level _ => if levelFits level then none else some (.levelOutOfRange e)
  | .compound segments =>
    let inner := segments.filterMap Segment.effect?
    if inner.length < 2 then some (.compoundTooShort e)
    else (inner.find? (! isSimple ·)).map (.compoundSegmentNotSimple e)
  | .ringtone queue durationMs =>
    if queue = "" ∨ queue.toList.any Text.isBlank then some (.invalidQueue e)
    else if durationMs ≤ Waveform.coldStartMs then some (.durationTooShort e)
    else none

def defect? (entries : Effect → Option Entry) (e : Effect) : Option Error :=
  (entries e).bind (entryDefect? (isSimpleIn entries) e)

def firstDefect? (entries : Effect → Option Entry) : Option Error :=
  Effect.all.findSome? (defect? entries)

end Catalog

/-- Entries without a defect. -/
structure Catalog where
  get? : Effect → Option Entry
  isValid : Catalog.firstDefect? get? = none

namespace Catalog

/-- Of several entries for one effect the last one counts. -/
def ofEntries (entries : List (Effect × Entry)) : Except Error Catalog :=
  let last (e : Effect) : Option Entry := entries.reverse.lookup e
  match h : firstDefect? last with
  | none => .ok ⟨last, h⟩
  | some d => .error d

def contains (c : Catalog) (e : Effect) : Bool := (c.get? e).isSome

def effects (c : Catalog) : List Effect := Effect.all.filter c.contains

def size (c : Catalog) : Nat := c.effects.length

def standardEntries : Effect → Option Entry
  | .tick | .textureTick => some (.simple .tick (.const Waveform.simpleLengthMs))
  | .click => some (.simple .click (.const Waveform.simpleLengthMs))
  | .heavyClick => some (.simple .heavyClick (.const Waveform.simpleLengthMs))
  | .doubleClick =>
    some (.compound [.effect .tick, .silence Waveform.doubleClickSilenceMs, .effect .click])
  | .ringtone1 => some (.ringtone "!!2.100,100,2.100,800!!4!" 3696)
  | .ringtone2 => some (.ringtone "!!2.100,80,2.80,80,2.100,700!!3!" 2688)
  | .ringtone3 => some (.ringtone "!!2.60,40,2.80,40,2.100,1000!!3!" 3348)
  | .ringtone4 => some (.ringtone "!!2.100,200,2.100,200,2.100,1200!!2!" 3272)
  | .ringtone5 => some (.ringtone "!!2.100,1000!!4!" 4048)
  | _ => none

def standard : Catalog := ⟨standardEntries, by decide +kernel⟩

instance : Inhabited Catalog := ⟨standard⟩

theorem isSimpleIn_withLength (entries : Effect → Option Entry) (ms : UInt32) :
    isSimpleIn (fun e => (entries e).map (Entry.withLength ms)) = isSimpleIn entries := by
  funext e
  simp only [isSimpleIn]
  cases entries e <;> simp

theorem entryDefect?_withLength (isSimple : Effect → Bool) (e : Effect) (ms : UInt32)
    (entry : Entry) :
    entryDefect? isSimple e (entry.withLength ms) = entryDefect? isSimple e entry := by
  cases entry <;> rfl

theorem defect?_withLength (entries : Effect → Option Entry) (ms : UInt32) (e : Effect) :
    defect? (fun e => (entries e).map (Entry.withLength ms)) e = defect? entries e := by
  simp only [defect?, isSimpleIn_withLength]
  cases entries e <;> simp [entryDefect?_withLength]

/-- Replaces the length of every simple waveform by a measured number of samples; zero samples
mean that nothing was measured. -/
def withMeasuredLength (c : Catalog) (samples : UInt32) : Catalog :=
  if samples = 0 then c
  else
    { get? := fun e => (c.get? e).map (Entry.withLength (Waveform.samplesToMs samples))
      isValid := by
        rw [firstDefect?, funext (defect?_withLength c.get? _)]
        exact c.isValid }

theorem get?_withMeasuredLength (c : Catalog) (samples : UInt32) (e : Effect) :
    (c.withMeasuredLength samples).get? e =
      if samples = 0 then c.get? e
      else (c.get? e).map (Entry.withLength (Waveform.samplesToMs samples)) := by
  rw [withMeasuredLength]
  split <;> rfl

theorem get?_withMeasuredLength_cases (c : Catalog) (n : UInt32) (e : Effect) :
    (c.withMeasuredLength n).get? e = c.get? e ∨
      ∃ level lengthMs lengthMs', c.get? e = some (.simple level lengthMs) ∧
        (c.withMeasuredLength n).get? e = some (.simple level lengthMs') := by
  rw [get?_withMeasuredLength]
  split
  · exact .inl rfl
  · cases c.get? e with
    | none => exact .inl rfl
    | some entry =>
      cases entry with
      | simple level lengthMs => exact .inr ⟨level, lengthMs, _, rfl, rfl⟩
      | compound segments => exact .inl rfl
      | ringtone queue durationMs => exact .inl rfl

/-! ### Log records -/

def loadedRecords (c : Catalog) : List Log.Record :=
  [⟨.info, "catalog: loaded " ++ toString c.size ++ " effects from descriptor"⟩]

def measuredRecords (samples : UInt32) : List Log.Record :=
  if samples = 0 then []
  else
    [⟨.info, "catalog: simple waveform length " ++ Text.showWord (Waveform.samplesToMs samples) ++
      " ms (" ++ Text.showWord samples ++ " samples)"⟩]

end Catalog

end Rumble
