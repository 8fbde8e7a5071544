import Rumble.Controller

namespace Rumble

inductive Operation where
  | activate (durationMs : UInt32)
  | deactivate
  | setAmplitude (amplitude : UInt8)
  | setExternalControl (enabled : Bool)
  | performEffect (e : Effect) (s : Strength)
  | perform (e : Effect) (s : Strength)
  | supportsAmplitudeControl
  | supportsExternalControl
  | isUnderExternalControl
  | handle (command : Command)
  deriving DecidableEq, Repr

inductive Answer where
  | result (r : Except Failure Unit)
  | duration (r : Except Failure UInt32)
  | performed (status : Status) (durationMs : UInt32)
  | flag (b : Bool)
  | outcome (o : Outcome)

def Controller.operate (c : Controller) : Operation → Program Answer
  | .activate ms => .result <$> c.activate ms
  | .deactivate => .result <$> c.deactivate
  | .setAmplitude a => .result <$> Controller.setAmplitude a
  | .setExternalControl b => .result <$> c.setExternalControl b
  | .performEffect e s => .duration <$> c.performEffect e s
  | .perform e s => (fun x => .performed x.1 x.2) <$> c.perform e s
  | .supportsAmplitudeControl => .flag <$> Controller.supportsAmplitudeControl
  | .supportsExternalControl => .flag <$> Controller.supportsExternalControl
  | .isUnderExternalControl => .flag <$> Controller.isUnderExternalControl
  | .handle command => .outcome <$> c.handle command

inductive Event (ι : Type) where
  | ask (op : Operation)
  | outside (i : ι)
  deriving DecidableEq, Repr

/-- An event of a session with what came of it. -/
structure Moment (ι σ : Type) where
  event : Event ι
  before : σ
  after : σ
  calls : List Call
  answer : Option Answer

namespace Controller

variable {ι σ : Type} (c : Controller) (device : Device σ) (outside : ι → σ → σ)

def moment (event : Event ι) (st : σ) : Moment ι σ :=
  match event with
  | .ask op =>
    let run := (c.operate op).run device st
    ⟨event, st, run.state, run.calls, some run.value⟩
  | .outside i => ⟨event, st, outside i st, [], none⟩

/-- The moments of a session whose controller is built. -/
def session : List (Event ι) → σ → List (Moment ι σ)
  | [], _ => []
  | event :: events, st =>
    let m := c.moment device outside event st
    m :: session events m.after

def sessionFrom (cal : Calibration) (remarks : Calibration.Remarks) (catalog : Catalog)
    (device : Device σ) (outside : ι → σ → σ) (events : List (Event ι)) (st : σ) :
    List (Moment ι σ) :=
  let built := (start cal remarks catalog).run device st
  built.value.session device outside events built.state

variable {c device outside}

theorem before_moment (event : Event ι) (st : σ) :
    (c.moment device outside event st).before = st := by
  cases event <;> rfl

theorem event_moment (event : Event ι) (st : σ) :
    (c.moment device outside event st).event = event := by
  cases event <;> rfl

/-- A moment is determined by its event and the state before it. -/
theorem eq_moment_of_mem_session {events : List (Event ι)} {st : σ} {m : Moment ι σ}
    (hm : m ∈ c.session device outside events st) :
    m = c.moment device outside m.event m.before := by
  induction events generalizing st with
  | nil => cases hm
  | cons event events ih =>
    rw [session] at hm
    rcases List.mem_cons.mp hm with rfl | hm
    · rw [before_moment, event_moment]
    · exact ih hm

theorem ask_of_mem_session {events : List (Event ι)} {st : σ} {m : Moment ι σ} {op : Operation}
    (hm : m ∈ c.session device outside events st) (ho : m.event = .ask op) :
    m.calls = ((c.operate op).run device m.before).calls ∧
      m.answer = some ((c.operate op).run device m.before).value := by
  have h := eq_moment_of_mem_session hm
  rw [ho] at h
  exact ⟨congrArg Moment.calls h, congrArg Moment.answer h⟩

end Controller

end Rumble
