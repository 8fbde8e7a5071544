import Rumble.Log
import Rumble.Register
import Rumble.Text.Blank
import Rumble.Text.Numeral

/-!
Programs over registers. A program is a tree of register accesses, each of which continues with
whatever the device answers; a device is any way to answer them. Running a program yields its value
together with the calls it made and the log records that it and the device wrote.
-/

namespace Rumble

inductive Program (α : Type) : Type where
  | done (a : α)
  | has (r : Register) (next : Bool → Program α)
  | write (r : Register) (value : String) (next : Except ChannelError Unit → Program α)
  | read (r : Register) (next : Except ChannelError String → Program α)
  | note (record : Log.Record) (next : Program α)

/-- A call on a device with its answer. -/
inductive Call where
  | has (r : Register) (answer : Bool)
  | write (r : Register) (value : String) (answer : Except ChannelError Unit)
  | read (r : Register) (answer : Except ChannelError String)

structure Reply (σ α : Type) where
  answer : Except ChannelError α
  state : σ
  records : List Log.Record := []

structure Device (σ : Type) where
  has : Register → σ → Bool
  write : Register → String → σ → Reply σ Unit
  read : Register → σ → Reply σ String

structure Run (σ α : Type) where
  value : α
  state : σ
  calls : List Call := []
  records : List Log.Record := []

namespace Program

variable {σ α β γ : Type}

def run (device : Device σ) : Program α → σ → Run σ α
  | done a, s => { value := a, state := s }
  | has r next, s =>
    let b := device.has r s
    let rest := (next b).run device s
    { rest with calls := .has r b :: rest.calls }
  | write r value next, s =>
    let reply := device.write r value s
    let rest := (next reply.answer).run device reply.state
    { rest with
      calls := .write r value reply.answer :: rest.calls
      records := reply.records ++ rest.records }
  | read r next, s =>
    let reply := device.read r s
    let rest := (next reply.answer).run device reply.state
    { rest with
      calls := .read r reply.answer :: rest.calls
      records := reply.records ++ rest.records }
  | note record next, s =>
    let rest := next.run device s
    { rest with records := record :: rest.records }

def bind : Program α → (α → Program β) → Program β
  | done a, f => f a
  | has r next, f => has r fun b => (next b).bind f
  | write r value next, f => write r value fun x => (next x).bind f
  | read r next, f => read r fun x => (next x).bind f
  | note record next, f => note record (next.bind f)

instance : Monad Program where
  pure := done
  bind := bind

theorem bind_done (p : Program α) : p.bind done = p := by
  induction p with
  | done a => rfl
  | has r next ih => simp [bind, ih]
  | write r value next ih => simp [bind, ih]
  | read r next ih => simp [bind, ih]
  | note record next ih => simp [bind, ih]

theorem bind_assoc (p : Program α) (f : α → Program β) (g : β → Program γ) :
    (p.bind f).bind g = p.bind fun a => (f a).bind g := by
  induction p with
  | done a => rfl
  | has r next ih => simp [bind, ih]
  | write r value next ih => simp [bind, ih]
  | read r next ih => simp [bind, ih]
  | note record next ih => simp [bind, ih]

instance : LawfulMonad Program := LawfulMonad.mk' Program bind_done (fun _ _ => rfl) bind_assoc

@[simp] theorem run_pure (device : Device σ) (a : α) (s : σ) :
    (pure a : Program α).run device s = { value := a, state := s } := rfl

/-- A program runs in two parts: the second one starts where the first one ended. -/
theorem run_bind (device : Device σ) (p : Program α) (f : α → Program β) (s : σ) :
    (p >>= f).run device s =
      let first := p.run device s
      let second := (f first.value).run device first.state
      { value := second.value
        state := second.state
        calls := first.calls ++ second.calls
        records := first.records ++ second.records } := by
  show (p.bind f).run device s = _
  induction p generalizing s with
  | done a => simp [bind, run]
  | has r next ih => simp [bind, run, ih]
  | write r value next ih => simp [bind, run, ih]
  | read r next ih => simp [bind, run, ih]
  | note record next ih => simp [bind, run, ih]

theorem run_map (device : Device σ) (f : α → β) (p : Program α) (s : σ) :
    (f <$> p).run device s =
      let r := p.run device s
      { value := f r.value, state := r.state, calls := r.calls, records := r.records } := by
  rw [map_eq_pure_bind, run_bind]
  simp

/-! ### Single accesses -/

def hasRegister (r : Register) : Program Bool := has r done

def writeText (r : Register) (value : String) : Program (Except ChannelError Unit) :=
  write r value done

def writeWord (r : Register) (n : UInt32) : Program (Except ChannelError Unit) :=
  writeText r (Text.showWord n)

def writeFlag (r : Register) (b : Bool) : Program (Except ChannelError Unit) :=
  writeText r (if b then "1" else "0")

def readText (r : Register) : Program (Except ChannelError String) := read r done

/-- The number that a register reads as, with blanks around it ignored. -/
def wordOf (r : Register) : Except ChannelError String → Except ChannelError UInt32
  | .error e => .error e
  | .ok raw =>
    match Text.readWord? (Text.trim raw.toList) with
    | some n => .ok n
    | none => .error (.parse r)

def readWord (r : Register) : Program (Except ChannelError UInt32) :=
  read r fun answer => done (wordOf r answer)

/-- Reads a number as a flag, which is set unless it is zero. -/
def readFlag (r : Register) : Program (Except ChannelError Bool) :=
  (readWord r).bind fun answer => done (answer.map (· ≠ 0))

def say (severity : Log.Severity) (text : String) : Program Unit := note ⟨severity, text⟩ (done ())

def sayAll : List Log.Record → Program Unit
  | [] => done ()
  | r :: rs => note r (sayAll rs)

theorem run_writeText (device : Device σ) (r : Register) (value : String) (s : σ) :
    (writeText r value).run device s =
      let reply := device.write r value s
      { value := reply.answer
        state := reply.state
        calls := [.write r value reply.answer]
        records := reply.records } := by
  simp [writeText, run]

end Program

end Rumble
