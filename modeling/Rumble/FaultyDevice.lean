import Rumble.Program

namespace Rumble

structure Faults where
  write : Register → Option Fault
  read : Register → Option Fault

def Faults.none : Faults := ⟨fun _ => .none, fun _ => .none⟩

/-- Answers a call on a register with a fault without making it. -/
def Device.withFaults {σ : Type} (device : Device σ) : Device (Faults × σ) where
  has r s := device.has r s.2
  write r value s :=
    match s.1.write r with
    | some fault => { answer := .error (.io r fault), state := s }
    | none =>
      let reply := device.write r value s.2
      { answer := reply.answer, state := (s.1, reply.state), records := reply.records }
  read r s :=
    match s.1.read r with
    | some fault => { answer := .error (.io r fault), state := s }
    | none =>
      let reply := device.read r s.2
      { answer := reply.answer, state := (s.1, reply.state), records := reply.records }

end Rumble
