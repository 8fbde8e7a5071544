import Mathlib.Logic.Function.Basic
import Rumble.Proofs.ExternalControl

namespace Rumble

open Function (update)

variable {σ α : Type}

/-! ### Stored values -/

def Call.stored? (r : Register) : Call → Option String
  | write r' value (.ok _) => if r' = r then some value else none
  | _ => none

theorem Call.eq_write_of_stored? {r : Register} {call : Call} {value : String}
    (h : call.stored? r = some value) : call = .write r value (.ok ()) := by
  unfold stored? at h
  split at h
  · split at h
    · next hr =>
      cases h
      rw [hr]
    · cases h
  · cases h

theorem Call.stored?_write (r : Register) (value : String) :
    (Call.write r value (.ok ())).stored? r = some value := if_pos rfl

def lastStored? (r : Register) (calls : List Call) : Option String :=
  (calls.filterMap (Call.stored? r)).getLast?

theorem lastStored?_append (r : Register) (cs ds : List Call) :
    lastStored? r (cs ++ ds) = (lastStored? r ds).or (lastStored? r cs) := by
  rw [lastStored?, List.filterMap_append, List.getLast?_append]
  rfl

theorem lastStored?_cons (r : Register) (call : Call) (calls : List Call) :
    lastStored? r (call :: calls) = (lastStored? r calls).or (call.stored? r) := by
  rw [← List.singleton_append, lastStored?_append]
  congr 1
  rw [lastStored?, List.filterMap_cons]
  cases call.stored? r <;> rfl

theorem mem_of_lastStored? {r : Register} {calls : List Call} {value : String}
    (h : lastStored? r calls = some value) : .write r value (.ok ()) ∈ calls := by
  obtain ⟨call, hm, hs⟩ := List.mem_filterMap.mp (List.mem_of_getLast? h)
  rwa [Call.eq_write_of_stored? hs] at hm

theorem lastStored?_eq_none_iff {r : Register} {calls : List Call} :
    lastStored? r calls = none ↔ ∀ value, .write r value (.ok ()) ∉ calls := by
  rw [lastStored?, List.getLast?_eq_none_iff, List.filterMap_eq_nil_iff]
  constructor
  · intro h value hm
    have hs := h _ hm
    rw [Call.stored?_write] at hs
    cases hs
  · intro h call hm
    cases hs : call.stored? r with
    | none => rfl
    | some value =>
      rw [Call.eq_write_of_stored? hs] at hm
      exact absurd hm (h value)

/-! ### Devices -/

/-- A write that is accepted is held, one that is refused changes nothing, and neither do reads.
Which writes are refused, and what reads are answered, is left open. -/
structure Device.Keeps (device : Device σ) (held : σ → Register → String) : Prop where
  accepted : ∀ r value st, (device.write r value st).answer = .ok () →
    held (device.write r value st).state = update (held st) r value
  refused : ∀ r value st fault, (device.write r value st).answer = .error fault →
    held (device.write r value st).state = held st
  read : ∀ r st, held (device.read r st).state = held st

namespace Device.Keeps

variable {device : Device σ} {held : σ → Register → String}

theorem held_write (h : device.Keeps held) (r r' : Register) (value : String) (st : σ) :
    held (device.write r value st).state r' =
      ((Call.write r value (device.write r value st).answer).stored? r').getD (held st r') := by
  cases ha : (device.write r value st).answer with
  | ok _ =>
    rw [h.accepted r value st ha, Call.stored?]
    by_cases hr : r = r'
    · subst hr
      rw [if_pos rfl, Function.update_self, Option.getD_some]
    · rw [if_neg hr, Function.update_of_ne (Ne.symm hr), Option.getD_none]
  | error fault =>
    rw [h.refused r value st fault ha]
    rfl

/-- A run leaves in a register what it stored there last. -/
theorem held_run (h : device.Keeps held) (p : Program α) (st : σ) (r : Register) :
    held (p.run device st).state r = (lastStored? r (p.run device st).calls).getD (held st r) := by
  -- What the rest of the run stores counts above the call at hand.
  induction p generalizing st with
  | done a => rfl
  | has r' next ih =>
    simp only [Program.run, lastStored?_cons, Option.getD_or, ih]
    rfl
  | write r' value next ih =>
    simp only [Program.run, lastStored?_cons, Option.getD_or, ih, h.held_write]
  | read r' next ih =>
    simp only [Program.run, lastStored?_cons, Option.getD_or, ih, h.read]
    rfl
  | note record next ih => exact ih st

end Device.Keeps

/-- What a register of a bank holds; one that is not there never changes. -/
def Bank.held (b : Bank) (r : Register) : String := (b.value? r).getD "0"

theorem Bank.keeps : device.Keeps held where
  accepted r value b ha := by
    have hb : b.has r := by
      by_contra hb
      rw [answer_write, if_neg hb] at ha
      cases ha
    funext r'
    rw [held, value?_write]
    by_cases hr : r' = r
    · subst hr
      rw [if_pos ⟨rfl, hb⟩, Function.update_self, Option.getD_some]
    · rw [if_neg fun h => hr h.1, Function.update_of_ne hr, held]
  refused r value b fault ha := by
    have hb : b.has r = false := by
      by_contra hb
      rw [Bool.not_eq_false] at hb
      rw [answer_write, if_pos hb] at ha
      cases ha
    rw [write_of_not_has hb]
  read r b := by rw [state_read]

/-- Refuses writes by a schedule, whatever the device behind it would answer. -/
def Device.scheduled (device : Device σ) : Device (List (Option Fault) × σ) where
  has r s := device.has r s.2
  write r value s :=
    match s.1.head?.join with
    | some fault => { answer := .error (.io r fault), state := (s.1.tail, s.2) }
    | none =>
      let reply := device.write r value s.2
      { answer := reply.answer, state := (s.1.tail, reply.state), records := reply.records }
  read r s :=
    let reply := device.read r s.2
    { answer := reply.answer, state := (s.1, reply.state), records := reply.records }

theorem Device.Keeps.scheduled {device : Device σ} {held : σ → Register → String}
    (h : device.Keeps held) : device.scheduled.Keeps fun s => held s.2 where
  accepted r value s ha := by
    simp only [Device.scheduled] at ha ⊢
    split at ha
    · cases ha
    · exact h.accepted r value s.2 ha
  refused r value s fault ha := by
    simp only [Device.scheduled] at ha ⊢
    split at ha
    · rfl
    · exact h.refused r value s.2 fault ha
  read r s := h.read r s.2

/-! ### Sessions -/

namespace Controller

def asked (c : Controller) (device : Device σ) (ops : List Operation) (st : σ) :
    List (Moment Empty σ) :=
  c.session device (fun i => i.elim) (ops.map .ask) st

variable {c : Controller} {device : Device σ} {held : σ → Register → String}

/-- After some operations a register holds what they stored in it last. -/
theorem held_reached (h : device.Keeps held) (ops : List Operation) (st : σ) (r : Register) :
    held (c.reached device ops st) r =
      (lastStored? r ((c.asked device ops st).flatMap Moment.calls)).getD (held st r) := by
  induction ops generalizing st with
  | nil => rfl
  | cons op ops ih =>
    have hr : c.reached device (op :: ops) st =
        c.reached device ops ((c.operate op).run device st).state := rfl
    have hs : (c.asked device (op :: ops) st).flatMap Moment.calls =
        ((c.operate op).run device st).calls ++
          (c.asked device ops ((c.operate op).run device st).state).flatMap Moment.calls := rfl
    rw [hr, hs, ih, h.held_run, lastStored?_append, Option.getD_or]

end Controller

end Rumble
