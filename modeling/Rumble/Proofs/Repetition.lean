import Rumble.Proofs.Alike
import Rumble.Proofs.BankHistory

namespace Rumble

/-- Two runs one after the other on a device with a bank behind it. The second one is called and
answered like the first one, leaves all registers as they are, and adds the same entries to the
journal again. -/
structure Run.Repeats {σ α : Type} (bank : σ → Bank) (before : σ) (once twice : Run σ α) :
    Prop where
  value_eq : twice.value = once.value
  calls_eq : twice.calls = once.calls
  has_eq : (bank twice.state).has = (bank once.state).has
  registers_eq : (bank twice.state).value? = (bank once.state).value?
  exists_entries : ∃ entries, (bank once.state).journal = (bank before).journal ++ entries ∧
    (bank twice.state).journal = (bank once.state).journal ++ entries

theorem Access.lastText?_append (r : Register) (as bs : List Access) :
    lastText? r (as ++ bs) = (lastText? r bs).or (lastText? r as) := by
  rw [lastText?, List.filterMap_append, List.getLast?_append]
  rfl

namespace Bank

variable (as : List Access) (b : Bank)

theorem value?_after_after : (device.after as (device.after as b)).value? =
    (device.after as b).value? := by
  funext r
  rw [← Device.after_append]
  apply value?_after_congr
  rw [Access.lastText?_append, Option.or_self]

theorem journal_after_after : ∃ entries, (device.after as b).journal = b.journal ++ entries ∧
    (device.after as (device.after as b)).journal = (device.after as b).journal ++ entries := by
  have hb : (device.after as b).has = b.has := funext (has_after as b)
  refine ⟨_, journal_after as b, ?_⟩
  rw [journal_after as (device.after as b), hb]

end Bank

/-! ### Faults -/

namespace Faults

def passes (faults : Faults) : Access → Bool
  | .has _ => true
  | .write r _ => (faults.write r).isNone
  | .read r => (faults.read r).isNone

end Faults

namespace Device

variable {σ α : Type} (device : Device σ)

/-- Behind the faults only those accesses are made that get past them. -/
theorem after_withFaults (faults : Faults) (as : List Access) (st : σ) :
    device.withFaults.after as (faults, st) =
      (faults, device.after (as.filter faults.passes) st) := by
  induction as generalizing st with
  | nil => rfl
  | cons a as ih =>
    cases a with
    | has r => exact ih st
    | write r value =>
      cases hr : faults.write r with
      | some fault => simpa [after, make, withFaults, Faults.passes, hr] using ih st
      | none => simpa [after, make, withFaults, Faults.passes, hr] using ih _
    | read r =>
      cases hr : faults.read r with
      | some fault => simpa [after, make, withFaults, Faults.passes, hr] using ih st
      | none => simpa [after, make, withFaults, Faults.passes, hr] using ih _

theorem run_withFaults_none (p : Program α) (st : σ) :
    p.run device.withFaults (Faults.none, st) =
      let run := p.run device st
      { value := run.value
        state := (Faults.none, run.state)
        calls := run.calls
        records := run.records } := by
  induction p generalizing st with
  | done a => rfl
  | has r next ih =>
    have hh : device.withFaults.has r (Faults.none, st) = device.has r st := rfl
    simp only [Program.run, hh, ih]
  | write r value next ih =>
    have hw : device.withFaults.write r value (Faults.none, st) =
        let reply := device.write r value st
        ⟨reply.answer, (Faults.none, reply.state), reply.records⟩ := rfl
    simp only [Program.run, hw, ih]
  | read r next ih =>
    have hr : device.withFaults.read r (Faults.none, st) =
        let reply := device.read r st
        ⟨reply.answer, (Faults.none, reply.state), reply.records⟩ := rfl
    simp only [Program.run, hr, ih]
  | note record next ih => simp only [Program.run, ih]

end Device

namespace Controller

open Program

variable {c : Controller} {op : Operation} {as : List Access}

/-- An operation does not read what it writes. -/
theorem write_not_mem_of_read_mem (h : c.Attempts op as) {r : Register} (hr : .read r ∈ as)
    (value : String) : .write r value ∉ as := by
  intro hw
  obtain rfl := eq_aspEnable_of_attempts h hr
  -- The flag is written by one operation alone, which does not read anything.
  obtain ⟨enabled, rfl, -⟩ := writtenBy_of_attempts h hw
  cases h
  rcases List.mem_append.mp hr with hr | hr
  · exact Access.read_not_mem_level _ _ _ hr
  · simp at hr

theorem alike_after (h : c.Attempts op as) (faults : Faults) (b : Bank) :
    Bank.device.withFaults.Alike (fun a => ∀ r, a = .read r → .read r ∈ as) (faults, b)
      Bank.device.withFaults (Bank.device.withFaults.after as (faults, b)) := by
  rw [Device.after_withFaults]
  apply Device.Alike.withFaults
  apply Bank.alike_of_agree
  · intro r
    rw [Bank.has_after]
  · intro r hr
    have hw (value : String) : .write r value ∉ as.filter faults.passes :=
      fun hm => write_not_mem_of_read_mem h (hr r rfl) value (List.mem_of_mem_filter hm)
    exact (Bank.value?_after hw b).symm

/-- The second performance is called and answered like the first one, so that the same accesses get
past the faults. -/
theorem run_again (c : Controller) (op : Operation) (faults : Faults) (b : Bank) :
    let once := (c.operate op).run Bank.device.withFaults (faults, b)
    let twice := (c.operate op).run Bank.device.withFaults once.state
    twice.value = once.value ∧ twice.calls = once.calls ∧
      ∃ as, once.state = (faults, Bank.device.after as b) ∧
        twice.state = (faults, Bank.device.after as (Bank.device.after as b)) := by
  intro once twice
  have hs : once.state = Bank.device.withFaults.after once.accesses (faults, b) :=
    (run_eq_of_accesses (c.operate op) Bank.device.withFaults (faults, b)).2
  have hs' : twice.state = Bank.device.withFaults.after twice.accesses once.state :=
    (run_eq_of_accesses (c.operate op) Bank.device.withFaults once.state).2
  have hl := alike_after (attempts_operate c op Bank.device.withFaults (faults, b)) faults b
  rw [← hs] at hl
  obtain ⟨hv, hc, -⟩ := hl.run (c.operate op) (by rintro a ha r rfl; exact ha)
  have ha : twice.accesses = once.accesses := congrArg (List.map Call.access) hc.symm
  rw [Device.after_withFaults] at hs
  rw [ha, hs, Device.after_withFaults] at hs'
  exact ⟨hv.symm, hc.symm, _, hs, hs'⟩

theorem repeats_withFaults (c : Controller) (op : Operation) (faults : Faults) (b : Bank) :
    let once := (c.operate op).run Bank.device.withFaults (faults, b)
    once.Repeats Prod.snd (faults, b)
      ((c.operate op).run Bank.device.withFaults once.state) := by
  intro once
  obtain ⟨hv, hc, as, hs, hs'⟩ := run_again c op faults b
  refine ⟨hv, hc, ?_, ?_, ?_⟩
  · rw [hs', hs]
    exact funext (Bank.has_after as (Bank.device.after as b))
  · rw [hs', hs]
    exact Bank.value?_after_after as b
  · rw [hs', hs]
    exact Bank.journal_after_after as b

/-- Operations can be repeated. Performed twice in a row, on a bank that lacks any registers and
with any faults in front of it, an operation is called and answered the second time as it was the
first time, and leaves what it left; only the journal has its entries twice. -/
theorem operations_repeat (c : Controller) (op : Operation) (b : Bank) (faults : Faults) :
    (let once := (c.operate op).run Bank.device b
     once.Repeats id b ((c.operate op).run Bank.device once.state)) ∧
    (let once := (c.operate op).run Bank.device.withFaults (faults, b)
     once.Repeats Prod.snd (faults, b)
       ((c.operate op).run Bank.device.withFaults once.state)) := by
  refine ⟨?_, repeats_withFaults c op faults b⟩
  obtain ⟨hv, hc, hb, hr, hj⟩ := repeats_withFaults c op Faults.none b
  simp only [Device.run_withFaults_none] at hv hc hb hr hj
  exact ⟨hv, hc, hb, hr, hj⟩

end Controller

end Rumble
