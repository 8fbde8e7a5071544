import Rumble.FaultyDevice
import Rumble.Proofs.Storage

namespace Rumble

variable {σ τ α : Type}

def Access.register : Access → Register
  | has r => r
  | write r _ => r
  | read r => r

/-- Every sequence of the allowed accesses leads to the same calls. -/
def Device.Alike (allowed : Access → Prop) (device : Device σ) (st : σ) (device' : Device τ)
    (st' : τ) : Prop :=
  ∀ as : List Access, (∀ a ∈ as, allowed a) → device.calls as st = device'.calls as st'

namespace Device.Alike

variable {allowed : Access → Prop} {device : Device σ} {device' : Device τ} {st : σ} {st' : τ}

theorem make (h : device.Alike allowed st device' st') {a : Access} (ha : allowed a) :
    (device.make a st).1 = (device'.make a st').1 ∧
      device.Alike allowed (device.make a st).2 device' (device'.make a st').2 := by
  have hs (as : List Access) (has : ∀ a ∈ as, allowed a) :
      (device.make a st).1 = (device'.make a st').1 ∧
        device.calls as (device.make a st).2 = device'.calls as (device'.make a st').2 :=
    List.cons.inj (h (a :: as) (List.forall_mem_cons.mpr ⟨ha, has⟩))
  exact ⟨(hs [] (List.forall_mem_nil _)).1, fun as has => (hs as has).2⟩

/-- A program cannot tell them apart by the allowed accesses, and leaves them alike. -/
theorem run (h : device.Alike allowed st device' st') (p : Program α)
    (hp : ∀ a ∈ (p.run device st).accesses, allowed a) :
    let run := p.run device st
    let run' := p.run device' st'
    run.value = run'.value ∧ run.calls = run'.calls ∧
      device.Alike allowed run.state device' run'.state := by
  dsimp only
  -- An answer is part of a call, so alike devices take the same branch of the tree.
  induction p generalizing st st' with
  | done a => exact ⟨rfl, rfl, h⟩
  | has r next ih =>
    obtain ⟨ha, hs⟩ := List.forall_mem_cons.mp hp
    obtain ⟨hc, hn⟩ := h.make ha
    have he : device.has r st = device'.has r st' := (Call.has.inj hc).2
    obtain ⟨hv, hc', hl⟩ := ih (device.has r st) h hs
    simp only [Program.run]
    rw [← he]
    exact ⟨hv, congrArg _ hc', hl⟩
  | write r value next ih =>
    obtain ⟨ha, hs⟩ := List.forall_mem_cons.mp hp
    obtain ⟨hc, hn⟩ := h.make ha
    have he : (device.write r value st).answer = (device'.write r value st').answer :=
      (Call.write.inj hc).2.2
    obtain ⟨hv, hc', hl⟩ := ih (device.write r value st).answer hn hs
    simp only [Program.run]
    rw [← he]
    exact ⟨hv, congrArg _ hc', hl⟩
  | read r next ih =>
    obtain ⟨ha, hs⟩ := List.forall_mem_cons.mp hp
    obtain ⟨hc, hn⟩ := h.make ha
    have he : (device.read r st).answer = (device'.read r st').answer := (Call.read.inj hc).2
    obtain ⟨hv, hc', hl⟩ := ih (device.read r st).answer hn hs
    simp only [Program.run]
    rw [← he]
    exact ⟨hv, congrArg _ hc', hl⟩
  | note record next ih => exact ih h hp

theorem withFaults (h : device.Alike allowed st device' st') (faults : Faults) :
    device.withFaults.Alike allowed (faults, st) device'.withFaults (faults, st') := by
  intro as has
  induction as generalizing st st' with
  | nil => rfl
  | cons a as ih =>
    obtain ⟨ha, hs⟩ := List.forall_mem_cons.mp has
    obtain ⟨hc, hn⟩ := h.make ha
    cases a with
    | has r =>
      have he : device.has r st = device'.has r st' := (Call.has.inj hc).2
      simp only [Device.calls, Device.make, Device.withFaults, he]
      exact congrArg _ (ih h hs)
    | write r value =>
      have he : (device.write r value st).answer = (device'.write r value st').answer :=
        (Call.write.inj hc).2.2
      simp only [Device.calls, Device.make, Device.withFaults]
      cases faults.write r with
      | some fault => exact congrArg _ (ih h hs)
      | none =>
        simp only [he]
        exact congrArg _ (ih hn hs)
    | read r =>
      have he : (device.read r st).answer = (device'.read r st').answer := (Call.read.inj hc).2
      simp only [Device.calls, Device.make, Device.withFaults]
      cases faults.read r with
      | some fault => exact congrArg _ (ih h hs)
      | none =>
        simp only [he]
        exact congrArg _ (ih hn hs)

theorem asked (h : device.Alike allowed st device' st') {c : Controller}
    (hc : ∀ op as, c.Attempts op as → ∀ a ∈ as, allowed a) (ops : List Operation) :
    (c.asked device ops st).map (fun m => (m.calls, m.answer)) =
      (c.asked device' ops st').map fun m => (m.calls, m.answer) := by
  induction ops generalizing st st' with
  | nil => rfl
  | cons op ops ih =>
    obtain ⟨hv, hcalls, hs⟩ := h.run (c.operate op) (hc _ _ (c.attempts_operate op device st))
    exact List.cons_eq_cons.mpr
      ⟨Prod.ext hcalls (congrArg some hv), ih hs⟩

end Device.Alike

theorem Bank.answer_read_congr {r : Register} {b b' : Bank} (h : b.value? r = b'.value? r) :
    (device.read r b).answer = (device.read r b').answer := by
  simp only [device, h]
  cases b'.value? r <;> rfl

/-- Banks with the same registers are alike for accesses that read only where both hold the same. -/
theorem Bank.alike_of_agree {allowed : Access → Prop} {b b' : Bank} (hb : ∀ r, b.has r = b'.has r)
    (hv : ∀ r, allowed (.read r) → b.value? r = b'.value? r) :
    device.Alike allowed b device b' := by
  intro as has
  induction as generalizing b b' with
  | nil => rfl
  | cons a as ih =>
    obtain ⟨ha, hs⟩ := List.forall_mem_cons.mp has
    rw [Device.calls, Device.calls]
    cases a with
    | has r =>
      have hc : (device.make (.has r) b).1 = (device.make (.has r) b').1 :=
        congrArg (Call.has r) (hb r)
      rw [hc]
      exact congrArg _ (ih hb hv hs)
    | write r value =>
      have hc : (device.make (.write r value) b).1 = (device.make (.write r value) b').1 := by
        simp only [Device.make, answer_write, hb r]
      rw [hc]
      apply congrArg _ (ih _ _ hs)
      · intro r'
        rw [Device.make, Device.make, has_write, has_write]
        exact hb r'
      · intro r' hr'
        rw [Device.make, Device.make, value?_write, value?_write, hb r, hv r' hr']
    | read r =>
      have hc : (device.make (.read r) b).1 = (device.make (.read r) b').1 :=
        congrArg (Call.read r) (answer_read_congr (hv r ha))
      have hs' (b : Bank) : (device.make (.read r) b).2 = b := state_read r b
      rw [hc, hs', hs']
      exact congrArg _ (ih hb hv hs)

end Rumble
