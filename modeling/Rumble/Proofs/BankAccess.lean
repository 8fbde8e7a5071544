import Rumble.Bank
import Rumble.Proofs.Accesses

namespace Rumble.Bank

theorem state_read (r : Register) (b : Bank) : (device.read r b).state = b := by
  simp only [device]
  cases b.value? r <;> rfl

theorem write_of_not_has {b : Bank} {r : Register} (h : b.has r = false) (value : String) :
    device.write r value b = { answer := .error (.unavailable r), state := b } := by
  have ha : b.absent r = true := by simpa [has] using h
  simp only [device, ha, if_true]

theorem answer_write (r : Register) (value : String) (b : Bank) :
    (device.write r value b).answer =
      if b.has r then .ok () else .error (.unavailable r) := by
  cases h : b.absent r <;> simp [device, has, h]

theorem state_write (r : Register) (value : String) (b : Bank) :
    (device.write r value b).state = if b.has r then (b.put r value).record r value else b := by
  cases h : b.absent r <;> simp [device, has, h]

theorem value?_write (r r' : Register) (value : String) (b : Bank) :
    (device.write r value b).state.value? r' =
      if r' = r ∧ b.has r then some value else b.value? r' := by
  cases h : b.has r <;> simp [state_write, put, record, h]

theorem has_write (r r' : Register) (value : String) (b : Bank) :
    (device.write r value b).state.has r' = b.has r' := by
  rw [state_write]
  split <;> rfl

theorem has_make (a : Access) (b : Bank) (r : Register) : (device.make a b).2.has r = b.has r := by
  cases a with
  | has r' => rfl
  | write r' value => exact has_write r' r value b
  | read r' => exact congrArg (fun b => has b r) (state_read r' b)

theorem has_after (as : List Access) (b : Bank) (r : Register) :
    (device.after as b).has r = b.has r := by
  induction as generalizing b with
  | nil => rfl
  | cons a as ih => rw [Device.after, ih, has_make]

theorem value?_make {r : Register} {a : Access} {b : Bank}
    (h : b.has r → ∀ value, a ≠ .write r value) :
    (device.make a b).2.value? r = b.value? r := by
  cases a with
  | has r' => rfl
  | write r' value =>
    refine (value?_write r' r value b).trans (if_neg ?_)
    rintro ⟨rfl, hr⟩
    exact h hr value rfl
  | read r' => exact congrArg (fun b => value? b r) (state_read r' b)

/-- A register keeps its value unless it is there and written. -/
theorem value?_after_of_unwritten {r : Register} {as : List Access} {b : Bank}
    (h : b.has r → ∀ value, .write r value ∉ as) :
    (device.after as b).value? r = b.value? r := by
  induction as generalizing b with
  | nil => rfl
  | cons a as ih =>
    rw [Device.after, ih, value?_make]
    · rintro hr value rfl
      exact h hr value List.mem_cons_self
    · rw [has_make]
      exact fun hr value hm => h hr value (List.mem_cons_of_mem a hm)

theorem value?_after {r : Register} {as : List Access} (h : ∀ value, .write r value ∉ as)
    (b : Bank) : (device.after as b).value? r = b.value? r :=
  value?_after_of_unwritten fun _ => h

theorem value?_after_of_not_has {b : Bank} {r : Register} (h : b.has r = false)
    (as : List Access) : (device.after as b).value? r = b.value? r := by
  apply value?_after_of_unwritten
  rw [h]
  exact fun hf => nomatch hf

/-- The registers with a value are those that are not reported missing. -/
def Sound (b : Bank) : Prop := ∀ r, (b.value? r).isSome = b.has r

theorem sound_without (absent : List Register) : (without absent).Sound := by
  intro r
  rw [value?_without, has_without]
  by_cases h : r ∈ absent <;> simp [h]

namespace Sound

variable {b : Bank}

/-- A value that is put only where nothing is missing keeps the two maps together. -/
theorem of_put (h : b.Sound) {b' : Bank} {r : Register} {value : String}
    (hv : ∀ r', b'.value? r' = if r' = r ∧ b.has r then some value else b.value? r')
    (hb : ∀ r', b'.has r' = b.has r') : b'.Sound := by
  intro r'
  rw [hv, hb]
  split
  · next hr => rw [hr.1, hr.2, Option.isSome_some]
  · exact h r'

theorem set (h : b.Sound) (r : Register) (value : String) : (b.set r value).Sound :=
  h.of_put (fun r' => value?_set b r r' value) fun r' => has_set b r r' value

theorem make (h : b.Sound) (a : Access) : (device.make a b).2.Sound := by
  cases a with
  | has r => exact h
  | write r value =>
    exact h.of_put (fun r' => value?_write r r' value b) fun r' => has_write r r' value b
  | read r =>
    rw [Device.make, state_read]
    exact h

theorem after (h : b.Sound) (as : List Access) : (device.after as b).Sound := by
  induction as generalizing b with
  | nil => exact h
  | cons a as ih => exact ih (h.make a)

theorem value?_eq_none (h : b.Sound) {r : Register} (hr : b.has r = false) :
    b.value? r = none := by
  rw [← Option.isNone_iff_eq_none, ← Option.isSome_eq_false_iff, h, hr]

end Sound

end Rumble.Bank
