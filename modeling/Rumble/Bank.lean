import Rumble.Program

namespace Rumble

/-- Registers in memory. The values and the set of missing registers are kept apart; that they fit
together is a law of the operations. -/
structure Bank where
  value? : Register → Option String
  /-- The registers that are reported missing. -/
  absent : Register → Bool
  journal : List (Register × String)

namespace Bank

def full : Bank := ⟨fun _ => some "0", fun _ => false, []⟩

def remove (b : Bank) (r : Register) : Bank :=
  { b with
    value? := fun r' => if r' = r then none else b.value? r'
    absent := fun r' => if r' = r then true else b.absent r' }

def without (absent : List Register) : Bank := absent.foldl remove full

def has (b : Bank) (r : Register) : Bool := !b.absent r

def put (b : Bank) (r : Register) (value : String) : Bank :=
  { b with value? := fun r' => if r' = r then some value else b.value? r' }

/-- Changes what a register reads, if it is not missing, without a journal entry. -/
def set (b : Bank) (r : Register) (value : String) : Bank :=
  if b.absent r then b else b.put r value

def record (b : Bank) (r : Register) (value : String) : Bank :=
  { b with journal := b.journal ++ [(r, value)] }

def clearJournal (b : Bank) : Bank := { b with journal := [] }

def device : Device Bank where
  has r b := b.has r
  write r value b :=
    if b.absent r then { answer := .error (.unavailable r), state := b }
    else
      { answer := .ok ()
        state := (b.put r value).record r value
        records := [⟨.debug, "MemoryHardware: " ++ r.name ++ " <- " ++ value⟩] }
  read r b :=
    match b.value? r with
    | some value => { answer := .ok value, state := b }
    | none => { answer := .error (.unavailable r), state := b }

theorem has_foldl_remove (absent : List Register) (b : Bank) (r : Register) :
    (absent.foldl remove b).has r = (decide (r ∉ absent) && b.has r) := by
  induction absent generalizing b with
  | nil => simp
  | cons r' absent ih =>
    rw [List.foldl_cons, ih, has, has, remove]
    by_cases h : r = r' <;> simp [h]

theorem value?_foldl_remove (absent : List Register) (b : Bank) (r : Register) :
    (absent.foldl remove b).value? r = if r ∈ absent then none else b.value? r := by
  induction absent generalizing b with
  | nil => rfl
  | cons r' absent ih =>
    rw [List.foldl_cons, ih, remove]
    by_cases h : r = r' <;> simp [h]

theorem journal_foldl_remove (absent : List Register) (b : Bank) :
    (absent.foldl remove b).journal = b.journal := by
  induction absent generalizing b with
  | nil => rfl
  | cons r absent ih => exact ih (b.remove r)

theorem has_without (absent : List Register) (r : Register) :
    (without absent).has r = decide (r ∉ absent) :=
  (has_foldl_remove absent full r).trans (Bool.and_true _)

theorem value?_without (absent : List Register) (r : Register) :
    (without absent).value? r = if r ∈ absent then none else some "0" :=
  value?_foldl_remove absent full r

theorem journal_without (absent : List Register) : (without absent).journal = [] :=
  journal_foldl_remove absent full

theorem set_of_has {b : Bank} {r : Register} (h : b.has r) (value : String) :
    b.set r value = b.put r value := by
  rw [set, if_neg]
  simpa [has] using h

theorem value?_set (b : Bank) (r r' : Register) (value : String) :
    (b.set r value).value? r' = if r' = r ∧ b.has r then some value else b.value? r' := by
  cases h : b.absent r <;> simp [set, put, has, h]

@[simp] theorem has_set (b : Bank) (r r' : Register) (value : String) :
    (b.set r value).has r' = b.has r' := by
  rw [set]
  split <;> rfl

@[simp] theorem journal_set (b : Bank) (r : Register) (value : String) :
    (b.set r value).journal = b.journal := by
  rw [set]
  split <;> rfl

end Bank

end Rumble
