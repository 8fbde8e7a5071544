import Mathlib.Logic.Basic
import Mathlib.Tactic.SplitIfs
import Rumble.Attenuation
import Rumble.Program
import Rumble.Voltage

/-!
What a program asks of a device, apart from what it is answered. A program whose accesses do not
depend on the answers makes the same ones on every device, in whatever state the device is.
-/

namespace Rumble

/-- A call without its answer. -/
inductive Access where
  | has (r : Register)
  | write (r : Register) (value : String)
  | read (r : Register)
  deriving DecidableEq, Repr

namespace Access

def isWrite : Access → Bool
  | write .. => true
  | _ => false

def word (r : Register) (n : UInt32) : Access := .write r (Text.showWord n)

def optional (r : Register) (n : Option UInt32) : List Access := n.toList.map (word r)

/-- The write of a level to a scale register, as its attenuation; a level off the output scale is
not written. -/
def level (r : Register) (level : UInt32) : List Access :=
  match Attenuation.scale level VoltageTable.maximum with
  | .ok a => [.word r a]
  | .error _ => []

end Access

namespace Call

def access : Call → Access
  | has r _ => .has r
  | write r value _ => .write r value
  | read r _ => .read r

def reading? (r : Register) : Call → Option (Except ChannelError String)
  | read r' answer => if r' = r then some answer else none
  | _ => none

end Call

theorem VoltageTable.on_scale_iff (level : UInt32) :
    ¬(level = 0 ∨ maximum < level) ↔ 1 ≤ level ∧ level ≤ 100 := by
  have h1 : (1 : UInt32).toNat = 1 := rfl
  have h100 : (100 : UInt32).toNat = 100 := rfl
  simp only [maximum, UInt32.lt_iff_toNat_lt, UInt32.le_iff_toNat_le, ← UInt32.toNat_inj,
    UInt32.toNat_zero, h1, h100]
  omega

theorem Attenuation.scale_maximum (level : UInt32) :
    scale level VoltageTable.maximum =
      if 1 ≤ level ∧ level ≤ 100 then .ok (.ofNat (steps level.toNat 100))
      else .error .badValue := by
  rw [if_congr (VoltageTable.on_scale_iff level).symm rfl rfl, ite_not]
  rfl

theorem Access.level_eq_nil_iff (r : Register) (l : UInt32) :
    level r l = [] ↔ ¬(1 ≤ l ∧ l ≤ 100) := by
  rw [level, Attenuation.scale_maximum]
  split_ifs with h
  · simp [h]
  · simp [h]

theorem Access.eq_word_of_mem_optional {r : Register} {n : Option UInt32} {a : Access}
    (h : a ∈ optional r n) : ∃ m, a = .word r m := by
  obtain ⟨m, -, rfl⟩ := List.mem_map.mp h
  exact ⟨m, rfl⟩

theorem Access.eq_word_of_mem_level {r : Register} {l : UInt32} {a : Access}
    (h : a ∈ level r l) : ∃ m, a = .word r m := by
  rw [level] at h
  split at h
  · next m _ => exact ⟨m, List.mem_singleton.mp h⟩
  · cases h

/-! ### Accesses on a device -/

namespace Device

variable {σ : Type} (device : Device σ)

def make : Access → σ → Call × σ
  | .has r, s => (.has r (device.has r s), s)
  | .write r value, s =>
    let reply := device.write r value s
    (.write r value reply.answer, reply.state)
  | .read r, s =>
    let reply := device.read r s
    (.read r reply.answer, reply.state)

/-- The calls that accesses lead to when each one starts where the one before it ended. -/
def calls : List Access → σ → List Call
  | [], _ => []
  | a :: as, s => (device.make a s).1 :: calls as (device.make a s).2

def after : List Access → σ → σ
  | [], s => s
  | a :: as, s => after as (device.make a s).2

theorem access_make (a : Access) (s : σ) : (device.make a s).1.access = a := by
  cases a <;> rfl

theorem calls_append (as bs : List Access) (s : σ) :
    device.calls (as ++ bs) s = device.calls as s ++ device.calls bs (device.after as s) := by
  induction as generalizing s with
  | nil => rfl
  | cons a as ih =>
    rw [List.cons_append, calls, calls, after, ih]
    rfl

theorem after_append (as bs : List Access) (s : σ) :
    device.after (as ++ bs) s = device.after bs (device.after as s) := by
  induction as generalizing s with
  | nil => rfl
  | cons a as ih => exact ih (device.make a s).2

/-- A device changes the answers, never what is asked. -/
theorem map_access_calls (as : List Access) (s : σ) :
    (device.calls as s).map Call.access = as := by
  induction as generalizing s with
  | nil => rfl
  | cons a as ih => rw [calls, List.map_cons, access_make, ih]

/-- A register that is not asked for is not read. -/
theorem filterMap_reading?_calls {r : Register} {as : List Access} (h : .read r ∉ as) (s : σ) :
    (device.calls as s).filterMap (Call.reading? r) = [] := by
  induction as generalizing s with
  | nil => rfl
  | cons a as ih =>
    have hs := ih (fun hm => h (List.mem_cons_of_mem a hm)) (device.make a s).2
    have hc : (device.make a s).1.reading? r = none := by
      cases a with
      | has r' => rfl
      | write r' value => rfl
      | read r' => exact if_neg fun hr => h (by rw [hr]; exact List.mem_cons_self)
    rw [calls, List.filterMap_cons_none hc, hs]

theorem access_mem_of_mem_calls {as : List Access} {s : σ} {call : Call}
    (h : call ∈ device.calls as s) : call.access ∈ as := by
  have hm := List.mem_map_of_mem (f := Call.access) h
  rwa [map_access_calls] at hm

end Device

/-! ### Accesses of a program -/

namespace Program

/-- Whatever it is answered, the program ends with a value that has the property. -/
def Yields {α : Type} (Q : α → Prop) : Program α → Prop
  | done a => Q a
  | has _ next => ∀ b, (next b).Yields Q
  | write _ _ next => ∀ x, (next x).Yields Q
  | read _ next => ∀ x, (next x).Yields Q
  | note _ next => next.Yields Q

namespace Yields

variable {σ α β : Type} {p : Program α} {f : α → Program β} {Q : α → Prop} {R : β → Prop}

theorem value_run (h : p.Yields Q) (device : Device σ) (s : σ) : Q (p.run device s).value := by
  induction p generalizing s with
  | done a => exact h
  | has r next ih => exact ih _ (h _) s
  | write r value next ih => exact ih _ (h _) _
  | read r next ih => exact ih _ (h _) _
  | note record next ih => exact ih h s

theorem bind (hp : p.Yields Q) (hf : ∀ a, Q a → (f a).Yields R) : (p >>= f).Yields R := by
  show (p.bind f).Yields R
  induction p with
  | done a => exact hf a hp
  | has r next ih => exact fun b => ih b (hp b)
  | write r value next ih => exact fun x => ih x (hp x)
  | read r next ih => exact fun x => ih x (hp x)
  | note record next ih => exact ih hp

theorem trivial (p : Program α) : p.Yields fun _ => True := by
  induction p with
  | done a => exact True.intro
  | has r next ih => exact ih
  | write r value next ih => exact ih
  | read r next ih => exact ih
  | note record next ih => exact ih

theorem of_forall (hf : ∀ a, (f a).Yields R) : (p >>= f).Yields R :=
  bind (trivial p) fun a _ => hf a

end Yields

/-- A run is what the device makes of the accesses in it. -/
theorem run_eq_of_accesses {σ α : Type} (p : Program α) (device : Device σ) (s : σ) :
    let accesses := (p.run device s).calls.map Call.access
    (p.run device s).calls = device.calls accesses s ∧
      (p.run device s).state = device.after accesses s := by
  dsimp only
  induction p generalizing s with
  | done a => exact ⟨rfl, rfl⟩
  | has r next ih =>
    obtain ⟨hc, hs⟩ := ih (device.has r s) s
    exact ⟨congrArg (Call.has r (device.has r s) :: ·) hc, hs⟩
  | write r value next ih =>
    obtain ⟨hc, hs⟩ := ih (device.write r value s).answer (device.write r value s).state
    exact ⟨congrArg (Call.write r value (device.write r value s).answer :: ·) hc, hs⟩
  | read r next ih =>
    obtain ⟨hc, hs⟩ := ih (device.read r s).answer (device.read r s).state
    exact ⟨congrArg (Call.read r (device.read r s).answer :: ·) hc, hs⟩
  | note record next ih => exact ih s

/-- The program makes these accesses, in this order, whatever it is answered. -/
inductive Makes {α : Type} : Program α → List Access → Prop
  | done (a : α) : Makes (.done a) []
  | has {r : Register} {next : Bool → Program α} {as : List Access} (h : ∀ b, Makes (next b) as) :
    Makes (.has r next) (.has r :: as)
  | write {r : Register} {value : String} {next : Except ChannelError Unit → Program α}
    {as : List Access} (h : ∀ x, Makes (next x) as) :
    Makes (.write r value next) (.write r value :: as)
  | read {r : Register} {next : Except ChannelError String → Program α} {as : List Access}
    (h : ∀ x, Makes (next x) as) : Makes (.read r next) (.read r :: as)
  | note {record : Log.Record} {next : Program α} {as : List Access} (h : Makes next as) :
    Makes (.note record next) as

namespace Makes

variable {σ α β : Type} {p : Program α} {f : α → Program β} {as bs : List Access}

theorem calls_run (h : p.Makes as) (device : Device σ) (s : σ) :
    (p.run device s).calls = device.calls as s := by
  induction h generalizing s with
  | done a => rfl
  | has _ ih => exact congrArg _ (ih _ s)
  | write _ ih => exact congrArg _ (ih _ _)
  | read _ ih => exact congrArg _ (ih _ _)
  | note _ ih => exact ih s

theorem state_run (h : p.Makes as) (device : Device σ) (s : σ) :
    (p.run device s).state = device.after as s := by
  induction h generalizing s with
  | done a => rfl
  | has _ ih => exact ih _ s
  | write _ ih => exact ih _ _
  | read _ ih => exact ih _ _
  | note _ ih => exact ih s

theorem bind_of_yields {Q : α → Prop} (hp : p.Makes as) (hq : p.Yields Q)
    (hf : ∀ a, Q a → (f a).Makes bs) : (p >>= f).Makes (as ++ bs) := by
  show (p.bind f).Makes (as ++ bs)
  induction hp with
  | done a => exact hf a hq
  | has _ ih => exact has fun b => ih b (hq b)
  | write _ ih => exact write fun x => ih x (hq x)
  | read _ ih => exact read fun x => ih x (hq x)
  | note _ ih => exact note (ih hq)

theorem bind (hp : p.Makes as) (hf : ∀ a, (f a).Makes bs) : (p >>= f).Makes (as ++ bs) :=
  bind_of_yields hp (.trivial p) fun a _ => hf a

theorem silent_bind (hp : p.Makes []) (hf : ∀ a, (f a).Makes as) : (p >>= f).Makes as :=
  bind hp hf

theorem bind_silent (hp : p.Makes as) (hf : ∀ a, (f a).Makes []) : (p >>= f).Makes as := by
  have h := bind hp hf
  rwa [List.append_nil] at h

theorem pure (a : α) : (Pure.pure a : Program α).Makes [] := done a

theorem map (hp : p.Makes as) (g : α → β) : (g <$> p).Makes as := by
  rw [map_eq_pure_bind]
  exact hp.bind_silent fun a => pure (g a)

end Makes

theorem makes_writeText (r : Register) (value : String) :
    (writeText r value).Makes [.write r value] := .write fun x => .done x

theorem makes_writeWord (r : Register) (n : UInt32) : (writeWord r n).Makes [.word r n] :=
  makes_writeText r _

theorem makes_writeFlag (r : Register) (b : Bool) :
    (writeFlag r b).Makes [.write r (if b then "1" else "0")] := makes_writeText r _

theorem makes_readWord (r : Register) : (readWord r).Makes [.read r] := .read fun _ => .done _

theorem makes_say (severity : Log.Severity) (text : String) : (say severity text).Makes [] :=
  .note (.done ())

theorem makes_sayAll (records : List Log.Record) : (sayAll records).Makes [] := by
  induction records with
  | nil => exact .done ()
  | cons record records ih => exact .note ih

end Program

end Rumble
