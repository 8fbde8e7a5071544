import Rumble.Proofs.Operations
import Rumble.Proofs.ExternalControl
import Rumble.Proofs.WrittenText

namespace Rumble

def Access.text? (r : Register) : Access → Option String
  | write r' value => if r' = r then some value else none
  | _ => none

def Access.lastText? (r : Register) (as : List Access) : Option String :=
  (as.filterMap (text? r)).getLast?

def Access.entry? (present : Register → Bool) : Access → Option (Register × String)
  | write r value => if present r then some (r, value) else none
  | _ => none

namespace Bank

inductive Action where
  /-- A call of the device, whoever makes it. -/
  | call (a : Access)
  | set (r : Register) (value : String)
  | clearJournal
  deriving DecidableEq, Repr

namespace Action

def text? (r : Register) : Action → Option String
  | call a => a.text? r
  | set r' value => if r' = r then some value else none
  | clearJournal => none

def entry? (present : Register → Bool) : Action → Option (Register × String)
  | call a => a.entry? present
  | _ => none

end Action

def act (b : Bank) : Action → Bank
  | .call a => (device.make a b).2
  | .set r value => b.set r value
  | .clearJournal => b.clearJournal

def replay (b : Bank) (actions : List Action) : Bank := actions.foldl act b

def lastText? (r : Register) (actions : List Action) : Option String :=
  (actions.filterMap (Action.text? r)).getLast?

/-- The actions after the last one that cleared the journal. -/
def sinceClear (actions : List Action) : List Action :=
  (actions.reverse.takeWhile (· ≠ .clearJournal)).reverse

theorem lastText?_concat (r : Register) (actions : List Action) (action : Action) :
    lastText? r (actions ++ [action]) = (action.text? r).or (lastText? r actions) := by
  rw [lastText?, List.filterMap_append, List.getLast?_append, lastText?]
  cases h : action.text? r <;> simp [h]

theorem sinceClear_concat (actions : List Action) (action : Action) :
    sinceClear (actions ++ [action]) =
      if action = .clearJournal then [] else sinceClear actions ++ [action] := by
  rw [sinceClear, List.reverse_append, List.reverse_singleton, List.singleton_append]
  split_ifs with h
  · rw [List.takeWhile_cons_of_neg (by simpa using h), List.reverse_nil]
  · rw [List.takeWhile_cons_of_pos (by simpa using h), List.reverse_cons, sinceClear]

theorem replay_concat (b : Bank) (actions : List Action) (action : Action) :
    b.replay (actions ++ [action]) = (b.replay actions).act action := by
  rw [replay, List.foldl_append]
  rfl

/-! ### One action -/

theorem has_act (b : Bank) (action : Action) (r : Register) : (b.act action).has r = b.has r := by
  cases action with
  | call a => exact has_make a b r
  | set r' value => exact has_set b r' r value
  | clearJournal => rfl

/-- Whatever is done, the registers with a value stay those that are not reported missing. -/
theorem Sound.act {b : Bank} (h : b.Sound) (action : Action) : (b.act action).Sound := by
  cases action with
  | call a => exact h.make a
  | set r value => exact h.set r value
  | clearJournal => exact h

theorem value?_act {b : Bank} {r : Register} (h : b.has r) (action : Action) :
    (b.act action).value? r = (action.text? r).or (b.value? r) := by
  -- Both ways to put a text somewhere change the register alone.
  have hput (r' : Register) (value : String) :
      (if r = r' ∧ b.has r' then some value else b.value? r) =
        (if r' = r then some value else none).or (b.value? r) := by
    by_cases hr : r' = r
    · subst hr
      rw [if_pos ⟨rfl, h⟩, if_pos rfl, Option.some_or]
    · rw [if_neg fun hc => hr hc.1.symm, if_neg hr, Option.none_or]
  cases action with
  | call a =>
    cases a with
    | has r' => rfl
    | write r' value => exact (value?_write r' r value b).trans (hput r' value)
    | read r' => exact congrArg (fun b => value? b r) (state_read r' b)
  | set r' value => exact (value?_set b r' r value).trans (hput r' value)
  | clearJournal => rfl

theorem journal_act_call (b : Bank) (a : Access) :
    (b.act (.call a)).journal = b.journal ++ (a.entry? b.has).toList := by
  cases a with
  | has r => exact (List.append_nil _).symm
  | write r value =>
    by_cases h : b.has r <;>
      simp [act, Device.make, state_write, Access.entry?, h, record, put]
  | read r =>
    rw [act, Device.make, state_read]
    exact (List.append_nil _).symm

theorem journal_act {b : Bank} {present : Register → Bool} (h : ∀ r, b.has r = present r)
    (action : Action) :
    (b.act action).journal =
      if action = .clearJournal then [] else b.journal ++ (action.entry? present).toList := by
  obtain rfl : b.has = present := funext h
  cases action with
  | call a =>
    rw [if_neg (by simp)]
    exact journal_act_call b a
  | set r value =>
    rw [if_neg (by simp)]
    exact (journal_set b r value).trans (List.append_nil _).symm
  | clearJournal => rfl

/-! ### Histories -/

theorem has_replay (b : Bank) (actions : List Action) (r : Register) :
    (b.replay actions).has r = b.has r := by
  induction actions using List.reverseRecOn with
  | nil => rfl
  | append_singleton actions action ih => rw [replay_concat, has_act, ih]

theorem Sound.replay {b : Bank} (h : b.Sound) (actions : List Action) :
    (b.replay actions).Sound := by
  induction actions using List.reverseRecOn with
  | nil => exact h
  | append_singleton actions action ih =>
    rw [replay_concat]
    exact ih.act action

/-- A register that is there holds what was last put there. -/
theorem value?_replay {b : Bank} {r : Register} (h : b.has r) (actions : List Action) :
    (b.replay actions).value? r = (lastText? r actions).or (b.value? r) := by
  induction actions using List.reverseRecOn with
  | nil => rfl
  | append_singleton actions action ih =>
    have hr : (b.replay actions).has r := (has_replay b actions r).trans h
    rw [replay_concat, value?_act hr, ih, lastText?_concat, Option.or_assoc]

theorem journal_replay {b : Bank} {present : Register → Bool} (h : ∀ r, b.has r = present r)
    (hj : b.journal = []) (actions : List Action) :
    (b.replay actions).journal = (sinceClear actions).filterMap (Action.entry? present) := by
  induction actions using List.reverseRecOn with
  | nil => exact hj
  | append_singleton actions action ih =>
    have hr (r : Register) : (b.replay actions).has r = present r :=
      (has_replay b actions r).trans (h r)
    rw [replay_concat, journal_act hr, ih, sinceClear_concat]
    split_ifs
    · rfl
    · rw [List.filterMap_append]
      cases he : action.entry? present <;> simp [he]

/-- The calls of a program are actions like any others. -/
theorem replay_calls (b : Bank) (as : List Access) :
    b.replay (as.map .call) = device.after as b := by
  induction as generalizing b with
  | nil => rfl
  | cons a as ih => exact ih (device.make a b).2

theorem value?_after_of_has {b : Bank} {r : Register} (h : b.has r) (as : List Access) :
    (device.after as b).value? r = (Access.lastText? r as).or (b.value? r) := by
  rw [← replay_calls, value?_replay h, lastText?, List.filterMap_map]
  rfl

/-- What a register holds after some accesses depends on what they put there last alone. -/
theorem value?_after_congr {r : Register} {as as' : List Access}
    (h : Access.lastText? r as = Access.lastText? r as') (b : Bank) :
    (device.after as b).value? r = (device.after as' b).value? r := by
  by_cases hb : b.has r
  · rw [value?_after_of_has hb, value?_after_of_has hb, h]
  · rw [Bool.not_eq_true] at hb
    rw [value?_after_of_not_has hb, value?_after_of_not_has hb]

theorem journal_after (as : List Access) (b : Bank) :
    (device.after as b).journal = b.journal ++ as.filterMap (Access.entry? b.has) := by
  induction as generalizing b with
  | nil => exact (List.append_nil _).symm
  | cons a as ih =>
    have ha : (device.make a b).2.has = b.has := funext (has_make a b)
    have hj : (device.make a b).2.journal = b.journal ++ (a.entry? b.has).toList :=
      journal_act_call b a
    rw [Device.after, ih, ha, hj, List.append_assoc]
    cases he : a.entry? b.has <;> simp [he]

theorem replay_accesses {α : Type} (p : Program α) (b : Bank) :
    b.replay ((p.run device b).accesses.map .call) = (p.run device b).state :=
  (replay_calls b _).trans (Program.run_eq_of_accesses p device b).2.symm

/-! ### Reading back -/

theorem read_of_value? {b : Bank} {r : Register} {value : String} (h : b.value? r = some value) :
    device.read r b = { answer := .ok value, state := b } := by
  simp only [device, h]

/-- A read asks for a value, a write for the register. -/
theorem read_of_not_has {b : Bank} (hs : b.Sound) {r : Register} (h : b.has r = false) :
    device.read r b = { answer := .error (.unavailable r), state := b } := by
  simp only [device, hs.value?_eq_none h]

theorem set_of_not_has {b : Bank} {r : Register} (h : b.has r = false) (value : String) :
    b.set r value = b := by
  rw [set, if_pos]
  simpa [has] using h

end Bank

namespace Program

theorem wordOf_showWord (r : Register) (n : UInt32) : wordOf r (.ok (Text.showWord n)) = .ok n := by
  have hs : Text.IsSolid (Text.showWord n).toList := by
    rw [Text.showWord, String.toList_ofList]
    exact (Text.isCanonical_decimal n.toNat).isSolid
  rw [wordOf, hs.trim_eq, Text.readWord?_showWord]

theorem value_readWord {σ : Type} (device : Device σ) (r : Register) (st : σ) :
    ((readWord r).run device st).value = wordOf r (device.read r st).answer := rfl

theorem value_readFlag {σ : Type} (device : Device σ) (r : Register) (st : σ) :
    ((readFlag r).run device st).value =
      (wordOf r (device.read r st).answer).map fun n => decide (n ≠ 0) := rfl

theorem wordOf_flag (r : Register) (flag : Bool) :
    (wordOf r (.ok (if flag then "1" else "0"))).map (fun n => decide (n ≠ 0)) = .ok flag := by
  cases flag <;> rfl

end Program

namespace Bank

open Program

theorem value?_replay_write {b : Bank} {r : Register} {value : String} {later : List Action}
    (h : (device.write r value b).answer = .ok ()) (hl : ∀ action ∈ later, action.text? r = none) :
    ((device.write r value b).state.replay later).value? r = some value := by
  have hb : b.has r := by
    by_contra hn
    rw [answer_write, if_neg hn] at h
    cases h
  have hs : ((device.write r value b).state).has r := (has_write r r value b).trans hb
  have hn : lastText? r later = none := by
    rw [lastText?, List.filterMap_eq_nil_iff.mpr hl, List.getLast?_nil]
  rw [value?_replay hs, hn, Option.none_or, value?_write, if_pos ⟨rfl, hb⟩]

/-- A bank that lacks some registers, after anything that was done to it. The registers with a value
are those that are not reported missing, and these are the same for good; the missing ones refuse
everything, without any change. Any other one holds what was last put there, wherever else something
was put, and the journal lists the writes to present registers since it was last cleared. A program
does nothing to a bank but its calls. So a number or a flag that was stored is read back until
something else is put in its register. -/
theorem keeps_history (absent : List Register) (actions : List Action) :
    let b := (without absent).replay actions
    let present (r : Register) : Bool := decide (r ∉ absent)
    (∀ r, (b.value? r).isSome = present r ∧ device.has r b = present r) ∧
    (∀ r ∈ absent, ∀ value,
      device.write r value b = { answer := .error (.unavailable r), state := b } ∧
      device.read r b = { answer := .error (.unavailable r), state := b } ∧
      b.set r value = b) ∧
    (∀ r ∉ absent,
      (∀ value, (device.write r value b).answer = .ok ()) ∧
      b.value? r = some ((lastText? r actions).getD "0") ∧
      device.read r b = { answer := .ok ((lastText? r actions).getD "0"), state := b }) ∧
    b.journal = (sinceClear actions).filterMap (Action.entry? present) ∧
    (∀ (α : Type) (p : Program α),
      (p.run device b).state = b.replay ((p.run device b).accesses.map .call)) ∧
    (∀ r later, (∀ action ∈ later, action.text? r = none) →
      (∀ n, let stored := (writeWord r n).run device b
        stored.value = .ok () →
          ((readWord r).run device (stored.state.replay later)).value = .ok n) ∧
      ∀ flag, let stored := (writeFlag r flag).run device b
        stored.value = .ok () →
          ((readFlag r).run device (stored.state.replay later)).value = .ok flag) := by
  intro b present
  have hb (r : Register) : b.has r = present r :=
    (has_replay _ actions r).trans (has_without absent r)
  have hs : b.Sound := (sound_without absent).replay actions
  have hn {r : Register} (hr : r ∈ absent) : b.has r = false := by simp [hb, present, hr]
  refine ⟨fun r => ⟨(hs r).trans (hb r), hb r⟩, ?_, ?_, ?_, ?_, ?_⟩
  · intro r hr value
    exact ⟨write_of_not_has (hn hr) value, read_of_not_has hs (hn hr), set_of_not_has (hn hr) value⟩
  · intro r hr
    have hp : b.has r := by simp [hb, present, hr]
    have hp' : (without absent).has r := by simp [has_without, hr]
    have hz : (without absent).value? r = some "0" :=
      (value?_without absent r).trans (if_neg hr)
    have hv : b.value? r = some ((lastText? r actions).getD "0") := by
      rw [value?_replay hp', hz]
      cases lastText? r actions <;> rfl
    refine ⟨?_, hv, read_of_value? hv⟩
    intro value
    rw [answer_write, if_pos hp]
  · exact journal_replay (has_without absent) (journal_without absent) actions
  · intro α p
    exact (replay_accesses p b).symm
  · intro r later hl
    constructor
    · intro n stored hs
      have hv : (stored.state.replay later).value? r = some (Text.showWord n) :=
        value?_replay_write hs hl
      rw [value_readWord, read_of_value? hv, wordOf_showWord]
    · intro flag stored hs
      have hv : (stored.state.replay later).value? r = some (if flag then "1" else "0") :=
        value?_replay_write hs hl
      rw [value_readFlag, read_of_value? hv, wordOf_flag]

/-- A register that is not there is not made by setting it, and the largest number outlives what is
done to others. -/
theorem keeps_history_of_absent_flag :
    let b := (without [.aspEnable]).replay
      [.call (.write .f0 "7"), .clearJournal, .set .aspEnable "1", .call (.write .aspEnable "1"),
        .set .duration " 5", .call (.write .duration "18"), .set .q "9"]
    let stored := (writeWord .duration 4294967295).run device b
    b.set .aspEnable "1" = b ∧ (device.write .aspEnable "1" b).state = b ∧
      b.value? .duration = some "18" ∧ b.journal = [(.duration, "18")] ∧
      stored.value = .ok () ∧
      ((readWord .duration).run device (stored.state.replay [.set .q "1", .clearJournal])).value =
        .ok 4294967295 := by
  intro b stored
  obtain ⟨-, ha, hp, hj, -, hr⟩ := keeps_history [.aspEnable]
    [.call (.write .f0 "7"), .clearJournal, .set .aspEnable "1", .call (.write .aspEnable "1"),
      .set .duration " 5", .call (.write .duration "18"), .set .q "9"]
  obtain ⟨hw, -, hs⟩ := ha .aspEnable (by decide) "1"
  obtain ⟨hk, hv, -⟩ := hp .duration (by decide)
  have hok : stored.value = .ok () := hk (Text.showWord 4294967295)
  obtain ⟨hn, -⟩ := hr .duration [.set .q "1", .clearJournal] (by decide)
  exact ⟨hs, congrArg Reply.state hw, hv, hj, hok, hn 4294967295 hok⟩

end Bank

end Rumble
