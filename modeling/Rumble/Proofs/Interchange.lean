import Mathlib.Logic.Function.Basic
import Rumble.FileBank
import Rumble.Proofs.BankAccess
import Rumble.Proofs.LineFeed

namespace Rumble

open Function (update)

/-! ### Which registers were written -/

def Call.stores (r : Register) : Call → Bool
  | .write r' _ (.ok _) => r' = r
  | _ => false

/-- The registers that are marked already, or written by some calls. -/
def writtenBy (calls : List Call) (written : Register → Bool) (r : Register) : Bool :=
  written r || calls.any (·.stores r)

theorem writtenBy_nil (written : Register → Bool) : writtenBy [] written = written := by
  funext r
  rw [writtenBy, List.any_nil, Bool.or_false]

theorem writtenBy_cons (call : Call) (calls : List Call) (written : Register → Bool) :
    writtenBy (call :: calls) written = writtenBy calls (writtenBy [call] written) := by
  funext r
  simp only [writtenBy, List.any_cons, List.any_nil, Bool.or_false, Bool.or_assoc]

theorem writtenBy_of_not_stores {call : Call} (h : ∀ r, call.stores r = false)
    (written : Register → Bool) : writtenBy [call] written = written := by
  funext r
  rw [writtenBy, List.any_cons, h r, List.any_nil, Bool.or_false, Bool.or_false]

theorem writtenBy_write (r : Register) (value : String) (written : Register → Bool) :
    writtenBy [.write r value (.ok ())] written = update written r true := by
  funext r'
  by_cases h : r' = r
  · simp [writtenBy, Call.stores, h]
  · simp [writtenBy, Call.stores, h, Ne.symm h]

/-- After an event, the registers that the controller wrote since they were last set from
outside. -/
def Moment.written {σ : Type} (m : Moment (Register × String) σ) (before : Register → Bool) :
    Register → Bool :=
  match m.event with
  | .ask _ => writtenBy m.calls before
  | .outside x => update before x.1 false

/-! ### Banks that agree -/

def fileText (written : Bool) (value : String) : String :=
  if written then value ++ "\n" else value

/-- What is seen of two banks from outside: the same registers are there, and the file of each one
holds its value. -/
structure Agrees (absent : List Register) (written : Register → Bool) (b : Bank) (f : FileBank) :
    Prop where
  has_bank : ∀ r, Bank.device.has r b = decide (r ∉ absent)
  has_file : ∀ r, FileBank.device.has r f = decide (r ∉ absent)
  missing : ∀ r ∈ absent, b.value? r = none
  content : ∀ r, r ∉ absent → ∃ value,
    b.value? r = some value ∧ f.node r = .text (fileText (written r) value)

/-- Banks that agree and go on to do so: each register that is there has an open file of its own. -/
structure Mirrors (absent : List Register) (written : Register → Bool) (b : Bank) (f : FileBank) :
    Prop where
  has : ∀ r, b.has r = decide (r ∉ absent)
  present : ∀ r, r ∉ absent → ∃ p value, f.file r = some p ∧ f.tree.place (f.path r) = .ok p ∧
    b.value? r = some value ∧ f.tree.node p = .text (fileText (written r) value)
  missing : ∀ r ∈ absent, f.file r = none ∧ b.value? r = none
  distinct : ∀ r r', r ∉ absent → r' ∉ absent →
    f.tree.place (f.path r) = f.tree.place (f.path r') → r = r'

namespace Mirrors

variable {absent : List Register} {written : Register → Bool} {b : Bank} {f : FileBank}

theorem agrees (h : Mirrors absent written b f) : Agrees absent written b f where
  has_bank := h.has
  has_file r := by
    by_cases hr : r ∈ absent
    · simp [FileBank.device, (h.missing r hr).1, hr]
    · obtain ⟨p, value, hf, -⟩ := h.present r hr
      simp [FileBank.device, hf, hr]
  missing r hr := (h.missing r hr).2
  content r hr := by
    obtain ⟨p, value, -, hp, hv, hn⟩ := h.present r hr
    exact ⟨value, hv, by simp only [FileBank.node, FileTree.find, hp, hn]⟩

theorem of_eq {b' : Bank} {f' : FileBank} (h : Mirrors absent written b f)
    (hb : b'.has = b.has) (hv : b'.value? = b.value?) (ht : f'.tree = f.tree) (hp : f'.path = f.path)
    (hf : f'.file = f.file) : Mirrors absent written b' f' where
  has := by
    rw [hb]
    exact h.has
  present := by
    rw [hv, ht, hp, hf]
    exact h.present
  missing := by
    rw [hv, hf]
    exact h.missing
  distinct := by
    rw [ht, hp]
    exact h.distinct

/-- A register and its file are set together; all others stay, because their files are at other
places, and the ways to all files stay. -/
theorem store {r : Register} {p : Place} (h : Mirrors absent written b f) (hr : r ∉ absent)
    (hp : f.tree.place (f.path r) = .ok p) (mark : Bool) (value : String) :
    Mirrors absent (update written r mark) (b.set r value)
      { f with tree := f.tree.put p (.text (fileText mark value)) } := by
  obtain ⟨p', old, -, hp', hv, hn⟩ := h.present r hr
  rw [hp] at hp'
  cases hp'
  have hb : b.has r := by simp [h.has, hr]
  refine ⟨?_, ?_, ?_, ?_⟩
  · intro r'
    rw [Bank.has_set, h.has]
  · intro r' hr'
    obtain ⟨p', value', hf', hp', hv', hn'⟩ := h.present r' hr'
    simp only [FileTree.place_put_text hn, FileTree.node_put, Bank.value?_set, hb, and_true]
    by_cases he : r' = r
    · subst he
      rw [hp] at hp'
      cases hp'
      refine ⟨p, value, hf', hp, if_pos rfl, ?_⟩
      rw [if_pos rfl, Function.update_self]
    · -- Another register has its file elsewhere.
      have hne : p' ≠ p := by
        rintro rfl
        exact he (h.distinct r' r hr' hr (hp'.trans hp.symm))
      refine ⟨p', value', hf', hp', (if_neg he).trans hv', ?_⟩
      rw [if_neg hne, Function.update_of_ne he, hn']
  · intro r' hr'
    have he : r' ≠ r := by
      rintro rfl
      exact hr hr'
    obtain ⟨hf', hv'⟩ := h.missing r' hr'
    refine ⟨hf', ?_⟩
    rw [Bank.value?_set, if_neg (fun hc => he hc.1), hv']
  · intro r₁ r₂ h₁ h₂
    simp only [FileTree.place_put_text hn]
    exact h.distinct r₁ r₂ h₁ h₂

/-! ### One access -/

/-- A write is answered alike and leaves a line feed behind the value, whatever was there. -/
theorem write (h : Mirrors absent written b f) (r : Register) (value : String) :
    let reply := Bank.device.write r value b
    let reply' := FileBank.device.write r value f
    reply.answer = reply'.answer ∧
      Mirrors absent (writtenBy [.write r value reply.answer] written)
        reply.state reply'.state := by
  intro reply reply'
  by_cases hr : r ∈ absent
  · obtain ⟨hf, hv⟩ := h.missing r hr
    have hb : reply = { answer := .error (.unavailable r), state := b } := by
      exact Bank.write_of_not_has (by simp [h.has, hr]) value
    have hb' : reply' = { answer := .error (.unavailable r), state := f } := by
      simp only [reply', FileBank.device, FileBank.write, hf]
    rw [hb, hb', writtenBy_of_not_stores fun _ => rfl]
    exact ⟨rfl, h⟩
  · obtain ⟨p, old, hf, hp, hv, hn⟩ := h.present r hr
    have hb : b.has r := by simp [h.has, hr]
    obtain ⟨position, records, hw⟩ := FileBank.write_of_text hf hn value
    have he : reply.answer = .ok () := by rw [Bank.answer_write, if_pos hb]
    have hs : reply.state = (b.put r value).record r value := by rw [Bank.state_write, if_pos hb]
    have hw' : reply' = FileBank.write r value f := rfl
    rw [he, hs, hw', hw, writtenBy_write]
    have hm := h.store hr hp true value
    rw [Bank.set_of_has hb] at hm
    exact ⟨rfl, hm.of_eq rfl rfl rfl rfl rfl⟩

theorem read (h : Mirrors absent written b f) (r : Register) :
    let reply := Bank.device.read r b
    let reply' := FileBank.device.read r f
    Mirrors absent written reply.state reply'.state ∧
      (reply'.answer = reply.answer ∨
        ∃ value, reply.answer = .ok value ∧ reply'.answer = .ok (value ++ "\n")) := by
  intro reply reply'
  by_cases hr : r ∈ absent
  · obtain ⟨hf, hv⟩ := h.missing r hr
    have hb : reply = { answer := .error (.unavailable r), state := b } := by
      simp only [reply, Bank.device, hv]
    have hb' : reply' = { answer := .error (.unavailable r), state := f } := by
      simp only [reply', FileBank.device, FileBank.read, hf]
    rw [hb, hb']
    exact ⟨h, .inl rfl⟩
  · obtain ⟨p, value, hf, hp, hv, hn⟩ := h.present r hr
    have hb : reply = { answer := .ok value, state := b } := by
      simp only [reply, Bank.device, hv]
    obtain ⟨position, hb'⟩ := FileBank.read_of_text hf hn
    have hb' : reply' = { answer := .ok (fileText (written r) value)
                          state := f.moveTo r position } := hb'
    rw [hb, hb']
    refine ⟨h.of_eq rfl rfl rfl rfl rfl, ?_⟩
    cases written r with
    | false => exact .inl rfl
    | true => exact .inr ⟨value, rfl, rfl⟩

/-! ### Runs -/

/-- Registers in memory and in files bring a program to the same value, if it ignores a line feed
behind what it reads. -/
theorem run {α : Type} {p : Program α} (hp : p.IgnoresLineFeed)
    (h : Mirrors absent written b f) :
    let memory := p.run Bank.device b
    let files := p.run FileBank.device f
    memory.value = files.value ∧
      Mirrors absent (writtenBy memory.calls written) memory.state files.state := by
  dsimp only
  -- Each access keeps the banks mirrored; what was written so far is carried along.
  induction hp generalizing written b f with
  | done a =>
    rw [Program.run, Program.run, writtenBy_nil]
    exact ⟨rfl, h⟩
  | @has r next _ ih =>
    have ha : FileBank.device.has r f = Bank.device.has r b :=
      (h.agrees.has_file r).trans (h.agrees.has_bank r).symm
    simp only [Program.run, ha]
    rw [writtenBy_cons, writtenBy_of_not_stores fun _ => rfl]
    exact ih _ h
  | @write r value next _ ih =>
    obtain ⟨ha, hm⟩ := h.write r value
    simp only [Program.run]
    rw [writtenBy_cons, ← ha]
    exact ih _ hm
  | @read r next same _ ih =>
    obtain ⟨hm, ha⟩ := h.read r
    have hn : next (FileBank.device.read r f).answer = next (Bank.device.read r b).answer := by
      rcases ha with ha | ⟨value, ha, ha'⟩
      · rw [ha]
      · rw [ha, ha', same value]
    simp only [Program.run, hn]
    rw [writtenBy_cons, writtenBy_of_not_stores fun _ => rfl]
    exact ih _ hm
  | note _ ih => exact ih h

theorem overwrite (h : Mirrors absent written b f) {r : Register} (hr : r ∉ absent)
    (value : String) :
    Mirrors absent (update written r false) (b.set r value) (f.overwrite r (.text value)) := by
  obtain ⟨p, old, -, hp, -, hn⟩ := h.present r hr
  rw [FileBank.overwrite_of_text hp hn]
  exact h.store hr hp false value

end Mirrors

/-! ### Sessions -/

/-- Two sessions with the same events and answers, whose banks agree after each event. -/
inductive AgreeThroughout (absent : List Register) : (Register → Bool) →
    List (Moment (Register × String) Bank) → List (Moment (Register × String) FileBank) → Prop where
  | nil {written : Register → Bool} : AgreeThroughout absent written [] []
  | cons {written : Register → Bool} {m : Moment (Register × String) Bank}
    {m' : Moment (Register × String) FileBank} {ms : List (Moment (Register × String) Bank)}
    {ms' : List (Moment (Register × String) FileBank)} (event : m.event = m'.event)
    (answer : m.answer = m'.answer) (after : Agrees absent (m.written written) m.after m'.after)
    (rest : AgreeThroughout absent (m.written written) ms ms') :
    AgreeThroughout absent written (m :: ms) (m' :: ms')

def Bank.holding (absent : List Register) (content : Register → String) : Bank :=
  Register.all.foldl (fun b r => b.set r (content r)) (.without absent)

theorem Bank.has_foldl_set (content : Register → String) (rs : List Register) (b : Bank)
    (r : Register) : (rs.foldl (fun b r => b.set r (content r)) b).has r = b.has r := by
  induction rs generalizing b with
  | nil => rfl
  | cons r' rs ih => rw [List.foldl_cons, ih, has_set]

theorem Bank.value?_foldl_set (content : Register → String) (rs : List Register) (b : Bank)
    (r : Register) :
    (rs.foldl (fun b r => b.set r (content r)) b).value? r =
      if r ∈ rs ∧ b.has r then some (content r) else b.value? r := by
  induction rs generalizing b with
  | nil => simp
  | cons r' rs ih =>
    rw [List.foldl_cons, ih, has_set, value?_set]
    by_cases hb : b.has r <;> by_cases hr : r ∈ rs <;> by_cases he : r = r' <;>
      simp_all [has]

theorem Bank.value?_holding (absent : List Register) (content : Register → String)
    (r : Register) :
    (holding absent content).value? r = if r ∈ absent then none else some (content r) := by
  have hr : r ∈ Register.all := Register.mem_all r
  rw [holding, value?_foldl_set, has_without]
  by_cases h : r ∈ absent <;> simp [h, hr, value?_without]

theorem Bank.has_holding (absent : List Register) (content : Register → String) (r : Register) :
    (holding absent content).has r = decide (r ∉ absent) := by
  rw [holding, has_foldl_set, has_without]

namespace Controller

open Program

variable {absent : List Register} {written : Register → Bool} {b : Bank} {f : FileBank}

theorem agreeThroughout_session (c : Controller) {events : List (Event (Register × String))}
    (present : ∀ r value, .outside (r, value) ∈ events → r ∉ absent)
    (h : Mirrors absent written b f) :
    AgreeThroughout absent written
      (c.session Bank.device (fun x b => b.set x.1 x.2) events b)
      (c.session FileBank.device (fun x f => f.overwrite x.1 (.text x.2)) events f) := by
  induction events generalizing written b f with
  | nil => exact .nil
  | cons event events ih =>
    have present' : ∀ r value, .outside (r, value) ∈ events → r ∉ absent :=
      fun r value hm => present r value (List.mem_cons_of_mem event hm)
    cases event with
    | ask op =>
      obtain ⟨hv, hm⟩ := h.run (c.ignoresLineFeed_operate op)
      exact .cons rfl (congrArg some hv) hm.agrees (ih present' hm)
    | outside x =>
      have hm := h.overwrite (present x.1 x.2 List.mem_cons_self) x.2
      exact .cons rfl rfl hm.agrees (ih present' hm)

/-- A controller over registers in memory and one over registers in text files, each started on the
same texts and then put through the same events, answer alike at all times and work with the same
catalog and levels. All the time a file holds the value of its register, followed by one line feed
if the controller wrote it after it was last set from outside. -/
theorem files_mirror_memory {tree : FileTree} {path content : Register → String}
    (holds : ∀ r, r ∉ absent → tree.find (path r) = .text (content r))
    (lacks : ∀ r, r ∈ absent → tree.find (path r) = .absent)
    (distinct : ∀ r r', r ∉ absent → r' ∉ absent →
      tree.place (path r) = tree.place (path r') → r = r')
    {events : List (Event (Register × String))}
    (present : ∀ r value, .outside (r, value) ∈ events → r ∉ absent)
    (cal : Calibration) (remarks : Calibration.Remarks) (catalog : Catalog) :
    let memory := (start cal remarks catalog).run Bank.device (.holding absent content)
    let files := (start cal remarks catalog).run FileBank.device (.openAll tree path)
    let written := writtenBy memory.calls fun _ => false
    memory.value = files.value ∧ Agrees absent written memory.state files.state ∧
      AgreeThroughout absent written
        (memory.value.session Bank.device (fun x b => b.set x.1 x.2) events memory.state)
        (files.value.session FileBank.device (fun x f => f.overwrite x.1 (.text x.2)) events
          files.state) := by
  intro memory files written
  have h : Mirrors absent (fun _ => false) (.holding absent content) (.openAll tree path) := by
    refine ⟨Bank.has_holding absent content, ?_, ?_, distinct⟩
    · intro r hr
      obtain ⟨p, hp, hn⟩ := FileTree.exists_place_of_find_text (holds r hr)
      refine ⟨p, content r, ?_, hp, ?_, hn⟩
      · simp only [FileBank.openAll, FileTree.openFile_of_text hp hn, Except.toOption]
      · rw [Bank.value?_holding, if_neg hr]
    · intro r hr
      exact ⟨FileTree.openFile_of_absent (lacks r hr), by rw [Bank.value?_holding, if_pos hr]⟩
  obtain ⟨hv, hm⟩ := h.run (ignoresLineFeed_start cal remarks catalog)
  refine ⟨hv, hm.agrees, ?_⟩
  rw [show files.value = memory.value from hv.symm]
  exact agreeThroughout_session memory.value present hm

/-- A directory with one file for each register but that of queues, each of which reads `0`. -/
def plainTree : FileTree where
  node p :=
    match p with
    | [] => .directory
    | [name] =>
      match Register.ofName? (String.ofList name) with
      | none | some .effectQueue => .absent
      | some _ => .text "0"
    | _ => .absent

theorem place_plainTree (r : Register) :
    plainTree.place ("/" ++ r.name) = .ok [r.name.toList] := by
  cases r <;> rfl

/-- A flag that the controller sets is read back from both banks, and so is one from outside. -/
theorem files_mirror_memory_plainTree :
    let memory := (start ⟨none, none, 0, none⟩ {} .standard).run Bank.device
      (.holding [.effectQueue] fun _ => "0")
    let files := (start ⟨none, none, 0, none⟩ {} .standard).run FileBank.device
      (.openAll plainTree fun r => "/" ++ r.name)
    let events := [.ask (.setExternalControl true), .ask .isUnderExternalControl,
      .outside (.aspEnable, "0"), .ask (.perform .doubleClick .light)]
    memory.value = files.value ∧
      AgreeThroughout [.effectQueue] (writtenBy memory.calls fun _ => false)
        (memory.value.session Bank.device (fun x b => b.set x.1 x.2) events memory.state)
        (files.value.session FileBank.device (fun x f => f.overwrite x.1 (.text x.2)) events
          files.state) := by
  intro memory files events
  have holds : ∀ r, r ∉ [Register.effectQueue] →
      plainTree.find ("/" ++ r.name) = .text "0" := by
    intro r hr
    cases r with
    | effectQueue => exact absurd List.mem_cons_self hr
    | _ => rfl
  have lacks : ∀ r, r ∈ [Register.effectQueue] → plainTree.find ("/" ++ r.name) = .absent := by
    intro r hr
    rw [List.mem_singleton.mp hr]
    rfl
  have distinct : ∀ r r', r ∉ [Register.effectQueue] → r' ∉ [Register.effectQueue] →
      plainTree.place ("/" ++ r.name) = plainTree.place ("/" ++ r'.name) → r = r' := by
    intro r r' _ _ h
    rw [place_plainTree, place_plainTree] at h
    have hn : r.name.toList = r'.name.toList := by simpa using h
    have ho := congrArg Register.ofName? (String.toList_inj.mp hn)
    rw [Register.ofName?_name, Register.ofName?_name] at ho
    exact Option.some.inj ho
  have present : ∀ r value, .outside (r, value) ∈ events → r ∉ [Register.effectQueue] := by
    intro r value h
    simp only [events, List.mem_cons, List.not_mem_nil, reduceCtorEq, false_or, or_false] at h
    cases h
    decide
  obtain ⟨hv, -, hs⟩ := files_mirror_memory holds lacks distinct present ⟨none, none, 0, none⟩ {}
    .standard
  exact ⟨hv, hs⟩

end Controller

end Rumble
