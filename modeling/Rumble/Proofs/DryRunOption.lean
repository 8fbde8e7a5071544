import Rumble.CommandLine.Request

namespace Rumble.CommandLine

theorem exists_of_bind_eq_ok {ε α β : Type} {x : Except ε α} {f : α → Except ε β} {b : β}
    (h : x >>= f = .ok b) : ∃ a, x = .ok a ∧ f a = .ok b := by
  cases x with
  | ok a => exact ⟨a, rfl, h⟩
  | error e => cases h

theorem form_dryRun : form "--dry-run" = .long "dry-run" none := rfl

theorem ne_of_isOperand {arg : String} (h : (form arg).isOperand) : arg ≠ "--dry-run" := by
  rintro rfl
  cases h

/-! ### Options of the program -/

theorem takeValue_keeps {attached : Option String} {args rest : List String} {v : String}
    (h : takeValue attached args = .ok (v, rest)) (hm : "--dry-run" ∈ args) :
    "--dry-run" ∈ rest := by
  unfold takeValue at h
  split at h
  · cases h
    exact hm
  · split at h
    · next hv =>
      cases h
      exact (List.mem_cons.mp hm).resolve_left (ne_of_isOperand hv).symm
    · cases h
  · cases h

theorem Options.dryRun_setConfig {o o' : Options} {path : String}
    (h : o.setConfig path = .ok o') : o'.dryRun = o.dryRun := by
  rw [setConfig] at h
  split at h
  · cases h
  · cases h
    rfl

theorem Options.dryRun_setDryRun {o o' : Options} (h : o.setDryRun = .ok o') :
    o'.dryRun = true := by
  rw [setDryRun] at h
  split at h
  · cases h
  · cases h
    rfl

/-- A dry run is asked for, or is still to be. -/
def Awaited (o : Options) (args : List String) : Prop := o.dryRun ∨ "--dry-run" ∈ args

theorem Awaited.tail {o : Options} {arg : String} {args : List String} (h : arg ≠ "--dry-run")
    (ha : Awaited o (arg :: args)) : Awaited o args :=
  ha.imp_right fun hm => (List.mem_cons.mp hm).resolve_left h.symm

theorem Awaited.setConfig {o o' : Options} {args rest : List String} {attached : Option String}
    (h : (do let (path, args) ← takeValue attached args; return (← o.setConfig path, args)) =
      Except.ok (ε := Stop) (o', rest)) (ha : Awaited o args) : Awaited o' rest := by
  obtain ⟨⟨path, args'⟩, hv, h⟩ := exists_of_bind_eq_ok h
  obtain ⟨o'', hs, h⟩ := exists_of_bind_eq_ok h
  cases h
  exact ha.imp (fun hd => (Options.dryRun_setConfig hs).trans hd) (takeValue_keeps hv)

theorem Awaited.readLetters {o o' : Options} {args rest : List String} {cs : List Char}
    (h : readLetters o args cs = .ok (o', rest)) (ha : Awaited o args) : Awaited o' rest := by
  fun_induction CommandLine.readLetters o args cs with
  | case1 =>
    cases h
    exact ha
  | case2 _ _ ih => exact ih h ha
  | case3 => exact ha.setConfig h
  | case4 | case5 | case6 => cases h

theorem Awaited.readLong {o o' : Options} {args rest : List String} {name : String}
    {value : Option String} (h : readLong o args name value = .ok (o', rest))
    (ha : Awaited o args) : Awaited o' rest := by
  unfold CommandLine.readLong at h
  split at h
  · exact ha.setConfig h
  · obtain ⟨o'', hs, h⟩ := exists_of_bind_eq_ok h
    cases h
    exact .inl (Options.dryRun_setDryRun hs)
  · cases h
    exact ha
  all_goals cases h

theorem Awaited.long {o o' : Options} {arg : String} {args rest : List String} {name : String}
    {value : Option String} (hf : form arg = .long name value)
    (h : CommandLine.readLong o args name value = .ok (o', rest)) (ha : Awaited o (arg :: args)) :
    Awaited o' rest := by
  by_cases hd : arg = "--dry-run"
  · subst hd
    cases form_dryRun.symm.trans hf
    obtain ⟨o'', hs, h⟩ := exists_of_bind_eq_ok h
    cases h
    exact .inl (Options.dryRun_setDryRun hs)
  · exact (ha.tail hd).readLong h

/-! ### Arguments of an action -/

theorem setOperand_dryRun (d d' : Draft) (verb : Verb) :
    d.setOperand verb "--dry-run" ≠ .ok d' := by
  have hn : verb.action? (some "--dry-run") none = none := by cases verb <;> rfl
  simp [Draft.setOperand, hn]

theorem not_mem_of_readOperands {verb : Verb} {args : List String} {d d' : Draft}
    (h : d.readOperands verb args = .ok d') : "--dry-run" ∉ args := by
  induction args generalizing d with
  | nil => exact List.not_mem_nil
  | cons arg args ih =>
    obtain ⟨d'', hs, h⟩ := exists_of_bind_eq_ok h
    rw [List.mem_cons, not_or]
    refine ⟨?_, ih h⟩
    rintro rfl
    exact setOperand_dryRun d d'' verb hs

/-- Behind the name of an action the option is refused, as a value too. -/
theorem not_mem_of_read {verb : Verb} (args : List String) :
    (∀ d d' : Draft, d.read verb args = .ok d' → "--dry-run" ∉ args) ∧
      ∀ d d' : Draft, Draft.read.takeNext d verb args = .ok d' → "--dry-run" ∉ args := by
  induction args with
  | nil => exact ⟨fun _ _ _ => List.not_mem_nil, fun _ _ _ => List.not_mem_nil⟩
  | cons arg args ih =>
    obtain ⟨ihr, iht⟩ := ih
    constructor
    · intro d d' h
      have hne : arg ≠ "--dry-run" := by
        rintro rfl
        cases h
      have hs (x : Except Stop Draft) (h : (x >>= fun d => d.read verb args) = .ok d') :
          "--dry-run" ∉ args := by
        obtain ⟨d'', -, h⟩ := exists_of_bind_eq_ok h
        exact ihr d'' d' h
      rw [List.mem_cons, not_or]
      refine ⟨hne.symm, ?_⟩
      unfold Draft.read at h
      split at h
      · exact not_mem_of_readOperands h
      · exact hs _ h
      · cases h
      · cases h
      · exact hs _ h
      · exact iht d d' h
      · split at h
        · exact hs _ h
        · exact iht d d' h
      · cases h
    · intro d d' h
      unfold Draft.read.takeNext at h
      split at h
      · next hv =>
        obtain ⟨d'', -, h⟩ := exists_of_bind_eq_ok h
        rw [List.mem_cons, not_or]
        exact ⟨(ne_of_isOperand hv).symm, ihr d'' d' h⟩
      · cases h

/-! ### Requests -/

theorem dryRun_of_read {o : Options} {args : List String} {r : Request}
    (h : read o args = .ok r) (ha : Awaited o args) : r.options.dryRun = true := by
  fun_induction read o args with
  | case1 | case2 | case3 | case5 | case7 | case8 => cases h
  | case4 o arg args name value hf o' rest hr ih => exact ih h (ha.long hf hr)
  | case6 o arg args letters hf o' rest hr ih =>
    have hne : arg ≠ "--dry-run" := by
      rintro rfl
      cases hf
    exact ih h ((ha.tail hne).readLetters hr)
  | case9 o arg args hf hh verb hv =>
    obtain ⟨action, hr, h⟩ := exists_of_bind_eq_ok h
    obtain ⟨d, hd, -⟩ := exists_of_bind_eq_ok hr
    cases h
    have hne : arg ≠ "--dry-run" := ne_of_isOperand (by rw [hf]; rfl)
    exact (ha.tail hne).resolve_right ((not_mem_of_read args).1 _ d hd)

/-- Arguments with the option that make a request make one for a dry run. -/
theorem dryRun_of_mem {args : List String} {lookup : String → Option String} {r : Request}
    (h : Request.ofArguments args lookup = .ok r) (hm : "--dry-run" ∈ args) :
    r.options.dryRun = true := by
  obtain ⟨r', hr, h⟩ := exists_of_bind_eq_ok h
  have hd := dryRun_of_read hr (.inr hm)
  split at h
  · obtain ⟨o, hs, h⟩ := exists_of_bind_eq_ok h
    cases h
    exact (Options.dryRun_setConfig hs).trans hd
  · cases h
    exact hd

end Rumble.CommandLine
