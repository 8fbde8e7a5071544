import Rumble.Command

namespace Rumble.CommandLine

inductive Action where
  | command (c : Command)
  /-- List the effects of the catalog. -/
  | effects
  deriving DecidableEq, Repr

structure Options where
  config : Option String := none
  dryRun : Bool := false
  verbosity : Nat := 0
  deriving DecidableEq, Repr

structure Request where
  options : Options
  action : Action
  deriving DecidableEq, Repr

inductive Stop where
  | usage
  | help
  | version
  deriving DecidableEq, Repr

inductive Verb where
  | on
  | off
  | amplitude
  | external
  | perform
  | caps
  | effects
  deriving DecidableEq, Repr

namespace Verb

def all : List Verb := [on, off, amplitude, external, perform, caps, effects]

def name : Verb → String
  | on => "on"
  | off => "off"
  | amplitude => "amplitude"
  | external => "external"
  | perform => "perform"
  | caps => "caps"
  | effects => "effects"

def ofName? (s : String) : Option Verb := all.find? (·.name = s)

end Verb

/-- A number with an optional sign, from zero up to below a limit. -/
def number? (limit : Nat) (s : String) : Option Nat :=
  let n? := match s.toList with
    | '-' :: c :: cs => (Text.digits? 10 (c :: cs)).filter (· = 0)
    | cs => Text.numeral? 10 cs
  n?.filter (· < limit)

def Verb.action? (operand : Option String) (strength : Option Strength) : Verb → Option Action
  | on => do return .command (.on (.ofNat (← number? UInt32.size (← operand))))
  | amplitude => do return .command (.setAmplitude (.ofNat (← number? UInt8.size (← operand))))
  | external => do
    match ← operand with
    | "true" => return .command (.setExternalControl true)
    | "false" => return .command (.setExternalControl false)
    | _ => none
  | perform => do
    return .command (.perform (← Effect.parse? (← operand)) (strength.getD .medium))
  | off => if operand.isNone then some (.command .off) else none
  | caps => if operand.isNone then some (.command .queryCapabilities) else none
  | effects => if operand.isNone then some .effects else none

inductive Form where
  /-- Two dashes: operands follow. -/
  | separator
  | long (name : String) (value : Option String)
  | short (letters : List Char)
  | operand

def form (arg : String) : Form :=
  match arg.toList with
  | ['-', '-'] => .separator
  | '-' :: '-' :: cs =>
    match cs.dropWhile (· ≠ '=') with
    | [] => .long (.ofList cs) none
    | _ :: value => .long (.ofList (cs.takeWhile (· ≠ '='))) (some (.ofList value))
  | '-' :: c :: cs => .short (c :: cs)
  | _ => .operand

def Form.isOperand : Form → Bool
  | operand => true
  | _ => false

/-- The value of an option: attached to it, or the next argument, which must not look like an
option. -/
def takeValue (attached : Option String) (args : List String) :
    Except Stop (String × List String) :=
  match attached, args with
  | some v, args => .ok (v, args)
  | none, v :: args => if (form v).isOperand then .ok (v, args) else .error .usage
  | none, [] => .error .usage

/-- A value attached to a letter may have an equals sign before it. -/
def attachedTo : List Char → Option String
  | [] => none
  | '=' :: cs => some (.ofList cs)
  | cs => some (.ofList cs)

def Options.setConfig (o : Options) (path : String) : Except Stop Options :=
  if o.config.isSome ∨ path = "" then .error .usage else .ok { o with config := some path }

def Options.setDryRun (o : Options) : Except Stop Options :=
  if o.dryRun then .error .usage else .ok { o with dryRun := true }

def readLetters (o : Options) (args : List String) :
    List Char → Except Stop (Options × List String)
  | [] => .ok (o, args)
  | 'v' :: cs => readLetters { o with verbosity := o.verbosity + 1 } args cs
  | 'c' :: cs => do
    let (path, args) ← takeValue (attachedTo cs) args
    return (← o.setConfig path, args)
  | 'h' :: _ => .error .help
  | 'V' :: _ => .error .version
  | _ => .error .usage

def readLong (o : Options) (args : List String) (name : String) (value : Option String) :
    Except Stop (Options × List String) :=
  match name, value with
  | "config", value => do
    let (path, args) ← takeValue value args
    return (← o.setConfig path, args)
  | "dry-run", none => do return (← o.setDryRun, args)
  | "verbose", none => .ok ({ o with verbosity := o.verbosity + 1 }, args)
  | "help", none => .error .help
  | "version", none => .error .version
  | _, _ => .error .usage

theorem takeValue_length {attached : Option String} {args rest : List String} {v : String}
    (h : takeValue attached args = .ok (v, rest)) : rest.length ≤ args.length := by
  unfold takeValue at h
  split at h
  · cases h
    exact Nat.le_refl _
  · split at h
    · cases h
      simp
    · cases h
  · cases h

theorem readLetters_length {o o' : Options} {args rest : List String} {cs : List Char}
    (h : readLetters o args cs = .ok (o', rest)) : rest.length ≤ args.length := by
  fun_induction readLetters o args cs with
  | case1 => cases h; exact Nat.le_refl _
  | case2 _ _ ih => exact ih h
  | case3 o cs =>
    cases hv : takeValue (attachedTo cs) args with
    | error => simp [hv, bind, Except.bind] at h
    | ok p =>
      obtain ⟨path, args'⟩ := p
      simp only [hv, bind, Except.bind] at h
      split at h
      · cases h
      · cases h
        exact takeValue_length hv
  | case4 => cases h
  | case5 => cases h
  | case6 => cases h

theorem readLong_length {o o' : Options} {args rest : List String} {name : String}
    {value : Option String} (h : readLong o args name value = .ok (o', rest)) :
    rest.length ≤ args.length := by
  unfold readLong at h
  split at h
  · cases hv : takeValue value args with
    | error => simp [hv, bind, Except.bind] at h
    | ok p =>
      obtain ⟨path, args'⟩ := p
      simp only [hv, bind, Except.bind] at h
      split at h
      · cases h
      · cases h
        exact takeValue_length hv
  · cases hd : o.setDryRun <;> simp [hd, bind, Except.bind, pure, Except.pure] at h
    simp [h.2]
  · cases h
    exact Nat.le_refl _
  all_goals cases h

structure Draft where
  operand : Option String := none
  strength : Option Strength := none

namespace Draft

def setOperand (d : Draft) (verb : Verb) (s : String) : Except Stop Draft :=
  if d.operand.isNone ∧ (verb.action? (some s) none).isSome then .ok { d with operand := some s }
  else .error .usage

def setStrength (d : Draft) (verb : Verb) (s : String) : Except Stop Draft :=
  match Strength.parse? s with
  | some t =>
    if verb = .perform ∧ d.strength.isNone then .ok { d with strength := some t }
    else .error .usage
  | none => .error .usage

def readOperands (d : Draft) (verb : Verb) (args : List String) : Except Stop Draft :=
  args.foldlM (fun d s => d.setOperand verb s) d

def read (d : Draft) (verb : Verb) : List String → Except Stop Draft
  | [] => .ok d
  | arg :: args =>
    match form arg with
    | .separator => d.readOperands verb args
    | .operand => do read (← d.setOperand verb arg) verb args
    | .long "help" none => .error .help
    | .short ('h' :: _) => .error .help
    | .long "strength" (some v) => do read (← d.setStrength verb v) verb args
    | .long "strength" none => takeNext args
    | .short ('s' :: cs) =>
      match attachedTo cs with
      | some v => do read (← d.setStrength verb v) verb args
      | none => takeNext args
    | _ => .error .usage
where
  takeNext : List String → Except Stop Draft
    | v :: args =>
      if (form v).isOperand then do read (← d.setStrength verb v) verb args else .error .usage
    | [] => .error .usage

end Draft

def readAction (verb : Verb) (args : List String) : Except Stop Action := do
  let d ← ({} : Draft).read verb args
  match verb.action? d.operand d.strength with
  | some action => return action
  | none => .error .usage

/-- Help may be asked for as an action too, for one other action at most. -/
def readHelp : List String → Stop
  | [] => .help
  | [name] => if name = "help" ∨ (Verb.ofName? name).isSome then .help else .usage
  | _ => .usage

def read (o : Options) : List String → Except Stop Request
  | [] => .error .usage
  | arg :: args =>
    match form arg with
    | .separator => .error .usage
    | .long name value =>
      match _h : readLong o args name value with
      | .error stop => .error stop
      | .ok (o, rest) => read o rest
    | .short letters =>
      match _h : readLetters o args letters with
      | .error stop => .error stop
      | .ok (o, rest) => read o rest
    | .operand =>
      if arg = "help" then .error (readHelp args)
      else
        match Verb.ofName? arg with
        | none => .error .usage
        | some verb => do return ⟨o, ← readAction verb args⟩
termination_by args => args.length
decreasing_by
  · exact Nat.lt_succ_of_le (readLong_length _h)
  · exact Nat.lt_succ_of_le (readLetters_length _h)

/-- The variable that names a configuration if no option does. -/
def configVariable : String := "VIBRATOR_CONFIG"

/-- Reads the arguments, with a fallback for the path of the configuration. -/
def Request.ofArguments (args : List String) (lookup : String → Option String) :
    Except Stop Request := do
  let r ← read {} args
  match r.options.config, lookup configVariable with
  | none, some path => return { r with options := ← r.options.setConfig path }
  | _, _ => return r

end Rumble.CommandLine
