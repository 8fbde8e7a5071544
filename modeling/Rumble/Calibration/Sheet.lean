import Rumble.Calibration.Basic
import Rumble.Fault
import Rumble.Text.Lines

namespace Rumble.Calibration

structure Sheet where
  assignments : List (String × String)
  deriving DecidableEq, Repr

inductive Error where
  | unreadable (fault : Fault)
  | missing
  | invalidToken
  /-- More than six levels count as seven. -/
  | wrongCount (n : Nat)
  | levelOutOfRange (v : UInt32)
  deriving DecidableEq, Repr

def Error.message : Error → String
  | unreadable fault => "calibration file unreadable (" ++ fault.text ++ ")"
  | missing => "key missing"
  | invalidToken => "invalid token"
  | wrongCount n => "expected " ++ toString VoltageTable.size ++ " levels, got " ++ toString n
  | levelOutOfRange v =>
    "level " ++ Text.showWord v ++ " outside 1..=" ++ Text.showWord VoltageTable.maximum

namespace Sheet

def f0Key : String := "f0_measured"
def redcKey : String := "redc_measured"
def qKey : String := "q_measured"
def qIndexKey : String := "q_index"
def levelsKey : String := "v_levels"

def isPadding (c : Char) : Bool := c = ' ' || c = '\t'

def assignment? (line : List Char) : Option (String × String) :=
  if line.head? = some '#' then none
  else
    match line.dropWhile (· ≠ ':') with
    | [] => none
    | _ :: value =>
      some (.ofList (Text.strip isPadding (line.takeWhile (· ≠ ':'))),
        .ofList (Text.strip isPadding value))

def parse (text : String) : Sheet := ⟨(Text.lines text.toList).filterMap assignment?⟩

def empty : Sheet := ⟨[]⟩

def load (content : Except Fault String) : Except Error Sheet :=
  match content with
  | .ok text => .ok (parse text)
  | .error fault => .error (.unreadable fault)

/-- Takes an unreadable file for an empty one. -/
def loadOrEmpty (content : Except Fault String) : Sheet :=
  match load content with
  | .ok sheet => sheet
  | .error _ => empty

def raw? (s : Sheet) (key : String) : Option String := s.assignments.reverse.lookup key

def isEmpty (s : Sheet) : Bool := s.assignments.isEmpty

/-- The number of a key; a value that is no number counts as missing. -/
def number? (s : Sheet) (key : String) : Option UInt32 :=
  (s.raw? key).bind fun raw => Text.readWordOrHex? raw.toList

/-- Reads levels after those already read. The first token that is wrong decides the error. -/
def readLevels (done : List UInt32) : List (List Char) → Except Error VoltageTable
  | [] =>
    match VoltageTable.ofList done with
    | .ok table => .ok table
    | .error n => .error (.wrongCount n)
  | w :: ws =>
    match Text.readWordOrHex? w with
    | none => .error .invalidToken
    | some v =>
      if v = 0 ∨ VoltageTable.maximum < v then .error (.levelOutOfRange v)
      else if done.length = VoltageTable.size then .error (.wrongCount (VoltageTable.size + 1))
      else readLevels (done ++ [v]) ws

/-- The voltage table, all of it or none. -/
def levels (s : Sheet) : Except Error VoltageTable :=
  match s.raw? levelsKey with
  | none => .error .missing
  | some raw => readLevels [] (Text.words raw.toList)

def levels? (s : Sheet) : Option VoltageTable := s.levels.toOption

def f0? (s : Sheet) : Option UInt32 := s.number? f0Key

def redc? (s : Sheet) : Option UInt32 := s.number? redcKey

def q (s : Sheet) : UInt32 :=
  match s.number? qKey with
  | some q => q
  | none => ((s.number? qIndexKey).bind qOfIndex?).getD qStandard

def values (s : Sheet) : Calibration := ⟨s.f0?, s.redc?, s.q, s.levels?⟩

/-! ### Log records -/

def numberRemarks (s : Sheet) (key : String) : List Log.Record :=
  match s.raw? key, s.number? key with
  | some raw, none => [⟨.warn, "calibration: invalid " ++ key ++ " value '" ++ raw ++ "'"⟩]
  | _, _ => []

def qRemarks (s : Sheet) : List Log.Record :=
  s.numberRemarks qKey ++
    if (s.number? qKey).isSome then []
    else s.numberRemarks qIndexKey ++
      match s.raw? qIndexKey, (s.number? qIndexKey).bind qOfIndex? with
      | some _, none => [⟨.warn, "calibration: q_index out of range, using default Q"⟩]
      | _, _ => []

def levelsRemarks (s : Sheet) : List Log.Record :=
  match s.levels with
  | .ok _ | .error .missing => []
  | .error e =>
    [⟨.warn, "calibration: invalid v_levels config (" ++ e.message ++ "), keeping defaults"⟩]

def remarks (s : Sheet) : Remarks :=
  ⟨s.numberRemarks f0Key, s.numberRemarks redcKey, s.qRemarks, s.levelsRemarks⟩

end Sheet

end Rumble.Calibration
